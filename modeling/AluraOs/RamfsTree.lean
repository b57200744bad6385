-- The tree of the ramfs as a map from paths to kinds of nodes: what `ramfs_create_path` adds to it, as
-- long as every directory has room.
import AluraOs.RamfsPaths

namespace alura_os.vfs

open alura_os.memory faults
open vfs_node_type ramfs_result_t

variable {fs fs' : fs_t} {root current parent : Nat} {q path : List (List Char)} {name : List Char}

/-! ## Paths to nodes -/

/-- The path leads to the node. -/
def At (fs : fs_t) (root : Nat) (q : List (List Char)) (a : Nat) : Prop := walk fs root q = (a, [])

theorem At.eq {a b : Nat} (h : At fs root q a) (h' : At fs root q b) : a = b :=
  congrArg Prod.fst (h.symm.trans h')

theorem at_nil {a : Nat} : At fs root [] a ↔ root = a := by
  simp [At, walk]

theorem at_walk (h : (walk fs root q).2 = []) : At fs root q (walk fs root q).1 :=
  Prod.ext rfl h

/-- A path with one more name leads to an entry of the node before. -/
theorem at_snoc {a : Nat} :
    At fs root (q ++ [name]) a ↔
      ∃ b e, At fs root q b ∧ (fs.inodes b).child name = some e ∧ e.node = a := by
  constructor
  · intro h
    by_cases hq : (walk fs root q).2 = []
    · have hb := at_walk hq
      unfold At at h
      rw [walk_append hb] at h
      cases he : (fs.inodes (walk fs root q).1).child name with
      | none => simp [walk_none he] at h
      | some e =>
        rw [walk_some he] at h
        exact ⟨_, e, hb, he, congrArg Prod.fst h⟩
    · unfold At at h
      rw [walk_stuck hq] at h
      exact absurd (congrArg Prod.snd h) (by simp)
  · rintro ⟨b, e, hb, he, rfl⟩
    unfold At
    rw [walk_append hb, walk_some he]
    rfl

/-- Where a walk ends, and what is missing from there. -/
theorem walk_split (fs : fs_t) (current : Nat) (path : List (List Char)) :
    ∃ q, path = q ++ (walk fs current path).2 ∧ At fs current q (walk fs current path).1 := by
  induction path generalizing current with
  | nil => exact ⟨[], rfl, rfl⟩
  | cons token path ih =>
    cases he : (fs.inodes current).child token with
    | none =>
      rw [walk_none he]
      exact ⟨[], rfl, rfl⟩
    | some e =>
      rw [walk_some he]
      obtain ⟨q, hq, hat⟩ := ih e.node
      refine ⟨token :: q, ?_, ?_⟩
      · rw [List.cons_append, ← hq]
      · unfold At
        rw [walk_some he]
        exact hat

/-- A tree: every node is on one path, and the names of a directory differ. -/
structure Rooted (fs : fs_t) (root : Nat) : Prop where
  linked : Linked fs
  heap : HeapServes fs
  live : root ∈ fs.inode_blocks
  names : ∀ a ∈ fs.inode_blocks, ((fs.inodes a).children.map ramfs_dirent_t.name).Nodup
  unique : ∀ q q' a, At fs root q a → At fs root q' a → q = q'

theorem At.live (hl : Linked fs) (hr : root ∈ fs.inode_blocks) {a : Nat} (h : At fs root q a) :
    a ∈ fs.inode_blocks := by
  have hlive := walk_live hl q hr
  rwa [h] at hlive

/-- The kind of the node that a path leads to. -/
def kind (fs : fs_t) (root : Nat) (q : List (List Char)) : Option vfs_node_type :=
  if (walk fs root q).2 = [] then some (fs.inodes (walk fs root q).1).type else none

theorem kind_some {type : vfs_node_type} :
    kind fs root q = some type ↔ ∃ a, At fs root q a ∧ (fs.inodes a).type = type := by
  unfold kind
  constructor
  · intro h
    split at h
    · rename_i hq
      exact ⟨_, at_walk hq, Option.some.inj h⟩
    · cases h
  · rintro ⟨a, ha, rfl⟩
    rw [ha]
    simp

theorem kind_none : kind fs root q = none ↔ ∀ a, ¬ At fs root q a := by
  unfold kind
  constructor
  · intro h a ha
    rw [ha] at h
    simp at h
  · intro h
    rw [if_neg]
    exact fun hq => h _ (at_walk hq)

/-! ## A new name -/

/-- A new name below the node of a path: one path more. -/
theorem Rooted.at_name (h : Rooted fs root) (hq : At fs root q parent)
    (hn : (fs.inodes parent).child name = none) (type : vfs_node_type) {p : List (List Char)}
    {a : Nat} :
    At (with_name fs parent name type) root p a ↔
      At fs root p a ∨ p = q ++ [name] ∧ a = fs.next_block := by
  have hp := hq.live h.linked h.live
  have hroot := h.linked.ne_next h.heap.next h.live
  induction p using List.reverseRecOn generalizing a with
  | nil =>
    rw [at_nil, at_nil]
    simp
  | append_singleton p n ih =>
    rw [at_snoc, at_snoc]
    constructor
    · rintro ⟨b, e, hb, he, rfl⟩
      rcases ih.mp hb with hold | ⟨-, rfl⟩
      · have hlive := hold.live h.linked h.live
        by_cases hbp : b = parent
        · subst hbp
          rw [with_name_parent h.linked h.heap hp] at he
          cases hfound : (fs.inodes b).child n with
          | some e' =>
            rw [child_append hfound] at he
            obtain rfl := Option.some.inj he
            exact Or.inl ⟨b, e', hold, hfound, rfl⟩
          | none =>
            have hpath := h.unique p q b hold hq
            obtain ⟨hmem, hname⟩ := child_mem he
            rcases List.mem_append.mp hmem with hmem | hmem
            · exact absurd hname (child_ne hfound hmem)
            · rw [List.mem_singleton.mp hmem] at hname ⊢
              exact Or.inr ⟨by rw [hpath]; simpa using hname.symm, rfl⟩
        · rw [with_name_other h.linked h.heap hlive hbp] at he
          exact Or.inl ⟨b, e, hold, he, rfl⟩
      · rw [with_name_next h.linked h.heap hp] at he
        simp [ramfs_node_t.child] at he
    · rintro (⟨b, e, hb, he, rfl⟩ | ⟨hpath, rfl⟩)
      · have hlive := hb.live h.linked h.live
        refine ⟨b, e, ih.mpr (Or.inl hb), ?_, rfl⟩
        by_cases hbp : b = parent
        · subst hbp
          rw [with_name_parent h.linked h.heap hp]
          exact child_append he
        · rw [with_name_other h.linked h.heap hlive hbp]
          exact he
      · obtain ⟨rfl, hnames⟩ := List.append_inj' hpath rfl
        obtain rfl : n = name := by simpa using hnames
        refine ⟨parent, ⟨n, fs.next_block⟩, ih.mpr (Or.inl hq), ?_, rfl⟩
        rw [with_name_parent h.linked h.heap hp]
        exact child_new hn _

theorem Rooted.with_name (h : Rooted fs root) (hq : At fs root q parent)
    (hn : (fs.inodes parent).child name = none) (type : vfs_node_type) :
    Rooted (vfs.with_name fs parent name type) root := by
  have hp := hq.live h.linked h.live
  constructor
  · exact h.linked.with_name hp h.heap.next name type
  · exact fun n => h.heap (n + 2)
  · exact Finset.mem_insert_of_mem h.live
  · intro a ha
    rw [with_name_blocks, Finset.mem_insert] at ha
    rcases ha with rfl | ha
    · rw [with_name_next h.linked h.heap hp]
      simp
    · by_cases hap : a = parent
      · subst hap
        rw [with_name_parent h.linked h.heap hp]
        simp only [List.map_append, List.map_cons, List.map_nil]
        refine List.nodup_append.mpr ⟨h.names a ha, by simp, ?_⟩
        intro x hx y hy
        rw [List.mem_singleton.mp hy]
        obtain ⟨e, he, rfl⟩ := List.mem_map.mp hx
        exact child_ne hn he
      · rw [with_name_other h.linked h.heap ha hap]
        exact h.names a ha
  · intro p p' a hpa hpa'
    have hfresh : ∀ r, ¬ At fs root r fs.next_block := fun r hr =>
      h.linked.ne_next h.heap.next (hr.live h.linked h.live) rfl
    rcases (h.at_name hq hn type).mp hpa with hpa | ⟨rfl, rfl⟩
    · rcases (h.at_name hq hn type).mp hpa' with hpa' | ⟨-, rfl⟩
      · exact h.unique p p' a hpa hpa'
      · exact absurd hpa (hfresh p)
    · rcases (h.at_name hq hn type).mp hpa' with hpa' | ⟨rfl, -⟩
      · exact absurd hpa' (hfresh p')
      · rfl

/-- The map from paths to kinds has one path more. -/
theorem Rooted.kind_name (h : Rooted fs root) (hq : At fs root q parent)
    (hn : (fs.inodes parent).child name = none) (type : vfs_node_type) (p : List (List Char)) :
    kind (vfs.with_name fs parent name type) root p =
      if p = q ++ [name] then some type else kind fs root p := by
  have hp := hq.live h.linked h.live
  by_cases hpath : p = q ++ [name]
  · rw [if_pos hpath, kind_some]
    refine ⟨fs.next_block, (h.at_name hq hn type).mpr (Or.inr ⟨hpath, rfl⟩), ?_⟩
    rw [with_name_next h.linked h.heap hp]
  · rw [if_neg hpath]
    cases hk : kind fs root p with
    | none =>
      rw [kind_none] at hk ⊢
      intro a ha
      rcases (h.at_name hq hn type).mp ha with ha | ⟨he, -⟩
      · exact hk a ha
      · exact hpath he
    | some t =>
      obtain ⟨a, ha, rfl⟩ := kind_some.mp hk
      refine kind_some.mpr ⟨a, (h.at_name hq hn type).mpr (Or.inl ha), ?_⟩
      by_cases hap : a = parent
      · subst hap
        rw [with_name_parent h.linked h.heap hp]
      · rw [with_name_other h.linked h.heap (ha.live h.linked h.live) hap]

/-! ## New paths -/

/-- The directories of a path: the paths before it are in the map. -/
theorem Rooted.get_or_create (h : Rooted fs root) (hq : At fs root q current)
    (hroom : HasRoom fs current path) :
    ∃ fs' d, get_or_create_directory fs current path = .ok (fs', some d) ∧ Gains fs fs' ∧
      Rooted fs' root ∧ At fs' root (q ++ path) d ∧
      ∀ p, kind fs' root p =
        (kind fs root p).or (if p <+: q ++ path then some VFS_NODE_TYPE_DIRECTORY else none) := by
  induction path generalizing fs current q with
  | nil =>
    refine ⟨fs, current, rfl, .refl, h, by simpa using hq, ?_⟩
    intro p
    cases hk : kind fs root p with
    | some t => rfl
    | none =>
      rw [if_neg]
      · rfl
      · rintro ⟨rest, hrest⟩
        -- The paths before one that leads somewhere lead somewhere.
        by_cases hp : (walk fs root p).2 = []
        · exact kind_none.mp hk _ (at_walk hp)
        · have hstuck := walk_stuck hp rest
          rw [hrest, List.append_nil, hq] at hstuck
          exact hp (List.append_eq_nil_iff.mp (congrArg Prod.snd hstuck).symm).1
  | cons token path ih =>
    have hc := hq.live h.linked h.live
    have hsnoc : q ++ token :: path = q ++ [token] ++ path := by simp
    cases he : (fs.inodes current).child token with
    | some e =>
      have hat : At fs root (q ++ [token]) e.node := at_snoc.mpr ⟨current, e, hq, he, rfl⟩
      unfold HasRoom at hroom
      rw [walk_some he] at hroom
      rw [hsnoc, get_or_create_directory_found hc he]
      exact ih h hat hroom
    | none =>
      have hlen : (fs.inodes current).children.length < RAMFS_NODE_MAX_CHILDREN := by
        unfold HasRoom at hroom
        rw [walk_none he] at hroom
        simpa using hroom
      have hg : Gains fs (vfs.with_name fs current token VFS_NODE_TYPE_DIRECTORY) :=
        .name _ .refl hc he hlen
      have h1 := h.with_name hq he VFS_NODE_TYPE_DIRECTORY
      have hat : At (vfs.with_name fs current token VFS_NODE_TYPE_DIRECTORY) root (q ++ [token])
          fs.next_block := (h.at_name hq he _).mpr (Or.inr ⟨rfl, rfl⟩)
      have hempty : ((vfs.with_name fs current token VFS_NODE_TYPE_DIRECTORY).inodes
          fs.next_block).children = [] := by rw [with_name_next h.linked h.heap hc]
      obtain ⟨fs', d, heq, hg', h', hd, hkind⟩ := ih h1 hat (hasRoom_empty hempty path).1
      refine ⟨fs', d, ?_, hg.trans hg', h', by rwa [hsnoc], ?_⟩
      · rw [get_or_create_directory_cons h.linked hc he h.heap.next,
          with_directory_name h.heap hlen, heq]
      · intro p
        rw [hkind p, h.kind_name hq he, hsnoc]
        by_cases hp : p = q ++ [token]
        · have hnone : kind fs root (q ++ [token]) = none := by
            rw [kind_none]
            intro a ha
            obtain ⟨b, e, hb, hbe, -⟩ := at_snoc.mp ha
            rw [hb.eq hq, he] at hbe
            cases hbe
          rw [if_pos hp, hp, hnone, if_pos (List.prefix_append _ _)]
          rfl
        · rw [if_neg hp]

theorem HasRoom.directories {path : List (List Char)} {name : List Char}
    (h : HasRoom fs current (path ++ [name])) : HasRoom fs current path := by
  unfold HasRoom at h ⊢
  by_cases hp : (walk fs current path).2 = []
  · exact Or.inl hp
  · rw [walk_stuck hp] at h
    exact h.imp_left fun hnil => (List.append_eq_nil_iff.mp hnil).1

/-- `ramfs_create_path` puts its path into the map, with the paths before it. -/
theorem Rooted.create_path (h : Rooted fs root) {path : List Char}
    (hroom : HasRoom fs root (directories path ++ [last_name path])) (type : vfs_node_type) :
    ∃ fs' a, ramfs_create_path fs root path type = .ok (fs', some a) ∧ Gains fs fs' ∧
      Rooted fs' root ∧ At fs' root (directories path ++ [last_name path]) a ∧
      ∀ p, kind fs' root p = (kind fs root p).or
        (if p = directories path ++ [last_name path] then some type
        else if p <+: directories path then some VFS_NODE_TYPE_DIRECTORY else none) := by
  obtain ⟨fs1, d, heq, hg, h1, hd, hkind⟩ := h.get_or_create (at_nil.mpr rfl) hroom.directories
  rw [List.nil_append] at hd hkind
  have hdin := hd.live h1.linked h1.live
  rw [ramfs_create_path_eq, heq, ok_bind]
  dsimp only
  cases he : (fs1.inodes d).child (last_name path) with
  | some e =>
    have hat : At fs1 root (directories path ++ [last_name path]) e.node :=
      at_snoc.mpr ⟨d, e, hd, he, rfl⟩
    refine ⟨fs1, e.node, create_last_found hdin he type, hg, h1, hat, ?_⟩
    intro p
    rw [hkind p]
    by_cases hp : p = directories path ++ [last_name path]
    · have hsome := kind_some.mpr ⟨e.node, hat, rfl⟩
      have hnot : ¬ directories path ++ [last_name path] <+: directories path := fun hc => by
        have := hc.length_le
        simp at this
      rw [hkind, if_neg hnot, Option.or_none] at hsome
      rw [hp, hsome]
      rfl
    · rw [if_neg hp]
  | none =>
    have hlen : (fs1.inodes d).children.length < RAMFS_NODE_MAX_CHILDREN := by
      obtain ⟨fs2, d2, heq2, -, -, -, hold, -⟩ :=
        get_or_create_directory_made h.linked h.heap h.live hroom.directories
      rw [heq] at heq2
      simp only [Except.ok.injEq, Prod.mk.injEq, Option.some.injEq] at heq2
      obtain ⟨rfl, rfl⟩ := heq2
      rcases hold with ⟨rfl, -⟩ | ⟨-, hempty⟩
      · unfold HasRoom at hroom
        rw [walk_append hd, walk_none he] at hroom
        simpa using hroom
      · simp [hempty, RAMFS_NODE_MAX_CHILDREN]
    have hentry : ¬ NoEntry fs1 d := by
      rintro (h0 | hlong | h0)
      · exact h1.heap 0 h0
      · omega
      · exact h1.heap 1 h0
    refine ⟨_, fs1.next_block, (create_last_missing h1.linked hdin he type).2 hentry,
      hg.trans (.name type .refl hdin he hlen), h1.with_name hd he type,
      (h1.at_name hd he type).mpr (Or.inr ⟨rfl, rfl⟩), ?_⟩
    intro p
    rw [h1.kind_name hd he, hkind p]
    by_cases hp : p = directories path ++ [last_name path]
    · have hnone : kind fs root (directories path ++ [last_name path]) = none := by
        rw [kind_none]
        intro a ha
        have hat : At fs1 root (directories path ++ [last_name path]) a :=
          hg.walk h.linked h.heap h.live ha
        obtain ⟨b, e, hb, hbe, -⟩ := at_snoc.mp hat
        rw [hb.eq hd, he] at hbe
        cases hbe
      rw [if_pos hp, if_pos hp, hp, hnone]
      rfl
    · rw [if_neg hp, if_neg hp]

/-! ## Room -/

/-- A directory in which at most 64 names are found has room for a name that is not. -/
theorem Rooted.hasRoom (h : Rooted fs root) {P : List (List Char) → Prop}
    (hP : ∀ p, kind fs root p ≠ none → P p)
    (hcount : ∀ q (names : List (List Char)), names.Nodup → (∀ n ∈ names, P (q ++ [n])) →
      names.length ≤ RAMFS_NODE_MAX_CHILDREN)
    {path : List (List Char)} (hpath : ∀ p, p <+: path → P p) : HasRoom fs root path := by
  by_cases hmissing : (walk fs root path).2 = []
  · exact Or.inl hmissing
  · right
    obtain ⟨token, rest, hrest⟩ := List.exists_cons_of_ne_nil hmissing
    obtain ⟨q, hq, hat⟩ := walk_split fs root path
    have hnone := walk_missing hrest
    generalize (walk fs root path).1 = d at hat hnone ⊢
    rw [hrest] at hq
    have hd := hat.live h.linked h.live
    have hnodup : (token :: (fs.inodes d).children.map ramfs_dirent_t.name).Nodup := by
      refine List.nodup_cons.mpr ⟨?_, h.names d hd⟩
      intro hm
      obtain ⟨e, he, hname⟩ := List.mem_map.mp hm
      exact child_ne hnone he hname
    have hlen := hcount q _ hnodup (by
      intro n hn
      rcases List.mem_cons.mp hn with rfl | hn
      · exact hpath _ ⟨rest, by rw [hq]; simp⟩
      · obtain ⟨e, he, rfl⟩ := List.mem_map.mp hn
        apply hP
        rw [Ne, kind_none]
        intro hno
        cases hfound : (fs.inodes d).child e.name with
        | none => exact child_ne hfound he rfl
        | some e' => exact hno e'.node (at_snoc.mpr ⟨d, e', hat, hfound, rfl⟩))
    rw [List.length_cons, List.length_map] at hlen
    omega

/-! ## Files -/

/-- New nodes and entries leave the files as they are. -/
theorem Gains.files (hl : Linked fs) (hs : HeapServes fs) (hg : Gains fs fs') :
    fs'.memory = fs.memory ∧ fs'.data_blocks = fs.data_blocks ∧
      ∀ a ∈ fs.inode_blocks, (fs'.inodes a).data = (fs.inodes a).data ∧
        (fs'.inodes a).data_size = (fs.inodes a).data_size := by
  induction hg with
  | refl => exact ⟨rfl, rfl, fun _ _ => ⟨rfl, rfl⟩⟩
  | node type hg ih =>
    refine ⟨ih.1, ih.2.1, ?_⟩
    intro a ha
    rw [with_node_ne ((hl.grown hs hg).ne_next (hs.grown hg).next (hg.live ha))]
    exact ih.2.2 a ha
  | @name fs' parent name type hg hp _ _ ih =>
    refine ⟨ih.1, ih.2.1, ?_⟩
    intro a ha
    by_cases hap : a = parent
    · subst hap
      rw [with_name_parent (hl.grown hs hg) (hs.grown hg) hp]
      exact ih.2.2 a ha
    · rw [with_name_other (hl.grown hs hg) (hs.grown hg) (hg.live ha) hap]
      exact ih.2.2 a ha

/-- The same entries lead to the same nodes. -/
theorem walk_entries (h : ∀ a, (fs'.inodes a).children = (fs.inodes a).children)
    (path : List (List Char)) : walk fs' current path = walk fs current path := by
  induction path generalizing current with
  | nil => rfl
  | cons token path ih =>
    unfold walk ramfs_node_t.child
    rw [h]
    split
    · rw [ih]
    · rfl

end alura_os.vfs
