-- Edits of the directories of the ramfs: a node more, a name more, a name less.
-- Each keeps the file systems in order.
import AluraOs.FsResolve

namespace alura_os.vfs

open alura_os.memory alura_os.resource faults
open resource_result_t resource_type_t vfs_node_type ramfs_result_t

variable {fs fs' : fs_t} {d c : Nat} {name : List Char}

/-! ## A name more -/

/-- Entries and counts of links may differ. -/
structure SameNodes (fs fs' : fs_t) : Prop where
  inodes : ∀ a, ∃ l k, fs'.inodes a = { fs.inodes a with children := l, link_count := k }
  inode_blocks : fs'.inode_blocks = fs.inode_blocks
  root_node : fs'.root_node = fs.root_node
  last_index : fs'.last_index = fs.last_index
  freed : fs'.freed = fs.freed

theorem SameNodes.id (h : SameNodes fs fs') (a : Nat) : (fs'.inodes a).id = (fs.inodes a).id := by
  obtain ⟨l, k, he⟩ := h.inodes a
  rw [he]

theorem SameNodes.type (h : SameNodes fs fs') (a : Nat) :
    (fs'.inodes a).type = (fs.inodes a).type := by
  obtain ⟨l, k, he⟩ := h.inodes a
  rw [he]

/-- The directory `d` got the entry `name` for the node `c`. -/
structure Entered (fs fs' : fs_t) (d : Nat) (name : List Char) (c : Nat) : Prop where
  same : SameNodes fs fs'
  self : (fs'.inodes d).children = (fs.inodes d).children ++ [⟨name, c⟩]
  others : ∀ a, a ≠ d → (fs'.inodes a).children = (fs.inodes a).children
  count : (fs'.inodes c).link_count = links fs c + 1
  counts : ∀ a, a ≠ c → (fs'.inodes a).link_count = (fs.inodes a).link_count

/-- The node `c`, which has no entries, can get the entry `name` in the directory `d`. -/
structure Enterable (fs : fs_t) (d : Nat) (name : List Char) (c : Nat) : Prop where
  directory : d ∈ fs.inode_blocks
  node : c ∈ fs.inode_blocks
  below : c ≠ fs.root_node
  empty : (fs.inodes c).children = []
  linked : links fs c = 0 ∨ (Reachable fs c ∧ Reachable fs d)
  single : (fs.inodes c).type = VFS_NODE_TYPE_DIRECTORY → links fs c = 0
  fresh : (fs.inodes d).child name = none
  room : (fs.inodes d).children.length < RAMFS_NODE_MAX_CHILDREN

theorem Entered.mem_iff (h : Entered fs fs' d name c) {a : Nat} {e : ramfs_dirent_t} :
    e ∈ (fs'.inodes a).children ↔
      e ∈ (fs.inodes a).children ∨ (a = d ∧ e = ⟨name, c⟩) := by
  by_cases ha : a = d
  · subst ha
    simp [h.self]
  · simp [h.others a ha, ha]

theorem Entered.links (h : Entered fs fs' d name c) (hd : d ∈ fs.inode_blocks) (x : Nat) :
    vfs.links fs' x = vfs.links fs x + if c = x then 1 else 0 := by
  have hset := links_set (x := x) hd h.same.inode_blocks h.others
  rw [h.self, entries_append, entries_single] at hset
  dsimp only at hset
  omega

theorem Entered.reachable (h : Entered fs fs' d name c) (he : Enterable fs d name c) {a : Nat} :
    Reachable fs' a ↔ Reachable fs a ∨ (a = c ∧ Reachable fs d) := by
  have hold : ∀ {x}, Reachable fs x → Reachable fs' x := by
    intro x hx
    induction hx with
    | root =>
      rw [← h.same.root_node]
      exact .root
    | child _ hm ih => exact .child ih (h.mem_iff.mpr (Or.inl hm))
  constructor
  · intro ha
    induction ha with
    | root =>
      rw [h.same.root_node]
      exact Or.inl .root
    | child _ hm ih =>
      rcases h.mem_iff.mp hm with hm | ⟨rfl, rfl⟩
      · rcases ih with hr | ⟨rfl, -⟩
        · exact Or.inl (.child hr hm)
        · rw [he.empty] at hm
          exact absurd hm List.not_mem_nil
      · exact Or.inr ⟨rfl, ih.elim id And.right⟩
  · rintro (ha | ⟨rfl, hd⟩)
    · exact hold ha
    · exact .child (hold hd) (h.mem_iff.mpr (Or.inr ⟨rfl, rfl⟩))

theorem Tree.entered (ht : Tree fs) (h : Entered fs fs' d name c) (he : Enterable fs d name c) :
    Tree fs' := by
  have hd := he.directory
  have hlinks := h.links hd
  constructor
  · rw [h.same.root_node, h.same.inode_blocks]
    exact ht.root
  · rw [h.same.root_node, h.same.type]
    exact ht.directory
  · rw [h.same.root_node, hlinks, ht.root_links, if_neg he.below]
  · rw [h.same.root_node, h.counts _ he.below.symm]
    exact ht.root_count
  · rw [h.same.inode_blocks]
    intro a ha
    by_cases had : a = d
    · rw [had, h.self, List.map_append, List.nodup_append]
      refine ⟨ht.names d hd, List.nodup_singleton _, ?_⟩
      intro x hx y hy hxy
      obtain ⟨e, hm, rfl⟩ := List.mem_map.mp hx
      rw [List.map_singleton, List.mem_singleton] at hy
      exact child_ne he.fresh hm (hxy.trans hy)
    · rw [h.others a had]
      exact ht.names a ha
  · rw [h.same.inode_blocks]
    intro a ha
    by_cases had : a = d
    · rw [had, h.self, List.length_append]
      exact he.room
    · rw [h.others a had]
      exact ht.room a ha
  · rw [h.same.inode_blocks]
    intro a ha e hm
    rcases h.mem_iff.mp hm with hm | ⟨-, rfl⟩
    · exact ht.targets a ha e hm
    · exact he.node
  · rw [h.same.inode_blocks]
    intro a ha b hb hab
    rw [h.same.id, h.same.id] at hab
    exact ht.ids a ha b hb hab
  · rw [h.same.inode_blocks, h.same.last_index]
    intro a ha
    rw [h.same.id]
    exact ht.last a ha
  · rw [h.same.inode_blocks]
    intro x hx
    rw [hlinks]
    by_cases hxc : c = x
    · rw [if_pos hxc, ← hxc]
      exact Or.inr h.count
    · rw [if_neg hxc, h.counts x (Ne.symm hxc)]
      exact ht.counts x hx
  · rw [h.same.inode_blocks]
    intro x hx
    rw [h.same.type, hlinks]
    intro hdir
    by_cases hxc : c = x
    · rw [if_pos hxc, ← hxc, he.single (hxc ▸ hdir)]
    · rw [if_neg hxc]
      exact ht.single x hx hdir
  · rw [h.same.inode_blocks]
    intro a ha e hm
    rw [h.reachable he, h.reachable he]
    intro hr
    rcases h.mem_iff.mp hm with hm | ⟨rfl, rfl⟩
    · rcases hr with hr | ⟨hec, -⟩
      · exact Or.inl (ht.closed a ha e hm hr)
      · have hpos : 0 < vfs.links fs c := links_pos.mpr ⟨a, ha, e, hm, hec⟩
        exact Or.inl (ht.closed a ha e hm (hec ▸ (he.linked.resolve_left hpos.ne').1))
    · rcases hr with hr | ⟨-, hr⟩
      · -- A node that can be reached has an entry already, so its directory can be reached too.
        have hpos := (hr.cases_root ht).resolve_left he.below
        exact Or.inl (he.linked.resolve_left hpos.ne').2
      · exact Or.inl hr
  · rw [h.same.inode_blocks]
    exact ht.null
  · rw [h.same.inode_blocks, h.same.freed, h.same.last_index]
    intro i hi
    refine ⟨(ht.freed i hi).1, fun a ha => ?_⟩
    rw [h.same.id]
    exact (ht.freed i hi).2 a ha
  · rw [h.same.freed]
    exact ht.once

theorem Shown.entered {n : vfs_node_t} (hs : Shown fs n)
    (h : Entered fs fs' d name c) (he : Enterable fs d name c) (hd : Reachable fs d) :
    Shown fs' n := by
  have hlinks := h.links he.directory
  constructor
  · rw [h.same.inode_blocks]
    exact hs.there
  · rw [h.same.id]
    exact hs.id
  · rw [h.same.type]
    exact hs.type
  · exact hs.index
  · exact hs.plain
  · rw [h.reachable he, hlinks, h.same.root_node]
    rcases hs.reached with hr | ⟨hl, hf, hr⟩
    · exact Or.inl (Or.inl hr)
    · by_cases hnc : n.fs_data = c
      · exact Or.inl (Or.inr ⟨hnc, hd⟩)
      · rw [if_neg (Ne.symm hnc)]
        exact Or.inr ⟨hl, hf, hr⟩
  · rw [hlinks, h.same.root_node]
    rcases hs.counted with hr | hcount
    · exact Or.inl hr
    · right
      by_cases hnc : n.fs_data = c
      · rw [hnc, if_pos rfl]
        exact h.count
      · rw [if_neg (Ne.symm hnc), h.counts _ hnc]
        exact hcount

theorem OnlyDirectories.entered (ho : OnlyDirectories fs) (h : Entered fs fs' d name c)
    (hd : (fs.inodes d).type = VFS_NODE_TYPE_DIRECTORY) : OnlyDirectories fs' := by
  unfold OnlyDirectories
  rw [h.same.inode_blocks]
  intro a ha hf
  rw [h.same.type] at hf
  have hne : a ≠ d := by
    rintro rfl
    rw [hd] at hf
    cases hf
  rw [h.others a hne]
  exact ho a ha hf

/-- A step of the ramfs that keeps what the nodes of the VFS are, and the cache. -/
structure SameVfs (fs fs' : fs_t) : Prop where
  nodes : fs'.nodes = fs.nodes
  node_blocks : fs'.node_blocks = fs.node_blocks
  cache : fs'.cache = fs.cache
  last_cache_index : fs'.last_cache_index = fs.last_cache_index

theorem Cached.same_vfs (h : Cached fs) (hs : SameVfs fs fs') : Cached fs' :=
  h.same_keys hs.node_blocks (fun a => by rw [hs.nodes]; exact ⟨rfl, rfl⟩) hs.cache
    hs.last_cache_index

theorem Views.same_vfs (hv : Views fs) (hs : SameVfs fs fs')
    (hshown : ∀ n, n ∈ fs.node_blocks → Shown fs (fs.nodes n) → Shown fs' (fs.nodes n)) :
    Views fs' := by
  intro a ha
  rw [hs.node_blocks] at ha
  rw [hs.nodes]
  have := hv a ha
  unfold Viewed at this ⊢
  by_cases hop : (fs.nodes a).operations = .ramfs
  · rw [if_pos hop] at this ⊢
    exact hshown a ha this
  · rw [if_neg hop] at this ⊢
    exact this

theorem Ordered.name_more (h : Ordered fs) (hs : SameVfs fs fs') (hh : HeapServes fs')
    (hent : Entered fs fs' d name c) (he : Enterable fs d name c) (hr : Reachable fs d)
    (hd : (fs.inodes d).type = VFS_NODE_TYPE_DIRECTORY) : Ordered fs' :=
  ⟨h.cached.same_vfs hs, h.tree.entered hent he, h.only.entered hent hd,
    h.views.same_vfs hs fun _ _ hn => hn.entered hent he hr, hh⟩

/-! ## A name less -/

/-- The directory `d` lost the entry `e`. -/
structure Removed (fs fs' : fs_t) (d : Nat) (e : ramfs_dirent_t) : Prop where
  same : SameNodes fs fs'
  self : (fs.inodes d).children.Perm (e :: (fs'.inodes d).children)
  others : ∀ a, a ≠ d → (fs'.inodes a).children = (fs.inodes a).children
  count : (fs'.inodes e.node).link_count = (fs.inodes e.node).link_count - 1
  counts : ∀ a, a ≠ e.node → (fs'.inodes a).link_count = (fs.inodes a).link_count

/-- The entry can go: it is that of a file in a directory that can be reached. -/
structure Removable (fs : fs_t) (d : Nat) (e : ramfs_dirent_t) : Prop where
  directory : Reachable fs d
  entry : e ∈ (fs.inodes d).children
  file : (fs.inodes e.node).type = VFS_NODE_TYPE_FILE
  empty : (fs.inodes e.node).children = []

variable {e : ramfs_dirent_t}

theorem Removed.sub (h : Removed fs fs' d e) {a : Nat} {x : ramfs_dirent_t}
    (hx : x ∈ (fs'.inodes a).children) : x ∈ (fs.inodes a).children := by
  by_cases ha : a = d
  · subst ha
    exact h.self.mem_iff.mpr (List.mem_cons_of_mem _ hx)
  · rwa [h.others a ha] at hx

/-- An entry for another node stays. -/
theorem Removed.kept (h : Removed fs fs' d e) {a : Nat} {x : ramfs_dirent_t}
    (hx : x ∈ (fs.inodes a).children) (hne : x.node ≠ e.node) : x ∈ (fs'.inodes a).children := by
  by_cases ha : a = d
  · subst ha
    rcases List.mem_cons.mp (h.self.mem_iff.mp hx) with rfl | hx
    · exact absurd rfl hne
    · exact hx
  · rwa [h.others a ha]

theorem Removed.links (h : Removed fs fs' d e) (hd : d ∈ fs.inode_blocks) (x : Nat) :
    vfs.links fs' x + (if e.node = x then 1 else 0) = vfs.links fs x := by
  have hset := links_set (x := x) hd h.same.inode_blocks h.others
  have hcount : entries (fs.inodes d).children x =
      (if e.node = x then 1 else 0) + entries (fs'.inodes d).children x := by
    rw [← entries_single, ← entries_append]
    exact h.self.countP_eq _
  omega

/-- Whatever could be reached can still be, but for a file that lost its last name. -/
theorem Removed.reachable (ht : Tree fs) (h : Removed fs fs' d e) (he : Removable fs d e) {a : Nat} :
    Reachable fs' a ↔ Reachable fs a ∧ (a = e.node → 0 < vfs.links fs' a) := by
  have hlinks := h.links (he.directory.mem ht)
  have hsub : ∀ {x}, Reachable fs' x → Reachable fs x := by
    intro x hx
    induction hx with
    | root =>
      rw [h.same.root_node]
      exact .root
    | child _ hm ih => exact .child ih (h.sub hm)
  have hother : ∀ {x}, Reachable fs x → x ≠ e.node → Reachable fs' x := by
    intro x hx
    induction hx with
    | root =>
      intro _
      rw [← h.same.root_node]
      exact .root
    | @child b f _ hm ih =>
      intro hne
      have hb : b ≠ e.node := by
        rintro rfl
        rw [he.empty] at hm
        exact List.not_mem_nil hm
      exact .child (ih hb) (h.kept hm hne)
  constructor
  · intro ha
    refine ⟨hsub ha, ?_⟩
    rintro rfl
    -- The last step to the file is an entry that is still there.
    generalize hx : e.node = x at ha ⊢
    cases ha with
    | root =>
      rw [h.same.root_node] at hx
      exact absurd hx (ht.ne_root (he.directory.mem ht) he.entry)
    | child hb hm =>
      refine links_pos.mpr ⟨_, ?_, _, hm, rfl⟩
      rw [h.same.inode_blocks]
      exact (hsub hb).mem ht
  · rintro ⟨ha, hpos⟩
    by_cases hae : a = e.node
    · obtain ⟨b, hb, f, hm, hf⟩ := links_pos.mp (hpos hae)
      rw [h.same.inode_blocks] at hb
      have hm' := h.sub hm
      have hbr := ht.closed b hb f hm' (hf ▸ ha)
      have hbe : b ≠ e.node := by
        rintro rfl
        rw [he.empty] at hm'
        exact List.not_mem_nil hm'
      rw [← hf]
      exact .child (hother hbr hbe) hm
    · exact hother ha hae

theorem Tree.removed (ht : Tree fs) (h : Removed fs fs' d e) (he : Removable fs d e) : Tree fs' := by
  have hd := he.directory.mem ht
  have hlinks := h.links hd
  have hroot := ht.ne_root hd he.entry
  have hcounted := ht.counted hd he.entry
  constructor
  · rw [h.same.root_node, h.same.inode_blocks]
    exact ht.root
  · rw [h.same.root_node, h.same.type]
    exact ht.directory
  · have := hlinks fs.root_node
    rw [ht.root_links] at this
    rw [h.same.root_node]
    omega
  · rw [h.same.root_node, h.counts _ hroot.symm]
    exact ht.root_count
  · rw [h.same.inode_blocks]
    intro a ha
    by_cases had : a = d
    · subst had
      exact (List.nodup_cons.mp ((h.self.map _).nodup_iff.mp (ht.names a ha))).2
    · rw [h.others a had]
      exact ht.names a ha
  · rw [h.same.inode_blocks]
    intro a ha
    by_cases had : a = d
    · subst had
      have hlen := h.self.length_eq
      rw [List.length_cons] at hlen
      have := ht.room a ha
      omega
    · rw [h.others a had]
      exact ht.room a ha
  · rw [h.same.inode_blocks]
    exact fun a ha x hx => ht.targets a ha x (h.sub hx)
  · rw [h.same.inode_blocks]
    intro a ha b hb hab
    rw [h.same.id, h.same.id] at hab
    exact ht.ids a ha b hb hab
  · rw [h.same.inode_blocks, h.same.last_index]
    intro a ha
    rw [h.same.id]
    exact ht.last a ha
  · rw [h.same.inode_blocks]
    intro x hx
    have hl := hlinks x
    by_cases hxe : e.node = x
    · subst hxe
      rw [if_pos rfl] at hl
      rw [h.count, hcounted]
      right
      omega
    · rw [if_neg hxe, Nat.add_zero] at hl
      rw [hl, h.counts x (Ne.symm hxe)]
      exact ht.counts x hx
  · rw [h.same.inode_blocks]
    intro x hx hdir
    rw [h.same.type] at hdir
    have := ht.single x hx hdir
    have := hlinks x
    omega
  · rw [h.same.inode_blocks]
    intro a ha x hx hr
    rw [h.reachable ht he] at hr ⊢
    refine ⟨ht.closed a ha x (h.sub hx) hr.1, ?_⟩
    rintro rfl
    have hmem := h.sub hx
    rw [he.empty] at hmem
    exact absurd hmem List.not_mem_nil
  · rw [h.same.inode_blocks]
    exact ht.null
  · rw [h.same.inode_blocks, h.same.freed, h.same.last_index]
    intro i hi
    refine ⟨(ht.freed i hi).1, fun a ha => ?_⟩
    rw [h.same.id]
    exact (ht.freed i hi).2 a ha
  · rw [h.same.freed]
    exact ht.once

theorem Shown.removed {n : vfs_node_t} (hs : Shown fs n) (ht : Tree fs)
    (h : Removed fs fs' d e) (he : Removable fs d e) : Shown fs' n := by
  have hd := he.directory.mem ht
  have hlinks := h.links hd n.fs_data
  have hcounted := ht.counted hd he.entry
  constructor
  · rw [h.same.inode_blocks]
    exact hs.there
  · rw [h.same.id]
    exact hs.id
  · rw [h.same.type]
    exact hs.type
  · exact hs.index
  · exact hs.plain
  · rw [h.reachable ht he, h.same.root_node]
    rcases hs.reached with hr | ⟨hl, hf, hr⟩
    · by_cases hz : vfs.links fs' n.fs_data = 0
      · by_cases hne : n.fs_data = e.node
        · refine Or.inr ⟨hz, ?_, ?_⟩
          · rw [← hs.type, hne]
            exact he.file
          · rw [hne]
            exact ht.ne_root hd he.entry
        · exact Or.inl ⟨hr, fun hc => absurd hc hne⟩
      · exact Or.inl ⟨hr, fun _ => Nat.pos_of_ne_zero hz⟩
    · refine Or.inr ⟨?_, hf, hr⟩
      omega
  · rw [h.same.root_node]
    rcases hs.counted with hr | hcount
    · exact Or.inl hr
    · right
      by_cases hne : n.fs_data = e.node
      · rw [hne, if_pos rfl] at hlinks
        rw [hne, h.count, hcounted]
        omega
      · rw [if_neg (Ne.symm hne), Nat.add_zero] at hlinks
        rw [h.counts _ hne, hlinks]
        exact hcount

theorem OnlyDirectories.removed (ho : OnlyDirectories fs) (h : Removed fs fs' d e) :
    OnlyDirectories fs' := by
  unfold OnlyDirectories
  rw [h.same.inode_blocks]
  intro a ha hf
  rw [h.same.type] at hf
  have hnone := ho a ha hf
  rw [List.eq_nil_iff_forall_not_mem] at hnone ⊢
  exact fun x hx => hnone x (h.sub hx)

theorem Ordered.name_less (h : Ordered fs) (hs : SameVfs fs fs') (hh : HeapServes fs')
    (hrem : Removed fs fs' d e) (he : Removable fs d e) : Ordered fs' :=
  ⟨h.cached.same_vfs hs, h.tree.removed hrem he, h.only.removed hrem,
    h.views.same_vfs hs fun _ _ hn => hn.removed h.tree hrem he, hh⟩

/-! ## A node more -/

section node_more

variable {type : vfs_node_type} {data size : Nat}

/-- No entry is for an address that is not in use. -/
theorem Tree.links_unused (ht : Tree fs) {x : Nat} (hx : x ∉ fs.inode_blocks) : links fs x = 0 := by
  by_contra hne
  obtain ⟨a, ha, e, hm, rfl⟩ := links_pos.mp (Nat.pos_of_ne_zero hne)
  exact hx (ht.targets a ha e hm)

theorem with_node_old (hu : fs.next_block ∉ fs.inode_blocks) {a : Nat} (ha : a ∈ fs.inode_blocks) :
    (with_node fs type data size).inodes a = fs.inodes a :=
  with_node_ne (fun he => hu (he ▸ ha)) type data size

theorem links_with_node (hu : fs.next_block ∉ fs.inode_blocks) (x : Nat) :
    links (with_node fs type data size) x = links fs x := by
  unfold links
  rw [with_node_blocks, Finset.sum_insert hu, with_node_self]
  have hrest : ∑ a ∈ fs.inode_blocks, entries ((with_node fs type data size).inodes a).children x =
      ∑ a ∈ fs.inode_blocks, entries (fs.inodes a).children x := by
    apply Finset.sum_congr rfl
    intro a ha
    rw [with_node_old hu ha]
  rw [hrest]
  exact Nat.zero_add _

theorem reachable_with_node (ht : Tree fs) (hu : fs.next_block ∉ fs.inode_blocks) {a : Nat} :
    Reachable (with_node fs type data size) a ↔ Reachable fs a := by
  constructor
  · intro ha
    induction ha with
    | root => exact .root
    | child _ hm ih =>
      rw [with_node_old hu (ih.mem ht)] at hm
      exact .child ih hm
  · intro ha
    induction ha with
    | root => exact .root
    | @child b e hb hm ih =>
      have hold : (with_node fs type data size).inodes b = fs.inodes b :=
        with_node_old hu (hb.mem ht)
      rw [← hold] at hm
      exact .child ih hm

theorem Tree.node_more (ht : Tree fs) (hu : fs.Unused fs.next_block) (hz : fs.next_block ≠ 0) :
    Tree (with_node fs type data size) := by
  have hold : ∀ {a}, a ∈ fs.inode_blocks → (with_node fs type data size).inodes a = fs.inodes a :=
    fun ha => with_node_old hu.2 ha
  have hblocks : ∀ {a}, a ∈ (with_node fs type data size).inode_blocks →
      a = fs.next_block ∨ a ∈ fs.inode_blocks := fun ha => Finset.mem_insert.mp ha
  have hlast : (with_node fs type data size).last_index = fs.last_index + 1 := rfl
  constructor
  · exact Finset.mem_insert_of_mem ht.root
  · exact (congrArg ramfs_node_t.type (hold ht.root)).trans ht.directory
  · rw [links_with_node hu.2]
    exact ht.root_links
  · rw [show (with_node fs type data size).root_node = fs.root_node from rfl, hold ht.root]
    exact ht.root_count
  · intro a ha
    rcases hblocks ha with rfl | ha
    · rw [with_node_self]
      exact List.nodup_nil
    · rw [hold ha]
      exact ht.names a ha
  · intro a ha
    rcases hblocks ha with rfl | ha
    · rw [with_node_self]
      exact Nat.zero_le _
    · rw [hold ha]
      exact ht.room a ha
  · intro a ha e hm
    rcases hblocks ha with rfl | ha
    · rw [with_node_self] at hm
      exact absurd hm List.not_mem_nil
    · rw [hold ha] at hm
      exact Finset.mem_insert_of_mem (ht.targets a ha e hm)
  · intro a ha b hb hab
    rcases hblocks ha with rfl | ha <;> rcases hblocks hb with rfl | hb
    · rfl
    · rw [with_node_self, hold hb] at hab
      exact absurd (ht.last b hb) (by rw [← hab]; exact Nat.lt_irrefl _)
    · rw [with_node_self, hold ha] at hab
      exact absurd (ht.last a ha) (by rw [hab]; exact Nat.lt_irrefl _)
    · rw [hold ha, hold hb] at hab
      exact ht.ids a ha b hb hab
  · intro a ha
    rw [hlast]
    rcases hblocks ha with rfl | ha
    · rw [with_node_self]
      exact Nat.lt_succ_self _
    · rw [hold ha]
      exact Nat.lt_succ_of_lt (ht.last a ha)
  · intro x hx
    rw [links_with_node hu.2]
    rcases hblocks hx with rfl | hx
    · exact Or.inl (ht.links_unused hu.2)
    · rw [hold hx]
      exact ht.counts x hx
  · intro x hx hdir
    rw [links_with_node hu.2]
    rcases hblocks hx with rfl | hx
    · rw [ht.links_unused hu.2]
      exact Nat.zero_le _
    · rw [hold hx] at hdir
      exact ht.single x hx hdir
  · intro a ha e hm
    rw [reachable_with_node ht hu.2, reachable_with_node ht hu.2]
    rcases hblocks ha with rfl | ha
    · rw [with_node_self] at hm
      exact absurd hm List.not_mem_nil
    · rw [hold ha] at hm
      exact ht.closed a ha e hm
  · intro hm
    rcases hblocks hm with he | hm
    · exact hz he.symm
    · exact ht.null hm
  · intro i hi
    rw [hlast]
    refine ⟨Nat.lt_succ_of_lt (ht.freed i hi).1, fun a ha => ?_⟩
    rcases hblocks ha with rfl | ha
    · rw [with_node_self]
      exact (ht.freed i hi).1.ne'
    · rw [hold ha]
      exact (ht.freed i hi).2 a ha
  · exact ht.once

theorem Shown.node_more {n : vfs_node_t} (hs : Shown fs n) (ht : Tree fs)
    (hu : fs.next_block ∉ fs.inode_blocks) : Shown (with_node fs type data size) n := by
  have hold : (with_node fs type data size).inodes n.fs_data = fs.inodes n.fs_data :=
    with_node_old hu hs.there
  constructor
  · exact Finset.mem_insert_of_mem hs.there
  · rw [hold]
    exact hs.id
  · rw [hold]
    exact hs.type
  · exact hs.index
  · exact hs.plain
  · rw [reachable_with_node ht hu, links_with_node hu]
    exact hs.reached
  · rw [hold, links_with_node hu]
    exact hs.counted

theorem sameVfs_with_node : SameVfs fs (with_node fs type data size) := ⟨rfl, rfl, rfl, rfl⟩

theorem Ordered.node_more (h : Ordered fs) (hu : fs.Unused fs.next_block) :
    Ordered (with_node fs type data size) := by
  refine ⟨h.cached.same_vfs sameVfs_with_node, h.tree.node_more hu h.heap.next, ?_,
    h.views.same_vfs sameVfs_with_node fun _ _ hn => hn.node_more h.tree hu.2, h.heap.pop⟩
  intro a ha hf
  rcases Finset.mem_insert.mp ha with rfl | ha
  · rw [with_node_self]
  · rw [with_node_old hu.2 ha] at hf ⊢
    exact h.only a ha hf

end node_more

/-! ## `ramfs_create` -/

/-- A node of the VFS for a directory of the ramfs shows one that can be reached. -/
theorem Ordered.shows_directory (h : Ordered fs) {a : Nat} (ha : a ∈ fs.node_blocks)
    (hdir : is_directory (fs.nodes a) = true) :
    (fs.nodes a).operations = .ramfs ∧ Reachable fs (fs.nodes a).fs_data ∧
      (fs.inodes (fs.nodes a).fs_data).type = VFS_NODE_TYPE_DIRECTORY := by
  unfold is_directory at hdir
  rw [decide_eq_true_eq] at hdir
  obtain ⟨ht, hop⟩ := hdir
  have hs := (h.views a ha).shown hop
  refine ⟨hop, ?_, hs.type.trans ht⟩
  rcases hs.reached with hr | ⟨-, hf, -⟩
  · exact hr
  · rw [ht] at hf
    cases hf

section name_more

variable {type : vfs_node_type} {x : Nat}

/-- A new node can get a name that its directory does not have, if there is room. -/
theorem Tree.enterable_new (ht : Tree fs) (hu : fs.next_block ∉ fs.inode_blocks)
    (hx : x ∈ fs.inode_blocks) (hname : (fs.inodes x).child name = none)
    (hroom : (fs.inodes x).children.length < RAMFS_NODE_MAX_CHILDREN) :
    Enterable (with_node fs type 0 0) x name fs.next_block := by
  have hold : (with_node fs type 0 0).inodes x = fs.inodes x := with_node_old hu hx
  have hzero : links (with_node fs type 0 0) fs.next_block = 0 := by
    rw [links_with_node hu, ht.links_unused hu]
  constructor
  · exact Finset.mem_insert_of_mem hx
  · exact Finset.mem_insert_self _ _
  · exact fun he => hu (he ▸ ht.root)
  · rw [with_node_self]
  · exact Or.inl hzero
  · exact fun _ => hzero
  · rw [hold]
    exact hname
  · rw [hold]
    exact hroom

theorem Tree.entered_new (ht : Tree fs) (hu : fs.next_block ∉ fs.inode_blocks)
    (hx : x ∈ fs.inode_blocks) :
    Entered (with_node fs type 0 0) (with_name fs x name type) x name fs.next_block := by
  have hne : fs.next_block ≠ x := fun he => hu (he ▸ hx)
  unfold with_name
  refine ⟨⟨?_, rfl, rfl, rfl, rfl⟩, ?_, ?_, ?_, ?_⟩
  · intro a
    by_cases ha : a = x
    · rw [ha, with_child_self]
      exact ⟨_, _, rfl⟩
    · rw [with_child_ne ha]
      exact ⟨_, _, rfl⟩
  · rw [with_child_self]
  · intro a ha
    rw [with_child_ne ha]
  · rw [with_child_ne hne, with_node_self, links_with_node hu, ht.links_unused hu]
  · intro a _
    by_cases hax : a = x
    · rw [hax, with_child_self]
    · rw [with_child_ne hax]

theorem Ordered.with_name (h : Ordered fs) (hu : fs.Unused fs.next_block) (hx : Reachable fs x)
    (hdir : (fs.inodes x).type = VFS_NODE_TYPE_DIRECTORY)
    (hname : (fs.inodes x).child name = none)
    (hroom : (fs.inodes x).children.length < RAMFS_NODE_MAX_CHILDREN) :
    Ordered (with_name fs x name type) := by
  have hm := hx.mem h.tree
  refine (h.node_more hu).name_more ⟨rfl, rfl, rfl, rfl⟩ h.heap.pop.pop
    (h.tree.entered_new hu.2 hm) (h.tree.enterable_new hu.2 hm hname hroom) ?_ ?_
  · rwa [reachable_with_node h.tree hu.2]
  · rw [with_node_old hu.2 hm]
    exact hdir

/-- No node of the VFS has the key of the new node. -/
theorem Ordered.key_new (h : Ordered fs) {d a : Nat} (hd : d ∈ fs.node_blocks)
    (hop : (fs.nodes d).operations = .ramfs) (ha : a ∈ fs.node_blocks)
    (hci : (fs.nodes a).cache_index = (fs.nodes d).cache_index) :
    (fs.nodes a).index ≠ (fs.last_index : Int) := by
  have hzero := ((h.views d hd).shown hop).index
  have hopa : (fs.nodes a).operations = .ramfs := by
    by_contra hopa
    have hv := h.views a ha
    unfold Viewed at hv
    rw [if_neg hopa] at hv
    exact hv.1 (hci.trans hzero)
  have hs := (h.views a ha).shown hopa
  have hlt := h.tree.last _ hs.there
  rw [← hs.id]
  omega

/-- `ramfs_create`: the node of a name that is there, or a new one; a directory that is full leaves
a node behind that has no name. -/
theorem ramfs_create_post (h : Ordered fs) {d : Nat} (hd : d ∈ fs.node_blocks)
    (hdir : is_directory (fs.nodes d) = true) (name : List Char) (type : vfs_node_type) :
    Post (· = .taken)
      (fun r => match (fs.inodes (fs.nodes d).fs_data).child name with
        | some e => r.2.1 = RESOURCE_RESULT_OK ∧ Fetched fs r.1 r.2.2 (.inode e.node)
        | none => fs.Unused fs.next_block ∧
          if RAMFS_NODE_MAX_CHILDREN ≤ (fs.inodes (fs.nodes d).fs_data).children.length then
            r = (with_node fs type 0 0, RESOURCE_RESULT_ALLOCATION_ERROR, 0)
          else r.2.1 = RESOURCE_RESULT_OK ∧
            Fetched (vfs.with_name fs (fs.nodes d).fs_data name type) r.1 r.2.2
              (.inode fs.next_block))
      (ramfs_create fs d name type) := by
  obtain ⟨hop, hx, htype⟩ := h.shows_directory hd hdir
  have hn : fs.node d = .ok (fs.nodes d) := node_ok.mpr ⟨hd, rfl⟩
  have hm := hx.mem h.tree
  unfold ramfs_create
  rw [hn, ok_bind, ramfs_find_child_eq hm, ok_bind]
  cases hc : (fs.inodes (fs.nodes d).fs_data).child name with
  | some e => exact ramfs_node_of_post h hd hop (child_mem hc).1
  | none =>
    dsimp only [Option.map_none]
    by_cases hu : fs.Unused fs.next_block
    · have hnew : ramfs_create_node fs type 0 0 =
          .ok (with_node fs type 0 0, RAMFS_RESULT_OK, fs.next_block) := by
        simp [ramfs_create_node, h.heap.next, hu, with_node, fs_t.pop_block]
      have hold : (with_node fs type 0 0).inodes (fs.nodes d).fs_data =
          fs.inodes (fs.nodes d).fs_data := with_node_old hu.2 hm
      have hlive : (fs.nodes d).fs_data ∈ (with_node fs type 0 0).inode_blocks :=
        Finset.mem_insert_of_mem hm
      have hadd := ramfs_add_child_eq hlive name fs.next_block
      rw [hold] at hadd
      rw [hnew, ok_bind]
      dsimp only
      rw [if_neg (by decide), hadd]
      by_cases hroom : RAMFS_NODE_MAX_CHILDREN ≤ (fs.inodes (fs.nodes d).fs_data).children.length
      · rw [if_pos hroom, ok_bind]
        dsimp only
        rw [if_pos (by decide)]
        refine ⟨hu, ?_⟩
        rw [if_pos hroom]
      · have hg : Ordered (vfs.with_name fs (fs.nodes d).fs_data name type) :=
          h.with_name hu hx htype hc (Nat.lt_of_not_le hroom)
        have hent : Entered _ (vfs.with_name fs (fs.nodes d).fs_data name type) _ name _ :=
          h.tree.entered_new hu.2 hm
        have hne : fs.next_block ≠ (fs.nodes d).fs_data := fun he => hu.2 (he ▸ hm)
        have hinode : (vfs.with_name fs (fs.nodes d).fs_data name type).inodes fs.next_block =
            ⟨fs.last_index, [], type, 0, 0, 1⟩ := by
          unfold vfs.with_name
          rw [with_child_ne hne, with_node_self]
        have hself : (vfs.with_name fs (fs.nodes d).fs_data name type).inode fs.next_block =
            .ok ⟨fs.last_index, [], type, 0, 0, 1⟩ :=
          inode_ok.mpr ⟨Finset.mem_insert_self _ _, hinode⟩
        have hserves : (with_node fs type 0 0).next_block ≠ 0 := h.heap 1
        rw [if_neg hroom, if_neg hserves, ok_bind]
        dsimp only
        rw [if_neg (by decide)]
        have hshown := hg.shown_entry (d := d) hd hop
          (e := ⟨name, fs.next_block⟩) (hent.mem_iff.mpr (Or.inr ⟨rfl, rfl⟩))
        rw [hinode] at hshown
        have hnode : Post (· = .taken)
            (fun r => r.2.1 = RESOURCE_RESULT_OK ∧
              Fetched (vfs.with_name fs (fs.nodes d).fs_data name type) r.1 r.2.2
                (.inode fs.next_block))
            (vfs_create_node (vfs.with_name fs (fs.nodes d).fs_data name type) d fs.last_index .ramfs
              fs.next_block type RESOURCE_TYPE_FILE) :=
          hg.create_node hd (fun a ha hci => h.key_new hd hop ha hci) (hshown.viewed rfl)
        change Post _ _ ((vfs.with_name fs (fs.nodes d).fs_data name type).inode fs.next_block >>= _)
        rw [hself, ok_bind]
        apply hnode.mono fun _ => id
        intro r hr
        refine ⟨hu, ?_⟩
        rw [if_neg hroom]
        exact hr
    · have htaken : ramfs_create_node fs type 0 0 = .error .taken := by
        simp [ramfs_create_node, h.heap.next, hu]
        rfl
      rw [htaken, error_bind]
      rfl

end name_more

/-! ## `ramfs_link` -/

/-- The ramfs with one more name for a file. -/
def with_link (fs : fs_t) (x : Nat) (name : List Char) (c : Nat) : fs_t :=
  (with_child fs x name c).setInode c
    { fs.inodes c with link_count := (fs.inodes c).link_count + 1 }

theorem setInode_self (fs : fs_t) (a : Nat) (i : ramfs_node_t) : (fs.setInode a i).inodes a = i :=
  Function.update_self _ _ _

theorem setInode_ne (fs : fs_t) {a b : Nat} (i : ramfs_node_t) (h : b ≠ a) :
    (fs.setInode a i).inodes b = fs.inodes b := Function.update_of_ne h _ _

section link

variable {x : Nat}

theorem entered_with_link (hx : c ≠ x) (hc : (fs.inodes c).link_count = links fs c) :
    Entered fs (with_link fs x name c) x name c := by
  unfold with_link
  refine ⟨⟨?_, rfl, rfl, rfl, rfl⟩, ?_, ?_, ?_, ?_⟩
  · intro a
    by_cases hac : a = c
    · rw [hac, setInode_self]
      exact ⟨_, _, rfl⟩
    · rw [setInode_ne _ _ hac]
      by_cases hax : a = x
      · rw [hax, with_child_self]
        exact ⟨_, _, rfl⟩
      · rw [with_child_ne hax]
        exact ⟨_, _, rfl⟩
  · rw [setInode_ne _ _ hx.symm, with_child_self]
  · intro a ha
    by_cases hac : a = c
    · rw [hac, setInode_self]
    · rw [setInode_ne _ _ hac, with_child_ne ha]
  · rw [setInode_self, ← hc]
  · intro a ha
    rw [setInode_ne _ _ ha]
    by_cases hax : a = x
    · rw [hax, with_child_self]
    · rw [with_child_ne hax]

/-- A node of the VFS for a plain file shows a file of the ramfs, whose links are counted. -/
theorem Ordered.shows_file (h : Ordered fs) {t : Nat} (ht : t ∈ fs.node_blocks)
    (htype : (fs.nodes t).type = VFS_NODE_TYPE_FILE)
    (hplain : (fs.nodes t).resource_type = RESOURCE_TYPE_FILE) :
    (fs.nodes t).operations = .ramfs ∧ (fs.nodes t).fs_data ∈ fs.inode_blocks ∧
      (fs.inodes (fs.nodes t).fs_data).type = VFS_NODE_TYPE_FILE ∧
      (fs.inodes (fs.nodes t).fs_data).link_count = links fs (fs.nodes t).fs_data := by
  have hop : (fs.nodes t).operations = .ramfs := by
    by_contra hop
    have hv := h.views t ht
    unfold Viewed at hv
    rw [if_neg hop] at hv
    obtain ⟨-, hv⟩ := hv
    split at hv
    · rw [htype] at hv
      cases hv.2
    · obtain ⟨i, -, -, name, he⟩ := hv
      have hm := List.mem_of_getElem? he
      rw [hplain] at hm
      revert hm
      simp [devfs_entries]
  have hs := (h.views t ht).shown hop
  have hf := hs.type.trans htype
  refine ⟨hop, hs.there, hf, hs.counted.resolve_left fun hr => ?_⟩
  rw [hr, h.tree.directory] at hf
  cases hf

/-- A file can get a name that the directory does not have, if there is room. -/
theorem Ordered.enterable_file (h : Ordered fs) {t : Nat} (ht : t ∈ fs.node_blocks)
    (htype : (fs.nodes t).type = VFS_NODE_TYPE_FILE)
    (hplain : (fs.nodes t).resource_type = RESOURCE_TYPE_FILE) (hx : Reachable fs x)
    (hname : (fs.inodes x).child name = none)
    (hroom : (fs.inodes x).children.length < RAMFS_NODE_MAX_CHILDREN) :
    Enterable fs x name (fs.nodes t).fs_data := by
  obtain ⟨hop, hm, hf, -⟩ := h.shows_file ht htype hplain
  refine ⟨hx.mem h.tree, hm, ?_, h.only _ hm hf, ?_, ?_, hname, hroom⟩
  · rintro hr
    rw [hr, h.tree.directory] at hf
    cases hf
  · rcases ((h.views t ht).shown hop).reached with hr | ⟨hl, -, -⟩
    · exact Or.inr ⟨hr, hx⟩
    · exact Or.inl hl
  · intro hdir
    rw [hf] at hdir
    cases hdir

/-- `ramfs_link`: a name that is there, a directory that is full, or a new entry. -/
theorem ramfs_link_eq (h : Ordered fs) {d t : Nat} (hd : d ∈ fs.node_blocks)
    (hdir : is_directory (fs.nodes d) = true) (ht : t ∈ fs.node_blocks)
    (htype : (fs.nodes t).type = VFS_NODE_TYPE_FILE)
    (hplain : (fs.nodes t).resource_type = RESOURCE_TYPE_FILE) (name : List Char) :
    ramfs_link fs d name t =
      if ((fs.inodes (fs.nodes d).fs_data).child name).isSome then
        .ok (fs, RESOURCE_RESULT_ALREADY_PRESENT)
      else if RAMFS_NODE_MAX_CHILDREN ≤ (fs.inodes (fs.nodes d).fs_data).children.length then
        .ok (fs, RESOURCE_RESULT_ALLOCATION_ERROR)
      else .ok (with_link fs (fs.nodes d).fs_data name (fs.nodes t).fs_data, RESOURCE_RESULT_OK) := by
  obtain ⟨-, hx, hxdir⟩ := h.shows_directory hd hdir
  obtain ⟨-, hm, hf, -⟩ := h.shows_file ht htype hplain
  have hn : fs.node d = .ok (fs.nodes d) := node_ok.mpr ⟨hd, rfl⟩
  have hn' : fs.node t = .ok (fs.nodes t) := node_ok.mpr ⟨ht, rfl⟩
  have hne : (fs.nodes t).fs_data ≠ (fs.nodes d).fs_data := by
    intro he
    rw [he, hxdir] at hf
    cases hf
  unfold ramfs_link
  rw [hn, ok_bind, hn', ok_bind, ramfs_find_child_eq (hx.mem h.tree), ok_bind]
  cases hc : (fs.inodes (fs.nodes d).fs_data).child name with
  | some e => rfl
  | none =>
    dsimp only [Option.map_none, Option.isSome_none]
    rw [if_neg (by decide), ramfs_add_child_eq (hx.mem h.tree), if_neg h.heap.next]
    by_cases hroom : RAMFS_NODE_MAX_CHILDREN ≤ (fs.inodes (fs.nodes d).fs_data).children.length
    · rw [if_pos hroom, if_pos hroom, ok_bind]
      rfl
    · have hself : (with_child fs (fs.nodes d).fs_data name (fs.nodes t).fs_data).inode
          (fs.nodes t).fs_data = .ok (fs.inodes (fs.nodes t).fs_data) :=
        inode_ok.mpr ⟨hm, with_child_ne hne name _⟩
      rw [if_neg hroom, if_neg hroom, ok_bind]
      dsimp only
      rw [if_neg (by decide), hself, ok_bind]
      rfl

theorem Ordered.with_link (h : Ordered fs) {t : Nat} (ht : t ∈ fs.node_blocks)
    (htype : (fs.nodes t).type = VFS_NODE_TYPE_FILE)
    (hplain : (fs.nodes t).resource_type = RESOURCE_TYPE_FILE) (hx : Reachable fs x)
    (hdir : (fs.inodes x).type = VFS_NODE_TYPE_DIRECTORY)
    (hname : (fs.inodes x).child name = none)
    (hroom : (fs.inodes x).children.length < RAMFS_NODE_MAX_CHILDREN) :
    Ordered (vfs.with_link fs x name (fs.nodes t).fs_data) := by
  obtain ⟨-, -, hf, hcount⟩ := h.shows_file ht htype hplain
  have hne : (fs.nodes t).fs_data ≠ x := by
    rintro rfl
    rw [hdir] at hf
    cases hf
  exact h.name_more ⟨rfl, rfl, rfl, rfl⟩ h.heap.pop (entered_with_link hne hcount)
    (h.enterable_file ht htype hplain hx hname hroom) hx hdir

end link

/-! ## `ramfs_unlink` -/

/-- The ramfs without a name of the file `c`. -/
def without_name (fs : fs_t) (x : Nat) (name : List Char) (c : Nat) : fs_t :=
  (fs.setInode x { fs.inodes x with
    children := remove_child (fs.inodes x).children
      ((fs.inodes x).children.findIdx fun e => e.name = name) }).setInode c
    { fs.inodes c with link_count := (fs.inodes c).link_count - 1 }

section unlink

variable {x : Nat} {e : ramfs_dirent_t}

theorem removed_without_name (hx : e.node ≠ x) (hc : (fs.inodes x).child name = some e) :
    Removed fs (without_name fs x name e.node) x e := by
  unfold without_name
  refine ⟨⟨?_, rfl, rfl, rfl, rfl⟩, ?_, ?_, ?_, ?_⟩
  · intro a
    by_cases hae : a = e.node
    · rw [hae, setInode_self]
      exact ⟨_, _, rfl⟩
    · rw [setInode_ne _ _ hae]
      by_cases hax : a = x
      · rw [hax, setInode_self]
        exact ⟨_, _, rfl⟩
      · rw [setInode_ne _ _ hax]
        exact ⟨_, _, rfl⟩
  · rw [setInode_ne _ _ hx.symm, setInode_self]
    exact remove_child_spec hc
  · intro a ha
    by_cases hae : a = e.node
    · rw [hae, setInode_self]
    · rw [setInode_ne _ _ hae, setInode_ne _ _ ha]
  · rw [setInode_self]
  · intro a ha
    rw [setInode_ne _ _ ha]
    by_cases hax : a = x
    · rw [hax, setInode_self]
    · rw [setInode_ne _ _ hax]

theorem Ordered.without_name (h : Ordered fs) (hx : Reachable fs x)
    (hc : (fs.inodes x).child name = some e)
    (hf : (fs.inodes e.node).type = VFS_NODE_TYPE_FILE) :
    Removed fs (vfs.without_name fs x name e.node) x e ∧ Removable fs x e ∧
      Ordered (vfs.without_name fs x name e.node) := by
  have hm := (child_mem hc).1
  have hempty := h.only _ (h.tree.targets _ (hx.mem h.tree) e hm) hf
  have hne : e.node ≠ x := by
    rintro rfl
    rw [hempty] at hm
    exact List.not_mem_nil hm
  have hrem := removed_without_name hne hc
  have hable : Removable fs x e := ⟨hx, hm, hf, hempty⟩
  exact ⟨hrem, hable, h.name_less ⟨rfl, rfl, rfl, rfl⟩ h.heap hrem hable⟩

/-- A file without a name that no node of the VFS shows can go. -/
theorem Ordered.free_inode (h : Ordered fs) {y : Nat} (hy : y ∈ fs.inode_blocks)
    (hl : links fs y = 0) (hr : y ≠ fs.root_node) (hempty : (fs.inodes y).children = [])
    (hnone : ∀ a ∈ fs.node_blocks, place_of (fs.nodes a) ≠ .inode y) :
    Ordered (fs.free_inode y) := by
  refine ⟨h.cached.same_vfs ⟨rfl, rfl, rfl, rfl⟩, h.tree.free_inode hy hl hr hempty, ?_,
    h.views.same_vfs ⟨rfl, rfl, rfl, rfl⟩ ?_, h.heap⟩
  · exact fun a ha => h.only a (Finset.mem_of_mem_erase ha)
  · intro a ha hs
    have hop : (fs.nodes a).operations = .ramfs := by
      by_contra hop
      have hv := h.views a ha
      unfold Viewed at hv
      rw [if_neg hop] at hv
      exact hv.1 hs.index
    exact hs.free_inode (fun he => hnone a ha (place_of_inode.mpr ⟨hop, he⟩)) hempty

/-- `ramfs_unlink`: a name that is not there, a directory, or a file that has a name less. Without
any name it goes, unless a node of the VFS shows it. -/
theorem ramfs_unlink_post (h : Ordered fs) {d : Nat} (hd : d ∈ fs.node_blocks)
    (hdir : is_directory (fs.nodes d) = true) (name : List Char) :
    Post (fun _ => False)
      (fun r => match (fs.inodes (fs.nodes d).fs_data).child name with
        | none => r = (fs, RESOURCE_RESULT_NOT_FOUND)
        | some e =>
          if (fs.inodes e.node).type = VFS_NODE_TYPE_DIRECTORY then
            r = (fs, RESOURCE_RESULT_BAD_PARAMETER)
          else r.2 = RESOURCE_RESULT_OK ∧ Ordered r.1 ∧
            (r.1 = vfs.without_name fs (fs.nodes d).fs_data name e.node ∨
              links (vfs.without_name fs (fs.nodes d).fs_data name e.node) e.node = 0 ∧
              r.1 = (vfs.without_name fs (fs.nodes d).fs_data name e.node).free_inode e.node))
      (ramfs_unlink fs d name) := by
  obtain ⟨hop, hx, hxdir⟩ := h.shows_directory hd hdir
  have hn : fs.node d = .ok (fs.nodes d) := node_ok.mpr ⟨hd, rfl⟩
  have hi : fs.inode (fs.nodes d).fs_data = .ok (fs.inodes (fs.nodes d).fs_data) :=
    inode_ok.mpr ⟨hx.mem h.tree, rfl⟩
  unfold ramfs_unlink
  rw [hn, ok_bind, hi, ok_bind]
  cases hc : (fs.inodes (fs.nodes d).fs_data).child name with
  | none => rfl
  | some e =>
    have hm := h.tree.targets _ (hx.mem h.tree) e (child_mem hc).1
    have he : fs.inode e.node = .ok (fs.inodes e.node) := inode_ok.mpr ⟨hm, rfl⟩
    dsimp only
    rw [he, ok_bind]
    cases htype : (fs.inodes e.node).type with
    | VFS_NODE_TYPE_DIRECTORY => rfl
    | VFS_NODE_TYPE_FILE =>
      obtain ⟨hrem, hable, hord⟩ := h.without_name hx hc htype
      have hne : e.node ≠ (fs.nodes d).fs_data := by
        intro hed
        rw [hed, hxdir] at htype
        cases htype
      simp only [reduceCtorEq, if_false]
      generalize hg : ({ fs.inodes (fs.nodes d).fs_data with
          children := remove_child (fs.inodes (fs.nodes d).fs_data).children
            ((fs.inodes (fs.nodes d).fs_data).children.findIdx fun e => e.name = name) } :
          ramfs_node_t) = parent
      have hself : (fs.setInode (fs.nodes d).fs_data parent).inode e.node =
          .ok (fs.inodes e.node) := inode_ok.mpr ⟨hm, setInode_ne _ _ hne⟩
      have hstate : vfs.without_name fs (fs.nodes d).fs_data name e.node =
          (fs.setInode (fs.nodes d).fs_data parent).setInode e.node
            { fs.inodes e.node with link_count := (fs.inodes e.node).link_count - 1 } := by
        rw [← hg]
        rfl
      rw [hself, ok_bind, ← hstate]
      by_cases hz : (fs.inodes e.node).link_count - 1 = 0
      · rw [if_neg (not_not.mpr hz)]
        obtain ⟨found, hq, hfound⟩ := hord.query (d := d) hd (fs.inodes e.node).id
        have hlinks : links (vfs.without_name fs (fs.nodes d).fs_data name e.node) e.node = 0 := by
          have hl := hrem.links (hx.mem h.tree) e.node
          have hcount := h.tree.counted (hx.mem h.tree) (child_mem hc).1
          rw [if_pos rfl] at hl
          omega
        change Post _ _ (vfs_cache_query_node (vfs.without_name fs (fs.nodes d).fs_data name e.node)
          ((vfs.without_name fs (fs.nodes d).fs_data name e.node).nodes d).cache_index
          (fs.inodes e.node).id >>= _)
        rw [hq, ok_bind]
        cases found with
        | some a => exact ⟨rfl, hord, Or.inl rfl⟩
        | none =>
          refine ⟨rfl, ?_, Or.inr ⟨hlinks, rfl⟩⟩
          apply hord.free_inode hm hlinks
          · exact h.tree.ne_root (hx.mem h.tree) (child_mem hc).1
          · rw [hrem.others e.node hne]
            exact hable.empty
          · intro a ha hp
            obtain ⟨hopa, hda⟩ := place_of_inode.mp hp
            have hs := (h.views a ha).shown hopa
            have hd0 := ((h.views d hd).shown hop).index
            have hcontra := (hfound a).mpr ⟨ha, ?_, ?_⟩
            · cases hcontra
            · exact hs.index.trans hd0.symm
            · exact hs.id.symm.trans (congrArg (fun y => ((fs.inodes y).id : Int)) hda)
      · rw [if_pos hz]
        exact ⟨rfl, hord, Or.inl rfl⟩

end unlink

/-! ## File data -/

/-- Only the data of the nodes may differ. -/
structure SameNames (fs fs' : fs_t) : Prop where
  inodes : ∀ a, ∃ b k, fs'.inodes a = { fs.inodes a with data := b, data_size := k }
  inode_blocks : fs'.inode_blocks = fs.inode_blocks
  root_node : fs'.root_node = fs.root_node
  last_index : fs'.last_index = fs.last_index
  freed : fs'.freed = fs.freed

theorem SameNames.record (h : SameNames fs fs') (a : Nat) :
    (fs'.inodes a).id = (fs.inodes a).id ∧ (fs'.inodes a).children = (fs.inodes a).children ∧
      (fs'.inodes a).type = (fs.inodes a).type ∧
      (fs'.inodes a).link_count = (fs.inodes a).link_count := by
  obtain ⟨b, k, he⟩ := h.inodes a
  rw [he]
  exact ⟨rfl, rfl, rfl, rfl⟩

theorem SameNames.links (h : SameNames fs fs') (x : Nat) : vfs.links fs' x = vfs.links fs x :=
  links_congr h.inode_blocks fun a _ => (h.record a).2.1

theorem SameNames.reachable (h : SameNames fs fs') {a : Nat} :
    Reachable fs' a ↔ Reachable fs a :=
  reachable_congr h.root_node fun a => (h.record a).2.1

theorem Tree.same_names (ht : Tree fs) (h : SameNames fs fs') : Tree fs' := by
  have hid := fun a => (h.record a).1
  have hchildren := fun a => (h.record a).2.1
  have htype := fun a => (h.record a).2.2.1
  have hcount := fun a => (h.record a).2.2.2
  constructor
  · rw [h.root_node, h.inode_blocks]
    exact ht.root
  · rw [h.root_node, htype]
    exact ht.directory
  · rw [h.root_node, h.links]
    exact ht.root_links
  · rw [h.root_node, hcount]
    exact ht.root_count
  · rw [h.inode_blocks]
    intro a ha
    rw [hchildren]
    exact ht.names a ha
  · rw [h.inode_blocks]
    intro a ha
    rw [hchildren]
    exact ht.room a ha
  · rw [h.inode_blocks]
    intro a ha
    rw [hchildren]
    exact ht.targets a ha
  · rw [h.inode_blocks]
    intro a ha b hb hab
    rw [hid, hid] at hab
    exact ht.ids a ha b hb hab
  · rw [h.inode_blocks, h.last_index]
    intro a ha
    rw [hid]
    exact ht.last a ha
  · rw [h.inode_blocks]
    intro x hx
    rw [h.links, hcount]
    exact ht.counts x hx
  · rw [h.inode_blocks]
    intro x hx
    rw [h.links, htype]
    exact ht.single x hx
  · rw [h.inode_blocks]
    intro a ha
    rw [hchildren]
    intro e he
    rw [h.reachable, h.reachable]
    exact ht.closed a ha e he
  · rw [h.inode_blocks]
    exact ht.null
  · rw [h.inode_blocks, h.freed, h.last_index]
    intro i hi
    refine ⟨(ht.freed i hi).1, fun a ha => ?_⟩
    rw [hid]
    exact (ht.freed i hi).2 a ha
  · rw [h.freed]
    exact ht.once

theorem OnlyDirectories.same_names (ho : OnlyDirectories fs) (h : SameNames fs fs') :
    OnlyDirectories fs' := by
  unfold OnlyDirectories
  rw [h.inode_blocks]
  intro a ha hf
  rw [(h.record a).2.2.1] at hf
  rw [(h.record a).2.1]
  exact ho a ha hf

theorem Shown.same_names {n : vfs_node_t} (hs : Shown fs n) (h : SameNames fs fs') :
    Shown fs' n := by
  obtain ⟨hid, -, htype, hcount⟩ := h.record n.fs_data
  constructor
  · rw [h.inode_blocks]
    exact hs.there
  · rw [hid]
    exact hs.id
  · rw [htype]
    exact hs.type
  · exact hs.index
  · exact hs.plain
  · rw [h.reachable, h.links, h.root_node]
    exact hs.reached
  · rw [hcount, h.links, h.root_node]
    exact hs.counted

theorem Ordered.same_names (h : Ordered fs) (hs : SameVfs fs fs') (hh : HeapServes fs')
    (hn : SameNames fs fs') : Ordered fs' :=
  ⟨h.cached.same_vfs hs, h.tree.same_names hn, h.only.same_names hn,
    h.views.same_vfs hs fun _ _ hshown => hshown.same_names hn, hh⟩

theorem sameNames_setInode (fs : fs_t) (a b k : Nat) :
    SameNames fs (fs.setInode a { fs.inodes a with data := b, data_size := k }) := by
  refine ⟨fun x => ?_, rfl, rfl, rfl, rfl⟩
  by_cases hx : x = a
  · rw [hx, setInode_self]
    exact ⟨_, _, rfl⟩
  · rw [setInode_ne _ _ hx]
    exact ⟨_, _, rfl⟩

end alura_os.vfs
