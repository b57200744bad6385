-- The paths of the file systems as a tree of names: an entry that a directory gets or loses
-- changes what one path leads to.
import AluraOs.NameTrees
import AluraOs.PathSplits
import AluraOs.FileRuns

namespace alura_os.vfs

open alura_os.memory alura_os.resource faults name_trees
open resource_result_t resource_type_t vfs_node_type ramfs_result_t

variable {fs fs' : fs_t} {held : List Nat} {p d : List (List Char)} {name : List Char}
  {a c x y : Nat}

/-! ## The tree of names -/

/-- What a name in a directory of the ramfs leads to. -/
def child_of (fs : fs_t) (a : Nat) (name : List Char) : Option Nat :=
  ((fs.inodes a).child name).map ramfs_dirent_t.node

/-- What a path leads to in the ramfs, below the mount points. -/
def entry_at (fs : fs_t) : List (List Char) → Option Nat := follow (child_of fs) fs.root_node

theorem child_of_some : child_of fs a name = some x ↔
    ∃ e, (fs.inodes a).child name = some e ∧ e.node = x := by
  unfold child_of
  exact Option.map_eq_some_iff

theorem child_of_none : child_of fs a name = none ↔ (fs.inodes a).child name = none := by
  unfold child_of
  exact Option.map_eq_none_iff

theorem child_of_congr {a' : Nat} (h : (fs'.inodes a').children = (fs.inodes a).children) :
    child_of fs' a' = child_of fs a := by
  funext name
  unfold child_of ramfs_node_t.child
  rw [h]

theorem child_of_nil (h : (fs.inodes a).children = []) (name : List Char) :
    child_of fs a name = none := by
  rw [child_of_none]
  unfold ramfs_node_t.child
  rw [h]
  rfl

theorem entry_reachable (h : entry_at fs p = some x) : Reachable fs x := by
  unfold entry_at at h
  induction p using List.reverseRecOn generalizing x with
  | nil =>
    cases h
    exact .root
  | append_singleton p name ih =>
    obtain ⟨y, hy, hc⟩ := follow_concat.mp h
    obtain ⟨e, he, rfl⟩ := child_of_some.mp hc
    exact .child (ih hy) (child_mem he).1

theorem Ordered.entry_live (h : Ordered fs) (hx : entry_at fs p = some x) :
    x ∈ fs.inode_blocks := (entry_reachable hx).mem h.tree

/-- A file has no entries. -/
theorem Ordered.file_entries (h : Ordered fs) (ha : IsFile fs a) (name : List Char) :
    child_of fs a name = none := child_of_nil (h.only a ha.1 ha.2) name

theorem Ordered.one_tree (h : Ordered fs) : OneTree (child_of fs) fs.root_node
    fun a => (fs.inodes a).type = VFS_NODE_TYPE_DIRECTORY := by
  constructor
  · intro p a name ha hc
    obtain ⟨e, he, hnode⟩ := child_of_some.mp hc
    have hpos := links_pos.mpr ⟨a, h.entry_live ha, e, (child_mem he).1, hnode⟩
    rw [h.tree.root_links] at hpos
    exact Nat.lt_irrefl 0 hpos
  · intro p a name b ha hc
    cases htype : (fs.inodes a).type with
    | VFS_NODE_TYPE_DIRECTORY => rfl
    | VFS_NODE_TYPE_FILE =>
      rw [h.file_entries ⟨h.entry_live ha, htype⟩] at hc
      cases hc
  · intro p a name q a' name' b ha ha' hb hc hc'
    obtain ⟨e, he, hnode⟩ := child_of_some.mp hc
    obtain ⟨e', he', hnode'⟩ := child_of_some.mp hc'
    have hlive : b ∈ fs.inode_blocks :=
      hnode ▸ h.tree.targets a (h.entry_live ha) e (child_mem he).1
    obtain ⟨heq, hentry⟩ := links_one (h.tree.single b hlive hb) (h.entry_live ha)
      (h.entry_live ha') (child_mem he).1 (child_mem he').1 hnode hnode'
    refine ⟨heq, ?_⟩
    rw [← (child_mem he).2, hentry, (child_mem he').2]

/-- One path leads to a directory of the ramfs. -/
theorem Ordered.one_path (h : Ordered fs) (hd : entry_at fs d = some y)
    (hy : (fs.inodes y).type = VFS_NODE_TYPE_DIRECTORY) (hp : entry_at fs p = some y) : p = d :=
  h.one_tree.one_path hy hp hd

/-! ## Behind the mount points -/

/-- Where a path that goes on behind the mount point of the devices leads. -/
def behind_devices (name : List Char) (path : List (List Char)) : Except resource_result_t place :=
  if device_index name < devfs_entries.length then
    if path = [] then .ok (.device (device_index name)) else .error RESOURCE_RESULT_BAD_PARAMETER
  else .error RESOURCE_RESULT_NOT_FOUND

theorem MountRule.crossed_other (h : MountRule fs) {q : place} (hq : ∀ x, q ≠ .inode x) :
    crossed fs q = q := by
  unfold crossed
  refine if_neg ?_
  rintro ⟨a, ha, rfl, hm⟩
  exact hq _ (place_of_inode.mpr ⟨(h a ha hm).1, rfl⟩)

theorem MountRule.leads_device (h : MountRule fs) (i : Nat) (name : List Char)
    (path : List (List Char)) :
    leads fs (.device i) (name :: path) = .error RESOURCE_RESULT_BAD_PARAMETER := by
  apply leads_error
  rw [h.crossed_other fun _ hx => by cases hx]
  rfl

theorem MountRule.leads_devices (h : MountRule fs) (name : List Char) (path : List (List Char)) :
    leads fs .devices (name :: path) = behind_devices name path := by
  have hcross : crossed fs .devices = .devices := h.crossed_other fun _ hx => by cases hx
  unfold behind_devices
  by_cases hi : device_index name < devfs_entries.length
  · have henter : enter fs (crossed fs .devices) name = .ok (.device (device_index name)) := by
      rw [hcross]
      exact if_pos hi
    rw [leads_ok henter, if_pos hi]
    cases path with
    | nil => rfl
    | cons name' path => rw [h.leads_device, if_neg (List.cons_ne_nil name' path)]
  · have henter : enter fs (crossed fs .devices) name = .error RESOURCE_RESULT_NOT_FOUND := by
      rw [hcross]
      exact if_neg hi
    rw [leads_error henter, if_neg hi]

/-- The walk of `vfs_resolve` is a lookup in the tree of names. -/
theorem MountRule.leads_eq (h : MountRule fs) (x : Nat) (path : List (List Char)) :
    leads fs (.inode x) path = name_trees.lookup (fun a => Mounted fs (.inode a)) behind_devices
      (fun a => .ok (.inode a)) (.error RESOURCE_RESULT_NOT_FOUND) (child_of fs) x path := by
  induction path generalizing x with
  | nil => rfl
  | cons name path ih =>
    unfold name_trees.lookup
    by_cases hm : Mounted fs (.inode x)
    · have hcross : crossed fs (.inode x) = .devices := if_pos hm
      have hdevices : crossed fs .devices = .devices := h.crossed_other fun _ hx => by cases hx
      rw [if_pos hm, ← h.leads_devices, leads, leads, hcross, hdevices]
    have hcross : crossed fs (.inode x) = .inode x := if_neg hm
    rw [if_neg hm]
    cases hc : (fs.inodes x).child name with
    | none =>
      have henter : enter fs (crossed fs (.inode x)) name = .error RESOURCE_RESULT_NOT_FOUND := by
        rw [hcross]
        unfold enter
        dsimp only
        rw [hc]
      rw [leads_error henter, child_of_none.mpr hc]
    | some e =>
      have henter : enter fs (crossed fs (.inode x)) name = .ok (.inode e.node) := by
        rw [hcross]
        unfold enter
        dsimp only
        rw [hc]
      rw [leads_ok henter, child_of_some.mpr ⟨e, hc, rfl⟩]
      exact ih e.node

/-- A path that leads to a node of the ramfs crosses no mount point. -/
theorem leads_entry {path : List (List Char)} (h : leads fs (.inode x) path = .ok (.inode y)) :
    follow (child_of fs) x path = some y := by
  induction path generalizing x with
  | nil =>
    cases h
    rfl
  | cons name path ih =>
    cases he : enter fs (crossed fs (.inode x)) name with
    | error r =>
      rw [leads_error he] at h
      cases h
    | ok q =>
      rw [leads_ok he] at h
      rcases crossed_cases fs (.inode x) with hc | hc
      · rw [hc] at he
        obtain ⟨i, rfl⟩ := enter_device (Or.inl rfl) he
        obtain ⟨j, hj⟩ := leads_device h
        cases hj
      · rw [hc] at he
        unfold enter at he
        dsimp only at he
        split at he
        · rename_i e hchild
          cases he
          rw [follow_cons (child_of_some.mpr ⟨e, hchild, rfl⟩)]
          exact ih h
        · cases he

theorem leads_append (fs : fs_t) (q : place) (front path : List (List Char)) :
    leads fs q (front ++ path) = match leads fs q front with
      | .ok q => leads fs q path
      | .error r => .error r := by
  induction front generalizing q with
  | nil => rfl
  | cons name front ih =>
    rw [List.cons_append]
    cases he : enter fs (crossed fs q) name with
    | error r => rw [leads_error he, leads_error he]
    | ok q' => rw [leads_ok he, leads_ok he, ih]

/-- One name more, behind a mount point or not. -/
theorem MountRule.leads_concat (h : MountRule fs) {q : place} {front : List (List Char)}
    (hf : leads fs q front = .ok (.inode y)) (name : List Char) :
    leads fs q (front ++ [name]) = if Mounted fs (.inode y) then behind_devices name []
      else match child_of fs y name with
        | some x => .ok (.inode x)
        | none => .error RESOURCE_RESULT_NOT_FOUND := by
  rw [leads_append, hf]
  dsimp only
  rw [h.leads_eq, name_trees.lookup]
  cases child_of fs y name with
  | some x => rfl
  | none => rfl

/-! ## One entry more or less -/

theorem child_appended (fs fs' : fs_t) {e : ramfs_dirent_t}
    (h : (fs'.inodes y).children = (fs.inodes y).children ++ [e]) (m : List Char)
    (hm : m ≠ e.name) : child_of fs' y m = child_of fs y m := by
  unfold child_of ramfs_node_t.child
  rw [h, List.find?_append]
  have hnone : List.find? (fun e => decide (e.name = m)) [e] = none := by
    rw [List.find?_singleton, if_neg]
    exact fun he => hm (of_decide_eq_true he).symm
  rw [hnone, Option.or_none]

theorem child_appended_self (fs fs' : fs_t) (hnone : (fs.inodes y).child name = none)
    (h : (fs'.inodes y).children = (fs.inodes y).children ++ [⟨name, c⟩]) :
    child_of fs' y name = some c := by
  refine child_of_some.mpr ⟨⟨name, c⟩, ?_, rfl⟩
  unfold ramfs_node_t.child at hnone ⊢
  rw [h, List.find?_append, hnone, List.find?_singleton, if_pos (decide_eq_true rfl)]
  rfl

/-- In a permutation of entries with different names the same ones are found. -/
theorem find_perm {l l' : List ramfs_dirent_t} (h : l.Perm l')
    (hn : (l.map ramfs_dirent_t.name).Nodup) (m : List Char) :
    l.find? (fun e => decide (e.name = m)) = l'.find? fun e => decide (e.name = m) := by
  have hn' : (l'.map ramfs_dirent_t.name).Nodup := (h.map _).nodup_iff.mp hn
  have hfound : ∀ {k k' : List ramfs_dirent_t}, k.Perm k' → (k.map ramfs_dirent_t.name).Nodup →
      ∀ e, k'.find? (fun e => decide (e.name = m)) = some e →
        k.find? (fun e => decide (e.name = m)) = some e := by
    intro k k' hk hnodup e he
    have hm : e.name = m := of_decide_eq_true (List.find?_some he :)
    have hmem := hk.mem_iff.mpr (List.mem_of_find?_eq_some he)
    cases hk2 : k.find? (fun e => decide (e.name = m)) with
    | none => exact absurd (decide_eq_true hm) (List.find?_eq_none.mp hk2 e hmem)
    | some e2 =>
      have hm2 : e2.name = m := of_decide_eq_true (List.find?_some hk2 :)
      have heq : e2 = e :=
        List.inj_on_of_nodup_map hnodup (List.mem_of_find?_eq_some hk2) hmem (hm2.trans hm.symm)
      rw [heq]
  cases hl' : l'.find? (fun e => decide (e.name = m)) with
  | some e => exact hfound h hn e hl'
  | none =>
    cases hl : l.find? (fun e => decide (e.name = m)) with
    | none => rfl
    | some e => exact absurd (hfound h.symm hn' e hl) (by rw [hl']; exact fun hc => by cases hc)

/-- The directory `y` gets an entry for a node of the ramfs without entries. -/
theorem entry_added (h : Ordered fs) (hd : entry_at fs d = some y)
    (hy : (fs.inodes y).type = VFS_NODE_TYPE_DIRECTORY) (hnone : (fs.inodes y).child name = none)
    (hroot : fs'.root_node = fs.root_node)
    (hself : (fs'.inodes y).children = (fs.inodes y).children ++ [⟨name, c⟩])
    (hothers : ∀ a ∈ fs.inode_blocks, a ≠ y → (fs'.inodes a).children = (fs.inodes a).children)
    (hleaf : (fs'.inodes c).children = []) :
    entry_at fs' = Function.update (entry_at fs) (d ++ [name]) (some c) := by
  have hentry : OneEntry (child_of fs) (child_of fs') fs.root_node y name := by
    refine ⟨fun p a m ha hno => ?_, fun c hc => ?_, fun c' hc' m => ?_⟩
    · by_cases hay : a = y
      · subst hay
        exact child_appended fs fs' hself m fun hm => hno ⟨rfl, hm⟩
      · rw [child_of_congr (hothers a (h.entry_live ha) hay)]
    · rw [child_of_none.mpr hnone] at hc
      cases hc
    · rw [child_appended_self fs fs' hnone hself] at hc'
      cases hc'
      exact child_of_nil hleaf m
  unfold entry_at
  rw [hroot, hentry.follow_eq (fun _ => h.one_path hd hy) hd,
    child_appended_self fs fs' hnone hself]

theorem Grown.entry_at (h : Grown fs fs' y name c type) (ho : Ordered fs)
    (hd : vfs.entry_at fs d = some y) (hy : (fs.inodes y).type = VFS_NODE_TYPE_DIRECTORY)
    (hnone : (fs.inodes y).child name = none) (hroot : fs'.root_node = fs.root_node) :
    vfs.entry_at fs' = Function.update (vfs.entry_at fs) (d ++ [name]) (some c) := by
  refine entry_added ho hd hy hnone hroot ?_ (fun a ha hay => by rw [h.others a ha hay]) ?_
  · rw [h.directory]
  · rw [h.new]

theorem Relinked.entry_at (h : Relinked fs fs' y name c) (ho : Ordered fs)
    (hd : vfs.entry_at fs d = some y) (hy : (fs.inodes y).type = VFS_NODE_TYPE_DIRECTORY)
    (hnone : (fs.inodes y).child name = none) (hc : IsFile fs c)
    (hroot : fs'.root_node = fs.root_node) :
    vfs.entry_at fs' = Function.update (vfs.entry_at fs) (d ++ [name]) (some c) := by
  refine entry_added ho hd hy hnone hroot ?_ (fun a _ hay => ?_) ?_
  · rw [h.directory]
  · by_cases hac : a = c
    · rw [hac, h.file]
    · rw [h.others a hay hac]
  · rw [h.file]
    exact ho.only c hc.1 hc.2

theorem Shrunk.entry_at {e : ramfs_dirent_t} (h : Shrunk fs fs' y e) (ho : Ordered fs)
    (hd : vfs.entry_at fs d = some y) (hy : (fs.inodes y).type = VFS_NODE_TYPE_DIRECTORY)
    (he : (fs.inodes y).child name = some e) (hfile : (fs.inodes e.node).type = VFS_NODE_TYPE_FILE)
    (hroot : fs'.root_node = fs.root_node) :
    vfs.entry_at fs' = Function.update (vfs.entry_at fs) (d ++ [name]) none := by
  have hlive := ho.entry_live hd
  have hnodup := ho.tree.names y hlive
  have hname := (child_mem he).2
  have hfind : ∀ m, child_of fs y m =
      (((e :: (fs'.inodes y).children).find? fun e => decide (e.name = m)).map
        ramfs_dirent_t.node) := by
    intro m
    unfold child_of ramfs_node_t.child
    rw [find_perm h.directory hnodup m]
  have hgone : child_of fs' y name = none := by
    rw [child_of_none]
    unfold ramfs_node_t.child
    rw [List.find?_eq_none]
    intro e' he' hm
    have hperm := ((h.directory.map ramfs_dirent_t.name).nodup_iff.mp hnodup)
    rw [List.map_cons, List.nodup_cons, hname] at hperm
    exact hperm.1 (List.mem_map.mpr ⟨e', he', of_decide_eq_true hm⟩)
  have hentry : OneEntry (child_of fs) (child_of fs') fs.root_node y name := by
    refine ⟨fun p a m ha hno => ?_, fun c hc m => ?_, fun c hc => ?_⟩
    · by_cases hay : a = y
      · subst hay
        have hm : ¬ decide (e.name = m) = true := fun hc =>
          hno ⟨rfl, (of_decide_eq_true hc).symm.trans hname⟩
        have hrest : (e :: (fs'.inodes a).children).find? (fun e => decide (e.name = m)) =
            (fs'.inodes a).children.find? fun e => decide (e.name = m) :=
          List.find?_cons_of_neg hm
        rw [hfind m, hrest]
        rfl
      · rw [child_of_congr (h.children a hay)]
    · obtain ⟨e', he', rfl⟩ := child_of_some.mp hc
      rw [he] at he'
      cases he'
      exact ho.file_entries ⟨ho.tree.targets y hlive e (child_mem he).1, hfile⟩ m
    · rw [hgone] at hc
      cases hc
  unfold vfs.entry_at
  rw [hroot, hentry.follow_eq (fun _ => ho.one_path hd hy) hd, hgone]

/-- A call that edits no directory leaves every path. -/
theorem Undisturbed.entry_at (h : Undisturbed fs fs') (ho : Ordered fs) :
    vfs.entry_at fs' = vfs.entry_at fs := by
  unfold vfs.entry_at
  rw [h.root_node]
  exact follow_congr fun p a ha => child_of_congr (by rw [h.inodes a (ho.entry_live ha)])

theorem entry_at_congr (hroot : fs'.root_node = fs.root_node)
    (h : ∀ a, (fs'.inodes a).children = (fs.inodes a).children) : entry_at fs' = entry_at fs := by
  unfold entry_at
  rw [hroot]
  exact follow_congr fun _ a _ => child_of_congr (h a)

theorem SameTree.entry_at (h : SameTree fs fs') : vfs.entry_at fs' = vfs.entry_at fs :=
  entry_at_congr h.root_node fun a => by rw [h.inodes]

theorem entry_concat (hd : entry_at fs d = some y) (name : List Char) :
    entry_at fs (d ++ [name]) = child_of fs y name := by
  unfold entry_at at hd ⊢
  rw [follow_append, hd, Option.bind_some, follow]
  exact Option.bind_fun_some _

/-! ## The calls on names -/

/-- The path ends in a directory of the ramfs. -/
def AtFolder (fs : fs_t) (path : List (List Char)) (y : Nat) (name : List Char) : Prop :=
  ∃ folder, path = folder ++ [name] ∧ leads fs (.inode fs.root_node) folder = .ok (.inode y) ∧
    (fs.inodes y).type = VFS_NODE_TYPE_DIRECTORY

theorem last_name_path {path : List Char} (h : last_name path ≠ []) :
    components [] path = directories path ++ [last_name path] := by
  refine components_path (fun hnil => h (by rw [hnil]; rfl)) fun hlast => h ?_
  unfold last_name
  rw [List.rtakeWhile_eq_nil_iff]
  intro hne hslash
  rw [List.getLast?_eq_some_getLast hne] at hlast
  rw [Option.some.inj hlast] at hslash
  exact of_decide_eq_true hslash rfl

/-- The directory that `vfs_create` and its like change is that of the path, cut to the buffer. -/
theorem edit_folder_at {path : List Char} (h : edit_folder fs path = .ok y) :
    AtFolder fs (components [] (path_copy path)) y (cut_path path).1 := by
  obtain ⟨hname, hparent⟩ := edit_folder_ok h
  obtain ⟨hlead, hdir⟩ := parent_folder_ok hparent
  obtain ⟨hlast, hdirs⟩ := split_path_parts (path_copy path)
  unfold destination at hlead
  unfold cut_path at hname hlead ⊢
  rw [hdirs] at hlead
  rw [hlast] at hname ⊢
  exact ⟨_, last_name_path hname, hlead, hdir⟩

theorem AtFolder.entry_at {path : List (List Char)} (h : AtFolder fs path y name) :
    ∃ folder, path = folder ++ [name] ∧ vfs.entry_at fs folder = some y ∧
      vfs.entry_at fs path = child_of fs y name := by
  obtain ⟨folder, rfl, hlead, -⟩ := h
  exact ⟨folder, rfl, leads_entry hlead, entry_concat (leads_entry hlead) name⟩

/-- The file or directory `c` is at the path, and was there or is new and empty. -/
def MadeAt (fs fs' : fs_t) (path : List (List Char)) (type : vfs_node_type) (c : Nat) : Prop :=
  (∃ y name, AtFolder fs path y name) ∧ ((entry_at fs path = some c ∧ entry_at fs' = entry_at fs) ∨
    (entry_at fs path = none ∧ c ∉ fs.inode_blocks ∧ (fs'.inodes c).type = type ∧
      contents fs' c = [] ∧ entry_at fs' = Function.update (entry_at fs) path (some c)))

/-- What `vfs_create` does to the names. -/
theorem vfs_create_names (h : Resting fs) {path : List Char} {r : resource_result_t} {node : Nat}
    (hc : vfs_create fs path type = .ok (fs', r, node)) :
    if r = RESOURCE_RESULT_OK then ∃ c, place_of (fs'.nodes node) = .inode c ∧
      MadeAt fs fs' (components [] (path_copy path)) type c
    else entry_at fs' = entry_at fs := by
  have hx := (vfs_create_post h path type).result hc
  cases hfolder : edit_folder fs path with
  | error e =>
    rw [hfolder] at hx
    obtain ⟨hres, hne, rest, -, -, hw⟩ := hx
    obtain ⟨rfl, -⟩ := Prod.mk.inj hres
    rw [if_neg hne]
    exact hw.calm.tree.entry_at
  | ok y =>
    rw [hfolder] at hx
    have hat := edit_folder_at hfolder
    obtain ⟨folder, hpath, hy, hentry⟩ := hat.entry_at
    obtain ⟨-, -, -, hdir⟩ := id hat
    dsimp only at hx
    unfold Created at hx
    cases he : (fs.inodes y).child (cut_path path).1 with
    | some e =>
      rw [he] at hx
      obtain ⟨hok, hplace, hw⟩ := hx
      rw [if_pos hok]
      refine ⟨e.node, hplace, ⟨y, _, hat⟩, Or.inl ⟨?_, hw.calm.tree.entry_at⟩⟩
      rw [hentry]
      exact child_of_some.mpr ⟨e, he, rfl⟩
    | none =>
      rw [he] at hx
      dsimp only at hx
      by_cases hfull : RAMFS_NODE_MAX_CHILDREN ≤ (fs.inodes y).children.length
      · rw [if_pos hfull] at hx
        obtain ⟨hres, -, hkept⟩ := hx
        obtain ⟨rfl, -⟩ := Prod.mk.inj hres
        rw [if_neg (by decide)]
        exact hkept.entry_at h.ordered
      · rw [if_neg hfull] at hx
        obtain ⟨hok, hh, c, hplace, hgrown⟩ := hx
        rw [if_pos hok]
        refine ⟨c, hplace, ⟨y, _, hat⟩, Or.inr ⟨?_, hgrown.fresh, ?_, ?_, ?_⟩⟩
        · rw [hentry]
          exact child_of_none.mpr he
        · rw [hgrown.new]
        · unfold contents
          rw [hgrown.new]
          rfl
        · rw [hpath]
          exact hgrown.entry_at h.ordered hy hdir he hh.root_node

/-- What `vfs_link` does to the names. -/
theorem vfs_link_names (h : Steady fs) {old_path new_path : List Char} {r : resource_result_t}
    (hc : vfs_link fs old_path new_path = .ok (fs', r)) :
    if r = RESOURCE_RESULT_OK then ∃ c y name, destination fs old_path = .ok (.inode c) ∧
      IsFile fs c ∧ AtFolder fs (components [] (path_copy new_path)) y name ∧
      entry_at fs (components [] (path_copy new_path)) = none ∧
      entry_at fs' = Function.update (entry_at fs) (components [] (path_copy new_path)) (some c)
    else entry_at fs' = entry_at fs := by
  have hends := (vfs_link_post h old_path new_path).result hc
  by_cases hr : r = RESOURCE_RESULT_OK
  · rw [if_pos hr]
    obtain ⟨c, y, hd, htype, hfolder, hgiven⟩ := hends.named hr
    obtain ⟨hnone, hne, hlinked⟩ := hgiven hr
    obtain ⟨rest, -, hh, -⟩ := hends.handled
    have hat := edit_folder_at hfolder
    obtain ⟨folder, hpath, hy, hentry⟩ := hat.entry_at
    obtain ⟨-, -, -, hdir⟩ := id hat
    have hlive : c ∈ fs.inode_blocks := (destination_reachable hd).mem h.settled.ordered.tree
    have hfile : IsFile fs c := ⟨hlive, htype⟩
    refine ⟨c, y, _, hd, hfile, hat, ?_, ?_⟩
    · rw [hentry]
      exact child_of_none.mpr hnone
    · rw [hpath]
      exact hlinked.entry_at h.settled.ordered hy hdir hnone hfile hh.root_node
  · rw [if_neg hr]
    exact ((vfs_link_keeps h.settled.ordered hc).2 hr).entry_at h.settled.ordered

/-- What `vfs_unlink` does to the names. -/
theorem vfs_unlink_names (h : Resting fs) {path : List Char} {r : resource_result_t}
    (hc : vfs_unlink fs path = .ok (fs', r)) :
    if r = RESOURCE_RESULT_OK then ∃ c y name, AtFolder fs (components [] (path_copy path)) y name ∧
      entry_at fs (components [] (path_copy path)) = some c ∧ IsFile fs c ∧
      entry_at fs' = Function.update (entry_at fs) (components [] (path_copy path)) none
    else entry_at fs' = entry_at fs := by
  have hx := (vfs_unlink_post h path).result hc
  cases hfolder : edit_folder fs path with
  | error e =>
    rw [hfolder] at hx
    obtain ⟨rfl, hne, rest, -, -, hw⟩ := hx
    rw [if_neg hne]
    exact hw.calm.tree.entry_at
  | ok y =>
    rw [hfolder] at hx
    have hat := edit_folder_at hfolder
    obtain ⟨folder, hpath, hy, hentry⟩ := hat.entry_at
    obtain ⟨-, -, -, hdir⟩ := id hat
    dsimp only at hx
    unfold Unlinked at hx
    cases he : (fs.inodes y).child (cut_path path).1 with
    | none =>
      rw [he] at hx
      obtain ⟨rfl, hw⟩ := hx
      rw [if_neg (by decide)]
      exact hw.calm.tree.entry_at
    | some e =>
      rw [he] at hx
      dsimp only at hx
      by_cases htype : (fs.inodes e.node).type = VFS_NODE_TYPE_DIRECTORY
      · rw [if_pos htype] at hx
        obtain ⟨rfl, hw⟩ := hx
        rw [if_neg (by decide)]
        exact hw.calm.tree.entry_at
      · rw [if_neg htype] at hx
        obtain ⟨hok, hh, hshrunk⟩ := hx
        have hfile : (fs.inodes e.node).type = VFS_NODE_TYPE_FILE := by
          cases hkind : (fs.inodes e.node).type with
          | VFS_NODE_TYPE_FILE => rfl
          | VFS_NODE_TYPE_DIRECTORY => exact absurd hkind htype
        have hlive := h.ordered.tree.targets y (h.ordered.entry_live hy) e (child_mem he).1
        rw [if_pos hok]
        refine ⟨e.node, y, _, hat, ?_, ⟨hlive, hfile⟩, ?_⟩
        · rw [hentry]
          exact child_of_some.mpr ⟨e, he, rfl⟩
        · rw [hpath]
          exact hshrunk.entry_at h.ordered hy hdir he hfile hh.root_node

end alura_os.vfs
