-- `vfs_open` on settled file systems: the node that it is handed, and what an
-- open that fails leaves behind. The node that it was handed stays locked.
import AluraOs.FsPosts
import AluraOs.ResourceLaws

namespace alura_os.vfs

open alura_os.memory alura_os.resource faults
open resource_result_t resource_type_t vfs_node_type ramfs_result_t

variable {fs0 fs fs' : fs_t} {held : List Nat}

/-! ## Paths after a walk -/

/-- A walk leaves what is mounted. -/
theorem Walk.mounted_eq (h : Walk fs0 fs held) (hr : MountRule fs0) (p : place) :
    Mounted fs p ↔ Mounted fs0 p := by
  constructor
  · rintro ⟨a, ha, rfl, hm⟩
    exact (h.mounted_iff hr ha).mpr hm
  · rintro ⟨a, ha, hp, hm⟩
    obtain ⟨hl, k, hk⟩ := h.tally.kept a ha (hr a ha hm).2.1
    exact ⟨a, hl, by rw [hk]; exact hp, by rw [hk]; exact hm⟩

theorem Walk.crossed_eq (h : Walk fs0 fs held) (hr : MountRule fs0) (p : place) :
    crossed fs p = crossed fs0 p := by
  unfold crossed
  simp only [h.mounted_eq hr p]

theorem Walk.leads_eq (h : Walk fs0 fs held) (hr : MountRule fs0) (p : place)
    (path : List (List Char)) : leads fs p path = leads fs0 p path := by
  induction path generalizing p with
  | nil => rfl
  | cons name path ih =>
    have henter : enter fs (crossed fs p) name = enter fs0 (crossed fs0 p) name := by
      rw [h.crossed_eq hr p, h.calm.tree.enter]
    cases he : enter fs0 (crossed fs0 p) name with
    | error r => rw [leads_error he, leads_error (henter.trans he)]
    | ok q => rw [leads_ok he, leads_ok (henter.trans he), ih]

theorem Walk.destination_eq (h : Walk fs0 fs held) (hr : MountRule fs0) (path : List Char) :
    destination fs path = destination fs0 path := by
  unfold destination
  rw [h.leads_eq hr, h.calm.tree.root_node]

theorem Walk.edit_folder_eq (h : Walk fs0 fs held) (hr : MountRule fs0) (path : List Char) :
    edit_folder fs path = edit_folder fs0 path := by
  unfold edit_folder parent_folder
  simp only [h.destination_eq hr, h.calm.tree.folder]

/-! ## The node of a file -/

/-- The type of the nodes of the VFS for a place. -/
def place_type (fs : fs_t) : place → vfs_node_type
  | .inode y => (fs.inodes y).type
  | .devices => VFS_NODE_TYPE_DIRECTORY
  | .device _ => VFS_NODE_TYPE_FILE

theorem Ordered.type_eq (h : Ordered fs) {a : Nat} (ha : a ∈ fs.node_blocks) :
    (fs.nodes a).type = place_type fs (place_of (fs.nodes a)) := by
  have hview := h.views a ha
  by_cases hop : (fs.nodes a).operations = .ramfs
  · rw [place_of_inode.mpr ⟨hop, rfl⟩]
    exact (hview.shown hop).type.symm
  · unfold Viewed at hview
    rw [if_neg hop] at hview
    by_cases hdev : (fs.nodes a).operations = .devfs
    · rw [if_pos hdev] at hview
      rw [place_of_devices.mpr hdev]
      exact hview.2.2
    · rw [if_neg hdev] at hview
      obtain ⟨-, i, -, htype, -⟩ := hview
      rw [place_of_other hop hdev]
      exact htype

/-- The type of the node that `vfs_create` finds or makes for a file in the directory `y`. -/
def made (fs : fs_t) (y : Nat) (name : List Char) : Option vfs_node_type :=
  match (fs.inodes y).child name with
  | some e => some (fs.inodes e.node).type
  | none =>
    if RAMFS_NODE_MAX_CHILDREN ≤ (fs.inodes y).children.length then none
    else some VFS_NODE_TYPE_FILE

/-- The type of the node that `vfs_open` is handed: the one at the end of the path, or the one that
`vfs_create` finds or makes. -/
def opens (fs : fs_t) (path : List Char) (flags : Nat) : Option vfs_node_type :=
  match destination fs path with
  | .ok p => some (place_type fs p)
  | .error r =>
    if r ≠ RESOURCE_RESULT_NOT_FOUND ∨ flags &&& SYSCALL_O_CREAT = 0 then none
    else match edit_folder fs path with
      | .error _ => none
      | .ok y => made fs y (cut_path path).1

/-- The node that `vfs_resolve` or `vfs_create` hands to `vfs_open`. -/
def handed (fs : fs_t) (path : List Char) (flags : Nat) : Option Nat :=
  match vfs_resolve fs path with
  | .error _ => none
  | .ok (fs, result, node) =>
    if result = RESOURCE_RESULT_OK then some node
    else if result ≠ RESOURCE_RESULT_NOT_FOUND ∨ flags &&& SYSCALL_O_CREAT = 0 then none
    else match vfs_create fs path VFS_NODE_TYPE_FILE with
      | .error _ => none
      | .ok (_, result, node) => if result = RESOURCE_RESULT_OK then some node else none

/-- The count of a node before the call. The reference of the cache to a new node counts. -/
def count_before (fs : fs_t) (node : Nat) : Nat :=
  if node ∈ fs.node_blocks then (fs.nodes node).ref_count else 1

/-- A node that is held shows it. -/
theorem Tally.count_raised (h : Tally fs0 fs held) {node : Nat} (hn : node ∈ held)
    (hlen : held.length ≤ 3) : (fs.nodes node).ref_count ≠ count_before fs0 node := by
  have hpos : 0 < held.count node := List.count_pos_iff.mpr hn
  have hle := List.count_le_length (a := node) (l := held)
  unfold count_before
  by_cases hin : node ∈ fs0.node_blocks
  · rw [if_pos hin, h.old node hin (h.live node hn)]
    unfold u32
    omega
  · rw [if_neg hin, (h.new node (h.live node hn) hin).1]
    unfold u32
    omega

theorem Walk.made_eq (h : Walk fs0 fs held) (y : Nat) (name : List Char) :
    made fs y name = made fs0 y name := by
  unfold made
  rw [h.calm.tree.inodes]

/-- The node that `vfs_create` gives has the type of what it finds or makes. -/
theorem Created.type_eq {y : Nat} {name : List Char} {x : fs_t × resource_result_t × Nat}
    (h : Created fs y name VFS_NODE_TYPE_FILE x) :
    match made fs y name with
    | none => x.2.1 ≠ RESOURCE_RESULT_OK
    | some type => x.2.1 = RESOURCE_RESULT_OK ∧ Handled fs x.1 [x.2.2] ∧
        (x.1.nodes x.2.2).type = type := by
  obtain ⟨g, r, node⟩ := x
  unfold Created at h
  unfold made
  dsimp only at h ⊢
  cases he : (fs.inodes y).child name with
  | some e =>
    rw [he] at h
    obtain ⟨hr, hplace, hw⟩ := h
    have htype := hw.ordered.type_eq (hw.tally.live node List.mem_cons_self)
    rw [hplace] at htype
    refine ⟨hr, hw.handled, htype.trans ?_⟩
    unfold place_type
    rw [hw.calm.tree.inodes]
  | none =>
    rw [he] at h
    dsimp only at h ⊢
    by_cases hfull : RAMFS_NODE_MAX_CHILDREN ≤ (fs.inodes y).children.length
    · rw [if_pos hfull] at h ⊢
      obtain ⟨hx, -⟩ := h
      cases hx
      exact (by decide : RESOURCE_RESULT_ALLOCATION_ERROR ≠ RESOURCE_RESULT_OK)
    · rw [if_neg hfull] at h ⊢
      obtain ⟨hr, hh, c, hplace, hgrown⟩ := h
      have htype := hh.ordered.type_eq (hh.tally.live node List.mem_cons_self)
      rw [hplace] at htype
      refine ⟨hr, hh, htype.trans ?_⟩
      unfold place_type
      dsimp only
      rw [hgrown.new]

/-! ## Up to `resource_register` -/

/-- `vfs_open` before it looks at the type of the node. -/
def Handover (fs : fs_t) (path : List Char) (flags : Nat) (x : fs_t × resource_result_t × Nat) :
    Prop :=
  match opens fs path flags with
  | none => handed fs path flags = none ∧ x.2.1 ≠ RESOURCE_RESULT_OK ∧ Undisturbed fs x.1
  | some type => ∃ node, handed fs path flags = some node ∧
      (x.1.nodes node).ref_count ≠ count_before fs node ∧
      if type = VFS_NODE_TYPE_FILE then
        x.2 = (RESOURCE_RESULT_OK, node) ∧ node ∈ x.1.node_blocks
      else x.2.1 = RESOURCE_RESULT_BAD_PARAMETER

/-- A file can be truncated, which changes no node of the VFS. -/
theorem vfs_truncate_ok (h : Ordered fs) {node : Nat} (hn : node ∈ fs.node_blocks) :
    ∃ g r, vfs_truncate fs node = .ok (g, r) ∧ g.nodes = fs.nodes ∧
      g.node_blocks = fs.node_blocks := by
  unfold vfs_truncate
  rw [if_neg (h.ne_null hn), node_ok.mpr ⟨hn, rfl⟩, ok_bind]
  by_cases ht : (fs.nodes node).type ≠ VFS_NODE_TYPE_FILE
  · rw [if_pos ht]
    exact ⟨_, _, rfl, rfl, rfl⟩
  rw [if_neg ht]
  cases hop : (fs.nodes node).operations with
  | ramfs =>
    have hthere := ((h.views node hn).shown hop).there
    dsimp only
    unfold ramfs_truncate
    rw [node_ok.mpr ⟨hn, rfl⟩, ok_bind, inode_ok.mpr ⟨hthere, rfl⟩, ok_bind]
    exact ⟨_, _, rfl, rfl, rfl⟩
  | devfs => exact ⟨_, _, rfl, rfl, rfl⟩
  | keyboard => exact ⟨_, _, rfl, rfl, rfl⟩
  | terminal => exact ⟨_, _, rfl, rfl, rfl⟩
  | framebuffer => exact ⟨_, _, rfl, rfl, rfl⟩

theorem vfs_open_node_post (h : Steady fs) (path : List Char) (flags : Nat) :
    Post (fun e => e = .taken ∨
        (e = .overflow ∧ LongAhead fs (.inode fs.root_node) (components [] path)))
      (fun x => ¬ LongAhead fs (.inode fs.root_node) (components [] path) ∧
        Handover fs path flags x)
      (vfs_open_node fs path flags) := by
  have hres := destination_post h.settled.resting path
  unfold Handover
  unfold vfs_open_node handed opens
  cases hresolve : vfs_resolve fs path with
  | error e =>
    rw [error_bind]
    exact hres.fault hresolve
  | ok x =>
  obtain ⟨g, result, node⟩ := x
  obtain ⟨hshort, hx⟩ := hres.result hresolve
  rw [ok_bind]
  dsimp only
  cases hd : destination fs path with
  | ok p =>
    rw [hd] at hx
    obtain ⟨rfl, hp, rest, hlen, -, -, -, hw, -⟩ := hx
    dsimp only at hp hw
    have hlive := hw.tally.live node List.mem_cons_self
    have hcount := hw.tally.count_raised List.mem_cons_self (by rw [List.length_cons]; omega)
    have htype : (g.nodes node).type = place_type fs p := by
      rw [hw.ordered.type_eq hlive, hp]
      unfold place_type
      rw [hw.calm.tree.inodes]
    simp only [ne_eq, not_true_eq_false, if_false, if_true]
    rw [node_ok.mpr ⟨hlive, rfl⟩, ok_bind]
    by_cases hf : (g.nodes node).type = VFS_NODE_TYPE_FILE
    · simp only [← htype, hf, not_true_eq_false, if_false, if_true]
      by_cases ht : flags &&& SYSCALL_O_TRUNC = 0
      · rw [if_pos ht]
        exact ⟨hshort, node, rfl, hcount, rfl, hlive⟩
      · obtain ⟨g1, r, hg, hnodes, hblocks⟩ := vfs_truncate_ok hw.ordered hlive
        rw [if_neg ht, hg, ok_bind]
        refine ⟨hshort, node, rfl, ?_, rfl, ?_⟩
        · rw [hnodes]
          exact hcount
        · rw [hblocks]
          exact hlive
    · simp only [← htype, hf, not_false_eq_true, if_false, if_true]
      exact ⟨hshort, node, rfl, hcount, rfl⟩
  | error r =>
    rw [hd] at hx
    obtain ⟨hres, hr, rest, -, hlen, hnodup, hw⟩ := hx
    obtain ⟨rfl, rfl⟩ := Prod.mk.inj hres
    simp only [if_neg hr, if_pos hr]
    by_cases hno : result ≠ RESOURCE_RESULT_NOT_FOUND ∨ flags &&& SYSCALL_O_CREAT = 0
    · simp only [if_pos hno]
      exact ⟨hshort, trivial, hr, hw.calm.undisturbed⟩
    simp only [if_neg hno]
    have hrest : Resting g := h.after hw.handled hnodup
    have hcreate := vfs_create_post hrest path VFS_NODE_TYPE_FILE
    rw [hw.edit_folder_eq h.settled.mounts] at hcreate
    cases hc : vfs_create g path VFS_NODE_TYPE_FILE with
    | error e =>
      rw [error_bind]
      exact Or.inl (hcreate.fault hc)
    | ok x =>
    obtain ⟨g1, result, child⟩ := x
    have hx := hcreate.result hc
    have hkeeps := (vfs_create_keeps hrest.ordered hc).2
    rw [ok_bind]
    dsimp only
    cases hfolder : edit_folder fs path with
    | error r =>
      rw [hfolder] at hx
      obtain ⟨hres, hr', -⟩ := hx
      obtain ⟨rfl, rfl⟩ := Prod.mk.inj hres
      simp only [if_neg hr', if_pos hr']
      exact ⟨hshort, trivial, hr', Undisturbed.after hw.calm (hkeeps hr')⟩
    | ok y =>
      rw [hfolder] at hx
      have hmade := hx.type_eq
      dsimp only
      rw [hw.made_eq] at hmade
      cases hm : made fs y (cut_path path).1 with
      | none =>
        rw [hm] at hmade
        dsimp only at hmade ⊢
        simp only [if_neg hmade, if_pos hmade]
        exact ⟨hshort, trivial, hmade, Undisturbed.after hw.calm (hkeeps hmade)⟩
      | some type =>
        rw [hm] at hmade
        obtain ⟨rfl, hh, htype⟩ := hmade
        dsimp only at hh htype ⊢
        have hall := hw.handled.trans hh h.settled.counts (List.nodup_iff_count_le_one.mp hnodup) (by decide)
        have hcount := hall.tally.count_raised
          (List.mem_append_left rest (List.mem_singleton_self child)) (by simp; omega)
        have hlive := hh.tally.live child List.mem_cons_self
        simp only [ne_eq, not_true_eq_false, if_false, if_true]
        rw [node_ok.mpr ⟨hlive, rfl⟩, ok_bind, htype]
        by_cases hf : type = VFS_NODE_TYPE_FILE
        · simp only [hf, not_true_eq_false, if_false, if_true]
          exact ⟨hshort, child, rfl, hcount, rfl, hlive⟩
        · simp only [hf, not_false_eq_true, if_false, if_true]
          exact ⟨hshort, child, rfl, hcount, rfl⟩

/-! ## `vfs_open` -/

/-- `vfs_open`, with the block that the kernel heap gives for the record of the open file. -/
def vfs_open (fs : fs_t) (s : Store) (task : Nat) (path : List Char) (flags block : Nat) :
    Except fault_t (fs_t × Store × resource_result_t × Nat) := do
  let (fs, result, node) ← vfs_open_node fs path flags
  if result ≠ RESOURCE_RESULT_OK then return (fs, s, result, 0)
  match resource_register s task (← fs.node node).resource_type node vfs_operations flags block with
  | none => throw .taken
  | some (s, result, index) => return (fs, s, result, index)

/-- An open left the open files of the tasks, the entries and the contents of the files, and the
count of the node that it was handed. -/
structure Untouched (fs : fs_t) (s : Store) (path : List Char) (flags : Nat) (fs' : fs_t)
    (s' : Store) : Prop where
  store : s' = s
  files : Undisturbed fs fs'
  count : ∀ node, handed fs path flags = some node →
    (fs'.nodes node).ref_count = count_before fs node

/-- The open has no node to hand on, or it ends with an open file: the node is one of a file, and
the task has a slot for it. -/
def NothingToUndo (fs : fs_t) (s : Store) (task : Nat) (path : List Char) (flags : Nat) : Prop :=
  opens fs path flags = none ∨
    (opens fs path flags = some VFS_NODE_TYPE_FILE ∧ (free_slot s task).isSome)

/-- An open that fails leaves everything as it was exactly when it fails before it is handed a
node. -/
theorem failed_open_leaves_everything_iff (h : Steady fs) {s s' : Store} {task : Nat}
    {path : List Char} {flags block : Nat} {result : resource_result_t} {index : Nat}
    (hc : vfs_open fs s task path flags block = .ok (fs', s', result, index)) :
    (result ≠ RESOURCE_RESULT_OK → Untouched fs s path flags fs' s') ↔
      NothingToUndo fs s task path flags := by
  unfold vfs_open at hc
  obtain ⟨⟨g, r, node⟩, hopen, hc⟩ := bind_ok.mp hc
  obtain ⟨-, hx⟩ := (vfs_open_node_post h path flags).result hopen
  dsimp only at hc
  unfold Handover at hx
  unfold NothingToUndo
  cases ho : opens fs path flags with
  | none =>
    rw [ho] at hx
    obtain ⟨hnone, hr, hleft⟩ := hx
    rw [if_pos hr] at hc
    cases hc
    refine ⟨fun _ => Or.inl rfl, fun _ _ => ⟨rfl, hleft, ?_⟩⟩
    intro node hn
    rw [hnone] at hn
    cases hn
  | some type =>
    rw [ho] at hx
    obtain ⟨a, hhanded, hcount, hif⟩ := hx
    -- The node that the open was handed stays locked.
    have hviolated : ¬ Untouched fs s path flags g s' := fun hu => hcount (hu.count a hhanded)
    by_cases hf : type = VFS_NODE_TYPE_FILE
    · rw [if_pos hf] at hif
      obtain ⟨hx, hlive⟩ := hif
      obtain ⟨rfl, rfl⟩ := Prod.mk.inj hx
      rw [if_neg (by simp), node_ok.mpr ⟨hlive, rfl⟩, ok_bind] at hc
      unfold resource_register at hc
      cases hslot : free_slot s task with
      | none =>
        rw [hslot] at hc
        cases hc
        simpa using hviolated
      | some i =>
        rw [hslot] at hc
        dsimp only at hc
        by_cases hb : Block s.blocks block
        · rw [if_pos hb] at hc
          cases hc
          simp [hf]
        · rw [if_neg hb] at hc
          cases hc
    · rw [if_neg hf] at hif
      dsimp only at hif
      rw [if_pos (by rw [hif]; decide)] at hc
      cases hc
      rw [hif]
      simpa [hf] using hviolated

theorem steady_shelf_one : Steady (shelf 1) where
  settled := settled_shelf_one
  root := by decide

/-- The root is no file, and the open that found it leaves it locked. -/
theorem an_open_of_a_directory_leaves_it_locked :
    ∃ fs' s' index, vfs_open (shelf 1) oneTask 0xF0000008 ['/'] 0 0xF0001000 =
        .ok (fs', s', RESOURCE_RESULT_BAD_PARAMETER, index) ∧
      ¬ Untouched (shelf 1) oneTask ['/'] 0 fs' s' := by
  refine ⟨locked (shelf 1) 4, oneTask, 0, rfl, fun hu => ?_⟩
  have hroot := hu.count 4 rfl
  rw [locked_self] at hroot
  revert hroot
  decide

/-- An open without `SYSCALL_O_CREAT` of a file that is not there is handed no node. -/
theorem an_open_of_a_missing_file_leaves_everything :
    ∃ fs' s' index, vfs_open (shelf 1) oneTask 0xF0000008 ['/', 'b'] 0 0xF0001000 =
        .ok (fs', s', RESOURCE_RESULT_NOT_FOUND, index) ∧
      (RESOURCE_RESULT_NOT_FOUND ≠ RESOURCE_RESULT_OK →
        Untouched (shelf 1) oneTask ['/', 'b'] 0 fs' s') := by
  have hmounted : ¬ Mounted (shelf 1) (.inode 8) := by
    rintro ⟨a, -, -, hm⟩
    exact hm rfl
  have hlost : destination (shelf 1) ['/', 'b'] = .error RESOURCE_RESULT_NOT_FOUND := by
    show leads (shelf 1) (.inode 8) [['b']] = _
    rw [leads_error]
    rw [crossed, if_neg hmounted]
    rfl
  have hnone : opens (shelf 1) ['/', 'b'] 0 = none := by
    unfold opens
    rw [hlost]
    rfl
  have hopen : vfs_open (shelf 1) oneTask 0xF0000008 ['/', 'b'] 0 0xF0001000 =
      .ok (locked (shelf 1) 4, oneTask, RESOURCE_RESULT_NOT_FOUND, 0) := rfl
  exact ⟨_, _, _, hopen,
    (failed_open_leaves_everything_iff steady_shelf_one hopen).mpr (Or.inl hnone)⟩

end alura_os.vfs
