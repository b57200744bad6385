-- Runs of the calls that change the names of the ramfs, from the boot on: the
-- counts of links are counts of entries, and a call that fails changes none.
import AluraOs.InitrdFiles

namespace alura_os.vfs

open alura_os.memory alura_os.resource faults
open resource_result_t resource_type_t vfs_node_type ramfs_result_t

variable {fs fs' : fs_t} {r : resource_result_t}

/-! ## Opens -/

theorem ramfs_truncate_keeps (h : Ordered fs) {file : Nat} (hc : ramfs_truncate fs file = .ok fs') :
    Ordered fs' := by
  unfold ramfs_truncate at hc
  obtain ⟨f, -, hc⟩ := bind_ok.mp hc
  obtain ⟨i, hi, hc⟩ := bind_ok.mp hc
  obtain ⟨-, rfl⟩ := inode_ok.mp hi
  cases hc
  have hs := sameNames_setInode fs f.fs_data 0 0
  exact h.same_names ⟨rfl, rfl, rfl, rfl⟩ h.heap ⟨hs.inodes, rfl, rfl, rfl, rfl⟩

theorem vfs_truncate_keeps (h : Ordered fs) {node : Nat} (hc : vfs_truncate fs node = .ok (fs', r)) :
    Ordered fs' := by
  unfold vfs_truncate at hc
  by_cases hz : node = 0
  · rw [if_pos hz] at hc
    cases hc
    exact h
  rw [if_neg hz] at hc
  obtain ⟨n, -, hc⟩ := bind_ok.mp hc
  by_cases ht : n.type ≠ VFS_NODE_TYPE_FILE
  · rw [if_pos ht] at hc
    cases hc
    exact h
  rw [if_neg ht] at hc
  cases hop : n.operations with
  | ramfs =>
    rw [hop] at hc
    obtain ⟨g, hg, hc⟩ := bind_ok.mp hc
    cases hc
    exact ramfs_truncate_keeps h hg
  | devfs => rw [hop] at hc; cases hc; exact h
  | keyboard => rw [hop] at hc; cases hc; exact h
  | terminal => rw [hop] at hc; cases hc; exact h
  | framebuffer => rw [hop] at hc; cases hc; exact h

theorem vfs_open_node_keeps (h : Ordered fs) {path : List Char} {flags node : Nat}
    (hc : vfs_open_node fs path flags = .ok (fs', r, node)) : Ordered fs' := by
  unfold vfs_open_node at hc
  obtain ⟨⟨g, r1, a⟩, hresolve, hc⟩ := bind_ok.mp hc
  have hg := (vfs_resolve_keeps h hresolve).ordered
  dsimp only at hc
  by_cases hr : r1 ≠ RESOURCE_RESULT_OK
  · rw [if_pos hr] at hc
    by_cases hno : r1 ≠ RESOURCE_RESULT_NOT_FOUND ∨ flags &&& SYSCALL_O_CREAT = 0
    · rw [if_pos hno] at hc
      cases hc
      exact hg
    rw [if_neg hno] at hc
    obtain ⟨⟨g1, r2, b⟩, hcreate, hc⟩ := bind_ok.mp hc
    have hg1 := (vfs_create_keeps hg hcreate).1
    dsimp only at hc
    by_cases hr2 : r2 ≠ RESOURCE_RESULT_OK
    · rw [if_pos hr2] at hc
      cases hc
      exact hg1
    rw [if_neg hr2] at hc
    obtain ⟨n, -, hc⟩ := bind_ok.mp hc
    split at hc <;> cases hc <;> exact hg1
  · rw [if_neg hr] at hc
    obtain ⟨n, -, hc⟩ := bind_ok.mp hc
    by_cases ht : n.type ≠ VFS_NODE_TYPE_FILE
    · rw [if_pos ht] at hc
      cases hc
      exact hg
    rw [if_neg ht] at hc
    by_cases hf : flags &&& SYSCALL_O_TRUNC = 0
    · rw [if_pos hf] at hc
      cases hc
      exact hg
    rw [if_neg hf] at hc
    obtain ⟨⟨g1, r2⟩, htruncate, hc⟩ := bind_ok.mp hc
    cases hc
    exact vfs_truncate_keeps hg htruncate

/-! ## Calls -/

/-- A call of the VFS that changes names or holds a node. -/
inductive NameCall where
  | create (path : List Char) (type : vfs_node_type)
  | link (old_path new_path : List Char)
  | unlink (path : List Char)
  | open_file (path : List Char) (flags : Nat)
  | close_file (node : Nat)

/-- The call is `vfs_create`, `vfs_link` or `vfs_unlink`. -/
def NameCall.edits : NameCall → Bool
  | .create _ _ => true
  | .link _ _ => true
  | .unlink _ => true
  | _ => false

def name_call (fs : fs_t) : NameCall → Except fault_t (fs_t × resource_result_t)
  | .create path type => do
    let (fs, result, _) ← vfs_create fs path type
    return (fs, result)
  | .link old_path new_path => vfs_link fs old_path new_path
  | .unlink path => vfs_unlink fs path
  | .open_file path flags => do
    let (fs, result, _) ← vfs_open_node fs path flags
    return (fs, result)
  | .close_file node => do
    let fs ← vfs_release_node fs node
    return (fs, RESOURCE_RESULT_OK)

theorem name_call_keeps (h : Ordered fs) {c : NameCall} (hc : name_call fs c = .ok (fs', r)) :
    Ordered fs' ∧ (c.edits = true → r ≠ RESOURCE_RESULT_OK → Undisturbed fs fs') := by
  unfold name_call at hc
  cases c with
  | create path type =>
    obtain ⟨⟨g, r1, a⟩, hcreate, hc⟩ := bind_ok.mp hc
    cases hc
    obtain ⟨hg, hleft⟩ := vfs_create_keeps h hcreate
    exact ⟨hg, fun _ => hleft⟩
  | link old_path new_path =>
    obtain ⟨hg, hleft⟩ := vfs_link_keeps h hc
    exact ⟨hg, fun _ => hleft⟩
  | unlink path =>
    obtain ⟨hg, hleft⟩ := vfs_unlink_keeps h hc
    exact ⟨hg, fun _ => hleft⟩
  | open_file path flags =>
    obtain ⟨⟨g, r1, a⟩, hopen, hc⟩ := bind_ok.mp hc
    cases hc
    exact ⟨vfs_open_node_keeps h hopen, fun he => by cases he⟩
  | close_file node =>
    obtain ⟨g, hrelease, hc⟩ := bind_ok.mp hc
    cases hc
    exact ⟨(h.release_keeps hrelease).1, fun he => by cases he⟩

/-- One call more. -/
def NameStep (fs fs' : fs_t) : Prop := ∃ c r, name_call fs c = .ok (fs', r)

theorem name_run_keeps {fs0 : fs_t} (h : Ordered fs0) (hrun : Relation.ReflTransGen NameStep fs0 fs) :
    Ordered fs := by
  induction hrun with
  | refl => exact h
  | tail _ hstep ih =>
    obtain ⟨c, r, hc⟩ := hstep
    exact (name_call_keeps ih hc).1

/-! ## What holds of the names -/

open Classical in
/-- How many entries of the directories that can be reached are for a node. -/
noncomputable def tree_links (fs : fs_t) (x : Nat) : Nat :=
  ∑ d ∈ fs.inode_blocks with Reachable fs d, entries (fs.inodes d).children x

/-- The names differ, the directories are not too long, and the counts of links are right. -/
structure NamesAgree (fs : fs_t) : Prop where
  names : ∀ d, Reachable fs d → ((fs.inodes d).children.map ramfs_dirent_t.name).Nodup
  room : ∀ d, Reachable fs d → (fs.inodes d).children.length ≤ RAMFS_NODE_MAX_CHILDREN
  files : ∀ x, Reachable fs x → (fs.inodes x).type = VFS_NODE_TYPE_FILE →
    (fs.inodes x).link_count = tree_links fs x
  directories : ∀ x, Reachable fs x → (fs.inodes x).type = VFS_NODE_TYPE_DIRECTORY →
    x ≠ fs.root_node → tree_links fs x = 1
  ids : ∀ a b, Reachable fs a → Reachable fs b → (fs.inodes a).id = (fs.inodes b).id → a = b

theorem tree_links_le (fs : fs_t) (x : Nat) : tree_links fs x ≤ links fs x := by
  classical
  unfold tree_links links
  exact Finset.sum_le_sum_of_subset (Finset.filter_subset _ _)

theorem Tree.tree_links_eq (h : Tree fs) {x : Nat} (hx : Reachable fs x) :
    tree_links fs x = links fs x := by
  classical
  unfold tree_links links
  apply Finset.sum_subset (Finset.filter_subset _ _)
  intro d hd hout
  -- An entry for a node that can be reached is in a directory that can.
  by_contra hne
  obtain ⟨e, he, rfl⟩ := entries_pos.mp (Nat.pos_of_ne_zero hne)
  exact hout (Finset.mem_filter.mpr ⟨hd, h.closed d hd e he hx⟩)

theorem Tree.names_agree (h : Tree fs) : NamesAgree fs := by
  refine ⟨fun d hd => h.names d (hd.mem h), fun d hd => h.room d (hd.mem h), ?_, ?_,
    fun a b ha hb => h.ids a (ha.mem h) b (hb.mem h)⟩
  · intro x hx ht
    rw [h.tree_links_eq hx]
    rcases hx.cases_root h with rfl | hpos
    · rw [h.directory] at ht
      cases ht
    · exact (h.counts x (hx.mem h)).resolve_left hpos.ne'
  · intro x hx ht hr
    rw [h.tree_links_eq hx]
    have hpos := (hx.cases_root h).resolve_left hr
    have hle := h.single x (hx.mem h) ht
    omega

/-- From the boot on the names agree, and an edit that fails changes no entry, no count of links and
no file, when no member of the initrd lies below one that is a file. -/
theorem names_agree_in_every_run {memory heap : Nat → Nat} {initrd : List tar_entry_t} {fs0 : fs_t}
    (hheap : ∀ n, heap n ≠ 0) (hends : FilesAtTheEnds initrd)
    (hboot : boot memory heap initrd = .ok fs0) (hrun : Relation.ReflTransGen NameStep fs0 fs) :
    NamesAgree fs ∧ ∀ c fs' r, name_call fs c = .ok (fs', r) → c.edits = true →
      r ≠ RESOURCE_RESULT_OK → Undisturbed fs fs' := by
  have h := name_run_keeps (boot_steady hheap hends hboot).settled.ordered hrun
  exact ⟨h.tree.names_agree, fun c fs' r hc => (name_call_keeps h hc).2⟩

/-! ### Two files -/

/-- The boot with the members of an initrd, a link and an unlink. -/
def linked_run (initrd : List tar_entry_t) (old_path new_path path : List Char) :
    Except fault_t (fs_t × fs_t × fs_t) := do
  let fs0 ← boot (fun _ => 0) (fun n => 8 * (n + 1)) initrd
  let (fs1, _) ← name_call fs0 (.link old_path new_path)
  let (fs2, _) ← name_call fs1 (.unlink path)
  return (fs0, fs1, fs2)

theorem linked_run_ok {initrd : List tar_entry_t} {old_path new_path path : List Char}
    {x : fs_t × fs_t × fs_t} (h : linked_run initrd old_path new_path path = .ok x) :
    boot (fun _ => 0) (fun n => 8 * (n + 1)) initrd = .ok x.1 ∧
      Relation.ReflTransGen NameStep x.1 x.2.2 := by
  unfold linked_run at h
  obtain ⟨fs0, hboot, h⟩ := bind_ok.mp h
  obtain ⟨⟨fs1, r1⟩, hlink, h⟩ := bind_ok.mp h
  obtain ⟨⟨fs2, r2⟩, hunlink, h⟩ := bind_ok.mp h
  cases h
  exact ⟨hboot, (Relation.ReflTransGen.single ⟨_, r1, hlink⟩).tail ⟨_, r2, hunlink⟩⟩

theorem linked_run_some {initrd : List tar_entry_t} {old_path new_path path : List Char}
    {P : fs_t × fs_t × fs_t → Bool}
    (h : (linked_run initrd old_path new_path path).toOption.any P = true) :
    ∃ x, linked_run initrd old_path new_path path = .ok x ∧ P x = true := by
  cases hrun : linked_run initrd old_path new_path path with
  | error e =>
    rw [hrun] at h
    cases h
  | ok x =>
    rw [hrun] at h
    exact ⟨x, rfl, h⟩

/-- Two files of the initrd, side by side. -/
def two_files : List tar_entry_t :=
  [⟨"a".toList, VFS_NODE_TYPE_FILE, [], Nat.le_of_ble_eq_true rfl⟩,
    ⟨"b".toList, VFS_NODE_TYPE_FILE, [], Nat.le_of_ble_eq_true rfl⟩]

/-- A file of the initrd, and one below it. -/
def nested_files : List tar_entry_t :=
  [⟨"a".toList, VFS_NODE_TYPE_FILE, [], Nat.le_of_ble_eq_true rfl⟩,
    ⟨"a/b".toList, VFS_NODE_TYPE_FILE, [], Nat.le_of_ble_eq_true rfl⟩]

theorem names_agree_after_a_link_and_an_unlink :
    ∃ fs0 fs2, boot (fun _ => 0) (fun n => 8 * (n + 1)) two_files = .ok fs0 ∧
      Relation.ReflTransGen NameStep fs0 fs2 ∧ NamesAgree fs2 := by
  have hends : FilesAtTheEnds two_files := by
    unfold FilesAtTheEnds two_files
    rw [List.pairwise_pair]
    intro _
    decide
  have hsome : (linked_run two_files "/a".toList "/c".toList "/b".toList).toOption.any
      (fun _ => true) = true := by
    decide +kernel
  obtain ⟨x, hx, -⟩ := linked_run_some hsome
  obtain ⟨hboot, hrun⟩ := linked_run_ok hx
  exact ⟨x.1, x.2.2, hboot, hrun,
    (names_agree_in_every_run (fun n => by omega) hends hboot hrun).1⟩

/-- The file below the other one gets a second name, and the other one goes with its entry. -/
theorem a_file_below_a_file_loses_an_entry :
    ∃ fs0 fs2, boot (fun _ => 0) (fun n => 8 * (n + 1)) nested_files = .ok fs0 ∧
      Relation.ReflTransGen NameStep fs0 fs2 ∧ ¬ NamesAgree fs2 := by
  have hsome : (linked_run nested_files "/a/b".toList "/c".toList "/a".toList).toOption.any
      (fun x => decide (((x.2.2.inodes x.2.2.root_node).child ['c']).map ramfs_dirent_t.node = some 32 ∧
        (x.2.2.inodes 32).type = VFS_NODE_TYPE_FILE ∧ (x.2.2.inodes 32).link_count = 2 ∧
        links x.2.2 32 = 1)) = true := by
    decide +kernel
  obtain ⟨x, hx, hfacts⟩ := linked_run_some hsome
  obtain ⟨hboot, hrun⟩ := linked_run_ok hx
  refine ⟨x.1, x.2.2, hboot, hrun, fun hagree => ?_⟩
  obtain ⟨hchild, ht, htwo, hone⟩ := of_decide_eq_true hfacts
  obtain ⟨e, he, hnode⟩ := Option.map_eq_some_iff.mp hchild
  have hreach : Reachable x.2.2 32 := hnode ▸ Reachable.child .root (child_mem he).1
  have hcount := hagree.files 32 hreach ht
  have hle := tree_links_le x.2.2 32
  omega

end alura_os.vfs
