-- Runs of the calls that tasks make on files, with the open resources of the tasks: a node
-- of the VFS stays while a resource, a mount point or `vfs.root` points to it, whatever is
-- opened, closed, shared, linked or unlinked.
import AluraOs.FsData

namespace alura_os.vfs

open alura_os.memory alura_os.task_manager alura_os.resource faults byte_strings
open resource_result_t resource_type_t vfs_node_type ramfs_result_t

/-! ## The calls -/

/-- The file systems, the tasks and the open resources. -/
structure Files where
  fs : fs_t
  store : Store

/-- `vfs_read` into a buffer that is there, for a length that is not zero. `device` is what the
driver of a device answers. -/
def vfs_read (fs : fs_t) (node offset length : Nat) (device : resource_result_t × List Nat) :
    Except fault_t (resource_result_t × List Nat) := do
  let n ← fs.node node
  if n.type ≠ VFS_NODE_TYPE_FILE then return (RESOURCE_RESULT_INVALID, [])
  match n.operations with
  | .ramfs => ramfs_read fs node offset length
  | .keyboard => return device
  | _ => return (RESOURCE_RESULT_BAD_PARAMETER, [])

/-- `vfs_write` from a buffer that is there, for a length that is not zero. -/
def vfs_write (fs : fs_t) (node offset : Nat) (buffer : Nat → Nat) (length : Nat)
    (device : resource_result_t × Nat) : Except fault_t (fs_t × resource_result_t × Nat) := do
  let n ← fs.node node
  if n.type ≠ VFS_NODE_TYPE_FILE then return (fs, RESOURCE_RESULT_INVALID, 0)
  match n.operations with
  | .ramfs => ramfs_write fs node offset buffer length
  | .terminal => return (fs, device)
  | .framebuffer => return (fs, device)
  | _ => return (fs, RESOURCE_RESULT_BAD_PARAMETER, 0)

/-- `vfs_close` -/
def vfs_close (fs : fs_t) (s : Store) (resource : Nat) : Except fault_t fs_t :=
  vfs_release_node fs (s.resources resource).data

/-- `resource_remove` calls `resource->operations.close`. -/
def Closes (s : Store) (task index : Nat) : Prop :=
  index < TASK_MAX_RESOURCES ∧ s.slot task index ≠ 0 ∧
    sub32 (s.resources (s.slot task index)).ref_count 1 = 0 ∧
    (s.resources (s.slot task index)).operations.close = true

instance (s : Store) (task index : Nat) : Decidable (Closes s task index) :=
  inferInstanceAs (Decidable (_ ∧ _ ∧ _ ∧ _))

/-- `resource_remove` with the call of `vfs_close`. -/
def close_resource (f : Files) (task index : Nat) : Except fault_t (Files × resource_result_t) := do
  let fs ← if Closes f.store task index then vfs_close f.fs f.store (f.store.slot task index)
    else pure f.fs
  let (s, result) := resource_remove f.store task index
  return (⟨fs, s⟩, result)

/-- The release loop of `task_manager_destroy_task`. -/
def close_resources (f : Files) (task : Nat) : Except fault_t Files :=
  (List.range TASK_MAX_RESOURCES).foldlM
    (fun f i => if f.store.slot task i = 0 then pure f else do
      let (f, _) ← close_resource f task i
      return f) f

/-- What `syscall_stat` does with a path: the type, the kind and the size of what is there. -/
def vfs_stat (fs : fs_t) (path : List Char) : Except fault_t (fs_t × resource_result_t ×
    vfs_node_type × resource_type_t × Nat) := do
  let (fs, result, node) ← vfs_resolve fs path
  if result ≠ RESOURCE_RESULT_OK then
    return (fs, result, VFS_NODE_TYPE_FILE, RESOURCE_TYPE_FILE, 0)
  let n ← fs.node node
  let (_, size) ←
    if n.type = VFS_NODE_TYPE_FILE then vfs_get_size fs node else pure (RESOURCE_RESULT_OK, 0)
  return (← vfs_release_node fs node, RESOURCE_RESULT_OK, n.type, n.resource_type, size)

/-- What `elf_load_into_task` does with the node of the executable: it is released where the load
fails, unless there is no page directory, and stays locked where the load ends well. -/
def exec_node (fs : fs_t) (path : List Char) (released : Bool) :
    Except fault_t (fs_t × resource_result_t) := do
  let (fs, result, node) ← vfs_resolve fs path
  if result ≠ RESOURCE_RESULT_OK then return (fs, result)
  if (← fs.node node).type ≠ VFS_NODE_TYPE_FILE then
    return (← vfs_release_node fs node, RESOURCE_RESULT_INVALID)
  if released then return (← vfs_release_node fs node, RESOURCE_RESULT_INVALID)
  return (fs, RESOURCE_RESULT_OK)

/-- What the tasks do to files. -/
inductive VfsCall where
  | open_file (task : Nat) (path : List Char) (flags block : Nat)
  | close_file (task index : Nat)
  | fork (parent child : Nat) (task : task_t)
  | destroy (task : Nat)
  | run (task : Nat) (after : task_t)
  | seek (resource offset flags : Nat)
  | write (task index offset : Nat) (buffer : Nat → Nat) (length : Nat)
      (device : resource_result_t × Nat)
  | stat (path : List Char)
  | exec (path : List Char) (released : Bool)
  | create (path : List Char) (type : vfs_node_type)
  | link (old_path new_path : List Char)
  | unlink (path : List Char)

/-- The file that a slot of a task is for. -/
def slot_node (f : Files) (task index : Nat) : Nat :=
  (f.store.resources (f.store.slot task index)).data

def vfs_call (f : Files) : VfsCall → Except fault_t (Files × resource_result_t)
  | .open_file task path flags block => do
    let (fs, s, result, _) ← vfs_open f.fs f.store task path flags block
    return (⟨fs, s⟩, result)
  | .close_file task index => close_resource f task index
  | .fork parent child task =>
    return (⟨f.fs, share_resources (new_task f.store child task) child parent⟩, RESOURCE_RESULT_OK)
  | .destroy task => do
    let f ← close_resources f task
    return (⟨f.fs, free_task f.store task⟩, RESOURCE_RESULT_OK)
  | .run task after =>
    return (⟨f.fs, { f.store with tasks := Function.update f.store.tasks task after }⟩,
      RESOURCE_RESULT_OK)
  | .seek resource offset flags =>
    return (⟨f.fs, f.store.setResource resource
      { f.store.resources resource with offset := offset, flags := flags }⟩, RESOURCE_RESULT_OK)
  | .write task index offset buffer length device => do
    let (fs, result, _) ← vfs_write f.fs (slot_node f task index) offset buffer length device
    return (⟨fs, f.store⟩, result)
  | .stat path => do
    let (fs, result, _) ← vfs_stat f.fs path
    return (⟨fs, f.store⟩, result)
  | .exec path released => do
    let (fs, result) ← exec_node f.fs path released
    return (⟨fs, f.store⟩, result)
  | .create path type => do
    let (fs, result, _) ← vfs_create f.fs path type
    return (⟨fs, f.store⟩, result)
  | .link old_path new_path => do
    let (fs, result) ← vfs_link f.fs old_path new_path
    return (⟨fs, f.store⟩, result)
  | .unlink path => do
    let (fs, result) ← vfs_unlink f.fs path
    return (⟨fs, f.store⟩, result)

/-- The tasks of the call exist, the kernel heap gives what it can give, and a write does not wrap. -/
def Allowed (f : Files) : VfsCall → Prop
  | .open_file task _ _ _ => task ∈ f.store.live
  | .close_file task _ => task ∈ f.store.live
  | .fork parent child task => parent ∈ f.store.live ∧ TaskBlock f.store.live child ∧
      ∀ i < TASK_MAX_RESOURCES, task.resources i = 0
  | .destroy task => task ∈ f.store.live
  | .run task after => after.resources = (f.store.tasks task).resources
  | .write task index offset _ length _ => task ∈ f.store.live ∧ index < TASK_MAX_RESOURCES ∧
      f.store.slot task index ≠ 0 ∧ offset + length + 7 < 0x100000000
  | _ => True

/-- No count of references is about to wrap. -/
def Roomy (f : Files) : Prop := ∀ a ∈ f.fs.node_blocks, (f.fs.nodes a).ref_count + 2 < 0x100000000

/-- One call more. -/
def VfsStep (f f' : Files) : Prop :=
  Roomy f ∧ ∃ c result, Allowed f c ∧ vfs_call f c = .ok (f', result)

/-! ## Open resources -/

/-- How many open resources are for a node. -/
def opened (s : Store) (a : Nat) : Nat := ({r ∈ s.blocks | (s.resources r).data = a} : Finset Nat).card

section opened

variable {s s' : Store} {b a : Nat}

theorem opened_pos : 0 < opened s a ↔ ∃ r ∈ s.blocks, (s.resources r).data = a := by
  unfold opened
  rw [Finset.card_pos]
  constructor
  · rintro ⟨r, hr⟩
    exact ⟨r, Finset.mem_filter.mp hr⟩
  · rintro ⟨r, hr, hd⟩
    exact ⟨r, Finset.mem_filter.mpr ⟨hr, hd⟩⟩

/-- The same resources are open, for the same nodes. -/
structure SameOpen (s s' : Store) : Prop where
  blocks : s'.blocks = s.blocks
  data : ∀ r ∈ s.blocks, (s'.resources r).data = (s.resources r).data

theorem SameOpen.opened_eq (h : SameOpen s s') : opened s' = opened s := by
  obtain ⟨hb, hd⟩ := h
  funext a
  unfold opened
  rw [hb]
  congr 1
  ext r
  rw [Finset.mem_filter, Finset.mem_filter]
  constructor
  · rintro ⟨hr, he⟩
    exact ⟨hr, (hd r hr).symm.trans he⟩
  · rintro ⟨hr, he⟩
    exact ⟨hr, (hd r hr).trans he⟩

theorem opened_more (hb : s'.blocks = insert b s.blocks) (hnew : b ∉ s.blocks)
    (hd : ∀ r ∈ s.blocks, (s'.resources r).data = (s.resources r).data) :
    opened s' = fun a => opened s a + if (s'.resources b).data = a then 1 else 0 := by
  funext a
  have hold : ({r ∈ s.blocks | (s'.resources r).data = a} : Finset Nat) =
      {r ∈ s.blocks | (s.resources r).data = a} :=
    Finset.filter_congr fun r hr => by rw [hd r hr]
  unfold opened
  rw [hb, Finset.filter_insert, hold]
  split
  · exact Finset.card_insert_of_notMem fun hm => hnew (Finset.mem_filter.mp hm).1
  · rfl

theorem opened_less (hb : s'.blocks = s.blocks.erase b) (hmem : b ∈ s.blocks)
    (hd : ∀ r ∈ s.blocks, (s'.resources r).data = (s.resources r).data) :
    opened s' = Function.update (opened s) (s.resources b).data
      (opened s (s.resources b).data - 1) := by
  funext a
  have hold : ({r ∈ s.blocks.erase b | (s'.resources r).data = a} : Finset Nat) =
      {r ∈ s.blocks | (s.resources r).data = a}.erase b := by
    rw [← Finset.filter_erase]
    exact Finset.filter_congr fun r hr => by rw [hd r (Finset.mem_of_mem_erase hr)]
  unfold opened
  rw [hb, hold]
  by_cases ha : a = (s.resources b).data
  · subst ha
    rw [Function.update_self]
    exact Finset.card_erase_of_mem (Finset.mem_filter.mpr ⟨hmem, rfl⟩)
  · rw [Function.update_of_ne ha]
    congr 1
    exact Finset.erase_eq_of_notMem fun hm => ha (Finset.mem_filter.mp hm).2.symm

/-- A removal changes the count of its resource, and the resource goes if the count is zero. -/
theorem remove_resources (s : Store) (t i : Nat) (r : Nat) :
    ((resource_remove s t i).1.resources r).data = (s.resources r).data := by
  unfold resource_remove
  by_cases hi : TASK_MAX_RESOURCES ≤ i
  · rw [if_pos hi]
  rw [if_neg hi]
  by_cases hz : s.slot t i = 0
  · simp only [if_pos hz]
  simp only [if_neg hz]
  have hset : ∀ x : resource_t, x.data = (s.resources (s.slot t i)).data →
      (Function.update s.resources (s.slot t i) x r).data = (s.resources r).data := by
    intro x hx
    by_cases hr : r = s.slot t i
    · rw [hr, Function.update_self, hx]
    · rw [Function.update_of_ne hr]
  split
  · unfold close_and_free
    split <;> exact hset _ rfl
  · exact hset _ rfl

theorem remove_blocks (h : Counted s) {t i : Nat} (ht : t ∈ s.live) :
    (resource_remove s t i).1.blocks =
      if Closes s t i then s.blocks.erase (s.slot t i) else s.blocks := by
  unfold resource_remove
  by_cases hi : TASK_MAX_RESOURCES ≤ i
  · have hno : ¬ Closes s t i := fun hc => absurd hc.1 (Nat.not_lt.mpr hi)
    rw [if_pos hi, if_neg hno]
  rw [if_neg hi]
  by_cases hz : s.slot t i = 0
  · have hno : ¬ Closes s t i := fun hc => hc.2.1 hz
    simp only [if_pos hz, if_neg hno]
  simp only [if_neg hz]
  have hclose := h.closes _ (h.slots t ht i (Nat.lt_of_not_le hi) hz)
  by_cases hlast : sub32 (s.resources (s.slot t i)).ref_count 1 = 0
  · have hyes : Closes s t i := ⟨Nat.lt_of_not_le hi, hz, hlast, hclose⟩
    rw [if_pos hlast, if_pos hyes]
    unfold close_and_free
    split <;> rfl
  · have hno : ¬ Closes s t i := fun hc => hlast hc.2.2.1
    rw [if_neg hlast, if_neg hno]
    rfl

theorem share_resources_open (s : Store) (c p : Nat) : SameOpen s (share_resources s c p) := by
  unfold share_resources
  apply loops.foldl_range (P := fun _ => SameOpen s)
  · intro i s1 _ h1
    by_cases hz : s1.slot p i ≠ 0
    · rw [if_pos hz]
      refine ⟨h1.blocks, fun r hr => ?_⟩
      rw [← h1.data r hr]
      by_cases he : r = s1.slot p i
      · rw [he]
        simp [resource_share, Store.setSlot, Store.setResource]
      · simp [resource_share, Store.setSlot, Store.setResource, he]
    · rw [if_neg hz]
      exact h1
  · exact ⟨rfl, fun _ _ => rfl⟩

theorem opened_register {t data flags block index : Nat} {type : resource_type_t}
    {result : resource_result_t}
    (hr : resource_register s t type data vfs_operations flags block = some (s', result, index)) :
    (result ≠ RESOURCE_RESULT_OK ∧ opened s' = opened s ∧ s'.blocks = s.blocks ∧
        s'.resources = s.resources) ∨
      (result = RESOURCE_RESULT_OK ∧ opened s' = (fun a => opened s a + if data = a then 1 else 0) ∧
        block ∉ s.blocks ∧ s'.blocks = insert block s.blocks ∧ (s'.resources block).data = data ∧
        ∀ r ∈ s.blocks, s'.resources r = s.resources r) := by
  unfold resource_register at hr
  split at hr
  · cases hr
    exact Or.inl ⟨by decide, rfl, rfl, rfl⟩
  · rename_i i _
    by_cases hb : Block s.blocks block
    · rw [if_pos hb] at hr
      cases hr
      have hold : ∀ r ∈ s.blocks, r ≠ block := fun r hr he => hb.2.2 (he ▸ hr)
      refine Or.inr ⟨rfl, ?_, hb.2.2, rfl, ?_, fun r hr => ?_⟩
      · rw [opened_more rfl hb.2.2 fun r hr => ?_]
        · simp [Store.setSlot, new_resource]
        · simp [Store.setSlot, new_resource, hold r hr]
      · simp [Store.setSlot, new_resource]
      · simp [Store.setSlot, new_resource, hold r hr]
    · rw [if_neg hb] at hr
      cases hr

end opened

/-! ## What every call keeps -/

variable {f f' : Files} {fs' : fs_t} {held : List Nat} {r : Nat} {c : VfsCall}

/-- Every pointer to a node is counted, the resources count their slots, and the blocks of the files
are apart. -/
structure Sound (f : Files) : Prop where
  held : Held f.fs (opened f.store)
  counted : Counted f.store
  stored : Stored f.fs
  files : ∀ r ∈ f.store.blocks, (f.fs.nodes (f.store.resources r).data).type = VFS_NODE_TYPE_FILE

theorem Sound.steady (h : Sound f) (hroom : Roomy f) : Steady f.fs :=
  h.held.steady fun a ha => by have := hroom a ha; omega

theorem Sound.node_live (h : Sound f) (hr : r ∈ f.store.blocks) :
    (f.store.resources r).data ∈ f.fs.node_blocks :=
  h.held.opened _ (opened_pos.mpr ⟨r, hr, rfl⟩)

/-- The node of an open resource stays over a call that takes references. -/
theorem Sound.node_kept (h : Sound f) (hh : Handled f.fs fs' held) (hr : r ∈ f.store.blocks) :
    (f.store.resources r).data ∈ fs'.node_blocks ∧ ∃ k, fs'.nodes (f.store.resources r).data =
      { f.fs.nodes (f.store.resources r).data with ref_count := k } := by
  have hopen : 0 < opened f.store (f.store.resources r).data := opened_pos.mpr ⟨r, hr, rfl⟩
  have hpos := Nat.lt_of_lt_of_le hopen (refs_le_references f.fs (opened f.store) _)
  exact hh.tally.kept _ (h.node_live hr) (h.held.count_ne_one (h.node_live hr) hpos)

/-- A call that takes references, two at most to one node. -/
theorem Sound.handled (h : Sound f) (hroom : Roomy f) (hh : Handled f.fs fs' held)
    (hn : ∀ a, held.count a ≤ 2) (hs : Stored fs') : Sound ⟨fs', f.store⟩ := by
  have hheld := h.held.handled hh
    (fun a ha => Nat.lt_of_le_of_lt (Nat.add_le_add_left (hn a) _) (hroom a ha))
    (fun a => by have := hn a; omega) (fun _ => 0) fun _ => Nat.zero_le _
  refine ⟨hheld, h.counted, hs, fun r hr => ?_⟩
  obtain ⟨-, k, hk⟩ := h.node_kept hh hr
  dsimp only
  rw [hk]
  exact h.files r hr

/-- A change of the data of files. -/
theorem Sound.data (h : Sound f) (hd : DataOnly f.fs fs') (hs : Stored fs') :
    Sound ⟨fs', f.store⟩ := by
  have hordered := hd.ordered h.held.ordered
  have hheld := h.held.edited hordered hd.same hd.root hd.names.root_node
  refine ⟨hheld, h.counted, hs, fun r hr => ?_⟩
  dsimp only
  rw [hd.same.nodes]
  exact h.files r hr

/-- A change of the slots of the tasks. -/
theorem Sound.same_open {s' : Store} (h : Sound f) (hc : Counted s') (hs : SameOpen f.store s') :
    Sound ⟨f.fs, s'⟩ := by
  refine ⟨?_, hc, h.stored, fun r hr => ?_⟩
  · dsimp only
    rw [hs.opened_eq]
    exact h.held
  · dsimp only at hr ⊢
    rw [hs.blocks] at hr
    rw [hs.data r hr]
    exact h.files r hr

/-! ## Closes -/

theorem released_type (fs : fs_t) (a b : Nat) :
    ((released fs a).nodes b).type = (fs.nodes b).type := by
  obtain ⟨k, hk⟩ := released_record fs a b
  rw [hk]

/-- No record of the ramfs differs, no byte, and no node of the VFS is for something else. -/
structure Dropped (fs fs' : fs_t) : Prop where
  inodes : fs'.inodes = fs.inodes
  memory : fs'.memory = fs.memory
  root_node : fs'.root_node = fs.root_node
  places : ∀ b, place_of (fs'.nodes b) = place_of (fs.nodes b)
  mounted : ∀ p, Mounted fs' p ↔ Mounted fs p

/-- A mount point does not go with a reference that was taken. -/
theorem Held.mount_point_stays {fs g : fs_t} {refs : Nat → Nat} {a b : Nat} (h : Held fs refs)
    (hp : 0 < refs a) (hg : vfs.released fs a = g) (hb : b ∈ fs.node_blocks)
    (hm : (fs.nodes b).mount ≠ 0) : b ∈ g.node_blocks := by
  have hsub : sub32 (fs.nodes a).ref_count 1 = (fs.nodes a).ref_count - 1 := by
    have hcount := h.counts a (h.opened a hp)
    have hfit := h.fits a (h.opened a hp)
    unfold sub32
    omega
  rw [← hg, released_blocks, hsub]
  by_cases hone : (fs.nodes a).ref_count - 1 = 1
  · rw [if_pos hone]
    refine Finset.mem_erase.mpr ⟨fun he => ?_, hb⟩
    have hcount := h.counts b hb
    unfold references pointers at hcount
    rw [if_neg hm, he] at hcount
    omega
  · rwa [if_neg hone]

theorem released_blocks_subset (fs : fs_t) (a : Nat) :
    (released fs a).node_blocks ⊆ fs.node_blocks := by
  rw [released_blocks]
  by_cases hone : sub32 (fs.nodes a).ref_count 1 = 1
  · rw [if_pos hone]
    exact Finset.erase_subset _ _
  · rw [if_neg hone]

theorem Held.released_mounts {fs : fs_t} {refs : Nat → Nat} {a : Nat} (h : Held fs refs)
    (hp : 0 < refs a) (p : place) : Mounted (vfs.released fs a) p ↔ Mounted fs p := by
  have hrecord := released_record fs a
  have hsubset := released_blocks_subset fs a
  generalize hg : vfs.released fs a = g at *
  constructor
  · rintro ⟨b, hb, rfl, hm⟩
    obtain ⟨k, hk⟩ := hrecord b
    rw [hk] at hm ⊢
    exact ⟨b, hsubset hb, rfl, hm⟩
  · rintro ⟨b, hb, rfl, hm⟩
    obtain ⟨k, hk⟩ := hrecord b
    exact ⟨b, h.mount_point_stays hp hg hb hm, by rw [hk]; rfl, by rw [hk]; exact hm⟩

theorem Held.dropped {fs : fs_t} {refs : Nat → Nat} {a : Nat} (h : Held fs refs)
    (hp : 0 < refs a) : Dropped fs (vfs.released fs a) := by
  have hleft : Undisturbed fs (vfs.released fs a) := undisturbed_released rfl
  exact ⟨released_inodes rfl, hleft.memory, hleft.root_node, place_of_released fs a,
    h.released_mounts hp⟩

theorem Dropped.refl (fs : fs_t) : Dropped fs fs :=
  ⟨rfl, rfl, rfl, fun _ => rfl, fun _ => Iff.rfl⟩

theorem Dropped.trans {fs g fs' : fs_t} (h : Dropped fs g) (h' : Dropped g fs') : Dropped fs fs' :=
  ⟨h'.inodes.trans h.inodes, h'.memory.trans h.memory, h'.root_node.trans h.root_node,
    fun b => (h'.places b).trans (h.places b), fun p => (h'.mounted p).trans (h.mounted p)⟩

/-- A close has a result. -/
theorem Sound.closed (h : Sound f) {task : Nat} (ht : task ∈ f.store.live) (index : Nat) :
    ∃ f' result, close_resource f task index = .ok (f', result) ∧ Sound f' ∧
      f'.store = (resource_remove f.store task index).1 ∧ Dropped f.fs f'.fs := by
  have hcounted := h.counted.step (.remove (i := index) ht)
  have hblocks := remove_blocks h.counted (i := index) ht
  have hdata := remove_resources f.store task index
  unfold close_resource
  generalize resource_remove f.store task index = x at *
  obtain ⟨s', result⟩ := x
  dsimp only at hcounted hblocks hdata ⊢
  by_cases hc : Closes f.store task index
  · obtain ⟨hi, hz, -⟩ := id hc
    have hr := h.counted.slots task ht index hi hz
    have hopen : 0 < opened f.store (f.store.resources (f.store.slot task index)).data :=
      opened_pos.mpr ⟨_, hr, rfl⟩
    have ha := h.node_live hr
    have hfs := h.held.ordered.release_ok ha
    have hheld := h.held.released hopen
    have hstored := h.held.ordered.released_stored ha h.stored
    have hdropped := h.held.dropped hopen
    have htype := released_type f.fs (f.store.resources (f.store.slot task index)).data
    rw [if_pos hc] at hblocks ⊢
    unfold vfs_close
    rw [hfs, ok_bind]
    clear hfs
    generalize released f.fs (f.store.resources (f.store.slot task index)).data = g at *
    refine ⟨_, _, rfl, ⟨?_, hcounted, hstored, ?_⟩, rfl, hdropped⟩
    · dsimp only
      rw [opened_less hblocks hr fun r _ => hdata r]
      exact hheld
    · intro r hr
      dsimp only at hr ⊢
      rw [hblocks] at hr
      rw [hdata, htype]
      exact h.files r (Finset.mem_of_mem_erase hr)
  · rw [if_neg hc] at hblocks ⊢
    exact ⟨_, _, rfl, h.same_open hcounted ⟨hblocks, fun r _ => hdata r⟩, rfl, .refl f.fs⟩

/-- The release loop of a task that is destroyed. -/
theorem Sound.all_closed (h : Sound f) {task : Nat} (ht : task ∈ f.store.live) :
    ∃ f', close_resources f task = .ok f' ∧ Sound f' ∧
      f'.store = release_resources f.store task ∧ Dropped f.fs f'.fs := by
  unfold close_resources release_resources
  suffices hloop : ∃ f', (List.range TASK_MAX_RESOURCES).foldlM
      (fun f i => if f.store.slot task i = 0 then pure f else do
        let (f, _) ← close_resource f task i
        return f) f = .ok f' ∧ Sound f' ∧ f'.store.live = f.store.live ∧
      f'.store = (List.range TASK_MAX_RESOURCES).foldl
        (fun s i => if s.slot task i = 0 then s else (resource_remove s task i).1) f.store ∧
      Dropped f.fs f'.fs by
    obtain ⟨f', hf', hsound, -, hrest⟩ := hloop
    exact ⟨f', hf', hsound, hrest⟩
  apply foldlM_range (P := fun i g => Sound g ∧ g.store.live = f.store.live ∧
    g.store = (List.range i).foldl
      (fun s i => if s.slot task i = 0 then s else (resource_remove s task i).1) f.store ∧
    Dropped f.fs g.fs)
  · intro i g _ ⟨hg, hlive, hstore, hdropped⟩
    have hturn : (List.range (i + 1)).foldl
        (fun s i => if s.slot task i = 0 then s else (resource_remove s task i).1) f.store =
        if g.store.slot task i = 0 then g.store else (resource_remove g.store task i).1 := by
      rw [List.range_succ, List.foldl_append, ← hstore]
      rfl
    rw [hturn]
    by_cases hz : g.store.slot task i = 0
    · rw [if_pos hz, if_pos hz]
      exact ⟨g, rfl, hg, hlive, rfl, hdropped⟩
    · rw [if_neg hz, if_neg hz]
      obtain ⟨g', result, hc, hg', hs, hd⟩ := hg.closed (hlive ▸ ht) i
      rw [hc, ok_bind]
      refine ⟨g', rfl, hg', ?_, hs, hdropped.trans hd⟩
      rw [hs, remove_live, hlive]
  · exact ⟨h, rfl, rfl, .refl f.fs⟩

/-! ## One call -/

/-- The call changes the bytes of a file: it writes to it, or opens it for truncation. -/
def Alters (f : Files) (x : Nat) : VfsCall → Prop
  | .write task index _ _ _ _ => place_of (f.fs.nodes (slot_node f task index)) = .inode x
  | .open_file _ path flags _ =>
    flags &&& SYSCALL_O_TRUNC ≠ 0 ∧ destination f.fs path = .ok (.inode x)
  | _ => False

/-- What a call leaves: the files that it does not alter, the mount points, and the resources that
stay open with what they are for. -/
structure Leaves (f : Files) (c : VfsCall) (f' : Files) : Prop where
  bytes : ∀ x, IsFile f.fs x → ¬ Alters f x c → contents f'.fs x = contents f.fs x
  types : ∀ x ∈ f.fs.inode_blocks, (f'.fs.inodes x).type = (f.fs.inodes x).type
  mounted : ∀ p, Mounted f'.fs p ↔ Mounted f.fs p
  resources : ∀ r ∈ f.store.blocks, r ∈ f'.store.blocks →
    (f'.store.resources r).data = (f.store.resources r).data
  nodes : ∀ r ∈ f.store.blocks, r ∈ f'.store.blocks →
    place_of (f'.fs.nodes (f.store.resources r).data) = place_of (f.fs.nodes (f.store.resources r).data)

/-- A call leaves what is mounted. -/
theorem Handled.mounted_eq {fs : fs_t} (h : Handled fs fs' held) (hr : MountRule fs) (p : place) :
    Mounted fs' p ↔ Mounted fs p := by
  constructor
  · rintro ⟨a, ha, rfl, hm⟩
    obtain ⟨ha0, he⟩ := h.tally.mounts a ha hm
    rw [← he] at hm
    obtain ⟨-, k, hk⟩ := h.tally.kept a ha0 (hr a ha0 hm).2.1
    exact ⟨a, ha0, by rw [hk]; rfl, hm⟩
  · rintro ⟨a, ha, rfl, hm⟩
    obtain ⟨hl, k, hk⟩ := h.tally.kept a ha (hr a ha hm).2.1
    exact ⟨a, hl, by rw [hk]; rfl, by rw [hk]; exact hm⟩

/-- A call on paths leaves the resources and the bytes. -/
theorem Sound.leaves (h : Sound f) (hh : Handled f.fs fs' held) (hq : Quiet f.fs fs')
    (c : VfsCall) : Leaves f c ⟨fs', f.store⟩ := by
  refine ⟨fun x hx _ => hq.contents_eq hx.1, fun x hx => (hq.data x hx).2.2,
    hh.mounted_eq h.held.mount_rule, fun _ _ _ => rfl, fun r hr _ => ?_⟩
  obtain ⟨-, k, hk⟩ := h.node_kept hh hr
  dsimp only
  rw [hk]
  rfl

theorem Sound.path_call (h : Sound f) (hroom : Roomy f) (hh : Handled f.fs fs' held)
    (hn : ∀ a, held.count a ≤ 2) (hq : Quiet f.fs fs') (c : VfsCall) :
    Sound ⟨fs', f.store⟩ ∧ Leaves f c ⟨fs', f.store⟩ :=
  ⟨h.handled hroom hh hn (hq.stored h.stored), h.leaves hh hq c⟩

theorem Opened.types {path : List Char} {flags x : Nat} (h : Opened f.fs fs' path flags)
    (hx : x ∈ f.fs.inode_blocks) : (fs'.inodes x).type = (f.fs.inodes x).type := by
  rcases h with hq | ⟨g, y, -, -, hcalm, -, rfl⟩
  · exact (hq.data x hx).2.2
  · rw [← hcalm.tree.inodes]
    exact ((dataOnly_truncated g y).names.record x).2.2.1

theorem Opened.bytes {path : List Char} {flags x : Nat} (h : Opened f.fs fs' path flags)
    (hx : IsFile f.fs x)
    (hno : ¬ (flags &&& SYSCALL_O_TRUNC ≠ 0 ∧ destination f.fs path = .ok (.inode x))) :
    contents fs' x = contents f.fs x := by
  rcases h with hq | ⟨g, y, hflags, hd, hcalm, -, rfl⟩
  · exact hq.contents_eq hx.1
  · have hne : x ≠ y := fun he => hno ⟨hflags, he ▸ hd⟩
    rw [contents_truncated_ne hne]
    exact hcalm.quiet.contents_eq hx.1

/-- An open: the resource that it registers has a reference of its own to the node. -/
theorem Sound.opened_file (h : Sound f) (hroom : Roomy f) {task : Nat} (ht : task ∈ f.store.live)
    {path : List Char} {flags block : Nat} {s' : Store} {result : resource_result_t} {index : Nat}
    (hc : vfs_open f.fs f.store task path flags block = .ok (fs', s', result, index)) :
    Sound ⟨fs', s'⟩ ∧ Leaves f (.open_file task path flags block) ⟨fs', s'⟩ := by
  unfold vfs_open at hc
  obtain ⟨⟨g, r1, node⟩, hopen, hc⟩ := bind_ok.mp hc
  obtain ⟨⟨held, hn, hh, hok⟩, hopened⟩ := vfs_open_node_handled (h.steady hroom) hopen
  have hstored := hopened.stored h.stored
  have hsame := h.handled hroom hh hn hstored
  have hbytes := fun x (hx : IsFile f.fs x) => hopened.bytes hx
  have htypes := fun x (hx : x ∈ f.fs.inode_blocks) => hopened.types hx
  have hmounted := hh.mounted_eq h.held.mount_rule
  have hplaces : ∀ r ∈ f.store.blocks, place_of (g.nodes (f.store.resources r).data) =
      place_of (f.fs.nodes (f.store.resources r).data) := by
    intro r hr
    obtain ⟨-, k, hk⟩ := h.node_kept hh hr
    rw [hk]
    rfl
  dsimp only at hc
  by_cases hr1 : r1 ≠ RESOURCE_RESULT_OK
  · rw [if_pos hr1] at hc
    cases hc
    exact ⟨hsame, hbytes, htypes, hmounted, fun _ _ _ => rfl, fun r hr _ => hplaces r hr⟩
  rw [if_neg hr1] at hc
  obtain ⟨n, hn', hc⟩ := bind_ok.mp hc
  obtain ⟨hnode, htype⟩ := hok (not_not.mp hr1)
  cases hreg : resource_register f.store task n.resource_type node vfs_operations flags block with
  | none =>
    rw [hreg] at hc
    cases hc
  | some x =>
    rw [hreg] at hc
    obtain ⟨s1, r2, i⟩ := x
    cases hc
    have hcounted := h.counted.register ht hreg
    rcases opened_register hreg with ⟨-, ho, hb, hres⟩ | ⟨-, ho, -, hb, hdata, hold⟩
    · have hopen : SameOpen f.store s' := ⟨hb, fun r _ => by rw [hres]⟩
      refine ⟨hsame.same_open hcounted hopen, hbytes, htypes, hmounted, fun r _ _ => ?_,
        fun r hr _ => hplaces r hr⟩
      dsimp only
      rw [hres]
    · have hheld := h.held.handled hh
        (fun a ha => Nat.lt_of_le_of_lt (Nat.add_le_add_left (hn a) _) (hroom a ha))
        (fun a => by have := hn a; omega) (fun a => if node = a then 1 else 0) fun a => by
          have := List.count_pos_iff.mpr hnode
          split
          · rename_i he
            rw [← he]
            exact this
          · exact Nat.zero_le _
      refine ⟨⟨?_, hcounted, hstored, fun r hr => ?_⟩, hbytes, htypes, hmounted,
        fun r hr _ => ?_, fun r hr _ => hplaces r hr⟩
      · dsimp only
        rw [ho]
        exact hheld
      · dsimp only at hr ⊢
        rw [hb, Finset.mem_insert] at hr
        rcases hr with rfl | hr
        · rw [hdata]
          exact htype
        · rw [hold r hr]
          exact hsame.files r hr
      · dsimp only
        rw [hold r hr]

/-- What `vfs_resolve` leaves locked. -/
theorem Steady.resolved {fs g : fs_t} (h : Steady fs) {path : List Char} {result : resource_result_t}
    {node : Nat} (hc : vfs_resolve fs path = .ok (g, result, node)) :
    if result = RESOURCE_RESULT_OK then ∃ rest : List Nat, rest.length ≤ 1 ∧ node ∉ rest ∧
      Walk fs g (node :: rest) ∧ ¬ GoesWith g (g.nodes node)
    else ∃ rest : List Nat, rest.Nodup ∧ Walk fs g rest := by
  obtain ⟨-, hx⟩ := (destination_post h.settled.resting path).result hc
  dsimp only at hx
  cases hd : destination fs path with
  | ok p =>
    rw [hd] at hx
    obtain ⟨hok, -, rest, hlen, -, -, hout, hw, hstay⟩ := hx
    rw [if_pos hok]
    exact ⟨rest, hlen, hout, hw, hstay⟩
  | error e =>
    rw [hd] at hx
    obtain ⟨hres, hr, rest, -, -, hnodup, hw⟩ := hx
    obtain ⟨rfl, -⟩ := Prod.mk.inj hres
    rw [if_neg hr]
    exact ⟨rest, hnodup, hw⟩

/-- The node that a path leads to, and that is released again. -/
theorem Steady.looked_at {fs g : fs_t} (h : Steady fs) {path : List Char} {node : Nat}
    (hc : vfs_resolve fs path = .ok (g, RESOURCE_RESULT_OK, node)) :
    node ∈ g.node_blocks ∧ Ordered g ∧ ∃ fs', vfs_release_node g node = .ok fs' ∧
      ∃ held : List Nat, (∀ a, held.count a ≤ 2) ∧ Handled fs fs' held ∧ Quiet fs fs' := by
  have hx := h.resolved hc
  rw [if_pos rfl] at hx
  obtain ⟨rest, hlen, -, hw, hstay⟩ := hx
  obtain ⟨fs', hrel, hh, hcalm, -⟩ :=
    hw.handled.dropped h.settled.counts (nodup_short hlen) hstay
  refine ⟨hw.tally.live node List.mem_cons_self, hw.ordered, fs', hrel, rest, fun a => ?_, hh,
    (hw.calm.trans hcalm).quiet⟩
  have := List.count_le_length (a := a) (l := rest)
  omega

/-- The node that a path leads to, and that stays locked. -/
theorem Steady.kept_locked {fs g : fs_t} (h : Steady fs) {path : List Char}
    {result : resource_result_t} {node : Nat} (hc : vfs_resolve fs path = .ok (g, result, node)) :
    ∃ held : List Nat, (∀ a, held.count a ≤ 2) ∧ Handled fs g held ∧ Quiet fs g := by
  have hx := h.resolved hc
  split at hx
  · obtain ⟨rest, hlen, -, hw, -⟩ := hx
    refine ⟨_, fun a => ?_, hw.handled, hw.calm.quiet⟩
    have := List.count_le_length (a := a) (l := node :: rest)
    rw [List.length_cons] at this
    omega
  · obtain ⟨rest, hnodup, hw⟩ := hx
    exact ⟨rest, fun a => Nat.le_succ_of_le (List.nodup_iff_count_le_one.mp hnodup a), hw.handled,
      hw.calm.quiet⟩

theorem vfs_stat_handled {fs fs' : fs_t} (h : Steady fs) {path : List Char}
    {x : resource_result_t × vfs_node_type × resource_type_t × Nat}
    (hc : vfs_stat fs path = .ok (fs', x)) :
    ∃ held : List Nat, (∀ a, held.count a ≤ 2) ∧ Handled fs fs' held ∧ Quiet fs fs' := by
  unfold vfs_stat at hc
  obtain ⟨⟨g, result, node⟩, hres, hc⟩ := bind_ok.mp hc
  dsimp only at hc
  by_cases hr : result ≠ RESOURCE_RESULT_OK
  · rw [if_pos hr] at hc
    cases hc
    exact h.kept_locked hres
  rw [if_neg hr] at hc
  obtain rfl := not_not.mp hr
  obtain ⟨-, -, g', hrel, hends⟩ := h.looked_at hres
  obtain ⟨n, -, hc⟩ := bind_ok.mp hc
  split at hc
  · obtain ⟨⟨r1, size⟩, -, hc⟩ := bind_ok.mp hc
    rw [hrel] at hc
    cases hc
    exact hends
  · rw [pure_bind, hrel] at hc
    cases hc
    exact hends

theorem exec_node_handled {fs fs' : fs_t} (h : Steady fs) {path : List Char} {released : Bool}
    {result : resource_result_t} (hc : exec_node fs path released = .ok (fs', result)) :
    ∃ held : List Nat, (∀ a, held.count a ≤ 2) ∧ Handled fs fs' held ∧ Quiet fs fs' := by
  unfold exec_node at hc
  obtain ⟨⟨g, r1, node⟩, hres, hc⟩ := bind_ok.mp hc
  dsimp only at hc
  by_cases hr : r1 ≠ RESOURCE_RESULT_OK
  · rw [if_pos hr] at hc
    cases hc
    exact h.kept_locked hres
  rw [if_neg hr] at hc
  obtain rfl := not_not.mp hr
  obtain ⟨-, -, g', hrel, hends⟩ := h.looked_at hres
  obtain ⟨n, -, hc⟩ := bind_ok.mp hc
  rw [hrel] at hc
  split at hc
  · cases hc
    exact hends
  · split at hc
    · cases hc
      exact hends
    · cases hc
      exact h.kept_locked hres

theorem vfs_link_handled {fs fs' : fs_t} (h : Steady fs) {old_path new_path : List Char}
    {result : resource_result_t} (hc : vfs_link fs old_path new_path = .ok (fs', result)) :
    ∃ held : List Nat, (∀ a, held.count a ≤ 2) ∧ Handled fs fs' held := by
  obtain ⟨rest, hnodup, hh, -⟩ := ((vfs_link_post h old_path new_path).result hc).handled
  exact ⟨rest, fun a => Nat.le_succ_of_le (List.nodup_iff_count_le_one.mp hnodup a), hh⟩

/-- A write through a slot of a task. -/
theorem Sound.written (h : Sound f) {task index offset length : Nat} {buffer : Nat → Nat}
    {device : resource_result_t × Nat} {x : resource_result_t × Nat}
    (ha : Allowed f (.write task index offset buffer length device))
    (hc : vfs_write f.fs (slot_node f task index) offset buffer length device = .ok (fs', x)) :
    Sound ⟨fs', f.store⟩ ∧ Leaves f (.write task index offset buffer length device) ⟨fs', f.store⟩ := by
  obtain ⟨hlive, hindex, hslot, hfit⟩ := ha
  have hnode := h.node_live (h.counted.slots task hlive index hindex hslot)
  have hsame : fs' = f.fs → Sound ⟨fs', f.store⟩ ∧
      Leaves f (.write task index offset buffer length device) ⟨fs', f.store⟩ := by
    rintro rfl
    exact ⟨h, fun _ _ _ => rfl, fun _ _ => rfl, fun _ => Iff.rfl, fun _ _ _ => rfl,
      fun _ _ _ => rfl⟩
  unfold vfs_write at hc
  obtain ⟨n, hn, hc⟩ := bind_ok.mp hc
  obtain ⟨-, rfl⟩ := node_ok.mp hn
  by_cases ht : (f.fs.nodes (slot_node f task index)).type ≠ VFS_NODE_TYPE_FILE
  · rw [if_pos ht] at hc
    cases hc
    exact hsame rfl
  rw [if_neg ht] at hc
  cases hop : (f.fs.nodes (slot_node f task index)).operations with
  | ramfs =>
    rw [hop] at hc
    dsimp only at hc
    obtain ⟨result, n⟩ := x
    have hplace := place_of_inode.mpr ⟨hop, rfl⟩
    have hs := (h.held.ordered.views _ hnode).shown hop
    have hfile : IsFile f.fs (f.fs.nodes (slot_node f task index)).fs_data :=
      ⟨hs.there, hs.type.trans (not_not.mp ht)⟩
    have hdata := ramfs_write_data hc
    obtain ⟨hstored, -, -, hnodes, -, -, hothers⟩ := contents_write h.stored hfile (by omega)
      (fun _ => ⟨h.held.ordered.heap.next, le_block_length hfit⟩) hc
    refine ⟨h.data hdata hstored, fun y hy hno => hothers y hy fun he => hno ?_,
      fun y _ => (hdata.names.record y).2.2.1, fun p => ?_, fun _ _ _ => rfl, fun r _ _ => ?_⟩
    · exact hplace.trans (congrArg place.inode he.symm)
    · unfold Mounted
      dsimp only
      rw [hdata.same.node_blocks, hdata.same.nodes]
    · dsimp only
      rw [hnodes]
  | devfs => rw [hop] at hc; cases hc; exact hsame rfl
  | keyboard => rw [hop] at hc; cases hc; exact hsame rfl
  | terminal => rw [hop] at hc; cases hc; exact hsame rfl
  | framebuffer => rw [hop] at hc; cases hc; exact hsame rfl

/-- A call that changes the slots and nothing of the file systems. -/
theorem Sound.store_call {s' : Store} (h : Sound f) (hstep : Step f.store s')
    (hs : SameOpen f.store s') (c : VfsCall) : Sound ⟨f.fs, s'⟩ ∧ Leaves f c ⟨f.fs, s'⟩ :=
  ⟨h.same_open (h.counted.step hstep) hs, fun _ _ _ => rfl, fun _ _ => rfl, fun _ => Iff.rfl,
    fun r hr _ => hs.data r hr, fun _ _ _ => rfl⟩

theorem Dropped.leaves {s' : Store} (h : Dropped f.fs fs')
    (hdata : ∀ r, (s'.resources r).data = (f.store.resources r).data) (c : VfsCall) :
    Leaves f c ⟨fs', s'⟩ := by
  refine ⟨fun x _ _ => ?_, fun x _ => ?_, h.mounted, fun r _ _ => hdata r,
    fun r _ _ => h.places _⟩
  · unfold contents
    dsimp only
    rw [h.inodes, h.memory]
  · dsimp only
    rw [h.inodes]

theorem release_resources_data (s : Store) (t r : Nat) :
    ((release_resources s t).resources r).data = (s.resources r).data := by
  have hloop : ∀ s1 : Store, (s1.resources r).data = (s.resources r).data → ∀ slots : List Nat,
      ((slots.foldl (fun s i => if s.slot t i = 0 then s else (resource_remove s t i).1) s1).resources
        r).data = (s.resources r).data := by
    intro s1 h1 slots
    induction slots generalizing s1 with
    | nil => exact h1
    | cons i slots ih =>
      apply ih
      dsimp only
      split
      · exact h1
      · rw [remove_resources, h1]
  unfold release_resources
  exact hloop s rfl (List.range TASK_MAX_RESOURCES)

/-- Every call of the tasks keeps the pointers counted, and leaves what it does not alter. -/
theorem vfs_call_keeps (h : Sound f) (hroom : Roomy f) (ha : Allowed f c)
    {result : resource_result_t} (hc : vfs_call f c = .ok (f', result)) :
    Sound f' ∧ Leaves f c f' := by
  have hsteady := h.steady hroom
  unfold vfs_call at hc
  cases c with
  | open_file task path flags block =>
    obtain ⟨⟨fs', s', r1, index⟩, hopen, hc⟩ := bind_ok.mp hc
    cases hc
    exact h.opened_file hroom ha hopen
  | close_file task index =>
    obtain ⟨f1, r1, hclose, hsound, hstore, hdropped⟩ := h.closed ha index
    dsimp only at hc
    rw [hclose] at hc
    cases hc
    refine ⟨hsound, @Dropped.leaves _ _ f'.store hdropped (fun r => ?_) _⟩
    rw [hstore, remove_resources]
  | fork parent child task =>
    cases hc
    obtain ⟨hparent, hchild, hempty⟩ := ha
    have hshare := share_resources_open (new_task f.store child task) child parent
    exact h.store_call (.fork hparent hchild hempty) ⟨hshare.blocks, hshare.data⟩ _
  | destroy task =>
    obtain ⟨f1, hclose, hsound, hstore, hdropped⟩ := h.all_closed ha
    dsimp only at hc
    rw [hclose] at hc
    cases hc
    have hfreed : Counted (free_task f1.store task) := by
      rw [hstore]
      exact h.counted.step (.destroy ha)
    refine ⟨hsound.same_open hfreed ⟨rfl, fun _ _ => rfl⟩, hdropped.leaves (fun r => ?_) _⟩
    have hrelease := release_resources_data f.store task r
    rw [← hstore] at hrelease
    exact hrelease
  | run task after =>
    cases hc
    exact h.store_call (.task ha) ⟨rfl, fun _ _ => rfl⟩ _
  | seek resource offset flags =>
    cases hc
    refine h.store_call .use ⟨rfl, fun r _ => ?_⟩ _
    unfold Store.setResource
    by_cases hr : r = resource
    · rw [hr]
      dsimp only
      rw [Function.update_self]
    · dsimp only
      rw [Function.update_of_ne hr]
  | write task index offset buffer length device =>
    obtain ⟨⟨fs', x⟩, hwrite, hc⟩ := bind_ok.mp hc
    cases hc
    exact h.written ha hwrite
  | stat path =>
    obtain ⟨⟨fs', x⟩, hstat, hc⟩ := bind_ok.mp hc
    cases hc
    obtain ⟨held, hn, hh, hq⟩ := vfs_stat_handled hsteady hstat
    exact h.path_call hroom hh hn hq _
  | exec path released =>
    obtain ⟨⟨fs', r1⟩, hexec, hc⟩ := bind_ok.mp hc
    cases hc
    obtain ⟨held, hn, hh, hq⟩ := exec_node_handled hsteady hexec
    exact h.path_call hroom hh hn hq _
  | create path type =>
    obtain ⟨⟨fs', r1, node⟩, hcreate, hc⟩ := bind_ok.mp hc
    cases hc
    obtain ⟨held, -, hnodup, hh, -⟩ := vfs_create_handled hsteady.settled.resting hcreate
    exact h.path_call hroom hh
      (fun a => Nat.le_succ_of_le (List.nodup_iff_count_le_one.mp hnodup a))
      (vfs_create_quiet h.held.ordered hcreate) _
  | link old_path new_path =>
    obtain ⟨⟨fs', r1⟩, hlink, hc⟩ := bind_ok.mp hc
    cases hc
    obtain ⟨held, hn, hh⟩ := vfs_link_handled hsteady hlink
    exact h.path_call hroom hh hn (vfs_link_quiet h.held.ordered hlink) _
  | unlink path =>
    obtain ⟨⟨fs', r1⟩, hunlink, hc⟩ := bind_ok.mp hc
    cases hc
    obtain ⟨held, hnodup, hh⟩ := vfs_unlink_handled hsteady.settled.resting hunlink
    exact h.path_call hroom hh
      (fun a => Nat.le_succ_of_le (List.nodup_iff_count_le_one.mp hnodup a))
      (vfs_unlink_quiet h.held.ordered hunlink) _

/-! ## Faults -/

/-- The call looks up a component that does not fit into the buffer of `vfs_resolve`. -/
def LongName (f : Files) : VfsCall → Prop
  | .open_file _ path _ _ => LongAhead f.fs (.inode f.fs.root_node) (components [] path)
  | .stat path => LongAhead f.fs (.inode f.fs.root_node) (components [] path)
  | .exec path _ => LongAhead f.fs (.inode f.fs.root_node) (components [] path)
  | .link old_path _ => LongAhead f.fs (.inode f.fs.root_node) (components [] old_path)
  | _ => False

section faults

variable {fs : fs_t} {node : Nat} {e : fault_t} {path : List Char}

theorem ramfs_write_fault {offset length : Nat} {buffer : Nat → Nat} (hn : node ∈ fs.node_blocks)
    (hi : (fs.nodes node).fs_data ∈ fs.inode_blocks)
    (hc : ramfs_write fs node offset buffer length = .error e) : e = .taken := by
  unfold ramfs_write at hc
  rw [node_ok.mpr ⟨hn, rfl⟩, ok_bind, inode_ok.mpr ⟨hi, rfl⟩, ok_bind] at hc
  dsimp only at hc
  split at hc
  · rcases bind_fault.mp hc with hgrow | ⟨x, -, hc⟩
    · unfold ramfs_grow at hgrow
      rw [inode_ok.mpr ⟨hi, rfl⟩, ok_bind] at hgrow
      dsimp only at hgrow
      split at hgrow
      · cases hgrow
      split at hgrow
      · cases hgrow
        rfl
      · cases hgrow
    · split at hc <;> cases hc
  · rw [pure_bind] at hc
    dsimp only at hc
    split at hc <;> cases hc

theorem vfs_write_fault (h : Ordered fs) {offset length : Nat} {buffer : Nat → Nat}
    {device : resource_result_t × Nat} (hn : node ∈ fs.node_blocks)
    (hc : vfs_write fs node offset buffer length device = .error e) : e = .taken := by
  unfold vfs_write at hc
  rw [node_ok.mpr ⟨hn, rfl⟩, ok_bind] at hc
  split at hc
  · cases hc
  cases hop : (fs.nodes node).operations with
  | ramfs =>
    rw [hop] at hc
    exact ramfs_write_fault hn ((h.views node hn).shown hop).there hc
  | devfs => rw [hop] at hc; cases hc
  | keyboard => rw [hop] at hc; cases hc
  | terminal => rw [hop] at hc; cases hc
  | framebuffer => rw [hop] at hc; cases hc

theorem vfs_get_size_ok (h : Ordered fs) (hn : node ∈ fs.node_blocks) :
    vfs_get_size fs node ≠ .error e := by
  unfold vfs_get_size ramfs_size
  rw [node_ok.mpr ⟨hn, rfl⟩, ok_bind]
  cases hop : (fs.nodes node).operations with
  | ramfs =>
    dsimp only
    rw [ok_bind, inode_ok.mpr ⟨((h.views node hn).shown hop).there, rfl⟩, ok_bind]
    intro hc
    cases hc
  | devfs => exact fun hc => by cases hc
  | keyboard => exact fun hc => by cases hc
  | terminal => exact fun hc => by cases hc
  | framebuffer => exact fun hc => by cases hc

theorem vfs_stat_fault (h : Steady fs) (hc : vfs_stat fs path = .error e) : e = .taken ∨
    (e = .overflow ∧ LongAhead fs (.inode fs.root_node) (components [] path)) := by
  unfold vfs_stat at hc
  rcases bind_fault.mp hc with hres | ⟨⟨g, result, node⟩, hres, hc⟩
  · exact (destination_post h.settled.resting path).fault hres
  dsimp only at hc
  by_cases hr : result ≠ RESOURCE_RESULT_OK
  · rw [if_pos hr] at hc
    cases hc
  rw [if_neg hr] at hc
  obtain rfl := not_not.mp hr
  obtain ⟨hlive, hordered, fs', hrel, -⟩ := h.looked_at hres
  rw [node_ok.mpr ⟨hlive, rfl⟩, ok_bind] at hc
  split at hc
  · rcases bind_fault.mp hc with hsize | ⟨x, -, hc⟩
    · exact absurd hsize (vfs_get_size_ok hordered hlive)
    · rw [hrel] at hc
      cases hc
  · rw [pure_bind, hrel] at hc
    cases hc

theorem exec_node_fault (h : Steady fs) {released : Bool} (hc : exec_node fs path released = .error e) :
    e = .taken ∨ (e = .overflow ∧ LongAhead fs (.inode fs.root_node) (components [] path)) := by
  unfold exec_node at hc
  rcases bind_fault.mp hc with hres | ⟨⟨g, result, node⟩, hres, hc⟩
  · exact (destination_post h.settled.resting path).fault hres
  dsimp only at hc
  by_cases hr : result ≠ RESOURCE_RESULT_OK
  · rw [if_pos hr] at hc
    cases hc
  rw [if_neg hr] at hc
  obtain rfl := not_not.mp hr
  obtain ⟨hlive, -, fs', hrel, -⟩ := h.looked_at hres
  rw [node_ok.mpr ⟨hlive, rfl⟩, ok_bind, hrel] at hc
  split at hc
  · cases hc
  · split at hc <;> cases hc

theorem vfs_open_fault (h : Steady fs) {s : Store} {task flags block : Nat}
    (hc : vfs_open fs s task path flags block = .error e) : e = .taken ∨
      (e = .overflow ∧ LongAhead fs (.inode fs.root_node) (components [] path)) := by
  unfold vfs_open at hc
  rcases bind_fault.mp hc with hopen | ⟨⟨g, result, node⟩, hopen, hc⟩
  · exact (vfs_open_node_post h path flags).fault hopen
  obtain ⟨⟨held, -, hh, hok⟩, -⟩ := vfs_open_node_handled h hopen
  dsimp only at hc
  by_cases hr : result ≠ RESOURCE_RESULT_OK
  · rw [if_pos hr] at hc
    cases hc
  rw [if_neg hr, node_ok.mpr ⟨hh.tally.live node (hok (not_not.mp hr)).1, rfl⟩, ok_bind] at hc
  split at hc
  · cases hc
    exact Or.inl rfl
  · cases hc

end faults

/-- No call uses freed memory: a fault is a block that is in use, or a component that is too long. -/
theorem vfs_call_faults (h : Sound f) (hroom : Roomy f) (ha : Allowed f c) {e : fault_t}
    (hc : vfs_call f c = .error e) : e = .taken ∨ (e = .overflow ∧ LongName f c) := by
  have hsteady := h.steady hroom
  unfold vfs_call at hc
  cases c with
  | open_file task path flags block =>
    rcases bind_fault.mp hc with hopen | ⟨x, -, hc⟩
    · exact vfs_open_fault hsteady hopen
    · cases hc
  | close_file task index =>
    obtain ⟨f1, r1, hclose, -⟩ := h.closed ha index
    dsimp only at hc
    rw [hclose] at hc
    cases hc
  | fork parent child task => cases hc
  | destroy task =>
    obtain ⟨f1, hclose, -⟩ := h.all_closed ha
    dsimp only at hc
    rw [hclose] at hc
    cases hc
  | run task after => cases hc
  | seek resource offset flags => cases hc
  | write task index offset buffer length device =>
    obtain ⟨hlive, hindex, hslot, -⟩ := ha
    have hnode := h.node_live (h.counted.slots task hlive index hindex hslot)
    rcases bind_fault.mp hc with hwrite | ⟨x, -, hc⟩
    · exact Or.inl (vfs_write_fault h.held.ordered hnode hwrite)
    · cases hc
  | stat path =>
    rcases bind_fault.mp hc with hstat | ⟨x, -, hc⟩
    · exact vfs_stat_fault hsteady hstat
    · cases hc
  | exec path released =>
    rcases bind_fault.mp hc with hexec | ⟨x, -, hc⟩
    · exact exec_node_fault hsteady hexec
    · cases hc
  | create path type =>
    rcases bind_fault.mp hc with hcreate | ⟨x, -, hc⟩
    · exact Or.inl ((vfs_create_post hsteady.settled.resting path type).fault hcreate)
    · cases hc
  | link old_path new_path =>
    rcases bind_fault.mp hc with hlink | ⟨x, -, hc⟩
    · exact (vfs_link_post hsteady old_path new_path).fault hlink
    · cases hc
  | unlink path =>
    rcases bind_fault.mp hc with hunlink | ⟨x, -, hc⟩
    · exact Or.inl ((vfs_unlink_post hsteady.settled.resting path).fault hunlink)
    · cases hc

/-! ## Whole runs -/

theorem Sound.run {f0 : Files} (h : Sound f0) (hrun : Relation.ReflTransGen VfsStep f0 f) :
    Sound f := by
  induction hrun with
  | refl => exact h
  | tail _ hstep ih =>
    obtain ⟨hroom, c, result, ha, hc⟩ := hstep
    exact (vfs_call_keeps ih hroom ha hc).1

/-- After the boot, with no resource open. -/
theorem boot_sound {memory heap : Nat → Nat} {initrd : List tar_entry_t} {fs : fs_t} {s : Store}
    (hheap : ∀ n, heap n ≠ 0) (hends : FilesAtTheEnds initrd)
    (hboot : boot memory heap initrd = .ok fs) (hs : Unopened s) : Sound ⟨fs, s⟩ := by
  have hnone : opened s = fun _ => 0 := by
    funext a
    unfold opened
    rw [hs.blocks]
    rfl
  refine ⟨?_, hs.counted, boot_stored hheap hends hboot, fun r hr => ?_⟩
  · dsimp only
    rw [hnone]
    exact boot_held hheap hends hboot
  · dsimp only at hr
    rw [hs.blocks] at hr
    exact absurd hr (Finset.notMem_empty r)

/-- What the pointers lead to is there. -/
structure PointersHold (f : Files) : Prop where
  keys : ∀ a ∈ f.fs.node_blocks, ∀ b ∈ f.fs.node_blocks,
    (f.fs.nodes a).cache_index = (f.fs.nodes b).cache_index →
    (f.fs.nodes a).index = (f.fs.nodes b).index → a = b
  cached : ∀ a ∈ f.fs.node_blocks,
    vfs_cache_query_node f.fs (f.fs.nodes a).cache_index (f.fs.nodes a).index = .ok (some a)
  counted : ∀ a ∈ f.fs.node_blocks, 1 + pointers f.fs (opened f.store) a ≤ (f.fs.nodes a).ref_count
  root : f.fs.root ∈ f.fs.node_blocks
  mounts : ∀ a ∈ f.fs.node_blocks, (f.fs.nodes a).mount ≠ 0 →
    (f.fs.nodes a).mount ∈ f.fs.node_blocks
  slots : ∀ t ∈ f.store.live, ∀ i < TASK_MAX_RESOURCES, f.store.slot t i ≠ 0 →
    f.store.slot t i ∈ f.store.blocks ∧ slot_node f t i ∈ f.fs.node_blocks
  shown : ∀ a ∈ f.fs.node_blocks, ∀ x, place_of (f.fs.nodes a) = .inode x → x ∈ f.fs.inode_blocks
  named : ∀ d ∈ f.fs.inode_blocks, ∀ e ∈ (f.fs.inodes d).children, e.node ∈ f.fs.inode_blocks
  once : f.fs.freed.Nodup ∧ ∀ i ∈ f.fs.freed, ∀ x ∈ f.fs.inode_blocks, (f.fs.inodes x).id ≠ i

theorem Sound.pointers_hold (h : Sound f) : PointersHold f := by
  have hordered := h.held.ordered
  have hquery : ∀ a ∈ f.fs.node_blocks,
      vfs_cache_query_node f.fs (f.fs.nodes a).cache_index (f.fs.nodes a).index = .ok (some a) := by
    intro a ha
    obtain ⟨found, hq, hiff⟩ := hordered.query ha (f.fs.nodes a).index
    rw [hq, (hiff a).mpr ⟨ha, rfl, rfl⟩]
  refine ⟨fun a ha b hb hci hi => ?_, hquery, fun a ha => ?_, h.held.root,
    fun a ha hm => (h.held.mounts a ha hm).2.1, fun t ht i hi hz => ?_, fun a ha x hx => ?_,
    hordered.tree.targets, hordered.tree.once, fun i hi => (hordered.tree.freed i hi).2⟩
  · have hqa := hquery a ha
    have hqb := hquery b hb
    rw [hci, hi, hqb] at hqa
    cases hqa
    rfl
  · have hcount := h.held.counts a ha
    unfold references at hcount
    omega
  · have hr := h.counted.slots t ht i hi hz
    exact ⟨hr, h.node_live hr⟩
  · obtain ⟨hop, rfl⟩ := place_of_inode.mp hx
    exact ((hordered.views a ha).shown hop).there

/-- No node is used after it went. In every state of every run from the boot, as long as no count of
references is about to wrap, every pointer to a node of the VFS, of an open resource, of `vfs.root` or
of a mount point, leads to one that is cached and is counted beside the cache; and no call uses
freed memory. -/
theorem no_node_is_used_after_it_went {memory heap : Nat → Nat} {initrd : List tar_entry_t}
    {fs : fs_t} {s : Store} (hheap : ∀ n, heap n ≠ 0) (hends : FilesAtTheEnds initrd)
    (hboot : boot memory heap initrd = .ok fs) (hempty : Unopened s)
    (hrun : Relation.ReflTransGen VfsStep ⟨fs, s⟩ f) :
    PointersHold f ∧ (Roomy f → ∀ c e, Allowed f c → vfs_call f c = .error e →
      e = .taken ∨ (e = .overflow ∧ LongName f c)) := by
  have h := (boot_sound hheap hends hboot hempty).run hrun
  exact ⟨h.pointers_hold, fun hroom c e ha hc => vfs_call_faults h hroom ha hc⟩

/-! ## Open files -/

/-- A call that leaves a resource open, and the bytes of a file. -/
def QuietStep (r x : Nat) (f f' : Files) : Prop :=
  Roomy f ∧ ∃ c result, Allowed f c ∧ ¬ Alters f x c ∧ vfs_call f c = .ok (f', result) ∧
    r ∈ f'.store.blocks

/-- A resource is open for a file with these bytes. -/
structure OpenFor (f : Files) (r node x : Nat) (bytes : List Nat) : Prop where
  sound : Sound f
  resource : r ∈ f.store.blocks
  data : (f.store.resources r).data = node
  place : place_of (f.fs.nodes node) = .inode x
  holds : contents f.fs x = bytes

theorem OpenFor.file {node x : Nat} {bytes : List Nat} (h : OpenFor f r node x bytes) :
    node ∈ f.fs.node_blocks ∧ (f.fs.nodes node).type = VFS_NODE_TYPE_FILE ∧
      (f.fs.nodes node).operations = .ramfs ∧ (f.fs.nodes node).fs_data = x ∧ IsFile f.fs x := by
  have hlive := h.sound.node_live h.resource
  have htype := h.sound.files r h.resource
  rw [h.data] at hlive htype
  obtain ⟨hop, rfl⟩ := place_of_inode.mp h.place
  have hs := (h.sound.held.ordered.views node hlive).shown hop
  exact ⟨hlive, htype, hop, rfl, hs.there, hs.type.trans htype⟩

theorem OpenFor.step {node x : Nat} {bytes : List Nat} (h : OpenFor f r node x bytes)
    (hs : QuietStep r x f f') : OpenFor f' r node x bytes := by
  obtain ⟨hroom, c, result, ha, hquiet, hc, hr⟩ := hs
  obtain ⟨hsound, hleaves⟩ := vfs_call_keeps h.sound hroom ha hc
  have hplace := hleaves.nodes r h.resource hr
  rw [h.data] at hplace
  exact ⟨hsound, hr, (hleaves.resources r h.resource hr).trans h.data, hplace.trans h.place,
    (hleaves.bytes x h.file.2.2.2.2 hquiet).trans h.holds⟩

theorem OpenFor.read {node x : Nat} {bytes : List Nat} (h : OpenFor f r node x bytes)
    (offset length : Nat) (device : resource_result_t × List Nat) :
    vfs_read f.fs node offset length device = .ok (RESOURCE_RESULT_OK, slice bytes offset length) := by
  obtain ⟨hlive, htype, hop, hdata, hfile⟩ := h.file
  unfold vfs_read
  rw [node_ok.mpr ⟨hlive, rfl⟩, ok_bind, if_neg (not_not.mpr htype), hop]
  dsimp only
  have hinode : f.fs.inode (f.fs.nodes node).fs_data = .ok (f.fs.inodes (f.fs.nodes node).fs_data) :=
    inode_ok.mpr ⟨hdata ▸ hfile.1, rfl⟩
  cases hread : ramfs_read f.fs node offset length with
  | error e =>
    unfold ramfs_read at hread
    rw [node_ok.mpr ⟨hlive, rfl⟩, ok_bind, hinode, ok_bind] at hread
    dsimp only at hread
    split at hread <;> cases hread
  | ok x =>
    obtain ⟨hok, hbytes⟩ := ramfs_read_eq hread
    rw [hdata, h.holds] at hbytes
    rw [← hok, ← hbytes]

/-- A file that is open keeps its bytes, whatever happens to its names. From the boot on, as long as a
resource stays open, and no call writes to its file or opens it for truncation, a read through the
resource gives the bytes that the file had. -/
theorem an_open_file_keeps_its_bytes {memory heap : Nat → Nat} {initrd : List tar_entry_t}
    {fs : fs_t} {s : Store} (hheap : ∀ n, heap n ≠ 0) (hends : FilesAtTheEnds initrd)
    (hboot : boot memory heap initrd = .ok fs) (hempty : Unopened s)
    (hrun : Relation.ReflTransGen VfsStep ⟨fs, s⟩ f) {x : Nat} (hr : r ∈ f.store.blocks)
    (hx : place_of (f.fs.nodes (f.store.resources r).data) = .inode x)
    (hlater : Relation.ReflTransGen (QuietStep r x) f f') (offset length : Nat)
    (device : resource_result_t × List Nat) :
    x ∈ f'.fs.inode_blocks ∧
      vfs_read f'.fs (f'.store.resources r).data offset length device =
        .ok (RESOURCE_RESULT_OK, slice (contents f.fs x) offset length) := by
  have hsound := (boot_sound hheap hends hboot hempty).run hrun
  have hopen : OpenFor f' r (f.store.resources r).data x (contents f.fs x) := by
    induction hlater with
    | refl => exact ⟨hsound, hr, rfl, hx, rfl⟩
    | tail _ hstep ih => exact ih.step hstep
  refine ⟨hopen.file.2.2.2.2.1, ?_⟩
  rw [hopen.data]
  exact hopen.read offset length device

/-! ### A file that is unlinked while it is open -/

/-- The checks of `VfsStep` that a computation can make. -/
def step_allowed (f : Files) : VfsCall → Bool
  | .open_file task _ _ _ => task ∈ f.store.live
  | .close_file task _ => task ∈ f.store.live
  | .fork parent child task => parent ∈ f.store.live ∧ TaskBlock f.store.live child ∧
      ∀ i < TASK_MAX_RESOURCES, task.resources i = 0
  | .destroy task => task ∈ f.store.live
  | .run _ _ => false
  | .write task index offset _ length _ => task ∈ f.store.live ∧ index < TASK_MAX_RESOURCES ∧
      f.store.slot task index ≠ 0 ∧ offset + length + 7 < 0x100000000
  | _ => true

theorem step_allowed_sound (h : step_allowed f c = true) : Allowed f c := by
  unfold step_allowed at h
  unfold Allowed
  cases c with
  | run task after => cases h
  | open_file task path flags block => exact of_decide_eq_true h
  | close_file task index => exact of_decide_eq_true h
  | fork parent child task => exact of_decide_eq_true h
  | destroy task => exact of_decide_eq_true h
  | write task index offset buffer length device => exact of_decide_eq_true h
  | seek resource offset flags => trivial
  | stat path => trivial
  | exec path released => trivial
  | create path type => trivial
  | link old_path new_path => trivial
  | unlink path => trivial

instance (f : Files) : Decidable (Roomy f) :=
  inferInstanceAs (Decidable (∀ a ∈ f.fs.node_blocks, _ < _))

/-- Calls one after another, with the checks of `VfsStep`. -/
def vfs_calls (f : Files) : List VfsCall → Option Files
  | [] => some f
  | c :: calls =>
    if Roomy f ∧ step_allowed f c = true then
      match vfs_call f c with
      | .ok (f', _) => vfs_calls f' calls
      | .error _ => none
    else none

theorem vfs_calls_run {calls : List VfsCall} (h : vfs_calls f calls = some f') :
    Relation.ReflTransGen VfsStep f f' := by
  induction calls generalizing f with
  | nil =>
    cases h
    exact .refl
  | cons c calls ih =>
    unfold vfs_calls at h
    split at h
    · rename_i hchecks
      cases hc : vfs_call f c with
      | error e =>
        rw [hc] at h
        cases h
      | ok x =>
        rw [hc] at h
        exact .head ⟨hchecks.1, c, x.2, step_allowed_sound hchecks.2, hc⟩ (ih h)
    · cases h

/-- The boot with the members of an initrd, and calls of one task. -/
def booted_calls (initrd : List tar_entry_t) (calls : List VfsCall) : Option (Files × Files) :=
  match boot (fun _ => 0) (fun n => 8 * (n + 1)) initrd with
  | .ok fs => (vfs_calls ⟨fs, oneTask⟩ calls).map fun f => (⟨fs, oneTask⟩, f)
  | .error _ => none

theorem booted_calls_run {initrd : List tar_entry_t} {calls : List VfsCall} {P : Files × Files → Bool}
    (h : (booted_calls initrd calls).any P = true) : ∃ fs f,
      boot (fun _ => 0) (fun n => 8 * (n + 1)) initrd = .ok fs ∧
      Relation.ReflTransGen VfsStep ⟨fs, oneTask⟩ f ∧ P (⟨fs, oneTask⟩, f) = true := by
  unfold booted_calls at h
  cases hboot : boot (fun _ => 0) (fun n => 8 * (n + 1)) initrd with
  | error e =>
    rw [hboot] at h
    cases h
  | ok fs =>
    rw [hboot] at h
    dsimp only at h
    cases hcalls : vfs_calls ⟨fs, oneTask⟩ calls with
    | none =>
      rw [hcalls] at h
      cases h
    | some f =>
      rw [hcalls] at h
      exact ⟨fs, f, rfl, vfs_calls_run hcalls, h⟩

theorem no_bytes_fit : ([] : List Nat).length + 8 ≤ 0x100000000 := Nat.le_of_ble_eq_true rfl

/-- An archive with one empty file. -/
def one_member : List tar_entry_t := [⟨"a".toList, VFS_NODE_TYPE_FILE, [], no_bytes_fit⟩]

/-- The file is opened and written. -/
def opened_and_written : List VfsCall :=
  [.open_file 0xF0000008 "/a".toList 2 16,
    .write 0xF0000008 0 3 (fun i => i + 65) 4 (RESOURCE_RESULT_OK, 0)]

theorem one_member_ends : FilesAtTheEnds one_member := by
  unfold FilesAtTheEnds one_member
  exact List.pairwise_singleton _ _

theorem unopened_oneTask : Unopened oneTask := by
  refine ⟨fun _ _ _ _ => rfl, rfl, rfl, ?_⟩
  intro a ha
  rw [Finset.mem_singleton.mp ha]
  refine ⟨by decide, by decide, fun b hb hne => ?_⟩
  exact absurd (Finset.mem_singleton.mp hb) hne

theorem an_unlinked_file_is_still_there : ∃ f, PointersHold f ∧ f.store.slot 0xF0000008 0 = 16 := by
  have hsome : (booted_calls one_member (opened_and_written ++ [.unlink "/a".toList])).any
      (fun x => decide (x.2.store.slot 0xF0000008 0 = 16)) = true := by
    decide +kernel
  obtain ⟨fs, f, hboot, hrun, hslot⟩ := booted_calls_run hsome
  exact ⟨f, (no_node_is_used_after_it_went (fun n => by omega) one_member_ends hboot
    unopened_oneTask hrun).1, of_decide_eq_true hslot⟩

/-- The second call of `an_unlinked_file_is_read` and what it leaves. -/
def unlinked_after (f : Files) : Option Files :=
  match vfs_call f (.unlink "/a".toList) with
  | .ok (f', _) => some f'
  | .error _ => none

theorem unlinked_after_step (hroom : Roomy f) (hu : unlinked_after f = some f')
    (hr : r ∈ f'.store.blocks) (x : Nat) : QuietStep r x f f' := by
  unfold unlinked_after at hu
  cases hc : vfs_call f (.unlink "/a".toList) with
  | error e =>
    rw [hc] at hu
    cases hu
  | ok y =>
    rw [hc] at hu
    cases hu
    exact ⟨hroom, .unlink "/a".toList, y.2, trivial, fun hno => hno, hc, hr⟩

theorem an_unlinked_file_is_read : ∃ f' : Files, (f'.fs.inodes f'.fs.root_node).child "a".toList = none ∧
    vfs_read f'.fs (f'.store.resources 16).data 2 3 (RESOURCE_RESULT_OK, []) =
      .ok (RESOURCE_RESULT_OK, [0, 65, 66]) := by
  have hsome : (booted_calls one_member opened_and_written).any
      (fun x => decide (Roomy x.2 ∧ 16 ∈ x.2.store.blocks ∧
        place_of (x.2.fs.nodes (x.2.store.resources 16).data) = .inode 16 ∧
        contents x.2.fs 16 = [0, 0, 0, 65, 66, 67, 68] ∧
        (unlinked_after x.2).any (fun f' => decide (16 ∈ f'.store.blocks ∧
          (f'.fs.inodes f'.fs.root_node).child "a".toList = none)) = true)) = true := by
    decide +kernel
  obtain ⟨fs, f, hboot, hrun, hfacts⟩ := booted_calls_run hsome
  obtain ⟨hroom, hr, hplace, hbytes, hafter⟩ := of_decide_eq_true hfacts
  obtain ⟨f', hu, hchecks⟩ := (Option.any_eq_true _ _).mp hafter
  obtain ⟨hr', hnone⟩ := of_decide_eq_true hchecks
  have hread := (an_open_file_keeps_its_bytes (fun n => by omega) one_member_ends hboot
    unopened_oneTask hrun hr hplace (.single (unlinked_after_step hroom hu hr' 16)) 2 3
    (RESOURCE_RESULT_OK, [])).2
  rw [hbytes] at hread
  exact ⟨f', hnone, hread⟩

end alura_os.vfs
