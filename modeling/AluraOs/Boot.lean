-- The boot (`kernel_initialize` in `kernel.c`), as far as it makes tasks: the idle
-- task, then init with its program and its three open files.
import AluraOs.Runs

namespace alura_os.kernel

open alura_os.memory alura_os.memory_paging alura_os.task_manager alura_os.resource chains
open task_state_t task_wait_reason_t resource_result_t resource_type_t

variable {k k' : kernel_t} {q : Nat → List Nat}

/-! ## The code -/

/-- What the memory and the file system give to the boot: a block, a page directory and a stack
pointer for the idle task and for init, what the load of init leaves, and the nodes of its three
files, each with a block for the record. -/
structure Boot where
  kernel_page_directory_phys : Nat
  keyboard_address : Nat
  esp0 : Nat
  kernel_esp : Nat
  idle_entry : Nat
  idle_block : Nat
  idle_directory : Nat
  idle_esp : Nat
  init_block : Nat
  init_directory : Nat
  init_esp : Nat
  load : Answers
  stdin : Option (resource_type_t × Nat) × Nat
  stdout : Option (resource_type_t × Nat) × Nat
  stderr : Option (resource_type_t × Nat) × Nat

/-- The kernel before its first task. -/
def unstarted (boot : Boot) : kernel_t where
  tasks := fun _ => task_t.zeroed
  live := ∅
  resources := fun _ => resource_t.zeroed
  blocks := ∅
  ledger := []
  opened_flags := fun _ => 0
  task_manager := ⟨0, 0, false, 0, fun _ => 0, 0, 0⟩
  nodes := fun _ => ⟨0, 0, 0⟩
  node_blocks := ∅
  task_id := 0
  timer_ticks := 0
  cr3 := boot.kernel_page_directory_phys
  esp0 := boot.esp0
  kernel_esp := boot.kernel_esp
  kernel_page_directory_phys := boot.kernel_page_directory_phys
  page_directories_to_destroy := []
  directories := {boot.kernel_page_directory_phys}
  frees := []
  syscall_execution := fun _ => ⟨0, fun _ => 0⟩
  write_offset := fun _ => 0
  keyboard := ⟨false, false, false, fun _ => 0, 0, 0, 0⟩
  keyboard_address := boot.keyboard_address
  accepted := []
  delivered := []
  strays := []

/-- The fields that `task_manager_task_create` sets in the record from `kernel_heap_calloc`. -/
def created_record (task_id entry task_cr3 task_esp : Nat) (task_is_user : Bool) : task_t :=
  { task_t.zeroed with
    task_id := task_id
    task_state := TASK_STATE_READY
    task_time_slice := TASK_MANAGER_DEFAULT_TIME_SLICE
    task_queue_level := 0
    task_init_eip := entry
    task_cr3 := task_cr3
    stack_base := KERNEL_STACK_TOP - PAGE_SIZE
    stack_top := KERNEL_STACK_TOP
    task_is_user := task_is_user
    task_esp := task_esp }

/-- `task_manager_task_create`, with the stack pointer that the stack preparation gives. -/
def task_manager_task_create (k : kernel_t) (entry : Nat) (task_is_user enqueue : Bool)
    (task page_directory task_esp : Nat) : Option (kernel_t × Nat) :=
  if TaskBlock k.live task then do
    let (k, task_cr3) ← create_directory k (some page_directory)
    let record := created_record k.task_id entry task_cr3 task_esp task_is_user
    let k := { k with toStore := new_task k.toStore task record, task_id := u32 (k.task_id + 1) }
    if enqueue then (task_manager_enqueue_task k (k.level task) task).map fun k => (k, task)
    else some (k, task)
  else none

def task_manager_module_init (k : kernel_t) (boot : Boot) : Option kernel_t := do
  let k := { k with task_manager := { k.task_manager with
    task_queues := fun i => if i < TASK_MANAGER_QUEUE_LEVELS then 0 else k.queue i
    last_priority_boost_at_ticks := k.timer_ticks } }
  let (k, task_idle) ← task_manager_task_create k boot.idle_entry false false boot.idle_block
    boot.idle_directory boot.idle_esp
  let k := { k with task_manager := { k.task_manager with
    task_idle := task_idle
    task_current := 0
    task_next := task_idle } }
  let k := k.setState task_idle TASK_STATE_RUNNING
  return { k with task_manager := { k.task_manager with task_needs_switching := true } }

def elf_load_and_execute (k : kernel_t) (boot : Boot) : Option kernel_t := do
  let (k, created_task) ← task_manager_task_create k 0 true true boot.init_block boot.init_directory
    boot.init_esp
  let k := { k with task_manager := { k.task_manager with task_init := created_task } }
  (elf_load_into_task k created_task boot.load).map Prod.fst

/-- `vfs_open`, with the node that the path resolves to and the block of the record. -/
def vfs_open (k : kernel_t) (task : Nat) (file : Option (resource_type_t × Nat) × Nat)
    (flags : Nat) : Option kernel_t :=
  match file.1 with
  | none => some k
  | some (type, node) =>
    (resource_register k.toStore task type node vfs_operations flags file.2).map fun r =>
      { k with toStore := r.1 }

def kernel_initialize (boot : Boot) : Option kernel_t := do
  let k ← task_manager_module_init (unstarted boot) boot
  let k ← elf_load_and_execute k boot
  let k ← vfs_open k k.init boot.stdin SYSCALL_O_RDONLY
  let k ← vfs_open k k.init boot.stdout SYSCALL_O_WRONLY
  vfs_open k k.init boot.stderr SYSCALL_O_WRONLY

/-! ## After the boot -/

/-- What the boot leaves. -/
structure Booted (k : kernel_t) : Prop where
  settled : ∃ q, Settled k q k.idle
  tree : Tree k [k.init] fun _ => []
  counted : Counted k.toStore
  current : k.current = 0
  needs : k.task_manager.task_needs_switching = true
  next : k.task_manager.task_next = k.idle
  live : ∀ a, a ∈ k.live ↔ a = k.idle ∨ a = k.init
  ready : k.state k.init = TASK_STATE_READY
  orphan : (k.tasks k.idle).parent = 0
  ids : (k.tasks k.idle).task_id = 0 ∧ (k.tasks k.init).task_id = 1 ∧ k.task_id = 2
  user : (k.tasks k.idle).task_is_user = false ∧ (k.tasks k.init).task_is_user = true
  stack : ∀ a ∈ k.live, (k.tasks a).stack_top = KERNEL_STACK_TOP ∧
    (k.tasks a).stack_base = KERNEL_STACK_TOP - PAGE_SIZE
  retry : ∀ a ∈ k.live, (k.tasks a).syscall_retry = false
  cr3 : k.cr3 = k.kernel_page_directory_phys
  queued : k.page_directories_to_destroy = []
  frees : k.frees = []
  kernel_directory : k.kernel_page_directory_phys ∈ k.directories
  directory : ∀ a ∈ k.live, (k.tasks a).task_cr3 ∈ k.directories ∧
    (k.tasks a).task_cr3 ≠ k.kernel_page_directory_phys
  apart : (k.tasks k.idle).task_cr3 ≠ (k.tasks k.init).task_cr3
  keyboard : k.keyboard.buffer_head = 0 ∧ k.keyboard.buffer_tail = 0 ∧ k.keyboard.buffer_count = 0
  unread : k.accepted = [] ∧ k.delivered = []
  opened : ∀ r ∈ k.blocks, k.opened_flags r = (k.resources r).flags ∧
    (k.resources r).flags &&& SYSCALL_O_ACCMODE ≠ SYSCALL_O_ACCMODE

/-- The kernel with the idle task only. -/
def idling (boot : Boot) : kernel_t :=
  { unstarted boot with
    tasks := Function.update (fun _ => task_t.zeroed) boot.idle_block
      { created_record 0 boot.idle_entry boot.idle_directory boot.idle_esp false with
        task_state := TASK_STATE_RUNNING }
    live := {boot.idle_block}
    task_manager := ⟨0, boot.idle_block, true, boot.idle_block, fun _ => 0, 0, 0⟩
    directories := {boot.idle_directory, boot.kernel_page_directory_phys}
    task_id := 1 }

theorem module_init_eq {boot : Boot} (h : task_manager_module_init (unstarted boot) boot = some k) :
    TaskBlock ∅ boot.idle_block ∧ boot.idle_directory ≠ boot.kernel_page_directory_phys ∧
      k = idling boot := by
  unfold task_manager_module_init task_manager_task_create at h
  obtain ⟨⟨k1, task_idle⟩, hc, h⟩ := Option.bind_eq_some_iff.mp h
  split at hc
  swap
  · cases hc
  rename_i hb
  obtain ⟨⟨k2, task_cr3⟩, hd, hc⟩ := Option.bind_eq_some_iff.mp hc
  simp only [create_directory] at hd
  split at hd
  swap
  · cases hd
  rename_i hdir
  cases hd
  cases hc
  cases h
  refine ⟨hb, by simpa [unstarted] using hdir.2, ?_⟩
  simp [idling, unstarted, kernel_t.setState, kernel_t.setTask, new_task, kernel_t.queue, u32]

/-- The kernel with the idle task and init. -/
def peopled (boot : Boot) : kernel_t :=
  { idling boot with
    tasks := Function.update (idling boot).tasks boot.init_block
      (created_record 1 0 boot.init_directory boot.init_esp true)
    live := {boot.init_block, boot.idle_block}
    task_manager := ⟨0, boot.idle_block, true, boot.idle_block,
      Function.update (fun _ => 0) 0 boot.init_block, 0, boot.init_block⟩
    directories := {boot.init_directory, boot.idle_directory, boot.kernel_page_directory_phys}
    task_id := 2 }

theorem enqueue_empty {task i : Nat} (h : task ≠ k.idle) (hq : k.queue i = 0) :
    task_manager_enqueue_task k i task = some ((k.setTask task { k.tasks task with
      next := 0, task_queue_level := i }).setQueue i task) := by
  unfold task_manager_enqueue_task
  rw [if_neg h]
  exact if_pos hq

theorem create_init_eq {boot : Boot} {task : Nat}
    (h : task_manager_task_create (idling boot) 0 true true boot.init_block boot.init_directory
      boot.init_esp = some (k, task)) :
    TaskBlock {boot.idle_block} boot.init_block ∧ task = boot.init_block ∧
      boot.init_directory ≠ boot.idle_directory ∧
      boot.init_directory ≠ boot.kernel_page_directory_phys ∧
      { k with task_manager := { k.task_manager with task_init := task } } = peopled boot := by
  unfold task_manager_task_create at h
  split at h
  swap
  · cases h
  rename_i hb
  obtain ⟨⟨k2, task_cr3⟩, hd, h⟩ := Option.bind_eq_some_iff.mp h
  simp only [create_directory] at hd
  split at hd
  swap
  · cases hd
  rename_i hdir
  cases hd
  have hne : boot.init_block ≠ boot.idle_block := fun he =>
    hb.fresh (by rw [he]; exact Finset.mem_singleton_self _)
  have hdir2 := hdir.2
  simp only [idling, Finset.mem_insert, Finset.mem_singleton, not_or] at hdir2
  obtain ⟨k3, he, h⟩ := Option.map_eq_some_iff.mp h
  rw [enqueue_empty hne rfl] at he
  cases he
  cases h
  refine ⟨hb, rfl, hdir2.1, hdir2.2, ?_⟩
  simp [peopled, idling, unstarted, created_record, u32, task_t.zeroed, kernel_t.setQueue,
    kernel_t.setTask, kernel_t.level, new_task]

section peopled

variable {boot : Boot} (hidle : TaskBlock ∅ boot.idle_block)
  (hinit : TaskBlock {boot.idle_block} boot.init_block)

include hinit in
theorem blocks_apart : boot.init_block ≠ boot.idle_block := fun he =>
  hinit.fresh (by rw [he]; exact Finset.mem_singleton_self _)

include hinit in
theorem peopled_idle : (peopled boot).tasks boot.idle_block =
    { created_record 0 boot.idle_entry boot.idle_directory boot.idle_esp false with
      task_state := TASK_STATE_RUNNING } := by
  have hne := blocks_apart hinit
  simp [peopled, idling, hne.symm]

theorem peopled_init (boot : Boot) : (peopled boot).tasks boot.init_block =
    created_record 1 0 boot.init_directory boot.init_esp true := by
  simp [peopled]

theorem peopled_mem {a : Nat} :
    a ∈ (peopled boot).live ↔ a = boot.idle_block ∨ a = boot.init_block := by
  simp only [peopled, Finset.mem_insert, Finset.mem_singleton]
  exact or_comm

include hidle hinit in
theorem peopled_spread : Spread (peopled boot).live := by
  have h1 : Spread (insert boot.idle_block ∅) := Spread.insert (fun a ha => by simp at ha) hidle
  exact Spread.insert h1 hinit

include hidle hinit in
theorem peopled_settled :
    Settled (peopled boot) (Function.update (fun _ => []) 0 [boot.init_block]) boot.idle_block := by
  have hne := blocks_apart hinit
  have hi := peopled_init boot
  have hd := peopled_idle hinit
  have hmem : ∀ i, ∀ a ∈ Function.update (fun _ => []) 0 [boot.init_block] i,
      i = 0 ∧ a = boot.init_block := by
    intro i a ha
    by_cases h0 : i = 0
    · subst h0
      exact ⟨rfl, by simpa using ha⟩
    · simp [h0] at ha
  refine ⟨⟨?_, ?_, ?_, ?_, ?_, ?_, peopled_spread hidle hinit, ?_⟩, ?_, ?_, ?_, ?_, ?_, ?_⟩
  · intro i
    by_cases h0 : i = 0
    · subst h0
      refine ⟨rfl, ?_⟩
      show ((peopled boot).tasks boot.init_block).next = 0
      rw [hi]
      rfl
    · have hq : (peopled boot).queue i = 0 := by simp [peopled, kernel_t.queue, h0]
      rw [hq, Function.update_of_ne h0]
      rfl
  · intro i a ha
    exact peopled_mem.mpr (Or.inr (hmem i a ha).2)
  · intro i a ha hout
    rw [(hmem i a ha).2] at hout
    rcases Finset.mem_insert.mp hout with h | h
    · exact hne h
    · exact hne (Finset.mem_singleton.mp h)
  · intro i a ha
    obtain ⟨rfl, rfl⟩ := hmem i a ha
    show ((peopled boot).tasks boot.init_block).task_queue_level = 0
    rw [hi]
    rfl
  · intro a ha hout
    rcases peopled_mem.mp ha with rfl | rfl
    · exact absurd (Finset.mem_insert_self _ _) hout
    · exact ⟨0, by simp⟩
  · exact Finset.mem_insert_self _ _
  · intro a ha
    obtain rfl : a = boot.idle_block := by simpa [peopled, kernel_t.idle, idling] using ha
    show ((peopled boot).tasks boot.idle_block).next = 0
    rw [hd]
    rfl
  · intro i a ha
    obtain ⟨rfl, rfl⟩ := hmem i a ha
    refine Or.inl ⟨?_, by decide⟩
    show ((peopled boot).tasks boot.init_block).task_state = TASK_STATE_READY
    rw [hi]
    rfl
  · exact peopled_mem.mpr (Or.inl rfl)
  · show ((peopled boot).tasks boot.idle_block).task_state = TASK_STATE_RUNNING
    rw [hd]
  · exact peopled_mem.mpr (Or.inl rfl)
  · show ((peopled boot).tasks boot.idle_block).task_state = TASK_STATE_RUNNING
    rw [hd]
  · intro h
    exact absurd rfl h

include hidle hinit in
theorem peopled_tree : Tree (peopled boot) [boot.init_block] fun _ => [] := by
  have hne := blocks_apart hinit
  have hi := peopled_init boot
  have hd := peopled_idle hinit
  have hzero : ∀ a ∈ (peopled boot).live, ((peopled boot).tasks a).children = 0 ∧
      ((peopled boot).tasks a).children_tail = 0 ∧ ((peopled boot).tasks a).parent = 0 := by
    intro a ha
    rcases peopled_mem.mp ha with rfl | rfl
    · rw [hd]
      exact ⟨rfl, rfl, rfl⟩
    · rw [hi]
      exact ⟨rfl, rfl, rfl⟩
  refine ⟨by simp, ?_, rfl, ?_, ?_, ?_, ?_, ?_, ?_, ?_, ?_, ?_, ?_, peopled_spread hidle hinit⟩
  · intro a
    rw [List.mem_singleton, peopled_mem]
    show a = boot.init_block ↔ (a = boot.idle_block ∨ a = boot.init_block) ∧ a ≠ boot.idle_block
    constructor
    · rintro rfl
      exact ⟨Or.inr rfl, hne⟩
    · rintro ⟨h | h, h'⟩
      · exact absurd h h'
      · exact h
  · exact (hzero _ (peopled_mem.mpr (Or.inr rfl))).2.2
  · intro pre a post he hpre
    cases pre with
    | nil => exact absurd rfl hpre
    | cons x xs => simp at he
  · intro p hp
    obtain ⟨h1, h2, -⟩ := hzero p hp
    rw [h1, h2]
    exact ⟨rfl, rfl⟩
  · intro p _ n hn
    simp at hn
  · intro n hn
    simp [peopled, idling, unstarted] at hn
  · simp [peopled, idling, unstarted]
  · intro p _
    exact List.nodup_nil
  · intro p hp c
    constructor
    · intro hc
      simp [kernel_t.held] at hc
    · rintro ⟨hc, hpar⟩
      rw [List.mem_singleton.mp hc, (hzero _ (peopled_mem.mpr (Or.inr rfl))).2.2] at hpar
      exact absurd hpar.symm (Spread.ne_zero (peopled_spread hidle hinit) hp)
  · intro a _ _
    rfl
  · exact peopled_mem.mpr (Or.inl rfl)

include hidle hinit in
theorem booted_peopled (h1 : boot.idle_directory ≠ boot.kernel_page_directory_phys)
    (h2 : boot.init_directory ≠ boot.idle_directory)
    (h3 : boot.init_directory ≠ boot.kernel_page_directory_phys) : Booted (peopled boot) := by
  have hi := peopled_init boot
  have hd := peopled_idle hinit
  have hboth : ∀ P : task_t → Prop, P ((peopled boot).tasks boot.idle_block) →
      P ((peopled boot).tasks boot.init_block) → ∀ a ∈ (peopled boot).live, P ((peopled boot).tasks a) := by
    intro P hP1 hP2 a ha
    rcases peopled_mem.mp ha with rfl | rfl
    · exact hP1
    · exact hP2
  have hslots : ∀ t i, (peopled boot).toStore.slot t i = 0 := by
    intro t i
    unfold Store.slot
    by_cases h : t = boot.init_block
    · rw [h, hi]
      rfl
    by_cases h' : t = boot.idle_block
    · rw [h', hd]
      rfl
    · simp [peopled, idling, h, h', task_t.zeroed]
  refine {
    settled := ⟨_, peopled_settled hidle hinit⟩
    tree := peopled_tree hidle hinit
    counted := Unopened.counted ⟨?_, rfl, rfl, peopled_spread hidle hinit⟩
    current := rfl
    needs := rfl
    next := rfl
    live := fun a => peopled_mem
    ready := ?_
    orphan := ?_
    ids := ⟨?_, ?_, rfl⟩
    user := ⟨?_, ?_⟩
    stack := hboth (fun t => t.stack_top = KERNEL_STACK_TOP ∧ t.stack_base = _) ?_ ?_
    retry := hboth (fun t => t.syscall_retry = false) ?_ ?_
    cr3 := rfl
    queued := rfl
    frees := rfl
    kernel_directory := ?_
    directory := hboth (fun t => t.task_cr3 ∈ _ ∧ t.task_cr3 ≠ _) ?_ ?_
    apart := ?_
    keyboard := ⟨rfl, rfl, rfl⟩
    unread := ⟨rfl, rfl⟩
    opened := fun r hr => absurd hr (Finset.notMem_empty r) }
  · intro t _ i _
    exact hslots t i
  · show ((peopled boot).tasks boot.init_block).task_state = TASK_STATE_READY
    rw [hi]
    rfl
  · show ((peopled boot).tasks boot.idle_block).parent = 0
    rw [hd]
    rfl
  · show ((peopled boot).tasks boot.idle_block).task_id = 0
    rw [hd]
    rfl
  · show ((peopled boot).tasks boot.init_block).task_id = 1
    rw [hi]
    rfl
  · show ((peopled boot).tasks boot.idle_block).task_is_user = false
    rw [hd]
    rfl
  · show ((peopled boot).tasks boot.init_block).task_is_user = true
    rw [hi]
    rfl
  · rw [hd]
    exact ⟨rfl, rfl⟩
  · rw [hi]
    exact ⟨rfl, rfl⟩
  · rw [hd]
    rfl
  · rw [hi]
    rfl
  · simp [peopled, idling, unstarted]
  · rw [hd]
    exact ⟨by simp [peopled, created_record], h1⟩
  · rw [hi]
    exact ⟨by simp [peopled, created_record], h3⟩
  · show ((peopled boot).tasks boot.idle_block).task_cr3 ≠ ((peopled boot).tasks boot.init_block).task_cr3
    rw [hd, hi]
    exact h2.symm

end peopled

/-- Init has its program, in a directory of its own. -/
theorem Booted.loaded (h : Booted k) {d : Nat} (hd : d ∉ k.directories) (loaded : Loaded) :
    Booted (({ k with directories := insert d k.directories } : kernel_t).setTask k.init
      (alura_os.elf_executable.loaded_task (k.tasks k.init) loaded.e_entry d loaded.task_esp
        loaded.heap_start)) := by
  obtain ⟨q, hq⟩ := h.settled
  let k1 : kernel_t := { k with directories := insert d k.directories }
  have hs1 : Settled k1 q k.idle := hq.congr rfl rfl rfl rfl
  have ht1 : Tree k1 [k.init] fun _ => [] := h.tree.of_tasks rfl rfl rfl rfl rfl rfl
  have hne : k.idle ≠ k.init := fun he => ((h.tree.mem _).mp h.tree.init_mem).2 he.symm
  generalize ht : alura_os.elf_executable.loaded_task (k.tasks k.init) loaded.e_entry d loaded.task_esp
    loaded.heap_start = t
  have hinit : (k1.setTask k.init t).tasks k.init = t := Function.update_self _ _ _
  have hother : ∀ {a}, a ≠ k.init → (k1.setTask k.init t).tasks a = k.tasks a :=
    fun ha => Function.update_of_ne ha _ _
  have hkernel : d ≠ k.kernel_page_directory_phys := fun he => hd (he ▸ h.kernel_directory)
  have hidle := (h.directory k.idle ((h.live _).mpr (Or.inl rfl))).1
  refine {
    settled := ⟨q, hs1.touch ?_ ?_ ?_⟩
    tree := ht1.touch ?_ ?_ ?_ ?_
    counted := h.counted.same ?_ rfl (fun _ => ⟨rfl, rfl⟩) rfl rfl
    current := h.current
    needs := h.needs
    next := h.next
    live := h.live
    ready := ?_
    orphan := ?_
    ids := ⟨?_, ?_, h.ids.2.2⟩
    user := ⟨?_, ?_⟩
    stack := ?_
    retry := ?_
    cr3 := h.cr3
    queued := h.queued
    frees := h.frees
    kernel_directory := Finset.mem_insert_of_mem h.kernel_directory
    directory := ?_
    apart := ?_
    keyboard := h.keyboard
    unread := h.unread
    opened := h.opened }
  · rw [← ht]
    rfl
  · rw [← ht]
    rfl
  · rw [← ht]
    rfl
  · rw [← ht]
    rfl
  · rw [← ht]
    rfl
  · rw [← ht]
    rfl
  · intro _
    exact Or.inr rfl
  · intro a
    by_cases ha : a = k.init
    · rw [ha, hinit, ← ht]
      rfl
    · rw [hother ha]
  · show ((k1.setTask k.init t).tasks k.init).task_state = TASK_STATE_READY
    rw [hinit, ← ht]
    exact h.ready
  · show ((k1.setTask k.init t).tasks k.idle).parent = 0
    rw [hother hne]
    exact h.orphan
  · show ((k1.setTask k.init t).tasks k.idle).task_id = 0
    rw [hother hne]
    exact h.ids.1
  · show ((k1.setTask k.init t).tasks k.init).task_id = 1
    rw [hinit, ← ht]
    exact h.ids.2.1
  · show ((k1.setTask k.init t).tasks k.idle).task_is_user = false
    rw [hother hne]
    exact h.user.1
  · show ((k1.setTask k.init t).tasks k.init).task_is_user = true
    rw [hinit, ← ht]
    exact h.user.2
  · intro a ha
    by_cases hai : a = k.init
    · rw [hai, hinit, ← ht]
      exact h.stack k.init h.tree.init_live
    · rw [hother hai]
      exact h.stack a ha
  · intro a ha
    by_cases hai : a = k.init
    · rw [hai, hinit, ← ht]
      exact h.retry k.init h.tree.init_live
    · rw [hother hai]
      exact h.retry a ha
  · intro a ha
    by_cases hai : a = k.init
    · rw [hai, hinit, ← ht]
      exact ⟨Finset.mem_insert_self _ _, hkernel⟩
    · rw [hother hai]
      obtain ⟨h1, h2⟩ := h.directory a ha
      exact ⟨Finset.mem_insert_of_mem h1, h2⟩
  · show ((k1.setTask k.init t).tasks k.idle).task_cr3 ≠ ((k1.setTask k.init t).tasks k.init).task_cr3
    rw [hother hne, hinit, ← ht]
    intro he
    rw [he] at hidle
    exact hd hidle

theorem Booted.leaked (h : Booted k) (d : Nat) :
    Booted { k with directories := insert d k.directories } := by
  obtain ⟨q, hq⟩ := h.settled
  exact { h with
    settled := ⟨q, hq.congr rfl rfl rfl rfl⟩
    tree := h.tree.of_tasks rfl rfl rfl rfl rfl rfl
    kernel_directory := Finset.mem_insert_of_mem h.kernel_directory
    directory := fun a ha => ⟨Finset.mem_insert_of_mem (h.directory a ha).1, (h.directory a ha).2⟩ }

theorem queue_kernel_eq {d : Nat} (h : d = k.kernel_page_directory_phys) :
    memory_paging_queue_to_destroy k d = k := if_pos h

/-- The load of init. The kernel's own directory is loaded then, and is not to be destroyed. -/
theorem Booted.load (h : Booted k) {answers : Answers} {r : kernel_t × Bool}
    (hr : elf_load_into_task k k.init answers = some r) : Booted r.1 := by
  unfold elf_load_into_task at hr
  obtain ⟨⟨k1, task_cr3⟩, hdir, hr⟩ := Option.bind_eq_some_iff.mp hr
  dsimp only at hr
  have h1 : Booted k1 := by
    obtain ⟨-, -, rfl⟩ | ⟨-, -, rfl⟩ := create_directory_cases hdir
    · exact h
    · exact h.leaked _
  split at hr
  · cases hr
    exact h1
  split at hr
  · cases hr
    exact h1
  rename_i loaded _ hne
  obtain ⟨-, h0, -⟩ | ⟨-, hfresh, rfl⟩ := create_directory_cases hdir
  · exact absurd h0 hne
  cases hr
  have hl := h.loaded hfresh loaded
  exact Eq.mpr (congrArg Booted (queue_kernel_eq hl.cr3)) hl

theorem Booted.open (h : Booted k) {file : Option (resource_type_t × Nat) × Nat} {flags : Nat}
    (hflags : flags &&& SYSCALL_O_ACCMODE ≠ SYSCALL_O_ACCMODE)
    (hr : vfs_open k k.init file flags = some k') : Booted k' ∧ k'.init = k.init := by
  unfold vfs_open at hr
  split at hr
  · cases hr
    exact ⟨h, rfl⟩
  obtain ⟨⟨s, result, index⟩, hreg, hr⟩ := Option.map_eq_some_iff.mp hr
  subst hr
  have hslots := (register_only hreg).1
  obtain ⟨q, hq⟩ := h.settled
  have hlive : s.live = k.live := hslots.live
  have hsame : ∀ {β : Type} (f : task_t → β), (∀ t slots, f { t with resources := slots } = f t) →
      ∀ a, f (s.tasks a) = f (k.tasks a) := by
    intro β f hf a
    obtain ⟨slots, ht⟩ := hslots.task a
    rw [ht, hf]
  have hcr3 := hsame (fun t => t.task_cr3) (fun _ _ => rfl)
  refine ⟨{
    settled := ⟨q, hq.of_slots hslots⟩
    tree := h.tree.of_slots hslots
    counted := h.counted.register h.tree.init_live hreg
    current := h.current
    needs := h.needs
    next := h.next
    live := fun a => by rw [hlive]; exact h.live a
    ready := (hsame (fun t => t.task_state) (fun _ _ => rfl) _).trans h.ready
    orphan := (hsame (fun t => t.parent) (fun _ _ => rfl) _).trans h.orphan
    ids := ⟨(hsame (fun t => t.task_id) (fun _ _ => rfl) _).trans h.ids.1,
      (hsame (fun t => t.task_id) (fun _ _ => rfl) _).trans h.ids.2.1, h.ids.2.2⟩
    user := ⟨(hsame (fun t => t.task_is_user) (fun _ _ => rfl) _).trans h.user.1,
      (hsame (fun t => t.task_is_user) (fun _ _ => rfl) _).trans h.user.2⟩
    stack := fun a ha => ⟨(hsame (fun t => t.stack_top) (fun _ _ => rfl) a).trans
        (h.stack a (hlive ▸ ha)).1,
      (hsame (fun t => t.stack_base) (fun _ _ => rfl) a).trans (h.stack a (hlive ▸ ha)).2⟩
    retry := fun a ha => (hsame (fun t => t.syscall_retry) (fun _ _ => rfl) a).trans
      (h.retry a (hlive ▸ ha))
    cr3 := h.cr3
    queued := h.queued
    frees := h.frees
    kernel_directory := h.kernel_directory
    directory := fun a ha => by
      rw [hcr3 a]
      exact h.directory a (hlive ▸ ha)
    apart := fun he => h.apart ((hcr3 _).symm.trans (he.trans (hcr3 _)))
    keyboard := h.keyboard
    unread := h.unread
    opened := by
      intro r hr
      obtain hold | ⟨h1, h2⟩ := register_flags hreg r hr
      · rw [(register_only hreg).2 r hold.1, hold.2]
        exact h.opened r hold.1
      · rw [h1, h2]
        exact ⟨rfl, hflags⟩ }, rfl⟩

/-- The boot ends as it should, whatever memory and files it gets. -/
theorem boot_spec {boot : Boot} (h : kernel_initialize boot = some k) : Booted k := by
  unfold kernel_initialize at h
  obtain ⟨k1, h1, hrest⟩ := Option.bind_eq_some_iff.mp h
  obtain ⟨hb1, hd1, rfl⟩ := module_init_eq h1
  obtain ⟨k2, h2, hopen⟩ := Option.bind_eq_some_iff.mp hrest
  obtain ⟨k3, h3, hopen'⟩ := Option.bind_eq_some_iff.mp hopen
  obtain ⟨k4, h4, hlast⟩ := Option.bind_eq_some_iff.mp hopen'
  unfold elf_load_and_execute at h2
  obtain ⟨⟨k5, task⟩, hcreate, hmap⟩ := Option.bind_eq_some_iff.mp h2
  obtain ⟨hb2, rfl, hd2, hd3, hk⟩ := create_init_eq hcreate
  dsimp only at hmap
  rw [hk] at hmap
  obtain ⟨r, hload, rfl⟩ := Option.map_eq_some_iff.mp hmap
  have hboot2 := (booted_peopled hb1 hb2 hd1 hd2 hd3).load hload
  have hboot3 := (hboot2.open (by decide) h3).1
  have hboot4 := (hboot3.open (by decide) h4).1
  exact (hboot4.open (by decide) hlast).1

end alura_os.kernel
