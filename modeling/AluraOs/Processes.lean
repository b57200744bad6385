-- The processes, apart from which of them runs: what an interrupt can do to the
-- tasks, their tree, their files and their page directories. The scheduler and
-- the counters of time are left out of the view, so that a task that moves
-- between queues, or starts to run, changes nothing here.
import AluraOs.Scheduler
import AluraOs.Syscall

namespace alura_os.kernel

open alura_os.memory alura_os.task_manager alura_os.resource chains
open task_state_t task_wait_reason_t task_manager_result_t resource_type_t resource_result_t
open alura_os.elf_executable (loaded_task)

variable {k k' : kernel_t} {q : Nat → List Nat}

/-! ## The view -/

/-- A task waits, is dead, or goes on. -/
def still : task_state_t → task_state_t
  | TASK_STATE_BLOCKED => TASK_STATE_BLOCKED
  | TASK_STATE_ZOMBIE => TASK_STATE_ZOMBIE
  | _ => TASK_STATE_READY

/-- A task without the fields of the scheduler, its counters, its program and the signal that it
handles. -/
def plain (t : task_t) : task_t :=
  { t with
    next := 0
    task_queue_level := 0
    task_state := still t.task_state
    task_time_slice := 0
    yield := false
    return_code := 0
    task_init_eip := 0
    heap_start := 0
    heap_break := 0
    ticks_user := 0
    ticks_system := 0
    child_ticks_user := 0
    child_ticks_system := 0
    saved_signal_frame := register_interrupt_data_t.ofWords fun _ => 0
    in_signal_handler := false
    saved_syscall_retry := false }

/-- The kernel without the scheduler, the counters and the offsets of files. -/
def kernel_t.view (k : kernel_t) : kernel_t :=
  { k with
    tasks := fun a => plain (k.tasks a)
    resources := fun r => { k.resources r with offset := 0 }
    task_manager := { k.task_manager with
      task_queues := fun _ => 0
      task_next := 0
      task_needs_switching := false
      last_priority_boost_at_ticks := 0 }
    timer_ticks := 0
    write_offset := fun _ => 0 }

theorem view_task (h : k'.view = k.view) (a : Nat) : plain (k'.tasks a) = plain (k.tasks a) :=
  congrFun (congrArg (fun k => k.tasks) h) a

theorem still_blocked {s : task_state_t} : still s = TASK_STATE_BLOCKED ↔ s = TASK_STATE_BLOCKED := by
  cases s <;> decide

theorem still_zombie {s : task_state_t} : still s = TASK_STATE_ZOMBIE ↔ s = TASK_STATE_ZOMBIE := by
  cases s <;> decide

theorem still_eq {s s' : task_state_t} (hb : s' = TASK_STATE_BLOCKED ↔ s = TASK_STATE_BLOCKED)
    (hz : s' = TASK_STATE_ZOMBIE ↔ s = TASK_STATE_ZOMBIE) : still s' = still s := by
  cases s <;> cases s' <;> simp_all [still]

theorem view_still (h : k'.view = k.view) (a : Nat) : still (k'.state a) = still (k.state a) :=
  congrArg (fun t => t.task_state) (view_task h a)

theorem view_blocked (h : k'.view = k.view) (a : Nat) :
    k'.state a = TASK_STATE_BLOCKED ↔ k.state a = TASK_STATE_BLOCKED := by
  rw [← still_blocked, view_still h, still_blocked]

theorem view_zombie (h : k'.view = k.view) (a : Nat) :
    k'.state a = TASK_STATE_ZOMBIE ↔ k.state a = TASK_STATE_ZOMBIE := by
  rw [← still_zombie, view_still h, still_zombie]

@[simp] theorem view_setTask (k : kernel_t) (a : Nat) (t : task_t) :
    (k.setTask a t).view = k.view.setTask a (plain t) := by
  have hf : (fun b => plain (Function.update k.tasks a t b)) =
      Function.update (fun b => plain (k.tasks b)) a (plain t) := by
    funext b
    by_cases hb : b = a
    · subst hb
      simp
    · simp [hb]
  simp only [kernel_t.view, kernel_t.setTask, hf]

theorem setTask_setTask (k : kernel_t) (a : Nat) (t t' : task_t) :
    (k.setTask a t).setTask a t' = k.setTask a t' := by
  simp [kernel_t.setTask]

/-- A change of fields that are not in the view. -/
theorem view_touch {a : Nat} {t : task_t} (h : plain t = plain (k.tasks a)) :
    (k.setTask a t).view = k.view := by
  rw [view_setTask, h]
  have hf : Function.update (fun b => plain (k.tasks b)) a (plain (k.tasks a)) =
      fun b => plain (k.tasks b) := Function.update_eq_self a _
  show ({ k.view with tasks := Function.update (fun b => plain (k.tasks b)) a (plain (k.tasks a)) } :
    kernel_t) = _
  rw [hf]
  rfl

/-- The same change of a task of two kernels with the same view. -/
theorem view_setTask_congr {a : Nat} {t t' : task_t} (h : k'.view = k.view)
    (ht : plain t' = plain t) : (k'.setTask a t').view = (k.setTask a t).view := by
  rw [view_setTask, view_setTask, h, ht]

theorem view_of_bare (h : k'.bare = k.bare) : k'.view = k.view := by
  show k'.bare.view = k.bare.view
  rw [h]

theorem view_of_rescheduled (h : Rescheduled k k') : k'.view = k.view := by
  have hview : ∀ k : kernel_t, k.view = { k.calm.view with
      tasks := fun a => { k.calm.view.tasks a with task_state := still (k.state a) } } :=
    fun _ => rfl
  have hst : ∀ a, still (k'.state a) = still (k.state a) :=
    fun a => still_eq (h.blocked a) (h.zombie a)
  rw [hview k', hview k, h.calm]
  simp only [hst]

/-! ## What can happen -/

/-- Every task that waits for this goes on. -/
def awakened (k : kernel_t) (wait_reason : task_wait_reason_t) (wait_object : Nat) : kernel_t :=
  { k with tasks := fun a =>
      if a ∈ k.live ∧ k.state a = TASK_STATE_BLOCKED ∧ WaitsOn (k.tasks a) wait_reason wait_object
      then { k.tasks a with task_state := TASK_STATE_READY }
      else k.tasks a }

theorem awakened_pos {r : task_wait_reason_t} {o a : Nat} (hl : a ∈ k.live)
    (hb : k.state a = TASK_STATE_BLOCKED) (hw : WaitsOn (k.tasks a) r o) :
    (awakened k r o).tasks a = { k.tasks a with task_state := TASK_STATE_READY } :=
  if_pos ⟨hl, hb, hw⟩

theorem awakened_neg {r : task_wait_reason_t} {o a : Nat}
    (h : ¬ (a ∈ k.live ∧ k.state a = TASK_STATE_BLOCKED ∧ WaitsOn (k.tasks a) r o)) :
    (awakened k r o).tasks a = k.tasks a := if_neg h

/-- A task that goes on again changes its state only. -/
theorem awakened_task (k : kernel_t) (r : task_wait_reason_t) (o a : Nat) :
    (awakened k r o).tasks a = { k.tasks a with task_state := (awakened k r o).state a } ∧
      ((awakened k r o).state a = k.state a ∨ (awakened k r o).state a = TASK_STATE_READY) := by
  by_cases h : a ∈ k.live ∧ k.state a = TASK_STATE_BLOCKED ∧ WaitsOn (k.tasks a) r o
  · have he := awakened_pos h.1 h.2.1 h.2.2
    unfold kernel_t.state
    rw [he]
    exact ⟨rfl, Or.inr rfl⟩
  · have he := awakened_neg h
    unfold kernel_t.state
    rw [he]
    exact ⟨rfl, Or.inl rfl⟩

/-- No dead task goes on. -/
theorem awakened_zombie {r : task_wait_reason_t} {o a : Nat} (h : k.state a = TASK_STATE_ZOMBIE) :
    (awakened k r o).state a = TASK_STATE_ZOMBIE := by
  unfold kernel_t.state
  rw [awakened_neg]
  · exact h
  · rintro ⟨-, hb, -⟩
    rw [h] at hb
    cases hb

/-- The scancode enters the buffer, if there is room. -/
def buffered (k : kernel_t) (scancode : Nat) : kernel_t :=
  let (keyboard, room) := keyboard_buffer_write (special_keys k.keyboard scancode) scancode
  { k with
    keyboard := keyboard
    accepted := if room then k.accepted ++ [scancode] else k.accepted }

/-- A read takes what the buffer holds, up to a length. -/
def taken (k : kernel_t) (length : Nat) : kernel_t :=
  { k with
    keyboard := (keyboard_read k.keyboard length).1
    delivered := k.delivered ++ (keyboard_read k.keyboard length).2.2 }

/-- A task starts to wait. -/
def waiting (k : kernel_t) (a : Nat) (wait_reason : task_wait_reason_t) (wait_object : Nat) :
    kernel_t :=
  k.setTask a { k.tasks a with
    task_state := TASK_STATE_BLOCKED
    wait_object := wait_object
    wait_reason := wait_reason }

/-- The child of a fork, before it has a parent. -/
def spawned (k : kernel_t) (parent task task_cr3 : Nat) : kernel_t :=
  let p := k.tasks parent
  let record := child_record p k.task_id task_cr3 (sub32 p.task_esp p.stack_base)
  { k with
    toStore := share_resources
      (new_task k.toStore task { record with resources := fun _ => 0 }) task parent
    task_id := u32 (k.task_id + 1) }

/-- A node for the child stands last in the list of its parent. -/
def adopted (k : kernel_t) (parent child block : Nat) : kernel_t :=
  let tail := (k.tasks parent).children_tail
  let k1 := k.newNode block ⟨child, 0, tail⟩
  if (k.tasks parent).children = 0 then (k1.setChildren parent block).setChildrenTail parent block
  else (k1.setNode tail { k1.nodes tail with next := block }).setChildrenTail parent block

def forked (k : kernel_t) (child task_cr3 block : Nat) : kernel_t :=
  adopted ((spawned k k.current child task_cr3).setParent child k.current) k.current child block

/-- The running task has a new address space, and the old one waits to be freed. -/
def executed (k : kernel_t) (task_cr3 : Nat) (loaded : Loaded) : kernel_t :=
  let k1 := k.setTask k.current (loaded_task (k.tasks k.current) loaded.e_entry task_cr3
    loaded.task_esp loaded.heap_start)
  { memory_paging_queue_to_destroy k1 k1.cr3 with cr3 := task_cr3 }

/-- A task without children is dead, and its parent goes on if it waits for that. -/
def exited (k : kernel_t) (a : Nat) : kernel_t :=
  let k1 := k.setState a TASK_STATE_ZOMBIE
  let parent := (k.tasks a).parent
  if parent ≠ 0 ∧ waits_for k1 parent a then k1.setState parent TASK_STATE_READY else k1

/-- The node `head` leaves the list of its parent. -/
def cut (k : kernel_t) (parent head : Nat) : kernel_t :=
  let n := k.nodes head
  let k1 := if n.previous = 0 then k.setChildren parent n.next
    else k.setNode n.previous { k.nodes n.previous with next := n.next }
  let k2 := if n.next = 0 then k1.setChildrenTail parent n.previous
    else k1.setNode n.next { k1.nodes n.next with previous := n.previous }
  k2.freeNode head

/-- A dead task is freed, with its files, its place in the tree and its page directory. -/
def reaped (k : kernel_t) (child head : Nat) : kernel_t :=
  let k1 := { k with toStore := release_resources k.toStore child }
  let k2 := free_task_directory (cut k1 k.current head) child
  { k2 with toStore := free_task k2.toStore child }

/-- The call of a task is not tried again. -/
def finished (k : kernel_t) (a : Nat) : kernel_t :=
  k.setTask a { k.tasks a with syscall_retry := false }

/-- The running task has another handler for a signal. -/
def handles (k : kernel_t) (sig handler : Nat) : kernel_t :=
  setCaller k { caller k with
    signal_handlers := Function.update (caller k).signal_handlers sig handler }

/-- The directory of the running task is loaded. -/
def reloaded (k : kernel_t) : kernel_t := { k with cr3 := (k.tasks k.current).task_cr3 }

/-- The processor goes to the task `new_task`. -/
def switched (k : kernel_t) (new_task esp : Nat) : kernel_t :=
  let k1 := if k.current = 0 then k
    else k.setTask k.current { k.tasks k.current with task_esp := esp }
  let t := k1.tasks new_task
  { k1 with
    task_manager := { k1.task_manager with task_current := new_task }
    esp0 := t.stack_top
    kernel_esp := if t.task_is_user then k1.kernel_esp else t.task_esp + 64
    cr3 := t.task_cr3 }

/-- The buffer of the read that a task has called for lies in its own memory, and the file is open
for reading. -/
def Readable (k : kernel_t) (a : Nat) : Prop :=
  let p := (k.syscall_execution a).parameters
  let resource := (k.tasks a).resources (p 0)
  user_buffer_ok { k with task_manager := { k.task_manager with task_current := a } } (p 1) (p 2) ∧
    p 0 < TASK_MAX_RESOURCES ∧ resource ≠ 0 ∧
    (k.resources resource).flags &&& SYSCALL_O_ACCMODE ≠ SYSCALL_O_WRONLY ∧
    (k.resources resource).operations.read = true

/-- The call that a task tries again: a `waitpid`, or a read that was found in order. -/
def Pending (k : kernel_t) (a : Nat) : Prop :=
  (k.syscall_execution a).index = SYSCALL_WAITPID ∨
  (k.syscall_execution a).index = SYSCALL_READ ∧ Readable k a

/-- What a run keeps to: when a fork may get this page directory, what a load may leave, when the
flags of an open file may become these, and the flags that a file may be opened with. -/
structure Rules where
  fork : kernel_t → Option Nat → Prop
  exec : Loaded → Prop
  flags : kernel_t → Nat → Nat → Prop
  opens : Nat → Prop

/-- One thing that happens to the processes. -/
inductive Act (rules : Rules) : kernel_t → kernel_t → Prop
  | same {k k' : kernel_t} : k'.view = k.view → Act rules k k'
  | freed (k : kernel_t) : Act rules k (memory_paging_destroy_queued k)
  | pressed (k : kernel_t) (scancode : Nat) :
      Act rules k (awakened (buffered k scancode) TASK_WAIT_REASON_IO k.keyboard_address)
  | called (k : kernel_t) (data : register_interrupt_data_t) : Act rules k (load_execution k data)
  | opened {k : kernel_t} {s : Store} {type : resource_type_t} {node flags block index : Nat}
      {result : resource_result_t} : k.current ∈ k.live →
      resource_register k.toStore k.current type node vfs_operations flags block =
        some (s, result, index) → call k ≠ SYSCALL_WAITPID → call k ≠ SYSCALL_READ →
      rules.opens flags → Act rules k { k with toStore := s }
  | closed {k : kernel_t} (i : Nat) : k.current ∈ k.live → call k ≠ SYSCALL_WAITPID →
      call k ≠ SYSCALL_READ → Act rules k { k with toStore := (resource_remove k.toStore k.current i).1 }
  | flagged {k : kernel_t} {i flags : Nat} : k.current ∈ k.live → i < TASK_MAX_RESOURCES →
      (caller k).resources i ≠ 0 → rules.flags k ((caller k).resources i) flags →
      Act rules k (k.setResource ((caller k).resources i)
        { k.resources ((caller k).resources i) with flags := flags })
  | took (k : kernel_t) (length : Nat) : Act rules k (taken k length)
  | waitsKey {k : kernel_t} : k.current ∈ k.live → k.keyboard.buffer_count = 0 →
      k.state k.current = TASK_STATE_RUNNING →
      Act rules k (waiting k k.current TASK_WAIT_REASON_IO k.keyboard_address)
  | waitsChild {k : kernel_t} {pid : Nat} : k.current ∈ k.live → find_waited k pid = some 0 →
      k.state k.current = TASK_STATE_RUNNING →
      Act rules k (waiting k k.current TASK_WAIT_REASON_CHILD pid)
  | retries {k : kernel_t} : Pending k k.current → Act rules k (setRetry k true)
  | finished (k : kernel_t) (a : Nat) : Act rules k (finished k a)
  | handles {k : kernel_t} {sig handler : Nat} : sig ≠ 9 → Act rules k (handles k sig handler)
  | forked {k k1 : kernel_t} {child task_cr3 block : Nat} {page_directory : Option Nat} :
      k.current ∈ k.live → k.current ≠ k.idle → k.state k.current = TASK_STATE_RUNNING →
      rules.fork k page_directory → create_directory k page_directory = some (k1, task_cr3) →
      TaskBlock k.live child → Block k.node_blocks block → Act rules k (forked k1 child task_cr3 block)
  | leaked {k k1 : kernel_t} {task_cr3 : Nat} {page_directory : Option Nat} :
      create_directory k page_directory = some (k1, task_cr3) → Act rules k k1
  | executed {k k1 : kernel_t} {task_cr3 : Nat} {page_directory : Option Nat} {loaded : Loaded} :
      k.current ∈ k.live → rules.exec loaded → create_directory k page_directory = some (k1, task_cr3) →
      task_cr3 ≠ 0 → Act rules k (executed k1 task_cr3 loaded)
  | exited {k : kernel_t} {a : Nat} : a ∈ k.live → a ≠ k.idle → (k.tasks a).children = 0 →
      Act rules k (exited k a)
  | reaped {k : kernel_t} {child head : Nat} : k.current ∈ k.live → child ∈ k.live →
      k.state child = TASK_STATE_ZOMBIE → (k.tasks child).parent = k.current →
      head ∈ k.node_blocks → (k.nodes head).task = child → Act rules k (reaped k child head)
  | roused {k : kernel_t} {a : Nat} : a ∈ k.live → k.state a = TASK_STATE_BLOCKED →
      Act rules k (k.setState a TASK_STATE_READY)
  | reloaded (k : kernel_t) : Act rules k (reloaded k)
  | switched {k : kernel_t} {new_task : Nat} (esp : Nat) : new_task ∈ k.live →
      k.state new_task = TASK_STATE_RUNNING → (in_user_mode k → esp = sub32 k.esp0 72) →
      Act rules k (switched k new_task esp)

/-- All that happens to the processes in an interrupt. -/
def Acts (rules : Rules) : kernel_t → kernel_t → Prop := Relation.ReflTransGen (Act rules)

end alura_os.kernel
