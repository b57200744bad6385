-- The flag of a call to be tried again, as the switch reads it: `task_manager.inc` lays
-- `task_t` out without padding, so the load takes three bytes of the link of the task.
import AluraOs.KernelRuns

namespace alura_os.kernel

open alura_os.memory alura_os.task_manager alura_os.resource chains
open task_state_t task_wait_reason_t resource_result_t resource_type_t

variable {k k' : kernel_t} {q : Nat → List Nat} {order : List Nat} {ns : Nat → List Nat}
  {rules : Rules}

/-! ## The layout -/

/-- The number of a state in the enumeration. -/
def state_code : task_state_t → Nat
  | TASK_STATE_READY => 0
  | TASK_STATE_RUNNING => 1
  | TASK_STATE_BLOCKED => 2
  | TASK_STATE_ZOMBIE => 3
  | TASK_STATE_TERMINATED => 4

/-- The words of the start of a `task_t` as C lays it out. The bytes that pad `task_is_user` and
`syscall_retry` are 0, since the record comes from `kernel_heap_calloc`. -/
def task_words (t : task_t) : List Nat :=
  [t.task_id, t.task_esp, t.task_cr3, state_code t.task_state, t.task_time_slice,
    t.task_queue_level, t.stack_base, t.stack_top, t.task_is_user.toNat, t.next,
    t.syscall_retry.toNat]

/-- The byte of a task at this offset. -/
def task_byte (t : task_t) (offset : Nat) : Nat :=
  (task_words t).getD (offset / 4) 0 / 256 ^ (offset % 4) % 256

/-- `dword [task + offset]` -/
def task_load (t : task_t) (offset : Nat) : Nat :=
  task_byte t offset + 256 * task_byte t (offset + 1) + 256 ^ 2 * task_byte t (offset + 2) +
    256 ^ 3 * task_byte t (offset + 3)

/-- `task_t.syscall_retry` of `task_manager.inc`: eight words, a byte and a word before it. -/
def SYSCALL_RETRY_OFFSET : Nat := 8 * 4 + 1 + 4

/-- The load takes the upper bytes of the link, and the flag. -/
theorem task_load_retry (t : task_t) :
    task_load t SYSCALL_RETRY_OFFSET = t.next / 256 % 2 ^ 24 + 2 ^ 24 * t.syscall_retry.toNat := by
  have hflag : t.syscall_retry.toNat ≤ 1 := Bool.toNat_le t.syscall_retry
  have h1 : task_byte t 37 = t.next / 256 % 256 := rfl
  have h2 : task_byte t 38 = t.next / 256 ^ 2 % 256 := rfl
  have h3 : task_byte t 39 = t.next / 256 ^ 3 % 256 := rfl
  have h4 : task_byte t 40 = t.syscall_retry.toNat / 256 ^ 0 % 256 := rfl
  unfold task_load SYSCALL_RETRY_OFFSET
  rw [h1, h2, h3, h4]
  omega

theorem task_load_retry_iff (t : task_t) (h : t.next = 0) :
    task_load t SYSCALL_RETRY_OFFSET ≠ 0 ↔ t.syscall_retry = true := by
  rw [task_load_retry, h]
  cases t.syscall_retry <;> simp

/-! ## Runs -/

/-- Where the processor is to go to another task, the switch reads the flag of that task. -/
def FlagRead (k : kernel_t) : Prop :=
  k.task_manager.task_needs_switching = true →
    (task_load (k.tasks k.task_manager.task_next) SYSCALL_RETRY_OFFSET ≠ 0 ↔
      (k.tasks k.task_manager.task_next).syscall_retry = true)

/-- The task that is to run is in no queue, so it is linked to no other. -/
theorem Settled.flag_read (h : Settled k q k.runs) : FlagRead k := by
  intro hn
  have hruns : k.runs = k.task_manager.task_next := by
    unfold kernel_t.runs
    rw [hn]
    rfl
  rw [hruns] at h
  exact task_load_retry_iff _ (h.queues.loose _ (by simp))

/-- A grandchild of init is left to it in a node whose unwritten word points just before the link of the
idle task, and ends. Init reaps it. -/
def linkedIdle : List Interrupt :=
  initRuns ++ [forks 2, calls SYSCALL_WAITPID ANY_CHILD 0 0, forks 3,
    exitsWithChild 4 (taskAt 0 + TASK_NEXT_OFFSET), calls SYSCALL_EXIT 0 0 0,
    calls SYSCALL_WAITPID ANY_CHILD 0 0]

end alura_os.kernel
