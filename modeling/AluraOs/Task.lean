-- The task record (`task_manager.h`) and the register frame that an interrupt
-- leaves on a kernel stack (`idt.h`).
import AluraOs.Memory

namespace alura_os.task_manager

/-! ## The register frame -/

/-- `register_interrupt_data_t`, from the lowest address up. -/
structure register_interrupt_data_t where
  gs : Nat
  fs : Nat
  es : Nat
  ds : Nat
  edi : Nat
  esi : Nat
  ebp : Nat
  ebx : Nat
  edx : Nat
  ecx : Nat
  eax : Nat
  interrupt_index : Nat
  error_code : Nat
  eip : Nat
  cs : Nat
  eflags : Nat
  useresp : Nat
  ss : Nat
  deriving DecidableEq, Repr

namespace register_interrupt_data_t

/-- The frame that 18 consecutive words hold. -/
def ofWords (w : Nat → Nat) : register_interrupt_data_t where
  gs := w 0
  fs := w 1
  es := w 2
  ds := w 3
  edi := w 4
  esi := w 5
  ebp := w 6
  ebx := w 7
  edx := w 8
  ecx := w 9
  eax := w 10
  interrupt_index := w 11
  error_code := w 12
  eip := w 13
  cs := w 14
  eflags := w 15
  useresp := w 16
  ss := w 17

/-- The words of a frame, in the order of the record. -/
def toWords (r : register_interrupt_data_t) : List Nat :=
  [r.gs, r.fs, r.es, r.ds, r.edi, r.esi, r.ebp, r.ebx, r.edx, r.ecx, r.eax, r.interrupt_index,
    r.error_code, r.eip, r.cs, r.eflags, r.useresp, r.ss]

end register_interrupt_data_t

/-- The four bytes of a word in memory, the lowest first. -/
def bytes32 (w : Nat) : List Nat := [w % 256, w / 256 % 256, w / 65536 % 256, w / 16777216 % 256]

/-- The word at byte `4 * k` of a buffer. -/
def word32 (bytes : List Nat) (k : Nat) : Nat :=
  bytes.getD (4 * k) 0 + 256 * bytes.getD (4 * k + 1) 0 + 65536 * bytes.getD (4 * k + 2) 0 +
    16777216 * bytes.getD (4 * k + 3) 0

namespace register_interrupt_data_t

def toBytes (r : register_interrupt_data_t) : List Nat := r.toWords.flatMap bytes32

def ofBytes (bytes : List Nat) : register_interrupt_data_t := ofWords (word32 bytes)

end register_interrupt_data_t

/-- `sizeof(register_interrupt_data_t)` -/
def REGISTER_FRAME_SIZE : Nat := 72

/-- The word of `eax` in the frame. -/
def REGISTER_EAX : Nat := 10

/-! ## Tasks -/

def TASK_MANAGER_QUEUE_LEVELS : Nat := 4
def TASK_MANAGER_DEFAULT_TIME_SLICE : Nat := 5
def TASK_MANAGER_QUEUE_INDEX_BLOCKED : Nat := TASK_MANAGER_QUEUE_LEVELS
def TASK_MANAGER_QUEUE_INDEX_ZOMBIE : Nat := TASK_MANAGER_QUEUE_LEVELS + 1

def TASK_MANAGER_KERNEL_CODE_SELECTOR : Nat := 0x08
def TASK_MANAGER_KERNEL_DATA_SELECTOR : Nat := 0x10
def TASK_MANAGER_USER_CODE_SELECTOR : Nat := 0x1B
def TASK_MANAGER_USER_DATA_SELECTOR : Nat := 0x23

def TASK_MAX_ARGUMENTS : Nat := 64
def TASK_MAX_RESOURCES : Nat := 512

inductive task_state_t where
  | TASK_STATE_READY
  | TASK_STATE_RUNNING
  | TASK_STATE_BLOCKED
  | TASK_STATE_ZOMBIE
  | TASK_STATE_TERMINATED
  deriving DecidableEq, Repr

inductive task_wait_reason_t where
  | TASK_WAIT_REASON_NONE
  | TASK_WAIT_REASON_CHILD
  | TASK_WAIT_REASON_IO
  deriving DecidableEq, Repr

/-- `task_t`. A pointer is an address, 0 for `NULL`; the scratch record of a syscall in
progress is left to the syscalls. -/
structure task_t where
  task_id : Nat
  task_esp : Nat
  task_cr3 : Nat
  task_state : task_state_t
  task_time_slice : Nat
  task_queue_level : Nat
  stack_base : Nat
  stack_top : Nat
  task_is_user : Bool
  next : Nat
  syscall_retry : Bool
  resources : Nat → Nat
  task_init_eip : Nat
  parent : Nat
  children : Nat
  children_tail : Nat
  return_code : Int
  yield : Bool
  wait_reason : task_wait_reason_t
  wait_object : Nat
  heap_start : Nat
  heap_break : Nat
  ticks_user : Nat
  ticks_system : Nat
  child_ticks_user : Nat
  child_ticks_system : Nat
  signal_handlers : Nat → Nat
  saved_signal_frame : register_interrupt_data_t
  in_signal_handler : Bool
  saved_syscall_retry : Bool

open task_state_t task_wait_reason_t

/-- The record that `kernel_heap_calloc(sizeof(task_t))` leaves: every byte is 0. -/
def task_t.zeroed : task_t where
  task_id := 0
  task_esp := 0
  task_cr3 := 0
  task_state := TASK_STATE_READY
  task_time_slice := 0
  task_queue_level := 0
  stack_base := 0
  stack_top := 0
  task_is_user := false
  next := 0
  syscall_retry := false
  resources := fun _ => 0
  task_init_eip := 0
  parent := 0
  children := 0
  children_tail := 0
  return_code := 0
  yield := false
  wait_reason := TASK_WAIT_REASON_NONE
  wait_object := 0
  heap_start := 0
  heap_break := 0
  ticks_user := 0
  ticks_system := 0
  child_ticks_user := 0
  child_ticks_system := 0
  signal_handlers := fun _ => 0
  saved_signal_frame := register_interrupt_data_t.ofWords fun _ => 0
  in_signal_handler := false
  saved_syscall_retry := false

end alura_os.task_manager
