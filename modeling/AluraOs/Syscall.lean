-- Interrupts: the timer, the keyboard (`drivers/keyboard.c`), exceptions and the
-- syscalls (`syscall.c`), up to the switch to another task (`task_switch.s`).
-- What the memory and the file system answer to a call is an argument of it.
import AluraOs.TaskManager
import AluraOs.TaskCopy
import AluraOs.ElfExecutable

namespace alura_os.kernel

open alura_os.memory alura_os.task_manager alura_os.resource
open task_state_t task_wait_reason_t resource_result_t resource_type_t task_manager_result_t
open alura_os.elf_executable (SYSCALL_NSIG SYSCALL_SIG_DFL SYSCALL_SIG_IGN loaded_task)

/-! ## The keyboard -/

def KEYBOARD_BUFFER_SIZE : Nat := 256

/-- The loop of `keyboard_read`: the bytes that it takes, at most `length`. -/
def keyboard_take : Nat → keyboard_t → List Nat × keyboard_t
  | 0, keyboard => ([], keyboard)
  | length + 1, keyboard =>
    if keyboard.buffer_count = 0 then ([], keyboard)
    else
      let (out, rest) := keyboard_take length { keyboard with
        buffer_tail := (keyboard.buffer_tail + 1) % KEYBOARD_BUFFER_SIZE
        buffer_count := keyboard.buffer_count - 1 }
      (keyboard.buffer keyboard.buffer_tail :: out, rest)

def keyboard_read (keyboard : keyboard_t) (length : Nat) :
    keyboard_t × resource_result_t × List Nat :=
  let (out, keyboard) := keyboard_take length keyboard
  if out = [] then (keyboard, RESOURCE_RESULT_WILL_BLOCK, [])
  else (keyboard, RESOURCE_RESULT_OK, out)

/-- `keyboard_buffer_write`. The second result says whether the buffer had room. -/
def keyboard_buffer_write (keyboard : keyboard_t) (scancode : Nat) : keyboard_t × Bool :=
  if keyboard.buffer_count = KEYBOARD_BUFFER_SIZE then (keyboard, false)
  else
    ({ keyboard with
        buffer := Function.update keyboard.buffer keyboard.buffer_head scancode
        buffer_head := (keyboard.buffer_head + 1) % KEYBOARD_BUFFER_SIZE
        buffer_count := keyboard.buffer_count + 1 }, true)

/-- The `switch` of `keyboard_irq_handler`. -/
def special_keys (keyboard : keyboard_t) (scancode : Nat) : keyboard_t :=
  let pressed : Bool := scancode &&& 0x80 = 0
  let key := scancode &&& 0x7F
  if key = 42 ∨ key = 54 then { keyboard with shift := pressed }
  else if key = 29 then { keyboard with ctrl := pressed }
  else if key = 56 then { keyboard with alt := pressed }
  else keyboard

def keyboard_irq_handler (k : kernel_t) (scancode : Nat) : Option kernel_t :=
  let (keyboard, room) := keyboard_buffer_write (special_keys k.keyboard scancode) scancode
  let k := { k with
    keyboard := keyboard
    accepted := if room then k.accepted ++ [scancode] else k.accepted }
  task_manager_wake_blocked_on k TASK_WAIT_REASON_IO k.keyboard_address

/-! ## The timer -/

/-- The code that the interrupt stops runs in user mode. -/
def in_user_mode (k : kernel_t) : Bool := k.current ≠ 0 ∧ (k.tasks k.current).task_is_user

/-- The tick counts as one of the user or of the system. -/
def count_tick (k : kernel_t) : kernel_t :=
  let t := k.tasks k.current
  if k.current = 0 then k
  else if in_user_mode k then
    k.setTask k.current { t with ticks_user := add_ticks t.ticks_user 1 }
  else k.setTask k.current { t with ticks_system := add_ticks t.ticks_system 1 }

def timer_irq_handler (k : kernel_t) : Option kernel_t :=
  task_manager_schedule (count_tick { k with timer_ticks := (k.timer_ticks + 1) % 2 ^ 64 })

/-! ## What the rest of the kernel answers -/

/-- What a load leaves in the task. -/
structure Loaded where
  e_entry : Nat
  task_esp : Nat
  heap_start : Nat

/-- The answers to one call. The kernel heap gives the blocks, `page_directory` is what
`memory_paging_create_page_directory` gives, `opened` the node that a path resolves to, `room` and
`frame` what the target's stack of a signal holds, `written` the length that a driver or file took
(`none` for an allocation error), and `value` any other result. -/
structure Answers where
  task_block : Nat
  node_block : Nat
  node_blocks : List (Nat × Nat)
  resource_block : Nat
  page_directory : Option Nat
  opened : Option (resource_type_t × Nat)
  loaded : Option Loaded
  room : Bool
  frame : register_interrupt_data_t
  read : Nat
  written : Option Nat
  value : Int

/-! ## Results -/

def SYSCALL_RESULT_OK : Int := 0
def SYSCALL_RESULT_BUSY : Int := 3
def SYSCALL_RESULT_WOULD_BLOCK : Int := 5

/-- An `int32_t` in the register `eax`. -/
def word (n : Int) : Nat := (n % 0x100000000).toNat

def SYSCALL_O_WRONLY : Nat := 1
def SYSCALL_O_RDONLY : Nat := 0
def SYSCALL_O_ACCMODE : Nat := 3
def SYSCALL_O_NONBLOCK : Nat := 4

/-- The running task, on whose behalf a syscall works (`SYSCALL_TASK`). -/
def caller (k : kernel_t) : task_t := k.tasks k.current

/-- `SYSCALL_GET_PARAMETER` -/
def parameter (k : kernel_t) (index : Nat) : Nat :=
  (k.syscall_execution k.current).parameters index

def setCaller (k : kernel_t) (t : task_t) : kernel_t := k.setTask k.current t

def setRetry (k : kernel_t) (retry : Bool) : kernel_t :=
  k.setTask k.current { k.tasks k.current with syscall_retry := retry }

/-- `syscall_validate_user_buffer` -/
def user_buffer_ok (k : kernel_t) (buffer length : Nat) : Bool :=
  let buffer_end := u32 (buffer + length)
  !(caller k).task_is_user ∨
    (buffer < KERNEL_VIRTUAL_SPACE_START ∧ buffer ≤ buffer_end ∧
      buffer_end ≤ KERNEL_VIRTUAL_SPACE_START)

/-! ## Files -/

def syscall_open (k : kernel_t) (answers : Answers) : Option (kernel_t × Nat) :=
  match answers.opened with
  | none => some (k, word (-SYSCALL_RESULT_FAIL))
  | some (type, node) => do
    let (s, result, index) ← resource_register k.toStore k.current type node vfs_operations
      (parameter k 1) answers.resource_block
    return ({ k with toStore := s },
      if result = RESOURCE_RESULT_OK then index else word (-SYSCALL_RESULT_FAIL))

/-- The word at `SYSCALL_TASK->resources[index]`. Past the table it is whatever the memory holds
there, an answer. -/
def slot_word (k : kernel_t) (index : Nat) (answers : Answers) : Nat :=
  if index < TASK_MAX_RESOURCES then (caller k).resources index else answers.read

def syscall_close (k : kernel_t) (answers : Answers) : kernel_t × Nat :=
  let resource_index := parameter k 0
  -- The index is not compared with `TASK_MAX_RESOURCES`.
  if slot_word k resource_index answers = 0 then (k, word (-SYSCALL_RESULT_FAIL))
  else
    ({ k with toStore := (resource_remove k.toStore k.current resource_index).1 },
      word SYSCALL_RESULT_OK)

/-- `vfs_read`: the read of the keyboard, or of a file. The other drivers have no read. -/
def vfs_read (k : kernel_t) (r : resource_t) (buffer length : Nat) (answers : Answers) :
    kernel_t × resource_result_t × Nat :=
  if buffer = 0 ∨ length = 0 then (k, RESOURCE_RESULT_BAD_PARAMETER, 0)
  else
    match r.type with
    | RESOURCE_TYPE_KEYBOARD =>
      let (keyboard, result, out) := keyboard_read k.keyboard length
      ({ k with keyboard := keyboard, delivered := k.delivered ++ out }, result, out.length)
    | RESOURCE_TYPE_FILE => (k, RESOURCE_RESULT_OK, min answers.read length)
    | _ => (k, RESOURCE_RESULT_BAD_PARAMETER, 0)

/-- The part of `syscall_read` after the checks of its parameters. -/
def syscall_read_resource (k : kernel_t) (resource : Nat) (answers : Answers) :
    Option (kernel_t × Nat) :=
  let r := k.resources resource
  let (k, result, read_bytes) := vfs_read k r (parameter k 1) (parameter k 2) answers
  if result = RESOURCE_RESULT_WILL_BLOCK then
    if r.flags &&& SYSCALL_O_NONBLOCK ≠ 0 then
      some (setRetry k false, word (-SYSCALL_RESULT_WOULD_BLOCK))
    else do
      -- Only the keyboard makes a reader wait, and the `fs_data` of its node is the keyboard.
      let task := k.current
      let k ← task_manager_block_task k task TASK_WAIT_REASON_IO k.keyboard_address
      let k ← task_manager_yield_current k
      return (k.setTask task { k.tasks task with syscall_retry := true },
        word (-SYSCALL_RESULT_BUSY))
  else
    let k := setRetry k false
    if result ≠ RESOURCE_RESULT_OK then some (k, word (-SYSCALL_RESULT_FAIL))
    else
      some (k.setResource resource { r with offset := u32 (r.offset + read_bytes) }, read_bytes)

def syscall_read (k : kernel_t) (answers : Answers) : Option (kernel_t × Nat) :=
  let resource_index := parameter k 0
  if !user_buffer_ok k (parameter k 1) (parameter k 2) then
    some (k, word (-SYSCALL_RESULT_BAD_PARAMETER))
  else if TASK_MAX_RESOURCES ≤ resource_index then some (k, word (-SYSCALL_RESULT_BAD_PARAMETER))
  else
    let resource := (caller k).resources resource_index
    if resource = 0 then some (k, word (-SYSCALL_RESULT_FAIL))
    else if (k.resources resource).flags &&& SYSCALL_O_ACCMODE = SYSCALL_O_WRONLY then
      some (k, word (-SYSCALL_RESULT_BAD_PARAMETER))
    else if !(k.resources resource).operations.read then some (k, 0)
    else syscall_read_resource k resource answers

/-- `vfs_write`: no driver and no file system makes a writer wait. -/
def vfs_write (r : resource_t) (buffer length : Nat) (answers : Answers) :
    resource_result_t × Nat :=
  if buffer = 0 ∨ length = 0 then (RESOURCE_RESULT_BAD_PARAMETER, 0)
  else
    match r.type, answers.written with
    | RESOURCE_TYPE_KEYBOARD, _ => (RESOURCE_RESULT_BAD_PARAMETER, 0)
    | _, some n => (RESOURCE_RESULT_OK, min n length)
    | _, none => (RESOURCE_RESULT_ALLOCATION_ERROR, 0)

/-- The part of `syscall_write` after the checks of its parameters. -/
def syscall_write_resource (k : kernel_t) (resource : Nat) (answers : Answers) :
    Option (kernel_t × Nat) :=
  let r := k.resources resource
  let offset := k.write_offset k.current
  let (result, written_bytes) := vfs_write r (u32 (parameter k 1 + offset))
    (sub32 (parameter k 2) offset) answers
  let offset := u32 (offset + written_bytes)
  let k := { k with write_offset := Function.update k.write_offset k.current offset }
  if result = RESOURCE_RESULT_WILL_BLOCK then do
    let task := k.current
    let k ← task_manager_block_task k task TASK_WAIT_REASON_IO resource
    let k ← task_manager_yield_current k
    return (k.setTask task { k.tasks task with syscall_retry := true },
      word (-SYSCALL_RESULT_BUSY))
  else
    let k := setRetry k false
    let k := k.setResource resource { r with offset := u32 (r.offset + offset) }
    if result ≠ RESOURCE_RESULT_OK ∧ offset = 0 then some (k, word (-SYSCALL_RESULT_FAIL))
    else some (k, offset)

def syscall_write (k : kernel_t) (answers : Answers) : Option (kernel_t × Nat) :=
  let resource_index := parameter k 0
  let k :=
    if (caller k).syscall_retry then k
    else { k with write_offset := Function.update k.write_offset k.current 0 }
  if !user_buffer_ok k (parameter k 1) (parameter k 2) then
    some (k, word (-SYSCALL_RESULT_BAD_PARAMETER))
  else if TASK_MAX_RESOURCES ≤ resource_index then some (k, word (-SYSCALL_RESULT_BAD_PARAMETER))
  else
    let resource := (caller k).resources resource_index
    if resource = 0 then some (k, word (-SYSCALL_RESULT_FAIL))
    else if (k.resources resource).flags &&& SYSCALL_O_ACCMODE = SYSCALL_O_RDONLY then
      some (k, word (-SYSCALL_RESULT_BAD_PARAMETER))
    else if !(k.resources resource).operations.write then some (k, word (-SYSCALL_RESULT_FAIL))
    else syscall_write_resource k resource answers

def syscall_isatty (k : kernel_t) : Nat :=
  let resource := (caller k).resources (parameter k 0)
  if TASK_MAX_RESOURCES ≤ parameter k 0 then 0
  else if resource = 0 then 0
  else if (k.resources resource).type = RESOURCE_TYPE_KEYBOARD ∨
      (k.resources resource).type = RESOURCE_TYPE_TERMINAL then 1
  else 0

def SYSCALL_LSEEK_SET : Nat := 0
def SYSCALL_LSEEK_CUR : Nat := 1
def SYSCALL_LSEEK_END : Nat := 2

/-- The new offset of `syscall_lseek`; the size of a file is an answer. -/
def lseek_offset (k : kernel_t) (r : resource_t) (answers : Answers) : Except Int Int :=
  let offset := int32 (parameter k 1)
  if parameter k 2 = SYSCALL_LSEEK_SET then .ok offset
  else if parameter k 2 = SYSCALL_LSEEK_CUR then .ok (r.offset + offset)
  else if parameter k 2 = SYSCALL_LSEEK_END then
    if r.type ≠ RESOURCE_TYPE_FILE then .error (-SYSCALL_RESULT_BAD_PARAMETER)
    -- The result of `vfs_get_size`
    else if answers.value ≠ 0 then .error (-SYSCALL_RESULT_FAIL)
    else .ok (answers.read + offset)
  else .error (-SYSCALL_RESULT_BAD_PARAMETER)

def syscall_lseek (k : kernel_t) (answers : Answers) : kernel_t × Nat :=
  let resource := (caller k).resources (parameter k 0)
  if TASK_MAX_RESOURCES ≤ parameter k 0 then (k, word (-SYSCALL_RESULT_BAD_PARAMETER))
  else if resource = 0 then (k, word (-SYSCALL_RESULT_FAIL))
  else
    match lseek_offset k (k.resources resource) answers with
    | .error e => (k, word e)
    | .ok new_offset =>
      if new_offset < 0 then (k, word (-SYSCALL_RESULT_BAD_PARAMETER))
      else
        (k.setResource resource { k.resources resource with offset := word new_offset },
          word new_offset)

def SYSCALL_F_GETFL : Nat := 1
def SYSCALL_F_SETFL : Nat := 2

def syscall_fcntl (k : kernel_t) : kernel_t × Nat :=
  let resource := (caller k).resources (parameter k 0)
  if TASK_MAX_RESOURCES ≤ parameter k 0 then (k, word (-SYSCALL_RESULT_BAD_PARAMETER))
  else if resource = 0 then (k, word (-SYSCALL_RESULT_FAIL))
  else if parameter k 1 = SYSCALL_F_GETFL then (k, (k.resources resource).flags)
  else if parameter k 1 = SYSCALL_F_SETFL then
    (k.setResource resource { k.resources resource with flags := parameter k 2 },
      word SYSCALL_RESULT_OK)
  else (k, word (-SYSCALL_RESULT_BAD_PARAMETER))

/-- `vfs_ioctl`: the framebuffer has the only `ioctl`, and what it returns is an answer. -/
def vfs_ioctl (r : resource_t) (answers : Answers) : Int :=
  match r.type with
  | RESOURCE_TYPE_FRAMEBUFFER => answers.value
  | _ => RESOURCE_RESULT_BAD_PARAMETER.ctorIdx

def syscall_ioctl (k : kernel_t) (answers : Answers) : Nat :=
  let resource := (caller k).resources (parameter k 0)
  if TASK_MAX_RESOURCES ≤ parameter k 0 then word (-SYSCALL_RESULT_BAD_PARAMETER)
  else if resource = 0 then word (-SYSCALL_RESULT_FAIL)
  else if !(k.resources resource).operations.ioctl then word (-SYSCALL_RESULT_FAIL)
  else word (vfs_ioctl (k.resources resource) answers)

def sizeof_stat : Nat := 40

/-- `syscall_fstat`: the result. The structure that it fills is memory of the caller. -/
def syscall_fstat (k : kernel_t) : Nat :=
  let resource := (caller k).resources (parameter k 0)
  if TASK_MAX_RESOURCES ≤ parameter k 0 then word (-SYSCALL_RESULT_BAD_PARAMETER)
  else if !user_buffer_ok k (parameter k 1) sizeof_stat then
    word (-SYSCALL_RESULT_BAD_PARAMETER)
  else if resource = 0 then word (-SYSCALL_RESULT_FAIL)
  else word SYSCALL_RESULT_OK

/-! ## Tasks -/

/-- `memory_paging_create_page_directory(&task_cr3)`: on an error `task_cr3` stays 0. -/
def create_directory (k : kernel_t) (page_directory : Option Nat) : Option (kernel_t × Nat) :=
  match page_directory with
  | none => some (k, 0)
  | some d =>
    if d ≠ 0 ∧ d ∉ k.directories then
      some ({ k with directories := insert d k.directories }, d)
    else none

/-- `task_manager_task_copy`, with what it does to tasks and resources. -/
def task_manager_task_copy (k : kernel_t) (parent : Nat) (answers : Answers) :
    Option (kernel_t × Nat) :=
  let task := answers.task_block
  if TaskBlock k.live task then do
    let (k, task_cr3) ← create_directory k answers.page_directory
    let p := k.tasks parent
    let record := child_record p k.task_id task_cr3 (sub32 p.task_esp p.stack_base)
    let k := { k with
      toStore := share_resources
        (new_task k.toStore task { record with resources := fun _ => 0 }) task parent
      task_id := u32 (k.task_id + 1) }
    let k ← task_manager_enqueue_task k (k.level task) task
    return (k, task)
  else none

def syscall_fork (k : kernel_t) (answers : Answers) : Option (kernel_t × Nat) := do
  let parent := k.current
  let (k, child_task) ← task_manager_task_copy k parent answers
  let k := k.setParent child_task parent
  let k ← task_manager_add_child_to_task k parent child_task answers.node_block
  return (k, (k.tasks child_task).task_id)

/-- `memory_paging_queue_to_destroy` -/
def memory_paging_queue_to_destroy (k : kernel_t) (page_directory : Nat) : kernel_t :=
  if page_directory = k.kernel_page_directory_phys then k
  else { k with page_directories_to_destroy := k.page_directories_to_destroy ++ [page_directory] }

/-- `elf_load_into_task`, with what it does to the task. A load that fails after its directory
was created leaves that directory behind. -/
def elf_load_into_task (k : kernel_t) (task : Nat) (answers : Answers) : Option (kernel_t × Bool) := do
  let (k, task_cr3) ← create_directory k answers.page_directory
  match answers.loaded with
  | none => return (k, false)
  | some loaded =>
    if task_cr3 = 0 then return (k, false)
    else
      let k := k.setTask task
        (loaded_task (k.tasks task) loaded.e_entry task_cr3 loaded.task_esp loaded.heap_start)
      return (memory_paging_queue_to_destroy k k.cr3, true)

/-- `syscall_execve` in `syscall_handler`: on success `eax` is left as it is. -/
def syscall_execve (k : kernel_t) (eax : Nat) (answers : Answers) : Option (kernel_t × Nat) :=
  if (caller k).task_is_user ∧ KERNEL_VIRTUAL_SPACE_START ≤ parameter k 0 then
    some (k, word (-SYSCALL_RESULT_BAD_PARAMETER))
  else if (caller k).task_is_user ∧ parameter k 1 ≠ 0 ∧
      KERNEL_VIRTUAL_SPACE_START ≤ parameter k 1 then
    some (k, word (-SYSCALL_RESULT_BAD_PARAMETER))
  else do
    let (k, loaded) ← elf_load_into_task k k.current answers
    return (k, if loaded then eax else word (-SYSCALL_RESULT_FAIL))

/-- A task ends, and the processor goes to another if it was the running one. -/
def exit_and_yield (k : kernel_t) (task : Nat) (return_code : Int) (answers : Answers) :
    Option kernel_t := do
  let is_self := task = k.current
  let (k, _) ← task_manager_exit_task k task return_code answers.node_blocks
  if is_self then task_manager_yield_current k else return k

def syscall_exit (k : kernel_t) (answers : Answers) : Option kernel_t :=
  exit_and_yield k k.current (parameter k 0 % 256 * 256 : Nat) answers

/-- `(void*)pid` for the `pid` -1 of `waitpid`. -/
def ANY_CHILD : Nat := 0xFFFFFFFF

/-- The zombie that `syscall_waitpid` reaps, or 0. -/
def find_waited (k : kernel_t) (pid : Nat) : Option Nat :=
  if pid = ANY_CHILD then task_manager_find_zombie_child k k.current
  else do
    let child ← task_manager_find_child k k.current pid
    if child ≠ 0 ∧ k.state child ≠ TASK_STATE_ZOMBIE then return 0 else return child

/-- Whether there is a child to wait for: any, for the `pid` -1. -/
def existing_child (k : kernel_t) (pid : Nat) : Option Nat :=
  if pid ≠ ANY_CHILD then task_manager_find_child k k.current pid else some 1

def syscall_waitpid (k : kernel_t) : Option (kernel_t × Nat) := do
  let pid := parameter k 0
  let child ← find_waited k pid
  if child = 0 then
    let existing ← existing_child k pid
    if existing = 0 then return (setRetry k false, word (-SYSCALL_RESULT_FAIL))
    else
      let task := k.current
      let k ← task_manager_block_task k task TASK_WAIT_REASON_CHILD pid
      let k ← task_manager_yield_current k
      return (k.setTask task { k.tasks task with syscall_retry := true },
        word (-SYSCALL_RESULT_BUSY))
  else
    let child_pid := (k.tasks child).task_id
    let k ← task_manager_destroy_task k child
    return (setRetry k false, child_pid)

/-! ## Signals -/

/-- `task_manager_deliver_signal`, with what it does to the target. `answers.room` is the check of
the target's stack, and `answers.frame` its registers. -/
def task_manager_deliver_signal (k : kernel_t) (target : Nat) (sig : Nat) (answers : Answers) :
    Option kernel_t :=
  if !answers.room then exit_and_yield k target (sig % 128 : Nat) answers
  else
    let t := k.tasks target
    some (k.setTask target { t with
      saved_signal_frame := answers.frame
      in_signal_handler := true
      saved_syscall_retry := t.syscall_retry
      syscall_retry := false })

/-- `syscall_kill` on a target that was found and is not dead. -/
def kill_target (k : kernel_t) (target sig : Nat) (answers : Answers) : Option kernel_t :=
  let handler := (k.tasks target).signal_handlers sig
  if handler = SYSCALL_SIG_IGN then some k
  else if handler = SYSCALL_SIG_DFL then exit_and_yield k target (sig % 128 : Nat) answers
  else do
    let k ← if k.state target = TASK_STATE_BLOCKED then task_manager_unblock_task k target else some k
    task_manager_deliver_signal k target sig answers

def syscall_kill (k : kernel_t) (answers : Answers) : Option (kernel_t × Nat) :=
  let pid := int32 (parameter k 0)
  let sig := int32 (parameter k 1)
  if pid ≤ 0 then some (k, word (-SYSCALL_RESULT_BAD_PARAMETER))
  else if sig < 0 ∨ (SYSCALL_NSIG : Int) ≤ sig then some (k, word (-SYSCALL_RESULT_BAD_PARAMETER))
  else do
    let target ← task_manager_find_task k (parameter k 0)
    if target = 0 then return (k, word (-SYSCALL_RESULT_FAIL))
    else if sig = 0 then return (k, word SYSCALL_RESULT_OK)
    else if k.state target = TASK_STATE_ZOMBIE ∨ k.state target = TASK_STATE_TERMINATED then
      return (k, word SYSCALL_RESULT_OK)
    else
      let k ← kill_target k target (parameter k 1) answers
      return (k, word SYSCALL_RESULT_OK)

def SYSCALL_SIGKILL : Int := 9

/-- `syscall_sigaction`. The handler that the caller's structure names is an answer. -/
def syscall_sigaction (k : kernel_t) (answers : Answers) : kernel_t × Nat :=
  let sig := int32 (parameter k 0)
  let action := parameter k 1
  let old_action := parameter k 2
  if sig ≤ 0 ∨ (SYSCALL_NSIG : Int) ≤ sig then (k, word (-SYSCALL_RESULT_BAD_PARAMETER))
  else if sig = SYSCALL_SIGKILL then (k, word (-SYSCALL_RESULT_BAD_PARAMETER))
  else if action ≠ 0 ∧ !user_buffer_ok k action 4 then (k, word (-SYSCALL_RESULT_BAD_PARAMETER))
  else if old_action ≠ 0 ∧ !user_buffer_ok k old_action 4 then
    (k, word (-SYSCALL_RESULT_BAD_PARAMETER))
  else if action ≠ 0 then
    (setCaller k { caller k with
      signal_handlers := Function.update (caller k).signal_handlers (parameter k 0)
        (word answers.value) }, word SYSCALL_RESULT_OK)
  else (k, word SYSCALL_RESULT_OK)

/-- `syscall_sigreturn`: the `eax` of the frame that it restores. -/
def syscall_sigreturn (k : kernel_t) (eax : Nat) : kernel_t × Nat :=
  if (caller k).in_signal_handler then
    (setCaller k { caller k with in_signal_handler := false }, (caller k).saved_signal_frame.eax)
  else (k, eax)

/-! ## The handler -/

def SYSCALL_OPEN : Nat := 0
def SYSCALL_CLOSE : Nat := 1
def SYSCALL_READ : Nat := 2
def SYSCALL_WRITE : Nat := 3
def SYSCALL_FORK : Nat := 4
def SYSCALL_EXECVE : Nat := 5
def SYSCALL_EXIT : Nat := 6
def SYSCALL_WAITPID : Nat := 7
def SYSCALL_SBRK : Nat := 8
def SYSCALL_ISATTY : Nat := 9
def SYSCALL_GETPID : Nat := 10
def SYSCALL_LSEEK : Nat := 11
def SYSCALL_FCNTL : Nat := 12
def SYSCALL_IOCTL : Nat := 13
def SYSCALL_FSTAT : Nat := 14
def SYSCALL_STAT : Nat := 15
def SYSCALL_LINK : Nat := 16
def SYSCALL_UNLINK : Nat := 17
def SYSCALL_TIMES : Nat := 18
def SYSCALL_KILL : Nat := 19
def SYSCALL_SIGACTION : Nat := 20
-- `SYSCALL_SIGRETURN` stands with the trampoline of a signal.

/-- The start of `syscall_handler`: the registers count unless the call is a retry. -/
def load_execution (k : kernel_t) (data : register_interrupt_data_t) : kernel_t :=
  if (caller k).syscall_retry then k
  else
    let execution : syscall_execution_t :=
      { index := data.eax
        parameters := fun i => [data.ebx, data.ecx, data.edx, data.esi, data.edi, 0].getD i 0 }
    { k with syscall_execution := Function.update k.syscall_execution k.current execution }

/-- The index of the call in progress. -/
def call (k : kernel_t) : Nat := (k.syscall_execution k.current).index

/-- The `switch` of `syscall_handler`: the kernel after the call and the `eax` that it leaves. The
calls that change neither tasks nor resources give the answer's value; `sbrk` sets the break of the
heap. -/
def syscall_dispatch (k : kernel_t) (data : register_interrupt_data_t) (answers : Answers) :
    Option (kernel_t × Nat) :=
  if call k = SYSCALL_OPEN then syscall_open k answers
  else if call k = SYSCALL_CLOSE then some (syscall_close k answers)
  else if call k = SYSCALL_READ then syscall_read k answers
  else if call k = SYSCALL_WRITE then syscall_write k answers
  else if call k = SYSCALL_FORK then syscall_fork k answers
  else if call k = SYSCALL_EXECVE then syscall_execve k data.eax answers
  else if call k = SYSCALL_EXIT then (syscall_exit k answers).map fun k => (k, data.eax)
  else if call k = SYSCALL_WAITPID then syscall_waitpid k
  else if call k = SYSCALL_SBRK then
    some (setCaller k { caller k with heap_break := answers.read }, word answers.value)
  else if call k = SYSCALL_ISATTY then some (k, syscall_isatty k)
  else if call k = SYSCALL_GETPID then some (k, (caller k).task_id)
  else if call k = SYSCALL_LSEEK then some (syscall_lseek k answers)
  else if call k = SYSCALL_FCNTL then some (syscall_fcntl k)
  else if call k = SYSCALL_KILL then syscall_kill k answers
  else if call k = SYSCALL_SIGACTION then some (syscall_sigaction k answers)
  else if call k = SYSCALL_SIGRETURN then some (syscall_sigreturn k data.eax)
  else if call k = SYSCALL_IOCTL then some (k, syscall_ioctl k answers)
  else if call k = SYSCALL_FSTAT then some (k, syscall_fstat k)
  else if call k = SYSCALL_STAT ∨ call k = SYSCALL_LINK ∨ call k = SYSCALL_UNLINK ∨
      call k = SYSCALL_TIMES then
    some (k, word answers.value)
  else some (k, data.eax)

def syscall_handler (k : kernel_t) (data : register_interrupt_data_t) (answers : Answers) :
    Option (kernel_t × Nat) :=
  syscall_dispatch (load_execution k data) data answers

/-! ## Interrupts -/

/-- The signals of `exception_signals`. -/
def exception_signals : List Nat :=
  [8, 5, 6, 5, 8, 11, 4, 8, 6, 8, 11, 7, 7, 11, 11, 6, 8, 7, 6, 8, 11,
    6, 6, 6, 6, 6, 6, 6, 6, 6, 6, 6]

/-- `isr_handler` on an exception in user mode. -/
def exception_handler (k : kernel_t) (interrupt_index : Nat) (answers : Answers) :
    Option kernel_t :=
  let sig := exception_signals.getD interrupt_index 6
  let handler := (caller k).signal_handlers sig
  if handler ≠ SYSCALL_SIG_DFL ∧ handler ≠ SYSCALL_SIG_IGN then
    task_manager_deliver_signal k k.current sig answers
  else exit_and_yield k k.current (sig % 128 : Nat) answers

/-- The stack pointer after the pushes of a stub: 18 words below `esp0` from user mode, and 16
words below the stack pointer of the kernel code else. -/
def entry_esp (k : kernel_t) : Nat :=
  if in_user_mode k then sub32 k.esp0 72 else sub32 k.kernel_esp 64

/-- `task_manager_task_switch`. Any `task_cr3` is loaded. With that of a task without a directory (0)
the processor faults at the next instruction, so what is said of all runs covers more than can happen
there. -/
def task_manager_task_switch (k : kernel_t) (esp : Nat) : kernel_t :=
  let k := if k.current = 0 then k else k.setTask k.current { k.tasks k.current with task_esp := esp }
  let new_task := k.tasks k.task_manager.task_next
  { k with
    task_manager := { k.task_manager with task_current := k.task_manager.task_next }
    esp0 := new_task.stack_top
    kernel_esp := if new_task.task_is_user then k.kernel_esp else new_task.task_esp + 64
    cr3 := new_task.task_cr3 }

/-- The end of the stubs. -/
def leave_interrupt (k : kernel_t) (esp : Nat) : kernel_t :=
  if k.task_manager.task_needs_switching then
    task_manager_task_switch
      { k with task_manager := { k.task_manager with task_needs_switching := false } } esp
  else k

/-- The end of `isr_stub_handler`: it loads the directory of the current task first. -/
def leave_isr (k : kernel_t) (esp : Nat) : kernel_t :=
  leave_interrupt { k with cr3 := (k.tasks k.current).task_cr3 } esp

/-- What can interrupt the processor. -/
inductive Interrupt where
  | timer
  | keyboard (scancode : Nat)
  | syscall (data : register_interrupt_data_t) (answers : Answers)
  | exception (interrupt_index : Nat) (answers : Answers)

/-- One interrupt, from its entry to its `iret`. The idle task only halts, so calls and
exceptions come from the other tasks. -/
def interrupt (k : kernel_t) : Interrupt → Option kernel_t
  | .timer => (timer_irq_handler k).map fun k' => leave_interrupt k' (entry_esp k)
  | .keyboard scancode =>
    (keyboard_irq_handler k scancode).map fun k' => leave_interrupt k' (entry_esp k)
  | .syscall data answers =>
    if k.current = 0 ∨ k.current = k.idle then none
    else (syscall_handler k data answers).map fun r => leave_isr r.1 (entry_esp k)
  | .exception interrupt_index answers =>
    if k.current = 0 ∨ k.current = k.idle then none
    else (exception_handler k interrupt_index answers).map fun k' => leave_isr k' (entry_esp k)

end alura_os.kernel
