-- Tasks and their queues (`task_manager.c`): the six queues, the scheduler, the
-- lists of children, exit and reaping. A pointer is an address, 0 for `NULL`.
-- A walk along a list visits at most as many nodes as there are addresses;
-- a walk that goes on after that never ends, and gives `none`.
import AluraOs.LinkedLists
import AluraOs.Resource

namespace alura_os.kernel

open alura_os.memory alura_os.task_manager alura_os.resource
open task_state_t task_wait_reason_t

/-! ## The records -/

structure task_node_t where
  task : Nat
  next : Nat
  previous : Nat
  deriving DecidableEq, Repr

structure task_manager_t where
  task_current : Nat
  task_next : Nat
  task_needs_switching : Bool
  task_idle : Nat
  task_queues : Nat → Nat
  last_priority_boost_at_ticks : Nat
  task_init : Nat

inductive task_manager_result_t where
  | TASK_MANAGER_RESULT_OK
  | TASK_MANAGER_RESULT_QUEUE_TASK_NOT_FOUND
  | TASK_MANAGER_RESULT_OUT_OF_MEMORY
  | TASK_MANAGER_RESULT_CHILD_NOT_FOUND
  | TASK_MANAGER_RESULT_ARGS_TOO_LARGE
  deriving DecidableEq, Repr

open task_manager_result_t

/-- `keyboard_t`, with the fields of its `special_state`. -/
structure keyboard_t where
  shift : Bool
  ctrl : Bool
  alt : Bool
  buffer : Nat → Nat
  buffer_head : Nat
  buffer_tail : Nat
  buffer_count : Nat

structure syscall_execution_t where
  index : Nat
  parameters : Nat → Nat

/-- A page directory that was freed: the directory that was loaded then, those of the tasks
that remained, and whether the freed one had been created and not freed since. -/
structure Freed where
  directory : Nat
  cr3 : Nat
  remaining : Finset Nat
  created : Bool

/-! ## The kernel -/

/-- The state that tasks share. `node_blocks` holds the nodes that the kernel heap has given
out, `directories` the page directories that were created and not freed, and `frees` those that
were freed, the latest first. `esp0` is that of the `tss`, and `kernel_esp` the stack pointer of the
kernel code that an interrupt stops. `accepted` and `delivered` list the scancodes that entered the
keyboard buffer and those that reads returned, the oldest first. `strays` lists the words of tasks that a store through a
node pointer has hit, as task and number of the word, the latest first. -/
structure kernel_t extends Store where
  task_manager : task_manager_t
  nodes : Nat → task_node_t
  node_blocks : Finset Nat
  task_id : Nat
  timer_ticks : Nat
  cr3 : Nat
  esp0 : Nat
  kernel_esp : Nat
  kernel_page_directory_phys : Nat
  page_directories_to_destroy : List Nat
  directories : Finset Nat
  frees : List Freed
  syscall_execution : Nat → syscall_execution_t
  write_offset : Nat → Nat
  keyboard : keyboard_t
  keyboard_address : Nat
  accepted : List Nat
  delivered : List Nat
  strays : List (Nat × Nat)

/-- The number of addresses. -/
def ADDRESSES : Nat := 0x100000000

namespace kernel_t

def setTask (k : kernel_t) (a : Nat) (t : task_t) : kernel_t :=
  { k with tasks := Function.update k.tasks a t }

def next (k : kernel_t) (a : Nat) : Nat := (k.tasks a).next

/-- `task->next = v` -/
def setNext (k : kernel_t) (a v : Nat) : kernel_t := k.setTask a { k.tasks a with next := v }

/-- `task->task_state = s` -/
def setState (k : kernel_t) (a : Nat) (s : task_state_t) : kernel_t :=
  k.setTask a { k.tasks a with task_state := s }

/-- `task->task_time_slice = n` -/
def setSlice (k : kernel_t) (a n : Nat) : kernel_t :=
  k.setTask a { k.tasks a with task_time_slice := n }

/-- `task->yield = v` -/
def setYield (k : kernel_t) (a : Nat) (v : Bool) : kernel_t :=
  k.setTask a { k.tasks a with yield := v }

/-- `task->children = node` -/
def setChildren (k : kernel_t) (a node : Nat) : kernel_t :=
  k.setTask a { k.tasks a with children := node }

/-- `task->children_tail = node` -/
def setChildrenTail (k : kernel_t) (a node : Nat) : kernel_t :=
  k.setTask a { k.tasks a with children_tail := node }

/-- `task->parent = parent` -/
def setParent (k : kernel_t) (a parent : Nat) : kernel_t :=
  k.setTask a { k.tasks a with parent := parent }

def state (k : kernel_t) (a : Nat) : task_state_t := (k.tasks a).task_state

def level (k : kernel_t) (a : Nat) : Nat := (k.tasks a).task_queue_level

def queue (k : kernel_t) (i : Nat) : Nat := k.task_manager.task_queues i

/-- `task_manager->task_queues[i] = v` -/
def setQueue (k : kernel_t) (i v : Nat) : kernel_t :=
  { k with task_manager := { k.task_manager with
      task_queues := Function.update k.task_manager.task_queues i v } }

def current (k : kernel_t) : Nat := k.task_manager.task_current

def idle (k : kernel_t) : Nat := k.task_manager.task_idle

def init (k : kernel_t) : Nat := k.task_manager.task_init

def setResource (k : kernel_t) (a : Nat) (r : resource_t) : kernel_t :=
  { k with resources := Function.update k.resources a r }

def setNode (k : kernel_t) (a : Nat) (n : task_node_t) : kernel_t :=
  { k with nodes := Function.update k.nodes a n }

/-- `kernel_heap_malloc(sizeof(task_node_t))` gives `a`, which is then filled. -/
def newNode (k : kernel_t) (a : Nat) (n : task_node_t) : kernel_t :=
  { k with nodes := Function.update k.nodes a n, node_blocks := insert a k.node_blocks }

/-- `kernel_heap_free(node)` -/
def freeNode (k : kernel_t) (a : Nat) : kernel_t := { k with node_blocks := k.node_blocks.erase a }

end kernel_t

/-! ## Queues -/

def task_manager_enqueue_task (k : kernel_t) (queue_index task : Nat) : Option kernel_t :=
  if task = k.idle then some k
  else
    let k := k.setTask task { k.tasks task with next := 0, task_queue_level := queue_index }
    if k.queue queue_index = 0 then some (k.setQueue queue_index task)
    else (chains.lastNode k.next 0 ADDRESSES (k.queue queue_index)).map fun head => k.setNext head task

def task_manager_dequeue_task (k : kernel_t) (queue_index : Nat) : kernel_t × Nat :=
  if k.queue queue_index = 0 then (k, 0)
  else
    let task := k.queue queue_index
    ((k.setQueue queue_index (k.next task)).setNext task 0, task)

def task_manager_remove_task_from_queue (k : kernel_t) (queue_index task : Nat) :
    Option (kernel_t × task_manager_result_t) :=
  if k.queue queue_index = 0 then some (k, TASK_MANAGER_RESULT_QUEUE_TASK_NOT_FOUND)
  else if k.queue queue_index = task then
    some ((k.setQueue queue_index (k.next task)).setNext task 0, TASK_MANAGER_RESULT_OK)
  else (chains.nodeBefore k.next 0 task ADDRESSES (k.queue queue_index)).map fun head =>
    if head = 0 then (k, TASK_MANAGER_RESULT_QUEUE_TASK_NOT_FOUND)
    else ((k.setNext head (k.next task)).setNext task 0, TASK_MANAGER_RESULT_OK)

/-! ## The scheduler -/

def TIMER_PHASE : Nat := 1000
def TASK_MANAGER_PRIORITY_BOOST_INTERVAL : Nat := 5 * TIMER_PHASE

def task_manager_calculate_time_slice (queue_level : Nat) : Nat :=
  u32 (TASK_MANAGER_QUEUE_INDEX_BLOCKED * 2 ^ queue_level)

/-- The loop of `task_manager_pick_task` over the `n` queues from `queue_index` on. -/
def pick_from (k : kernel_t) : Nat → Nat → kernel_t × Nat
  | 0, _ => (k.setSlice k.idle (task_manager_calculate_time_slice 0), k.idle)
  | n + 1, queue_index =>
    if k.queue queue_index ≠ 0 then
      let (k, task) := task_manager_dequeue_task k queue_index
      if k.state task ≠ TASK_STATE_READY ∨ k.state task ≠ TASK_STATE_RUNNING then
        (k.setSlice task (task_manager_calculate_time_slice queue_index), task)
      else pick_from k n (queue_index + 1)
    else pick_from k n (queue_index + 1)

def task_manager_pick_task (k : kernel_t) : kernel_t × Nat :=
  pick_from k TASK_MANAGER_QUEUE_LEVELS 0

def task_manager_requeue_task (k : kernel_t) (task : Nat) (used_time_slice : Bool) :
    Option kernel_t :=
  if task = k.idle then some k
  else
    let task_queue_level :=
      if used_time_slice ∧ k.level task < TASK_MANAGER_QUEUE_LEVELS - 1 then k.level task + 1
      else k.level task
    let k := k.setTask task { k.tasks task with
      task_queue_level := task_queue_level
      task_state := TASK_STATE_READY }
    task_manager_enqueue_task k task_queue_level task

/-- The inner loop of `task_manager_boost_priority_of_all_tasks`. -/
def boost_queue (i : Nat) : Nat → kernel_t → Option kernel_t
  | 0, _ => none
  | n + 1, k =>
    if k.queue i = 0 then some k
    else do
      let (k, task) := task_manager_dequeue_task k i
      let k ← task_manager_enqueue_task
        (k.setTask task { k.tasks task with task_queue_level := 0 }) 0 task
      boost_queue i n k

def task_manager_boost_priority_of_all_tasks (k : kernel_t) : Option kernel_t := do
  let k ← (List.range' 1 (TASK_MANAGER_QUEUE_LEVELS - 1)).foldlM
    (fun k i => boost_queue i ADDRESSES k) k
  return { k with task_manager := { k.task_manager with
    last_priority_boost_at_ticks := k.timer_ticks } }

/-- A page directory goes back to the frame allocator. `remaining` are the tasks that go on. -/
def free_directory (k : kernel_t) (directory : Nat) (remaining : Finset Nat) : kernel_t :=
  { k with
    frees := ⟨directory, k.cr3, remaining.image fun a => (k.tasks a).task_cr3,
      decide (directory ∈ k.directories)⟩ :: k.frees
    directories := k.directories.erase directory }

/-- `memory_paging_destroy_queued`, as far as it decides which directories are freed. -/
def memory_paging_destroy_queued (k : kernel_t) : kernel_t :=
  let k := k.page_directories_to_destroy.foldl (fun k d => free_directory k d k.live) k
  { k with page_directories_to_destroy := [] }

/-- The running task goes back to a queue, unless it waits or is dead. -/
def leave_processor (k : kernel_t) (old_task : Nat) : Option kernel_t :=
  if old_task ≠ k.idle ∧ k.state old_task = TASK_STATE_RUNNING then
    task_manager_requeue_task k old_task true
  else some k

/-- The next task is picked, and a switch is asked for if it is another one. -/
def take_processor (k : kernel_t) (old_task : Nat) : kernel_t :=
  let (k, new_task) := task_manager_pick_task k
  let k := k.setState new_task TASK_STATE_RUNNING
  if new_task ≠ old_task then
    { k with task_manager := { k.task_manager with
      task_next := new_task
      task_needs_switching := true } }
  else k.setSlice new_task (task_manager_calculate_time_slice (k.level new_task))

/-- The end of `task_manager_schedule`, when the current task leaves the processor. -/
def task_manager_reschedule (k : kernel_t) : Option kernel_t :=
  let old_task := k.current
  (leave_processor (k.setYield old_task false) old_task).map fun k => take_processor k old_task

/-- The 64-bit counter has passed the interval since the last boost. -/
def boost_is_due (k : kernel_t) : Bool :=
  TASK_MANAGER_PRIORITY_BOOST_INTERVAL ≤
    (k.timer_ticks + 2 ^ 64 - k.task_manager.last_priority_boost_at_ticks) % 2 ^ 64

def boost_if_due (k : kernel_t) : Option kernel_t :=
  if boost_is_due k then task_manager_boost_priority_of_all_tasks k else some k

/-- `task_manager_schedule` from the check of the current task on. The slice is unsigned, so
`<= 0` holds for 0 only. -/
def use_time_slice (k : kernel_t) : Option kernel_t :=
  if k.current = 0 then some k
  else
    let k := k.setSlice k.current (sub32 (k.tasks k.current).task_time_slice 1)
    if (k.tasks k.current).task_time_slice = 0 ∨ (k.tasks k.current).yield then
      task_manager_reschedule k
    else some k

def task_manager_schedule (k : kernel_t) : Option kernel_t :=
  (boost_if_due (memory_paging_destroy_queued k)).bind use_time_slice

def task_manager_yield_current (k : kernel_t) : Option kernel_t :=
  if k.current = 0 then some k else task_manager_schedule (k.setYield k.current true)

/-! ## Blocking -/

def task_manager_block_task (k : kernel_t) (task : Nat) (wait_reason : task_wait_reason_t)
    (wait_object : Nat) : Option kernel_t :=
  if k.state task = TASK_STATE_BLOCKED then some k
  else do
    let k := k.setTask task { k.tasks task with
      task_state := TASK_STATE_BLOCKED
      wait_object := wait_object
      wait_reason := wait_reason }
    let (k, _) ← task_manager_remove_task_from_queue k (k.level task) task
    task_manager_enqueue_task k TASK_MANAGER_QUEUE_INDEX_BLOCKED task

def task_manager_unblock_task (k : kernel_t) (task : Nat) : Option kernel_t :=
  if k.state task ≠ TASK_STATE_BLOCKED then some k
  else do
    let k := k.setState task TASK_STATE_READY
    let (k, _) ← task_manager_remove_task_from_queue k (k.level task) task
    task_manager_enqueue_task k 0 task

/-- The body of the loop of `task_manager_wake_blocked_on`. -/
def wake_one (k : kernel_t) (wait_reason : task_wait_reason_t) (wait_object head : Nat) :
    Option kernel_t :=
  if (k.tasks head).wait_reason = wait_reason ∧ (k.tasks head).wait_object = wait_object then
    task_manager_unblock_task k head
  else some k

/-- The loop of `task_manager_wake_blocked_on`. The next node is read before the task moves. -/
def wake_from (wait_reason : task_wait_reason_t) (wait_object : Nat) :
    Nat → kernel_t → Nat → Option kernel_t
  | 0, _, _ => none
  | n + 1, k, head =>
    if head = 0 then some k
    else
      let next := k.next head
      (wake_one k wait_reason wait_object head).bind fun k =>
        wake_from wait_reason wait_object n k next

def task_manager_wake_blocked_on (k : kernel_t) (wait_reason : task_wait_reason_t)
    (wait_object : Nat) : Option kernel_t :=
  wake_from wait_reason wait_object ADDRESSES k (k.queue TASK_MANAGER_QUEUE_INDEX_BLOCKED)

/-! ## Children -/

/-- The states and the wait reasons by their numbers. -/
def task_states : List task_state_t :=
  [TASK_STATE_READY, TASK_STATE_RUNNING, TASK_STATE_BLOCKED, TASK_STATE_ZOMBIE,
    TASK_STATE_TERMINATED]

def task_wait_reasons : List task_wait_reason_t :=
  [TASK_WAIT_REASON_NONE, TASK_WAIT_REASON_CHILD, TASK_WAIT_REASON_IO]

/-- The words of a `task_t`: `next`, the first of the resources, the one behind them, the call in
progress up to the offset of its write, and the first of the handlers and of the saved frame. -/
def TASK_NEXT_WORD : Nat := 9
def TASK_RESOURCES_WORD : Nat := 11
def TASK_INIT_EIP_WORD : Nat := TASK_RESOURCES_WORD + TASK_MAX_RESOURCES
def TASK_EXECUTION_WORD : Nat := TASK_INIT_EIP_WORD + 6
def TASK_WRITE_WORD : Nat := TASK_EXECUTION_WORD + 7
def TASK_HANDLERS_WORD : Nat := TASK_WRITE_WORD + 13
def TASK_FRAME_WORD : Nat := TASK_HANDLERS_WORD + 32
def TASK_FLAGS_WORD : Nat := TASK_FRAME_WORD + 18

/-- A counter of 64 bits with another low or high word. -/
def with_low (n v : Nat) : Nat := n / 2 ^ 32 * 2 ^ 32 + v
def with_high (n v : Nat) : Nat := n % 2 ^ 32 + v * 2 ^ 32

/-- `v` in the word `i` of a task, as C lays the record out; a byte and its padding are one word. A
number that is no state or no wait reason gives `none`. -/
def set_task_word (t : task_t) (i v : Nat) : Option task_t :=
  match i with
  | 0 => some { t with task_id := v }
  | 1 => some { t with task_esp := v }
  | 2 => some { t with task_cr3 := v }
  | 3 => (task_states[v]?).map fun s => { t with task_state := s }
  | 4 => some { t with task_time_slice := v }
  | 5 => some { t with task_queue_level := v }
  | 6 => some { t with stack_base := v }
  | 7 => some { t with stack_top := v }
  | 8 => some { t with task_is_user := v % 256 ≠ 0 }
  | 9 => some { t with next := v }
  | 10 => some { t with syscall_retry := v % 256 ≠ 0 }
  | i =>
    if i < TASK_INIT_EIP_WORD then
      some { t with resources := Function.update t.resources (i - TASK_RESOURCES_WORD) v }
    else if i < TASK_HANDLERS_WORD then
      match i - TASK_INIT_EIP_WORD with
      | 0 => some { t with task_init_eip := v }
      | 1 => some { t with parent := v }
      | 2 => some { t with children := v }
      | 3 => some { t with children_tail := v }
      | 4 => some { t with return_code := int32 v }
      | 5 => some { t with yield := v % 256 ≠ 0 }
      | 14 => (task_wait_reasons[v]?).map fun r => { t with wait_reason := r }
      | 15 => some { t with wait_object := v }
      | 16 => some { t with heap_start := v }
      | 17 => some { t with heap_break := v }
      | 18 => some { t with ticks_user := with_low t.ticks_user v }
      | 19 => some { t with ticks_user := with_high t.ticks_user v }
      | 20 => some { t with ticks_system := with_low t.ticks_system v }
      | 21 => some { t with ticks_system := with_high t.ticks_system v }
      | 22 => some { t with child_ticks_user := with_low t.child_ticks_user v }
      | 23 => some { t with child_ticks_user := with_high t.child_ticks_user v }
      | 24 => some { t with child_ticks_system := with_low t.child_ticks_system v }
      | 25 => some { t with child_ticks_system := with_high t.child_ticks_system v }
      | _ => none
    else if i < TASK_FRAME_WORD then
      some { t with
        signal_handlers := Function.update t.signal_handlers (i - TASK_HANDLERS_WORD) v }
    else if i < TASK_FLAGS_WORD then
      let words := t.saved_signal_frame.toWords.set (i - TASK_FRAME_WORD) v
      some { t with saved_signal_frame := register_interrupt_data_t.ofWords fun j => words.getD j 0 }
    else if i = TASK_FLAGS_WORD then
      some { t with
        in_signal_handler := v % 256 ≠ 0
        saved_syscall_retry := v / 256 % 256 ≠ 0 }
    else none

/-- `v` in the word `i` of the block of a task: in its record, or in its call in progress. -/
def store_task_word (k : kernel_t) (task i v : Nat) : Option kernel_t :=
  let e := k.syscall_execution task
  if i < TASK_EXECUTION_WORD ∨ TASK_WRITE_WORD < i then
    (set_task_word (k.tasks task) i v).map fun t => k.setTask task t
  else if i = TASK_WRITE_WORD then
    some { k with write_offset := Function.update k.write_offset task v }
  else
    let execution : syscall_execution_t :=
      if i = TASK_EXECUTION_WORD then { e with index := v }
      else { e with parameters := Function.update e.parameters (i - TASK_EXECUTION_WORD - 1) v }
    some { k with syscall_execution := Function.update k.syscall_execution task execution }

/-- The live task whose block holds an address, with the number of the word there. -/
def task_word_at (live : Finset Nat) (addr : Nat) : Option (Nat × Nat) :=
  ((List.range (SIZEOF_TASK / 4)).find? fun i => 4 * i ≤ addr ∧ addr - 4 * i ∈ live).map
    fun i => (addr - 4 * i, i)

/-- `offsetof(task_t, next) - offsetof(task_node_t, next)` -/
def TASK_NEXT_OFFSET : Nat := 36 - 4

/-- `node->next = v`, wherever `node` points: into a node, or so that the word is one of a task.
Memory elsewhere is not modelled, and no run goes on from a store there. -/
def store_next (k : kernel_t) (node v : Nat) : Option kernel_t :=
  if node ∈ k.node_blocks then some (k.setNode node { k.nodes node with next := v })
  else do
    let (task, i) ← task_word_at k.live (u32 (node + 4))
    let k ← store_task_word k task i v
    return { k with strays := (task, i) :: k.strays }

/-- `node->previous = v` -/
def store_previous (k : kernel_t) (node v : Nat) : Option kernel_t :=
  if node ∈ k.node_blocks then some (k.setNode node { k.nodes node with previous := v }) else none

/-- `task_manager_add_child_to_task`. The kernel heap gives `block` for the node; its `NULL` is
written through at once. -/
def task_manager_add_child_to_task (k : kernel_t) (parent child block : Nat) : Option kernel_t :=
  if Block k.node_blocks block then
    let k := k.newNode block ⟨child, 0, (k.tasks parent).children_tail⟩
    if (k.tasks parent).children = 0 then
      some ((k.setChildren parent block).setChildrenTail parent block)
    else
      (store_next k (k.tasks parent).children_tail block).map fun k => k.setChildrenTail parent block
  else none

/-- The two writes that take the node `head` out of the list of `parent`. -/
def unlink_next (k : kernel_t) (parent head : Nat) : Option kernel_t :=
  if (k.nodes head).previous ≠ 0 then store_next k (k.nodes head).previous (k.nodes head).next
  else some (k.setChildren parent (k.nodes head).next)

def unlink_previous (k : kernel_t) (parent head : Nat) : Option kernel_t :=
  if (k.nodes head).next ≠ 0 then store_previous k (k.nodes head).next (k.nodes head).previous
  else some (k.setChildrenTail parent (k.nodes head).previous)

def unlink_child (k : kernel_t) (parent head : Nat) : Option kernel_t := do
  let k ← unlink_next k parent head
  let k ← unlink_previous k parent head
  return k.freeNode head

def remove_child_from (k : kernel_t) (parent child : Nat) :
    Nat → Nat → Option (kernel_t × task_manager_result_t)
  | 0, _ => none
  | n + 1, head =>
    if head = 0 then some (k, TASK_MANAGER_RESULT_CHILD_NOT_FOUND)
    else if (k.nodes head).task = child then
      (unlink_child k parent head).map fun k => (k, TASK_MANAGER_RESULT_OK)
    else remove_child_from k parent child n (k.nodes head).next

def task_manager_remove_child_from_task (k : kernel_t) (parent child : Nat) :
    Option (kernel_t × task_manager_result_t) :=
  remove_child_from k parent child ADDRESSES (k.tasks parent).children

/-- A loop over the nodes of a list: the task of the first node that passes the test, or 0. -/
def find_node (k : kernel_t) (test : task_t → Bool) : Nat → Nat → Option Nat
  | 0, _ => none
  | n + 1, head =>
    if head = 0 then some 0
    else if test (k.tasks (k.nodes head).task) then some (k.nodes head).task
    else find_node k test n (k.nodes head).next

def task_manager_find_child (k : kernel_t) (parent pid : Nat) : Option Nat :=
  find_node k (fun t => t.task_id = pid) ADDRESSES (k.tasks parent).children

def task_manager_find_zombie_child (k : kernel_t) (parent : Nat) : Option Nat :=
  find_node k (fun t => t.task_state = TASK_STATE_ZOMBIE) ADDRESSES (k.tasks parent).children

/-- The loop of `task_manager_find_task_recursive` over the children, with the recursive call. -/
def find_in_children (k : kernel_t) (find : Nat → Option Nat) : Nat → Nat → Option Nat
  | 0, _ => none
  | n + 1, head =>
    if head = 0 then some 0
    else do
      let found ← find (k.nodes head).task
      if found ≠ 0 then return found else find_in_children k find n (k.nodes head).next

def task_manager_find_task_recursive (k : kernel_t) (pid : Nat) : Nat → Nat → Option Nat
  | 0, _ => none
  | n + 1, root =>
    if (k.tasks root).task_id = pid then some root
    else find_in_children k (task_manager_find_task_recursive k pid n) ADDRESSES
      (k.tasks root).children

def task_manager_find_task (k : kernel_t) (pid : Nat) : Option Nat :=
  task_manager_find_task_recursive k pid ADDRESSES k.init

/-! ## Exit and reaping -/

/-- The loop of `task_manager_exit_task` that gives the children of a task to init. For each
child the kernel heap gives a block, or `NULL`, with what its third word still held: the loop
does not write the `previous` of the new node. The second result is `false` after a `NULL`. -/
def reparent_children : Nat → List (Nat × Nat) → kernel_t → Nat → Option (kernel_t × Bool)
  | 0, _, _, _ => none
  | n + 1, blocks, k, head =>
    if head = 0 then some (k, true)
    else
      let next := (k.nodes head).next
      let child := (k.nodes head).task
      let k := k.setParent child k.init
      match blocks with
      | [] => none
      | (block, junk) :: blocks =>
        if block = 0 then some (k, false)
        else if Block k.node_blocks block then
          let k := k.newNode block ⟨child, (k.tasks k.init).children, junk⟩
          let k := k.setChildren k.init block
          reparent_children n blocks (k.freeNode head) next
        else none

/-- The parent waits for this task, or for any. -/
def waits_for (k : kernel_t) (parent task : Nat) : Bool :=
  k.state parent = TASK_STATE_BLOCKED ∧ (k.tasks parent).wait_reason = TASK_WAIT_REASON_CHILD ∧
    ((k.tasks parent).wait_object = (k.tasks task).task_id ∨
      (k.tasks parent).wait_object = 0xFFFFFFFF)

/-- The start of `task_manager_exit_task`: the task leaves its queue. -/
def leave_queue (k : kernel_t) (task : Nat) : Option kernel_t :=
  if k.state task = TASK_STATE_READY then
    (task_manager_remove_task_from_queue k (k.level task) task).map Prod.fst
  else if k.state task = TASK_STATE_BLOCKED then
    (task_manager_remove_task_from_queue k TASK_MANAGER_QUEUE_INDEX_BLOCKED task).map Prod.fst
  else some k

def wake_parent (k : kernel_t) (task : Nat) : Option kernel_t :=
  let parent := (k.tasks task).parent
  if parent ≠ 0 ∧ waits_for k parent task then task_manager_unblock_task k parent else some k

def task_manager_exit_task (k : kernel_t) (task : Nat) (return_code : Int)
    (blocks : List (Nat × Nat)) : Option (kernel_t × task_manager_result_t) := do
  let k ← leave_queue k task
  let k := k.setTask task { k.tasks task with
    task_state := TASK_STATE_ZOMBIE
    return_code := return_code }
  let (k, served) ← reparent_children ADDRESSES blocks k (k.tasks task).children
  if !served then return (k, TASK_MANAGER_RESULT_OUT_OF_MEMORY)
  else
    let k ← wake_parent (k.setChildren task 0) task
    let k ← task_manager_enqueue_task k TASK_MANAGER_QUEUE_INDEX_ZOMBIE task
    return (k, TASK_MANAGER_RESULT_OK)

/-- The 64-bit sum of two counters of ticks. -/
def add_ticks (a b : Nat) : Nat := (a + b) % 2 ^ 64

/-- The parent of a task counts the ticks of the task as those of its children. -/
def inherit_ticks (k : kernel_t) (task : Nat) : kernel_t :=
  let t := k.tasks task
  let p := k.tasks t.parent
  if t.parent ≠ 0 then
    k.setTask t.parent { p with
      child_ticks_user := add_ticks p.child_ticks_user (add_ticks t.ticks_user t.child_ticks_user)
      child_ticks_system :=
        add_ticks p.child_ticks_system (add_ticks t.ticks_system t.child_ticks_system) }
  else k

/-- The task leaves the list of its parent. -/
def leave_parent (k : kernel_t) (task : Nat) : Option kernel_t :=
  if (k.tasks task).parent ≠ 0 then
    (task_manager_remove_child_from_task k (k.tasks task).parent task).map Prod.fst
  else some k

/-- The page directory of a task is freed, unless it is the kernel's. -/
def free_task_directory (k : kernel_t) (task : Nat) : kernel_t :=
  if (k.tasks task).task_cr3 ≠ k.kernel_page_directory_phys then
    free_directory k (k.tasks task).task_cr3 (k.live.erase task)
  else k

def task_manager_destroy_task (k : kernel_t) (task : Nat) : Option kernel_t := do
  let k := inherit_ticks k task
  let k := { k with toStore := release_resources k.toStore task }
  let k ← leave_parent k task
  let (k, _) ← task_manager_remove_task_from_queue k (k.level task) task
  let k := free_task_directory k task
  return { k with toStore := free_task k.toStore task }

end alura_os.kernel
