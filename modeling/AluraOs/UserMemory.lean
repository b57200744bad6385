-- Memory of another task, through its page directory: the copy loop, the range
-- check and the delivery of a signal (`task_manager.c`), and the part of exit
-- and schedule that touches page tables.
import AluraOs.MemoryPaging
import AluraOs.Task

namespace alura_os.task_manager

open alura_os.memory alura_os.memory_bitmap alura_os.memory_paging Machine

/-! ## Copies -/

/-- One chunk of `task_manager_copy_memory`: to the target, or from it into the buffer. -/
def copy_chunk (m : Machine) (address : Nat) (to_target : Bool) (chunk : List Nat) :
    Option (Machine × List Nat) :=
  if to_target then (memcpy_to m address chunk).map fun m => (m, chunk)
  else (memcpy_from m address chunk.length).map fun bytes => (m, bytes)

/-- `task_manager_copy_memory` on the bytes of the buffer that remain. It returns the buffer;
a page that is not present ends the copy. -/
def task_manager_copy_memory (m : Machine) (target_cr3_phys target_vaddr : Nat)
    (to_target : Bool) (buffer : List Nat) : Option (Machine × List Nat) :=
  match buffer with
  | [] => some (m, [])
  | b :: bs => do
    let (m, physical) ← memory_paging_virtual_to_physical m target_cr3_phys target_vaddr
    if physical = 0 then return (m, b :: bs)
    else
      let page_physical := ALIGN_DOWN physical
      let page_offset := physical - page_physical
      let chunk := min (PAGE_SIZE - page_offset) (b :: bs).length
      let (m, mapped) ← bounce_alloc m page_physical
      let (m, head) ← copy_chunk m (u32 (mapped + page_offset)) to_target ((b :: bs).take chunk)
      let m ← bounce_free m mapped
      let (m, rest) ← task_manager_copy_memory m target_cr3_phys (u32 (target_vaddr + chunk))
        to_target ((b :: bs).drop chunk)
      return (m, head ++ rest)
termination_by buffer.length
decreasing_by
  -- The offset is below the page size, so a chunk is never empty.
  unfold ALIGN_DOWN PAGE_SIZE
  simp only [List.length_drop, List.length_cons]
  omega

/-- The page loop of `task_manager_user_range_mapped`. -/
def user_pages_mapped (target_cr3_phys : Nat) : Nat → Nat → Machine → Option (Machine × Bool)
  | 0, _, m => some (m, true)
  | n + 1, page, m => do
    let (m, physical) ← memory_paging_virtual_to_physical m target_cr3_phys page
    if physical = 0 then return (m, false)
    else user_pages_mapped target_cr3_phys n (page + PAGE_SIZE) m

/-- The first page and the number of pages that `task_manager_user_range_mapped` visits. The
end is a 32-bit sum that is rounded up in 32 bits. -/
def user_range (vaddr length : Nat) : Nat × Nat :=
  let start := ALIGN_DOWN vaddr
  let stop := ALIGN_UP (u32 (vaddr + length))
  (start, (stop - start) / PAGE_SIZE)

def task_manager_user_range_mapped (m : Machine) (target_cr3_phys vaddr length : Nat) :
    Option (Machine × Bool) :=
  let (start, count) := user_range vaddr length
  user_pages_mapped target_cr3_phys count start m

/-! ## Exit and schedule -/

/-- What `task_manager_exit_task` does to the page tables: each child of the task takes one
node from the kernel heap, which grows by some pages at its break. -/
def task_manager_exit_task_memory (m : Machine) (growths : List (Nat × Nat)) : Option Machine :=
  growths.foldlM (fun m g => (kernel_heap_grow g.1 g.2 m).map Prod.fst) m

/-! ## Signals -/

def SYSCALL_SIGRETURN : Nat := 21

/-- The code that returns from a handler: `mov eax, SYSCALL_SIGRETURN; int 0x80; jmp $`. -/
def trampoline : List Nat :=
  [0xB8, SYSCALL_SIGRETURN % 256, SYSCALL_SIGRETURN / 256 % 256, SYSCALL_SIGRETURN / 65536 % 256,
    SYSCALL_SIGRETURN / 16777216 % 256, 0xCD, 0x80, 0xEB, 0xFE]

/-- What `task_manager_deliver_signal` ends in: the target exits, or it goes on in the
handler with these registers. -/
inductive Delivery where
  | exited (return_code : Nat)
  | handled (target : task_t) (registers : register_interrupt_data_t)

/-- The three writes of the signal frame, each through `write`. -/
def write_signal_frame (write : Machine → Nat → List Nat → Option Machine) (m : Machine)
    (sig trampoline_addr arg_addr retaddr_addr : Nat) : Option Machine := do
  let m ← write m trampoline_addr trampoline
  let m ← write m arg_addr (bytes32 sig)
  write m retaddr_addr (bytes32 trampoline_addr)

/-- The registers of the target: the caller's own, or those on the target's kernel stack.
`stack` is what the local `frame` held before. -/
def target_registers (m : Machine) (target : task_t) (is_self : Bool)
    (current_register_data : register_interrupt_data_t) (stack : List Nat) :
    Option (Machine × register_interrupt_data_t) :=
  if is_self then some (m, current_register_data)
  else (task_manager_copy_memory m target.task_cr3 target.task_esp false stack).map fun r =>
    (r.1, register_interrupt_data_t.ofBytes r.2)

/-- The end of `task_manager_deliver_signal`, when the stack has room for the frame. -/
def deliver_frame (m : Machine) (target : task_t) (is_self : Bool)
    (frame : register_interrupt_data_t) (sig handler : Nat) : Option (Machine × Delivery) := do
  let trampoline_addr := sub32 frame.useresp trampoline.length
  let arg_addr := sub32 trampoline_addr 4
  let retaddr_addr := sub32 arg_addr 4
  let target := { target with
    saved_signal_frame := frame
    in_signal_handler := true
    saved_syscall_retry := target.syscall_retry
    syscall_retry := false }
  let frame := { frame with useresp := retaddr_addr, eip := handler }
  if is_self then
    let m ← write_signal_frame memcpy_to m sig trampoline_addr arg_addr retaddr_addr
    return (m, Delivery.handled target frame)
  else
    let copy := fun m a bytes =>
      (task_manager_copy_memory m target.task_cr3 a true bytes).map Prod.fst
    let m ← write_signal_frame copy m sig trampoline_addr arg_addr retaddr_addr
    let m ← copy m target.task_esp frame.toBytes
    return (m, Delivery.handled target frame)

/-- The condition of `task_manager_deliver_signal`: the frame fits above address 0 and its
pages are mapped. -/
def signal_room (m : Machine) (target : task_t) (useresp : Nat) : Option (Machine × Bool) :=
  let frame_size := trampoline.length + 8
  let retaddr_addr := sub32 (sub32 (sub32 useresp trampoline.length) 4) 4
  if useresp < frame_size then some (m, false)
  else task_manager_user_range_mapped m target.task_cr3 retaddr_addr frame_size

/-- The page tables when the target exits instead: its children's nodes and, for the running
task, the directories that the scheduler destroys. -/
def signal_exit (m : Machine) (is_self : Bool) (growths : List (Nat × Nat))
    (page_directories_to_destroy : List Nat) : Option Machine := do
  let m ← task_manager_exit_task_memory m growths
  if is_self then memory_paging_destroy_queued m page_directories_to_destroy else some m

def task_manager_deliver_signal (m : Machine) (target : task_t) (is_self : Bool)
    (current_register_data : register_interrupt_data_t) (stack : List Nat) (sig handler : Nat)
    (growths : List (Nat × Nat)) (page_directories_to_destroy : List Nat) :
    Option (Machine × Delivery) := do
  let (m, frame) ← target_registers m target is_self current_register_data stack
  let (m, room) ← signal_room m target frame.useresp
  if !room then
    let m ← signal_exit m is_self growths page_directories_to_destroy
    return (m, Delivery.exited (sig % 128))
  else deliver_frame m target is_self frame sig handler

/-! ## The user heap -/

/-- The unwind loop of `syscall_sbrk_allocate_physical_memory`, and with a falling address the
loop of `syscall_sbrk_free_physical_memory`: look the page up, unmap it, free its frame. -/
def sbrk_free_page (m : Machine) (address : Nat) : Option Machine := do
  let (m, physical) ← memory_paging_virtual_to_physical m m.cr3 address
  let m ← memory_paging_unmap_current m address
  if physical ≠ 0 then return m.setBitmap (memory_bitmap_free m.memory_bitmap physical)
  else return m

def sbrk_unwind : Nat → Nat → Machine → Option Machine
  | 0, _, m => some m
  | n + 1, unwind_address, m => do
    let m ← sbrk_free_page m unwind_address
    sbrk_unwind n (unwind_address + PAGE_SIZE) m

/-- The page loop of `syscall_sbrk_allocate_physical_memory`; `false` is its `NULL`. -/
def sbrk_map_pages (start_address : Nat) : Nat → Nat → Machine → Option (Machine × Bool)
  | 0, _, m => some (m, true)
  | n + 1, address, m => do
    let (bitmap, physical_allocated) := memory_bitmap_allocate m.memory_bitmap
    if physical_allocated = 0 then
      let m ← sbrk_unwind ((address - start_address) / PAGE_SIZE) start_address
        (m.setBitmap bitmap)
      return (m, false)
    else
      let (m, _) ← memory_paging_map_current (m.setBitmap bitmap) physical_allocated address
        (PAGE_PRESENT ||| PAGE_USER ||| PAGE_READ_WRITE)
      sbrk_map_pages start_address n (u32 (address + PAGE_SIZE)) m

/-- `syscall_sbrk_allocate_physical_memory`: the new break, or `none` for `NULL`. -/
def syscall_sbrk_allocate_physical_memory (m : Machine) (heap_break bytes : Nat) :
    Option (Machine × Option Nat) := do
  let bytes_to_allocate := ALIGN_UP bytes
  let pages_to_allocate := bytes_to_allocate / PAGE_SIZE
  if USER_HEAP_VIRTUAL_CEILING < u32 (heap_break + bytes_to_allocate) then return (m, none)
  else
    let (m, served) ← sbrk_map_pages heap_break pages_to_allocate heap_break m
    return (m, if served then some (u32 (heap_break + bytes_to_allocate)) else none)

def sbrk_free_pages : Nat → Nat → Machine → Option Machine
  | 0, _, m => some m
  | n + 1, address, m => do
    let address := sub32 address PAGE_SIZE
    let m ← sbrk_free_page m address
    sbrk_free_pages n address m

/-- `syscall_sbrk_free_physical_memory`: the new break. -/
def syscall_sbrk_free_physical_memory (m : Machine) (heap_break bytes : Nat) :
    Option (Machine × Nat) := do
  let bytes_to_free := ALIGN_UP bytes
  let m ← sbrk_free_pages (bytes_to_free / PAGE_SIZE) heap_break m
  return (m, sub32 heap_break bytes_to_free)

def SYSCALL_RESULT_FAIL : Int := 1
def SYSCALL_RESULT_BAD_PARAMETER : Int := 2
def SYSCALL_RESULT_OUT_OF_MEMORY : Int := 4

def syscall_sbrk (m : Machine) (task : task_t) (delta : Int) :
    Option (Machine × task_t × Int) := do
  if !task.task_is_user then return (m, task, -SYSCALL_RESULT_FAIL)
  else if delta = 0 then return (m, task, int32 task.heap_break)
  else if task.heap_break = 0 then return (m, task, -SYSCALL_RESULT_FAIL)
  else
    let new_break : Int := task.heap_break + delta
    if (USER_HEAP_VIRTUAL_CEILING : Int) ≤ new_break then
      return (m, task, -SYSCALL_RESULT_OUT_OF_MEMORY)
    else if new_break < task.heap_start then return (m, task, -SYSCALL_RESULT_FAIL)
    else if (KERNEL_VIRTUAL_SPACE_START : Int) ≤ new_break then
      return (m, task, -SYSCALL_RESULT_BAD_PARAMETER)
    else if 0 < delta then
      let (m, served) ← syscall_sbrk_allocate_physical_memory m task.heap_break delta.toNat
      match served with
      | none => return (m, task, -SYSCALL_RESULT_OUT_OF_MEMORY)
      | some heap_break =>
        return (m, { task with heap_break := heap_break }, int32 task.heap_break)
    else
      let (m, heap_break) ← syscall_sbrk_free_physical_memory m task.heap_break (-delta).toNat
      return (m, { task with heap_break := heap_break }, int32 task.heap_break)

end alura_os.task_manager
