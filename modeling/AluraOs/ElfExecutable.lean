-- Loading a program (`elf_executable.c`) and the stacks of a new program
-- (`task_manager_prepare_new_stack_with_args` and its helpers).
import AluraOs.UserMemory

namespace alura_os.elf_executable

open alura_os.memory alura_os.memory_bitmap alura_os.memory_paging alura_os.task_manager Machine
open memory_paging_result_t

/-! ## The stacks of a new program -/

/-- `*--cursor = word` for each word in turn. -/
def push_words (m : Machine) (cursor : Nat) : List Nat → Option (Machine × Nat)
  | [] => some (m, cursor)
  | w :: ws => do push_words (← m.store32 (sub32 cursor 4) w) (sub32 cursor 4) ws

/-- The string loop of `task_manager_build_arguments_on_stack`, from the last argument to the
first; it gives the cursor and the user addresses of the strings. -/
def push_strings (page : Nat) : List (List Nat) → Nat → Machine → Option (Machine × Nat × List Nat)
  | [], cursor, m => some (m, cursor, [])
  | s :: rest, cursor, m => do
    let cursor := sub32 cursor (s.length + 1)
    let m ← memcpy_to m cursor (s ++ [0])
    let address := u32 (USER_STACK_TOP - PAGE_SIZE + sub32 cursor page)
    let (m, cursor, addresses) ← push_strings page rest cursor m
    return (m, cursor, address :: addresses)

/-- `cursor & ~0x3` -/
def word_down (cursor : Nat) : Nat := cursor / 4 * 4

inductive task_manager_result_t where
  | TASK_MANAGER_RESULT_OK
  | TASK_MANAGER_RESULT_OUT_OF_MEMORY
  | TASK_MANAGER_RESULT_ARGS_TOO_LARGE
  deriving DecidableEq, Repr

open task_manager_result_t

/-- The end of `task_manager_build_arguments_on_stack`: the vector of addresses and its count go
below the strings, if there is room. -/
def push_vector (m : Machine) (page cursor argc : Nat) (addresses : List Nat) :
    Option (Machine × task_manager_result_t × Nat) := do
  let cursor := word_down cursor
  let needed := 4 + (argc + 1) * 4
  if sub32 cursor page < needed then
    let m ← bounce_free m page
    return (m, TASK_MANAGER_RESULT_ARGS_TOO_LARGE, 0)
  else
    let (m, cursor) ← push_words m cursor (0 :: addresses ++ [argc])
    let m ← bounce_free m page
    return (m, TASK_MANAGER_RESULT_OK, u32 (USER_STACK_TOP - PAGE_SIZE + sub32 cursor page))

/-- `task_manager_build_arguments_on_stack`, with the strings that `argv` points to. The result
is the user stack pointer. More than `TASK_MAX_ARGUMENTS` strings overrun the local array of
their addresses, which is beyond this model. -/
def task_manager_build_arguments_on_stack (m : Machine) (user_stack_phys : Nat)
    (argv : List (List Nat)) : Option (Machine × task_manager_result_t × Nat) := do
  let argc := argv.length
  if TASK_MAX_ARGUMENTS < argc then none
  else
    let (m, page) ← bounce_alloc m user_stack_phys
    let (m, cursor, addresses) ← push_strings page argv.reverse (u32 (page + PAGE_SIZE)) m
    push_vector m page cursor argc addresses

/-- The words of a first register frame, from the highest address down. -/
def first_frame (task_is_user : Bool) (eip user_esp : Nat) : List Nat :=
  let data_selector :=
    if task_is_user then TASK_MANAGER_USER_DATA_SELECTOR else TASK_MANAGER_KERNEL_DATA_SELECTOR
  (if task_is_user then [TASK_MANAGER_USER_DATA_SELECTOR, user_esp] else []) ++
  [0x202,
    if task_is_user then TASK_MANAGER_USER_CODE_SELECTOR else TASK_MANAGER_KERNEL_CODE_SELECTOR,
    eip, 0, 0, 0, 0, 0, 0, 0, 0, 0, data_selector, data_selector, data_selector, data_selector]

/-- `task_manager_prepare_new_stack`; the result is the stack pointer of the task. -/
def task_manager_prepare_new_stack (m : Machine) (task_page_directory : Nat)
    (task_is_user : Bool) (eip user_esp : Nat) : Option (Machine × Nat) := do
  let (bitmap, kernel_stack_phys) := memory_bitmap_allocate m.memory_bitmap
  let (m, _) ← memory_paging_map (m.setBitmap bitmap) task_page_directory kernel_stack_phys
    (KERNEL_STACK_TOP - PAGE_SIZE) PAGE_READ_WRITE
  let (m, task_stack_base) ← bounce_alloc m kernel_stack_phys
  let (m, task_stack_top) ← push_words m (u32 (task_stack_base + PAGE_SIZE))
    (first_frame task_is_user eip user_esp)
  let m ← bounce_free m task_stack_base
  return (m, sub32 KERNEL_STACK_TOP (sub32 (task_stack_base + PAGE_SIZE) task_stack_top))

/-- `task_manager_map_user_stack`; 0 is `NULL`. -/
def task_manager_map_user_stack (m : Machine) (task_page_directory : Nat) :
    Option (Machine × Nat) := do
  let (bitmap, user_stack_phys) := memory_bitmap_allocate m.memory_bitmap
  if user_stack_phys = 0 then return (m.setBitmap bitmap, 0)
  else
    let (m, _) ← memory_paging_map (m.setBitmap bitmap) task_page_directory user_stack_phys
      (USER_STACK_TOP - PAGE_SIZE) (PAGE_USER ||| PAGE_READ_WRITE)
    return (m, user_stack_phys)

/-- `task_manager_prepare_new_stack_with_args`; the stack pointer is `none` when it is not
written. -/
def task_manager_prepare_new_stack_with_args (m : Machine) (task_page_directory : Nat)
    (task_is_user : Bool) (eip : Nat) (argv : List (List Nat)) :
    Option (Machine × task_manager_result_t × Option Nat) := do
  if task_is_user then
    let (m, user_stack_phys) ← task_manager_map_user_stack m task_page_directory
    if user_stack_phys = 0 then return (m, TASK_MANAGER_RESULT_OUT_OF_MEMORY, none)
    else
      let (m, args_result, user_esp) ←
        task_manager_build_arguments_on_stack m user_stack_phys argv
      if args_result ≠ TASK_MANAGER_RESULT_OK then return (m, args_result, none)
      else
        let (m, esp) ← task_manager_prepare_new_stack m task_page_directory true eip user_esp
        return (m, TASK_MANAGER_RESULT_OK, some esp)
  else
    let (m, esp) ← task_manager_prepare_new_stack m task_page_directory false eip USER_STACK_TOP
    return (m, TASK_MANAGER_RESULT_OK, some esp)

/-! ## Headers -/

def PT_LOAD : Nat := 1

/-- `sizeof(Elf32_Phdr)` -/
def PROGRAM_HEADER_SIZE : Nat := 32

structure Elf32_Phdr where
  p_type : Nat
  p_offset : Nat
  p_vaddr : Nat
  p_filesz : Nat
  p_memsz : Nat
  deriving DecidableEq, Repr

/-- The program header that 32 bytes hold; the loader reads no other field. -/
def Elf32_Phdr.ofBytes (bytes : List Nat) : Elf32_Phdr where
  p_type := word32 bytes 0
  p_offset := word32 bytes 1
  p_vaddr := word32 bytes 2
  p_filesz := word32 bytes 4
  p_memsz := word32 bytes 5

inductive elf_result_t where
  | ELF_RESULT_OK
  | ELF_RESULT_INVALID_ELF
  | ELF_RESULT_BAD_PARAMETER
  | ELF_RESULT_READ_ERROR
  | ELF_RESULT_ALLOCATION_ERROR
  deriving DecidableEq, Repr

open elf_result_t

/-- `ramfs_read`: the bytes of a file from an offset on, as many as there are. -/
def ramfs_read (data : List Nat) (offset length : Nat) : List Nat := (data.drop offset).take length

/-- A read into a buffer that the kernel holds: the bytes past the end of the file stay. -/
def read_into (data : List Nat) (offset : Nat) (buffer : List Nat) : List Nat :=
  let bytes := ramfs_read data offset buffer.length
  bytes ++ buffer.drop bytes.length

/-! ## Segments -/

/-- The page loop of a segment: `false` when a frame or a page table is missing. -/
def elf_map_pages (task_page_directory flags : Nat) :
    Nat → Nat → Machine → Option (Machine × Bool)
  | 0, _, m => some (m, true)
  | n + 1, address, m => do
    let (bitmap, memory) := memory_bitmap_allocate m.memory_bitmap
    if memory = 0 then return (m.setBitmap bitmap, false)
    else
      let (m, paging_result) ← memory_paging_map (m.setBitmap bitmap) task_page_directory memory
        address flags
      if paging_result ≠ MEMORY_PAGING_RESULT_OK then
        return (m.setBitmap (memory_bitmap_free m.memory_bitmap memory), false)
      else elf_map_pages task_page_directory flags n (address + PAGE_SIZE) m

/-- The loop that reads the file into a segment, one page at a time. `vfs_read` refuses a
`NULL` buffer. -/
def elf_copy_bytes (data : List Nat) (page_directory_phys bytes_to_copy file_offset virt : Nat)
    (m : Machine) : Option (Machine × Bool) :=
  if _h : bytes_to_copy = 0 then some (m, true)
  else do
    let page_off := virt % PAGE_SIZE
    let chunk := min (PAGE_SIZE - page_off) bytes_to_copy
    let (m, phys) ← memory_paging_virtual_to_physical m page_directory_phys virt
    let (m, kaddr) ← bounce_alloc m phys
    if u32 (kaddr + page_off) = 0 then
      let m ← bounce_free m kaddr
      return (m, false)
    else
      let m ← memcpy_to m (u32 (kaddr + page_off)) (ramfs_read data file_offset chunk)
      let m ← bounce_free m kaddr
      elf_copy_bytes data page_directory_phys (bytes_to_copy - chunk) (u32 (file_offset + chunk))
        (u32 (virt + chunk)) m
termination_by bytes_to_copy
decreasing_by
  unfold PAGE_SIZE
  omega

/-- The loop that clears the rest of a segment. -/
def elf_zero_bytes (page_directory_phys zero_len zero_start : Nat) (m : Machine) :
    Option (Machine × Bool) :=
  if _h : zero_len = 0 then some (m, true)
  else do
    let page_off := zero_start % PAGE_SIZE
    let chunk := min (PAGE_SIZE - page_off) zero_len
    let (m, phys) ← memory_paging_virtual_to_physical m page_directory_phys zero_start
    let (m, kaddr) ← bounce_alloc m phys
    if kaddr = 0 then return (m, false)
    else
      let m ← memcpy_to m (u32 (kaddr + page_off)) (List.replicate chunk 0)
      let m ← bounce_free m kaddr
      elf_zero_bytes page_directory_phys (zero_len - chunk) (u32 (zero_start + chunk)) m
termination_by zero_len
decreasing_by
  unfold PAGE_SIZE
  omega

/-- The first page and the end of the pages of a segment, in 32 bits. -/
def segment_start (ph : Elf32_Phdr) : Nat := ALIGN_DOWN ph.p_vaddr

def segment_end (ph : Elf32_Phdr) : Nat := ALIGN_UP (u32 (ph.p_vaddr + ph.p_memsz))

/-- One `PT_LOAD` segment; `some` error ends the load. -/
def elf_load_segment (m : Machine) (page_directory page_directory_phys : Nat)
    (task_is_user : Bool) (data : List Nat) (ph : Elf32_Phdr) :
    Option (Machine × Option elf_result_t) := do
  let flags := PAGE_PRESENT ||| (if task_is_user then PAGE_USER else 0) ||| PAGE_READ_WRITE
  let (m, mapped) ← elf_map_pages page_directory flags
    ((segment_end ph - segment_start ph) / PAGE_SIZE) (segment_start ph) m
  if !mapped then return (m, some ELF_RESULT_ALLOCATION_ERROR)
  else
    let (m, copied) ← elf_copy_bytes data page_directory_phys ph.p_filesz ph.p_offset ph.p_vaddr m
    if !copied then return (m, some ELF_RESULT_READ_ERROR)
    else if ph.p_filesz < ph.p_memsz then
      let (m, zeroed) ← elf_zero_bytes page_directory_phys (ph.p_memsz - ph.p_filesz)
        (u32 (ph.p_vaddr + ph.p_filesz)) m
      return (m, if zeroed then none else some ELF_RESULT_ALLOCATION_ERROR)
    else return (m, none)

/-- The program header loop. `program_header` is the local buffer, which a read past the end
of the file leaves as it was; the result is the end of the highest segment, or an error. -/
def elf_load_segments (data : List Nat) (e_phoff page_directory page_directory_phys : Nat)
    (task_is_user : Bool) : Nat → Nat → List Nat → Nat → Machine →
    Option (Machine × Except elf_result_t Nat)
  | 0, _, _, heap_start, m => some (m, .ok heap_start)
  | n + 1, i, program_header, heap_start, m => do
    let program_header := read_into data (u32 (e_phoff + i * PROGRAM_HEADER_SIZE)) program_header
    let ph := Elf32_Phdr.ofBytes program_header
    if ph.p_type ≠ PT_LOAD then
      elf_load_segments data e_phoff page_directory page_directory_phys task_is_user n (i + 1)
        program_header heap_start m
    else
      let heap_start := if heap_start < segment_end ph then segment_end ph else heap_start
      let (m, error) ← elf_load_segment m page_directory page_directory_phys task_is_user data ph
      match error with
      | some error => return (m, .error error)
      | none =>
        elf_load_segments data e_phoff page_directory page_directory_phys task_is_user n (i + 1)
          program_header heap_start m

/-! ## The load -/

/-- What the path names: nothing, since it is `NULL` or does not resolve, a directory, or a
file with its bytes. -/
inductive Resolved where
  | null
  | missing
  | directory
  | file (data : List Nat)

def SYSCALL_NSIG : Nat := 32
def SYSCALL_SIG_DFL : Nat := 0
def SYSCALL_SIG_IGN : Nat := 1

/-- The task after a load: a new program in a new directory; handlers go back to the default,
ignored signals stay ignored. -/
def loaded_task (task : task_t) (e_entry task_cr3 task_esp heap_start : Nat) : task_t :=
  { task with
    task_init_eip := e_entry
    task_cr3 := task_cr3
    task_esp := task_esp
    heap_start := heap_start
    heap_break := heap_start
    signal_handlers := fun i =>
      if i < SYSCALL_NSIG ∧ task.signal_handlers i ≠ SYSCALL_SIG_IGN then SYSCALL_SIG_DFL
      else task.signal_handlers i }

/-- `memory_paging_queue_to_destroy`: the queue and its node from the kernel heap. The node is
written through at once, so a `NULL` is a fault. -/
def memory_paging_queue_to_destroy (m : Machine) (queue : List Nat) (page_directory : Nat)
    (growth : Nat × Nat) : Option (Machine × List Nat) := do
  if page_directory = m.kernel_page_directory_phys then return (m, queue)
  else
    let (m, served) ← kernel_heap_grow growth.1 growth.2 m
    if !served then none
    return (m, queue ++ [page_directory])

/-- The end of `elf_load_into_task`: the window on the directory is closed, and without an
error the task gets the new program and its old directory goes to the queue. -/
def elf_commit (m : Machine) (task : task_t) (page_directory page_directory_phys e_entry : Nat)
    (esp : Option Nat) (current_page_directory_phys : Nat) (loaded : Except elf_result_t Nat)
    (queue : List Nat) (growth : Nat × Nat) :
    Option (Machine × elf_result_t × task_t × List Nat) := do
  let m ← bounce_free m page_directory
  match loaded with
  | .error error => return (m, error, task, queue)
  | .ok heap_start =>
    let (m, queue) ← memory_paging_queue_to_destroy m queue current_page_directory_phys growth
    return (m, ELF_RESULT_OK,
      loaded_task task e_entry page_directory_phys (esp.getD 0) heap_start, queue)

/-- The load of a file whose header passed the check. The result of the stack preparation is
not looked at. -/
def elf_load_image (m : Machine) (task : task_t) (data header program_header : List Nat)
    (argv : List (List Nat)) (queue : List Nat) (growth : Nat × Nat) :
    Option (Machine × elf_result_t × task_t × List Nat) := do
  let e_entry := word32 header 6
  let e_phoff := word32 header 7
  let e_phnum := header.getD 44 0 + 256 * header.getD 45 0
  let (m, result, page_directory_phys) ← memory_paging_create_page_directory m
  if result ≠ MEMORY_PAGING_RESULT_OK then return (m, ELF_RESULT_ALLOCATION_ERROR, task, queue)
  else
    let current_page_directory_phys := m.cr3
    let (m, page_directory) ← bounce_alloc m page_directory_phys
    let (m, _, esp) ← task_manager_prepare_new_stack_with_args m page_directory task.task_is_user
      e_entry argv
    let (m, loaded) ← elf_load_segments data e_phoff page_directory page_directory_phys
      task.task_is_user e_phnum 0 program_header 0 m
    elf_commit m task page_directory page_directory_phys e_entry esp current_page_directory_phys
      loaded queue growth

/-- `elf_load_into_task`. `header` and `program_header` are what the local buffers held; the
first growth is that of the nodes which resolving the path creates. -/
def elf_load_into_task (m : Machine) (task : task_t) (node : Resolved) (argv : List (List Nat))
    (header program_header : List Nat) (queue : List Nat) (growth growth' : Nat × Nat) :
    Option (Machine × elf_result_t × task_t × List Nat) := do
  match node with
  | .null => return (m, ELF_RESULT_BAD_PARAMETER, task, queue)
  | .missing =>
    let (m, _) ← kernel_heap_grow growth.1 growth.2 m
    return (m, ELF_RESULT_INVALID_ELF, task, queue)
  | .directory =>
    let (m, _) ← kernel_heap_grow growth.1 growth.2 m
    return (m, ELF_RESULT_INVALID_ELF, task, queue)
  | .file data =>
    let (m, served) ← kernel_heap_grow growth.1 growth.2 m
    if !served then return (m, ELF_RESULT_INVALID_ELF, task, queue)
    else
      let header := read_into data 0 header
      if header.take 4 ≠ [0x7F, 0x45, 0x4C, 0x46] then
        return (m, ELF_RESULT_INVALID_ELF, task, queue)
      else elf_load_image m task data header program_header argv queue growth'

end alura_os.elf_executable
