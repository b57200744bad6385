-- Page tables and the windows onto them (`memory_paging.c`). The kernel reaches
-- page tables only through virtual addresses: the recursive entry 1023 shows the
-- current directory and its tables, and sixteen bounce pages show any other
-- frame. So every access here goes through the two-level walk of the processor.
-- `none` is a page fault of the kernel. The walk sets no accessed and no dirty
-- bits, and there is no translation cache.
import AluraOs.MemoryBitmap

namespace alura_os.memory_paging

open alura_os.memory alura_os.memory_bitmap

/-! ## The constants -/

def KERNEL_PDE_START : Nat := 768
def KERNEL_PDE_ENTRIES : Nat := 1024

def PAGE_PRESENT : Nat := 0x1
def PAGE_READ_WRITE : Nat := 0x2
def PAGE_USER : Nat := 0x4

def PAGE_DIRECTORY_VADDR : Nat := 0xFFFFF000

def PAGE_TABLE_VADDR (pd : Nat) : Nat := 0xFFC00000 + pd * 4096

def KERNEL_BOUNCE_PAGE_START : Nat := 0xFFB00000
def KERNEL_BOUNCE_PAGE_SIZE : Nat := 16

inductive memory_paging_result_t where
  | MEMORY_PAGING_RESULT_OK
  | MEMORY_PAGING_RESULT_ALLOCATION_ERROR
  | MEMORY_PAGING_RESULT_BAD_PARAMETER
  deriving DecidableEq, Repr

open memory_paging_result_t

/-! ## Page entries -/

/-- `entry & PAGE_PRESENT` -/
def present (entry : Nat) : Bool := entry &&& PAGE_PRESENT != 0

/-- The frame number of `entry & PAGE_MASK`. -/
def frameOf (entry : Nat) : Nat := entry / 4096

/-- `(virtual_address >> 22) & 0x3FF` -/
def page_directory_index (virtual_address : Nat) : Nat := virtual_address / 0x400000 % 1024

/-- `(virtual_address >> 12) & 0x3FF` -/
def page_table_index (virtual_address : Nat) : Nat := virtual_address / 4096 % 1024

/-! ## The machine -/

/-- Physical memory as words by frame, the directory that CR3 holds, and the
static data of the frame allocator and of the paging module. -/
structure Machine where
  frames : Nat → Nat → Nat
  cr3 : Nat
  memory_bitmap : memory_bitmap_t
  bounce_pages_used : Nat → Bool
  kernel_page_directory_phys : Nat

@[ext] theorem Machine.ext_fields {m m' : Machine} (hf : m.frames = m'.frames)
    (hc : m.cr3 = m'.cr3) (hb : m.memory_bitmap = m'.memory_bitmap)
    (hu : m.bounce_pages_used = m'.bounce_pages_used)
    (hk : m.kernel_page_directory_phys = m'.kernel_page_directory_phys) : m = m' := by
  cases m
  cases m'
  simp_all

namespace Machine

/-- The frame of the current page directory. -/
def dir (m : Machine) : Nat := frameOf m.cr3

/-- `kernel_page_directory`: the kernel's directory in the low window. -/
def kernel_page_directory (m : Machine) : Nat :=
  u32 (m.kernel_page_directory_phys + KERNEL_VIRTUAL_SPACE_START)

def setFrame (m : Machine) (f : Nat) (words : Nat → Nat) : Machine :=
  { m with frames := Function.update m.frames f words }

def setWord (m : Machine) (f i x : Nat) : Machine :=
  m.setFrame f (Function.update (m.frames f) i x)

def setBitmap (m : Machine) (b : memory_bitmap_t) : Machine := { m with memory_bitmap := b }

def setBounce (m : Machine) (i : Nat) (used : Bool) : Machine :=
  { m with bounce_pages_used := Function.update m.bounce_pages_used i used }

def setCr3 (m : Machine) (cr3 : Nat) : Machine := { m with cr3 := cr3 }

/-- The frame that a virtual address leads to in the current directory. -/
def translate (m : Machine) (v : Nat) : Option Nat :=
  let pde := m.frames m.dir (page_directory_index v)
  let pte := m.frames (frameOf pde) (page_table_index v)
  if present pde = true ∧ present pte = true then some (frameOf pte) else none

/-- A load of the aligned word at `v`. -/
def load32 (m : Machine) (v : Nat) : Option Nat :=
  (m.translate v).map fun f => m.frames f (v % 4096 / 4)

/-- A store to the aligned word at `v`. The kernel may write to every present page. -/
def store32 (m : Machine) (v x : Nat) : Option Machine :=
  (m.translate v).map fun f => m.setWord f (v % 4096 / 4) x

/-- Byte `k` of a word, the lowest first. -/
def byteOf (w k : Nat) : Nat := w / 256 ^ k % 256

/-- The word `w` with byte `k` replaced. -/
def setByte (w k b : Nat) : Nat := w - byteOf w k * 256 ^ k + b % 256 * 256 ^ k

def load8 (m : Machine) (v : Nat) : Option Nat :=
  (m.translate v).map fun f => byteOf (m.frames f (v % 4096 / 4)) (v % 4)

def store8 (m : Machine) (v b : Nat) : Option Machine :=
  (m.translate v).map fun f =>
    m.setWord f (v % 4096 / 4) (setByte (m.frames f (v % 4096 / 4)) (v % 4) b)

end Machine

open Machine

/-- The address of `pointer[i]` for a pointer to words. -/
def at32 (pointer i : Nat) : Nat := u32 (pointer + 4 * i)

/-- `memory_paging_reset_entry` -/
def memory_paging_reset_entry (m : Machine) (entry : Nat) : Option Machine :=
  (List.range KERNEL_PDE_ENTRIES).foldlM (fun m i => m.store32 (at32 entry i) 0) m

/-- `memcpy` of bytes that the kernel holds to the address `dst`. -/
def memcpy_to (m : Machine) (dst : Nat) : List Nat → Option Machine
  | [] => some m
  | b :: bs => do memcpy_to (← m.store8 dst b) (u32 (dst + 1)) bs

/-- `memcpy` of `n` bytes at `src` into memory that the kernel holds. -/
def memcpy_from (m : Machine) (src : Nat) : Nat → Option (List Nat)
  | 0 => some []
  | n + 1 => do return (← m.load8 src) :: (← memcpy_from m (u32 (src + 1)) n)

/-- `memcpy` of a whole page between page-aligned addresses, word by word. -/
def memcpy_page (m : Machine) (dst src : Nat) : Option Machine :=
  (List.range 1024).foldlM (fun m i => do m.store32 (at32 dst i) (← m.load32 (at32 src i))) m

/-- `if (flags & PAGE_USER) page_directory[page_directory_index] |= PAGE_USER`, which
the three map functions share. -/
def memory_paging_set_user (m : Machine) (pde_address flags : Nat) : Option Machine :=
  if flags &&& PAGE_USER ≠ 0 then do
    let pde ← m.load32 pde_address
    m.store32 pde_address (pde ||| PAGE_USER)
  else some m

/-! ## The current directory -/

/-- The end of `memory_paging_map_current`, when the page table is there. -/
def memory_paging_map_current_entry (m : Machine) (physical_address virtual_address flags : Nat) :
    Option (Machine × memory_paging_result_t) := do
  let pdi := page_directory_index virtual_address
  let pde_address := at32 PAGE_DIRECTORY_VADDR pdi
  let m ← memory_paging_set_user m pde_address flags
  let m ← m.store32 (at32 (PAGE_TABLE_VADDR pdi) (page_table_index virtual_address))
    (ALIGN_DOWN physical_address ||| flags ||| PAGE_PRESENT)
  return (m, MEMORY_PAGING_RESULT_OK)

def memory_paging_map_current (m : Machine) (physical_address virtual_address flags : Nat) :
    Option (Machine × memory_paging_result_t) := do
  let pdi := page_directory_index virtual_address
  let pde_address := at32 PAGE_DIRECTORY_VADDR pdi
  let pde ← m.load32 pde_address
  if present pde then memory_paging_map_current_entry m physical_address virtual_address flags
  else
    let (bitmap, new_page_table_entry) := memory_bitmap_allocate m.memory_bitmap
    if new_page_table_entry = 0 then
      return (m.setBitmap bitmap, MEMORY_PAGING_RESULT_ALLOCATION_ERROR)
    else
      let m ← (m.setBitmap bitmap).store32 pde_address
        (new_page_table_entry ||| PAGE_READ_WRITE ||| PAGE_PRESENT)
      let m ← memory_paging_reset_entry m (PAGE_TABLE_VADDR pdi)
      memory_paging_map_current_entry m physical_address virtual_address flags

def memory_paging_unmap_current (m : Machine) (virtual_address : Nat) : Option Machine := do
  let pdi := page_directory_index virtual_address
  let pde ← m.load32 (at32 PAGE_DIRECTORY_VADDR pdi)
  if present pde then
    m.store32 (at32 (PAGE_TABLE_VADDR pdi) (page_table_index virtual_address)) 0
  else some m

/-! ## The bounce pages -/

/-- The first free slot of `bounce_pages_used`. -/
def bounce_free_slot (m : Machine) : Option Nat :=
  (List.range KERNEL_BOUNCE_PAGE_SIZE).find? fun i => !m.bounce_pages_used i

/-- `bounce_alloc`: the address 0 is `NULL`. -/
def bounce_alloc (m : Machine) (physical_address : Nat) : Option (Machine × Nat) :=
  match bounce_free_slot m with
  | none => some (m, 0)
  | some i => do
    let virtual_address := KERNEL_BOUNCE_PAGE_START + i * PAGE_SIZE
    let (m, result) ← memory_paging_map_current m physical_address virtual_address PAGE_READ_WRITE
    if result = MEMORY_PAGING_RESULT_OK then return (m.setBounce i true, virtual_address)
    else return (m, 0)

def bounce_free (m : Machine) (virtual_address : Nat) : Option Machine :=
  if virtual_address < KERNEL_BOUNCE_PAGE_START then some m
  else
    let bounce_index := (virtual_address - KERNEL_BOUNCE_PAGE_START) / PAGE_SIZE
    if KERNEL_BOUNCE_PAGE_SIZE ≤ bounce_index then some m
    else do
      let m ← memory_paging_unmap_current m virtual_address
      return m.setBounce bounce_index false

/-! ## Any directory, through its pointer -/

/-- The end of `memory_paging_map`, when the page table is there. -/
def memory_paging_map_entry (m : Machine)
    (page_directory physical_address virtual_address flags : Nat) :
    Option (Machine × memory_paging_result_t) := do
  let pde_address := at32 page_directory (page_directory_index virtual_address)
  let m ← memory_paging_set_user m pde_address flags
  let pde ← m.load32 pde_address
  let (m, page_table_virtual) ← bounce_alloc m (ALIGN_DOWN pde)
  let m ← m.store32 (at32 page_table_virtual (page_table_index virtual_address))
    (physical_address ||| flags ||| PAGE_PRESENT)
  let m ← bounce_free m page_table_virtual
  return (m, MEMORY_PAGING_RESULT_OK)

def memory_paging_map (m : Machine)
    (page_directory physical_address virtual_address flags : Nat) :
    Option (Machine × memory_paging_result_t) := do
  let pde_address := at32 page_directory (page_directory_index virtual_address)
  let pde ← m.load32 pde_address
  if present pde then
    memory_paging_map_entry m page_directory physical_address virtual_address flags
  else
    let (bitmap, new_page_table_entry) := memory_bitmap_allocate m.memory_bitmap
    if new_page_table_entry = 0 then
      return (m.setBitmap bitmap, MEMORY_PAGING_RESULT_ALLOCATION_ERROR)
    else
      let (m, new_page_table_entry_virtual) ←
        bounce_alloc (m.setBitmap bitmap) new_page_table_entry
      let m ← memory_paging_reset_entry m new_page_table_entry_virtual
      let m ← bounce_free m new_page_table_entry_virtual
      let m ← m.store32 pde_address (new_page_table_entry ||| PAGE_READ_WRITE ||| PAGE_PRESENT)
      memory_paging_map_entry m page_directory physical_address virtual_address flags

def memory_paging_unmap (m : Machine) (page_directory virtual_address : Nat) :
    Option Machine := do
  let pde ← m.load32 (at32 page_directory (page_directory_index virtual_address))
  if present pde then
    let (m, page_table_virtual) ← bounce_alloc m (ALIGN_DOWN pde)
    let m ← m.store32 (at32 page_table_virtual (page_table_index virtual_address)) 0
    bounce_free m page_table_virtual
  else some m

/-- `memory_paging_virtual_to_physical`: 0 when the page is not present. Both early
returns leave the function between a `bounce_alloc` and its `bounce_free`. -/
def memory_paging_virtual_to_physical (m : Machine) (page_directory_phys virtual_address : Nat) :
    Option (Machine × Nat) := do
  let pde_index := page_directory_index virtual_address
  let pte_index := page_table_index virtual_address
  let (m, page_directory) ← bounce_alloc m page_directory_phys
  let pde ← m.load32 (at32 page_directory pde_index)
  if !present pde then return (m, 0)
  else
    let m ← bounce_free m page_directory
    let (m, page_table) ← bounce_alloc m (ALIGN_DOWN pde)
    let pte ← m.load32 (at32 page_table pte_index)
    if !present pte then return (m, 0)
    else
      let m ← bounce_free m page_table
      return (m, ALIGN_DOWN pte + virtual_address % 4096)

/-! ## Whole directories -/

/-- One turn of the loop that copies the kernel's directory entries. -/
def memory_paging_copy_kernel_entry (new_page_directory : Nat) (m : Machine) (i : Nat) :
    Option Machine := do
  m.store32 (at32 new_page_directory i) (← m.load32 (at32 m.kernel_page_directory i))

/-- `memory_paging_create_page_directory`, which returns the physical address through
`result`. -/
def memory_paging_create_page_directory (m : Machine) :
    Option (Machine × memory_paging_result_t × Nat) := do
  let (bitmap, new_page_directory_phys) := memory_bitmap_allocate m.memory_bitmap
  if new_page_directory_phys = 0 then
    return (m.setBitmap bitmap, MEMORY_PAGING_RESULT_ALLOCATION_ERROR, 0)
  else
    let (m, new_page_directory) ← bounce_alloc (m.setBitmap bitmap) new_page_directory_phys
    let m ← memory_paging_reset_entry m new_page_directory
    let m ← (List.range' KERNEL_PDE_START (KERNEL_PDE_ENTRIES - KERNEL_PDE_START)).foldlM
      (memory_paging_copy_kernel_entry new_page_directory) m
    let m ← m.store32 (at32 new_page_directory 1023)
      (new_page_directory_phys ||| PAGE_PRESENT ||| PAGE_READ_WRITE)
    let m ← bounce_free m new_page_directory
    return (m, MEMORY_PAGING_RESULT_OK, new_page_directory_phys)

/-- One page of the inner loop of `memory_paging_copy_mapped_memory`. -/
def memory_paging_copy_page (dst pdi : Nat) (m : Machine) (pti : Nat) : Option Machine := do
  let pte_address := at32 (PAGE_TABLE_VADDR pdi) pti
  let pte ← m.load32 pte_address
  if !present pte then return m
  else
    let virtual_addr := pdi * 0x400000 + pti * 4096
    let (bitmap, phys_dst) := memory_bitmap_allocate m.memory_bitmap
    let (m, bitmap_dst) ← bounce_alloc (m.setBitmap bitmap) phys_dst
    let m ← memcpy_page m bitmap_dst virtual_addr
    let pte ← m.load32 pte_address
    let (m, _) ← memory_paging_map m dst phys_dst virtual_addr (pte % 4096)
    bounce_free m bitmap_dst

/-- One directory entry of the outer loop of `memory_paging_copy_mapped_memory`. -/
def memory_paging_copy_table (dst : Nat) (m : Machine) (pdi : Nat) : Option Machine := do
  let pde ← m.load32 (at32 PAGE_DIRECTORY_VADDR pdi)
  if !present pde then return m
  else (List.range KERNEL_PDE_ENTRIES).foldlM (memory_paging_copy_page dst pdi) m

/-- `memory_paging_copy_mapped_memory`. The outer loop breaks at the first address
that is not below `KERNEL_VIRTUAL_SPACE_START`. -/
def memory_paging_copy_mapped_memory (m : Machine) (dst : Nat) :
    Option (Machine × memory_paging_result_t) := do
  if dst = PAGE_DIRECTORY_VADDR then return (m, MEMORY_PAGING_RESULT_OK)
  else if dst = 0 then return (m, MEMORY_PAGING_RESULT_BAD_PARAMETER)
  else
    let m ← (List.range KERNEL_PDE_START).foldlM (memory_paging_copy_table dst) m
    return (m, MEMORY_PAGING_RESULT_OK)

def memory_paging_free_page_table (m : Machine) (page_table : Nat) : Option Machine :=
  (List.range KERNEL_PDE_ENTRIES).foldlM (fun m i => do
    let pte ← m.load32 (at32 page_table i)
    if !present pte then return m
    else return m.setBitmap (memory_bitmap_free m.memory_bitmap (ALIGN_DOWN pte))) m

/-- One entry of the loop of `memory_paging_free_page_directory`. A table that the
kernel's directory has at the same place is shared, and stays. -/
def memory_paging_free_directory_entry (page_directory : Nat) (m : Machine) (i : Nat) :
    Option Machine := do
  if i = 1023 then return m
  else
    let pde ← m.load32 (at32 page_directory i)
    if !present pde then return m
    else
      let kernel_pde ← m.load32 (at32 m.kernel_page_directory i)
      if frameOf pde = frameOf kernel_pde then return m
      else
        let (m, page_table) ← bounce_alloc m (ALIGN_DOWN pde)
        let m ← memory_paging_free_page_table m page_table
        let m := m.setBitmap (memory_bitmap_free m.memory_bitmap (ALIGN_DOWN pde))
        bounce_free m page_table

def memory_paging_free_page_directory (m : Machine) (page_directory : Nat) : Option Machine :=
  if page_directory = 0 then some m
  else (List.range KERNEL_PDE_ENTRIES).foldlM (memory_paging_free_directory_entry page_directory) m

/-- One directory of `memory_paging_destroy_queued`; its queue node goes back to the
kernel heap. -/
def memory_paging_destroy (m : Machine) (page_directory_phys : Nat) : Option Machine := do
  let (m, page_directory) ← bounce_alloc m page_directory_phys
  let m ← memory_paging_free_page_directory m page_directory
  let m ← bounce_free m page_directory
  return m.setBitmap (memory_bitmap_free m.memory_bitmap page_directory_phys)

/-- `memory_paging_destroy_queued` on the directories of the queue, in order. -/
def memory_paging_destroy_queued (m : Machine) (page_directories_to_destroy : List Nat) :
    Option Machine :=
  page_directories_to_destroy.foldlM memory_paging_destroy m

/-! ## Growth of the kernel heap -/

/-- The page loop of `kernel_heap_allocate_physical_memory` for the kernel heap, which maps
pages into the kernel's directory. `false` is the `NULL` when no frame is left; the pages
before stay mapped. -/
def kernel_heap_grow : Nat → Nat → Machine → Option (Machine × Bool)
  | 0, _, m => some (m, true)
  | pages_to_allocate + 1, address, m => do
    let (bitmap, physical_allocated) := memory_bitmap_allocate m.memory_bitmap
    if physical_allocated = 0 then return (m.setBitmap bitmap, false)
    else
      let (m, _) ← memory_paging_map (m.setBitmap bitmap) m.kernel_page_directory
        physical_allocated address PAGE_READ_WRITE
      kernel_heap_grow pages_to_allocate (u32 (address + PAGE_SIZE)) m

end alura_os.memory_paging
