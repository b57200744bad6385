-- The kernel heap (`kernel_heap.c`): one ring of free blocks through the
-- sentinel `kernel_heap.base`, first fit from a moving head, and growth by
-- whole pages. A loop of the C code takes fuel here, and gives `none` when
-- the fuel ends before the loop does.
import AluraOs.Memory

namespace alura_os.kernel_heap

open alura_os.memory

def KERNEL_HEAP_MINIMUM_HEADERS_TO_ALLOCATE : Nat := 1024

structure kernel_heap_header_t where
  next : Nat
  size : Nat

/-- `kernel_heap_t` with the memory that its pointers reach. `memory a` is the
header that the 8 bytes at address `a` hold, `base` is `&kernel_heap.base`, and
`pages` is the state of the page tables and of the frame allocator. -/
structure kernel_heap_t (σ : Type) where
  memory : Nat → kernel_heap_header_t
  base : Nat
  free_headers_head : Nat
  heap_start : Nat
  heap_end : Nat
  heap_break : Nat
  pages : σ

variable {σ : Type}

namespace kernel_heap_t

def next (k : kernel_heap_t σ) (a : Nat) : Nat := (k.memory a).next

def size (k : kernel_heap_t σ) (a : Nat) : Nat := (k.memory a).size

/-- `header->next = v` -/
def setNext (k : kernel_heap_t σ) (a v : Nat) : kernel_heap_t σ :=
  { k with memory := Function.update k.memory a { k.memory a with next := v } }

/-- `header->size = v` -/
def setSize (k : kernel_heap_t σ) (a v : Nat) : kernel_heap_t σ :=
  { k with memory := Function.update k.memory a { k.memory a with size := v } }

/-- `kernel_heap.free_headers_head = a` -/
def setHead (k : kernel_heap_t σ) (a : Nat) : kernel_heap_t σ := { k with free_headers_head := a }

/-- `header + header->size`, in bytes: a header takes 8. -/
def endOf (k : kernel_heap_t σ) (a : Nat) : Nat := u32 (a + 8 * k.size a)

end kernel_heap_t

/-- `kernel_heap_module_init` -/
def kernel_heap_module_init (memory : Nat → kernel_heap_header_t) (base : Nat) (pages : σ) :
    kernel_heap_t σ where
  memory := Function.update memory base ⟨base, 0⟩
  base := base
  free_headers_head := base
  heap_start := ALIGN_UP KERNEL_HEAP_VIRTUAL_START
  heap_end := ALIGN_DOWN KERNEL_HEAP_VIRTUAL_END
  heap_break := ALIGN_UP KERNEL_HEAP_VIRTUAL_START
  pages := pages

/-! ## Free -/

/-- The search loop of `kernel_heap_free`: from `location`, the node of the ring
after which the freed block belongs in address order. -/
def kernel_heap_free_location (k : kernel_heap_t σ) (freed : Nat) : Nat → Nat → Option Nat
  | 0, _ => none
  | fuel + 1, location =>
    let freed_block_after_current := location < freed
    let freed_block_before_next := freed < k.next location
    if freed_block_after_current ∧ freed_block_before_next then some location
    else if k.next location ≤ location ∧ (freed_block_after_current ∨ freed_block_before_next) then
      some location
    else kernel_heap_free_location k freed fuel (k.next location)

/-- Merge the freed block with the next free block if they touch, else link to it. -/
def kernel_heap_free_next (k : kernel_heap_t σ) (freed location : Nat) : kernel_heap_t σ :=
  if k.endOf freed = k.next location then
    let k1 := k.setSize freed (u32 (k.size freed + k.size (k.next location)))
    k1.setNext freed (k1.next (k1.next location))
  else k.setNext freed (k.next location)

/-- Merge the freed block into the free block before it if they touch, else link
that one to it. -/
def kernel_heap_free_previous (k : kernel_heap_t σ) (freed location : Nat) : kernel_heap_t σ :=
  if k.endOf location = freed then
    let k1 := k.setSize location (u32 (k.size location + k.size freed))
    k1.setNext location (k1.next freed)
  else k.setNext location freed

def kernel_heap_free (fuel : Nat) (k : kernel_heap_t σ) (address : Nat) :
    Option (kernel_heap_t σ) :=
  if address = 0 then some k
  else
    let freed := sub32 address 8
    match kernel_heap_free_location k freed fuel k.free_headers_head with
    | none => none
    | some location =>
      let k1 := kernel_heap_free_previous (kernel_heap_free_next k freed location) freed location
      some (k1.setHead location)

/-! ## Growth -/

section growth

-- One turn of the page loop: `memory_bitmap_allocate` and `memory_paging_map` at
-- the address. `false` says that no frame is left.
variable (map_page : σ → Nat → σ × Bool)

/-- The page loop of `kernel_heap_allocate_physical_memory`. -/
def kernel_heap_map_pages : Nat → Nat → σ → σ × Bool
  | 0, _, pages => (pages, true)
  | n + 1, address, pages =>
    match map_page pages address with
    | (pages1, false) => (pages1, false)
    | (pages1, true) => kernel_heap_map_pages n (u32 (address + PAGE_SIZE)) pages1

/-- `kernel_heap_allocate_physical_memory`: the address 0 is `NULL`. -/
def kernel_heap_allocate_physical_memory (k : kernel_heap_t σ) (bytes : Nat) :
    kernel_heap_t σ × Nat :=
  let bytes_to_allocate := ALIGN_UP bytes
  let pages_to_allocate := bytes_to_allocate / PAGE_SIZE
  if k.heap_end < u32 (k.heap_break + bytes_to_allocate) then (k, 0)
  else
    match kernel_heap_map_pages map_page pages_to_allocate k.heap_break k.pages with
    | (pages1, false) => ({ k with pages := pages1 }, 0)
    | (pages1, true) =>
      ({ k with pages := pages1, heap_break := u32 (k.heap_break + bytes_to_allocate) },
        k.heap_break)

/-- The bytes that `kernel_heap_allocate_more_headers` asks for. -/
def kernel_heap_growth_bytes (headers_to_allocate : Nat) : Nat :=
  let bytes_to_allocate := u32 (headers_to_allocate * 8)
  if bytes_to_allocate < KERNEL_HEAP_MINIMUM_HEADERS_TO_ALLOCATE * 8 then
    KERNEL_HEAP_MINIMUM_HEADERS_TO_ALLOCATE * 8
  else bytes_to_allocate

def kernel_heap_allocate_more_headers (fuel : Nat) (k : kernel_heap_t σ)
    (headers_to_allocate : Nat) : Option (kernel_heap_t σ × Nat) :=
  let bytes_to_allocate := kernel_heap_growth_bytes headers_to_allocate
  let (k1, header) := kernel_heap_allocate_physical_memory map_page k bytes_to_allocate
  if header = 0 then some (k1, 0)
  else
    let k2 := (k1.setSize header (bytes_to_allocate / 8)).setNext header header
    match kernel_heap_free fuel k2 (u32 (header + 8)) with
    | none => none
    | some k3 => some (k3, k3.free_headers_head)

/-! ## Malloc -/

/-- The block at `current` serves the request: an exact fit leaves the ring, a
larger block gives its tail away. -/
def kernel_heap_take (k : kernel_heap_t σ) (headers_to_allocate previous current : Nat) :
    kernel_heap_t σ × Nat :=
  if k.size current = headers_to_allocate then
    let k1 := k.setNext previous (k.next current)
    (k1.setHead previous, u32 (current + 8))
  else
    let k1 := k.setSize current (k.size current - headers_to_allocate)
    let tail := k1.endOf current
    let k2 := k1.setSize tail headers_to_allocate
    (k2.setHead previous, u32 (tail + 8))

/-- The `while (1)` loop of `kernel_heap_malloc_into_page_directory`. -/
def kernel_heap_malloc_walk (headers_to_allocate : Nat) :
    Nat → kernel_heap_t σ → Nat → Nat → Option (kernel_heap_t σ × Nat)
  | 0, _, _, _ => none
  | fuel + 1, k, previous, current =>
    if headers_to_allocate ≤ k.size current then
      some (kernel_heap_take k headers_to_allocate previous current)
    else if current = k.free_headers_head then
      match kernel_heap_allocate_more_headers map_page fuel k headers_to_allocate with
      | none => none
      | some (k1, headers) =>
        if headers = 0 then some (k1, 0)
        else kernel_heap_malloc_walk headers_to_allocate fuel k1 current (k1.next current)
    else kernel_heap_malloc_walk headers_to_allocate fuel k current (k.next current)

/-- The headers that a request takes, its own header included. -/
def kernel_heap_headers_for (size : Nat) : Nat := u32 (size + 7) / 8 + 1

def kernel_heap_malloc (fuel : Nat) (k : kernel_heap_t σ) (size : Nat) :
    Option (kernel_heap_t σ × Nat) :=
  if size = 0 then some (k, 0)
  else
    kernel_heap_malloc_walk map_page (kernel_heap_headers_for size) fuel k
      k.free_headers_head (k.next k.free_headers_head)

end growth

end alura_os.kernel_heap
