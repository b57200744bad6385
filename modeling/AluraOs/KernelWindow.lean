-- The low window (`memory_paging.c`): while the kernel builds its own page tables it reaches
-- them by adding `KERNEL_VIRTUAL_SPACE_START` to a physical address. Only the first 64 MiB
-- are mapped there, so here every such access is written down with the frame it is meant for.
import AluraOs.BootMemory
import AluraOs.PagingWindows

namespace alura_os.kernel_window

open alura_os.memory alura_os.memory_bitmap alura_os.memory_paging
open memory_paging_result_t

/-! ## The functions, with their accesses -/

/-- The physical memory of the boot, the allocator, `kernel_page_directory_phys`, and the frames
accessed at `address + KERNEL_VIRTUAL_SPACE_START` so far, the last one first. -/
structure LowWindow where
  frames : Nat → Nat → Nat
  memory_bitmap : memory_bitmap_t
  kernel_page_directory_phys : Nat
  accessed : List Nat

namespace LowWindow

/-- The frame `f` is accessed. -/
def access (s : LowWindow) (f : Nat) : LowWindow := { s with accessed := f :: s.accessed }

/-- A load of `entry[i]`, where `entry` is the physical address in the low window. -/
def load (s : LowWindow) (entry i : Nat) : Nat × LowWindow :=
  (s.frames (frameOf entry) i, s.access (frameOf entry))

/-- A store to `entry[i]`. -/
def store (s : LowWindow) (entry i x : Nat) : LowWindow :=
  { s.access (frameOf entry) with
    frames := Function.update s.frames (frameOf entry)
      (Function.update (s.frames (frameOf entry)) i x) }

def setBitmap (s : LowWindow) (b : memory_bitmap_t) : LowWindow := { s with memory_bitmap := b }

def setKernel (s : LowWindow) (kernel_page_directory_phys : Nat) : LowWindow :=
  { s with kernel_page_directory_phys := kernel_page_directory_phys }

@[simp] theorem access_bitmap (s : LowWindow) (f : Nat) :
    (s.access f).memory_bitmap = s.memory_bitmap := rfl

@[simp] theorem store_bitmap (s : LowWindow) (entry i x : Nat) :
    (s.store entry i x).memory_bitmap = s.memory_bitmap := rfl

@[simp] theorem store_kernel (s : LowWindow) (entry i x : Nat) :
    (s.store entry i x).kernel_page_directory_phys = s.kernel_page_directory_phys := rfl

@[simp] theorem mem_access {s : LowWindow} {f g : Nat} :
    g ∈ (s.access f).accessed ↔ g = f ∨ g ∈ s.accessed := List.mem_cons

@[simp] theorem setBitmap_accessed (s : LowWindow) (b : memory_bitmap_t) :
    (s.setBitmap b).accessed = s.accessed := rfl

end LowWindow

def memory_paging_reset_entry (s : LowWindow) (entry : Nat) : LowWindow :=
  (List.range KERNEL_PDE_ENTRIES).foldl (fun s i => s.store entry i 0) s

/-- The end of `memory_paging_map_kernel`, when the page table is there. -/
def memory_paging_map_kernel_entry (s : LowWindow) (physical_address virtual_address flags : Nat) :
    LowWindow × memory_paging_result_t :=
  let kernel_page_directory := s.kernel_page_directory_phys
  let pdi := page_directory_index virtual_address
  let s :=
    if flags &&& PAGE_USER ≠ 0 then
      let (pde, s) := s.load kernel_page_directory pdi
      s.store kernel_page_directory pdi (pde ||| PAGE_USER)
    else s
  let (pde, s) := s.load kernel_page_directory pdi
  (s.store (ALIGN_DOWN pde) (page_table_index virtual_address)
    (physical_address ||| flags ||| PAGE_PRESENT), MEMORY_PAGING_RESULT_OK)

def memory_paging_map_kernel (s : LowWindow) (physical_address virtual_address flags : Nat) :
    LowWindow × memory_paging_result_t :=
  let kernel_page_directory := s.kernel_page_directory_phys
  let pdi := page_directory_index virtual_address
  let (pde, s) := s.load kernel_page_directory pdi
  if present pde then memory_paging_map_kernel_entry s physical_address virtual_address flags
  else
    let (bitmap, new_page_table_entry) := memory_bitmap_allocate s.memory_bitmap
    let s := s.setBitmap bitmap
    if new_page_table_entry = 0 then (s, MEMORY_PAGING_RESULT_ALLOCATION_ERROR)
    else
      let s := memory_paging_reset_entry s new_page_table_entry
      let s := s.store kernel_page_directory pdi (new_page_table_entry ||| flags ||| PAGE_PRESENT)
      memory_paging_map_kernel_entry s physical_address virtual_address flags

/-- The loop that `memory_paging_map_physical_range` and `memory_paging_map_higher_half` share, over
a number of pages. It drops the results. -/
def map_pages (s : LowWindow) (physical virtual flags pages : Nat) : LowWindow :=
  (List.range pages).foldl (fun s k => (memory_paging_map_kernel s (u32 (physical + k * PAGE_SIZE))
    (u32 (virtual + k * PAGE_SIZE)) flags).1) s

def memory_paging_map_higher_half (s : LowWindow) : LowWindow :=
  map_pages s 0 KERNEL_VIRTUAL_SPACE_START PAGE_READ_WRITE (KERNEL_LOW_WINDOW_SIZE / PAGE_SIZE)

/-- The `total_size` of `memory_paging_map_physical_range`. -/
def range_size (physical_address size : Nat) : Nat :=
  ALIGN_UP (u32 (size + (physical_address - ALIGN_DOWN physical_address)))

def memory_paging_map_physical_range (s : LowWindow)
    (physical_address size virtual_address_base flags : Nat) : LowWindow :=
  map_pages s (ALIGN_DOWN physical_address) virtual_address_base flags
    (range_size physical_address size / PAGE_SIZE)

def memory_paging_create_kernel_page_directory (s : LowWindow) :
    LowWindow × memory_paging_result_t :=
  let (bitmap, kernel_page_directory_phys) := memory_bitmap_allocate s.memory_bitmap
  let s := (s.setBitmap bitmap).setKernel kernel_page_directory_phys
  if kernel_page_directory_phys = 0 then (s, MEMORY_PAGING_RESULT_ALLOCATION_ERROR)
  else
    let s := memory_paging_reset_entry s kernel_page_directory_phys
    let s := memory_paging_map_higher_half s
    (s.store kernel_page_directory_phys 1023
      (kernel_page_directory_phys ||| PAGE_PRESENT ||| PAGE_READ_WRITE), MEMORY_PAGING_RESULT_OK)

/-! ## The allocator in order -/

/-- The pages that an allocation can still give, in order. -/
def free_pages (b : memory_bitmap_t) : List Nat := (List.range b.pages).filter fun p => ¬ Used b p

/-- No page before the search index is free. So it is at boot, and until a page is freed. -/
structure InOrder (b : memory_bitmap_t) : Prop where
  zero : 0 < b.pages → Used b 0
  below : ∀ p, p < b.last_allocated_page_index → Used b p

theorem mem_free_pages {b : memory_bitmap_t} {p : Nat} :
    p ∈ free_pages b ↔ p < b.pages ∧ ¬ Used b p := by
  simp [free_pages]

theorem free_pages_sorted (b : memory_bitmap_t) : (free_pages b).Pairwise (· < ·) :=
  List.pairwise_lt_range.filter _

/-- The search passes over used pages only. -/
theorem memory_bitmap_search_first {bitmap : Nat → Nat} {i n page : Nat}
    (h : memory_bitmap_search bitmap i n = some page) {p : Nat} (hi : i ≤ p) (hp : p < page) :
    BITMAP_TEST bitmap p ≠ 0 := by
  induction n generalizing i with
  | zero => simp [memory_bitmap_search] at h
  | succ n ih =>
    unfold memory_bitmap_search at h
    split at h
    · cases h
      omega
    · rename_i ht
      rcases Nat.eq_or_lt_of_le hi with rfl | hlt
      · exact ht
      · exact ih h hlt

/-- An allocation takes the first of the free pages. -/
theorem allocate_first {b : memory_bitmap_t} (h : InOrder b) :
    (free_pages b = [] ∧ memory_bitmap_allocate b = (b, 0)) ∨
    ∃ p rest, free_pages b = p :: rest ∧ 0 < p ∧ (memory_bitmap_allocate b).2 = p * 4096 ∧
      free_pages (memory_bitmap_allocate b).1 = rest ∧ InOrder (memory_bitmap_allocate b).1 := by
  rcases allocate_cases b with ⟨he, hn⟩ | ⟨i, hi, hu, ha, hj, hpages⟩
  · refine Or.inl ⟨?_, he⟩
    apply List.eq_nil_iff_forall_not_mem.mpr
    intro p hp
    obtain ⟨hlt, hfree⟩ := mem_free_pages.mp hp
    exact hfree (find_none hn hlt)
  · right
    obtain ⟨hlast, hfirst⟩ : (memory_bitmap_allocate b).1.last_allocated_page_index = i ∧
        ∀ p, p < i → Used b p := by
      unfold memory_bitmap_allocate at ha ⊢
      split at ha
      · rename_i hf
        exact absurd (find_none hf hi) hu
      · rename_i q hf
        have hqi : q = i := by
          unfold PAGE_SIZE at ha
          omega
        subst hqi
        refine ⟨rfl, fun p hp => ?_⟩
        by_cases hlow : p < b.last_allocated_page_index
        · exact h.below p hlow
        · unfold memory_bitmap_find at hf
          split at hf
          · rename_i q' hs
            cases hf
            exact memory_bitmap_search_first hs (by omega) hp
          · -- The second search would find a free page before the index.
            have := memory_bitmap_search_spec hf
            exact absurd (h.below q (by omega)) hu
    have hpos : 0 < i := by
      rcases Nat.eq_zero_or_pos i with rfl | hpos
      · exact absurd (h.zero hi) hu
      · exact hpos
    have hmem : i ∈ free_pages b := mem_free_pages.mpr ⟨hi, hu⟩
    have hrest : free_pages (memory_bitmap_allocate b).1 =
        (free_pages b).filter fun p => p ≠ i := by
      unfold free_pages
      rw [hpages, List.filter_filter]
      congr 1
      funext p
      simp [hj]
    have hsorted := free_pages_sorted b
    cases hfree : free_pages b with
    | nil =>
      rw [hfree] at hmem
      cases hmem
    | cons p rest =>
      rw [hfree] at hmem hrest hsorted
      obtain ⟨hlt, -⟩ := List.pairwise_cons.mp hsorted
      have hp : p = i := by
        rcases List.mem_cons.mp hmem with he | he
        · exact he.symm
        · have hpfree := (mem_free_pages.mp (hfree ▸ List.mem_cons_self : p ∈ free_pages b)).2
          exact absurd (hfirst p (hlt i he)) hpfree
      subst hp
      refine ⟨p, rest, rfl, hpos, ha, ?_, ⟨fun h0 => ?_, fun q hq => ?_⟩⟩
      · rw [hrest, List.filter_cons_of_neg (by simp), List.filter_eq_self]
        intro q hq
        have := hlt q hq
        simp
        omega
      · rw [hpages] at h0
        exact (hj 0).mpr (Or.inr (h.zero h0))
      · rw [hlast] at hq
        exact (hj q).mpr (Or.inr (hfirst q hq))

/-! ## One page -/

section turns

variable {s : LowWindow} {D virtual : Nat} (physical : Nat)

theorem frameOf_page (f : Nat) : frameOf (f * 4096) = f := by
  unfold frameOf
  omega

theorem mem_store {f g i x : Nat} :
    g ∈ (s.store (f * 4096) i x).accessed ↔ g = f ∨ g ∈ s.accessed := by
  unfold LowWindow.store
  rw [frameOf_page]
  exact List.mem_cons

/-- What a cleared page leaves: only its own words change. -/
theorem reset_words (s : LowWindow) (f n : Nat) :
    ∃ s', (List.range n).foldl (fun s i => s.store (f * 4096) i 0) s = s' ∧
      s'.memory_bitmap = s.memory_bitmap ∧
      s'.kernel_page_directory_phys = s.kernel_page_directory_phys ∧
      (∀ g, g ≠ f → s'.frames g = s.frames g) ∧ (∀ i, i < n → s'.frames f i = 0) ∧
      ∀ g, g ∈ s'.accessed ↔ (0 < n ∧ g = f) ∨ g ∈ s.accessed := by
  induction n with
  | zero => exact ⟨s, rfl, rfl, rfl, fun _ _ => rfl, by simp, by simp⟩
  | succ n ih =>
    obtain ⟨s1, h1, hb, hk, hother, hzero, hacc⟩ := ih
    refine ⟨s1.store (f * 4096) n 0, ?_, hb, hk, fun g hg => ?_, fun i hi => ?_, fun g => ?_⟩
    · rw [List.range_succ, List.foldl_append, h1]
      rfl
    · unfold LowWindow.store
      simp only [frameOf_page]
      rw [Function.update_of_ne hg]
      exact hother g hg
    · unfold LowWindow.store
      simp only [frameOf_page, Function.update_self]
      by_cases hin : i = n
      · rw [hin, Function.update_self]
      · rw [Function.update_of_ne hin]
        exact hzero i (by omega)
    · simp only [mem_store, hacc]
      constructor
      · rintro (rfl | ⟨-, rfl⟩ | h)
        · exact Or.inl ⟨by omega, rfl⟩
        · exact Or.inl ⟨by omega, rfl⟩
        · exact Or.inr h
      · rintro (⟨-, rfl⟩ | h)
        · exact Or.inl rfl
        · exact Or.inr (Or.inr h)

/-- What a call of `memory_paging_map_kernel` does to the directory `D` and to what it accesses:
entry `pdi` becomes `pde`, and the frames in `more` were accessed. -/
structure Turn (s s' : LowWindow) (D pdi pde : Nat) (b : memory_bitmap_t) (more : List Nat) : Prop where
  kernel : s'.kernel_page_directory_phys = s.kernel_page_directory_phys
  bitmap : s'.memory_bitmap = b
  entry : s'.frames D pdi = pde
  others : ∀ j, j ≠ pdi → s'.frames D j = s.frames D j
  accessed : ∀ f, f ∈ s'.accessed ↔ f ∈ more ∨ f ∈ s.accessed

/-- The end of a call, with the page table `T` of the directory. -/
theorem map_kernel_entry_turn {pde : Nat} (hk : s.kernel_page_directory_phys = D * 4096)
    (hpde : s.frames D (page_directory_index virtual) = pde) (hT : frameOf pde ≠ D) :
    Turn s (memory_paging_map_kernel_entry s physical virtual PAGE_READ_WRITE).1 D
      (page_directory_index virtual) pde s.memory_bitmap [D, frameOf pde] := by
  have hal : frameOf (ALIGN_DOWN pde) = frameOf pde := by
    unfold frameOf ALIGN_DOWN
    omega
  have huser : ¬ (PAGE_READ_WRITE &&& PAGE_USER ≠ 0) := by decide
  unfold memory_paging_map_kernel_entry
  simp only [huser, if_false, LowWindow.load, LowWindow.store, hk, frameOf_page, hpde, hal]
  refine ⟨rfl, rfl, ?_, fun j _ => ?_, fun f => ?_⟩
  · exact (congrFun (Function.update_of_ne hT.symm _ _) _).trans hpde
  · exact congrFun (Function.update_of_ne hT.symm _ _) j
  · show f ∈ frameOf pde :: D :: s.accessed ↔ _
    simp only [List.mem_cons, List.not_mem_nil, or_false]
    tauto

theorem map_kernel_old {pde : Nat} (hk : s.kernel_page_directory_phys = D * 4096)
    (hpde : s.frames D (page_directory_index virtual) = pde) (hp : present pde = true)
    (hT : frameOf pde ≠ D) :
    Turn s (memory_paging_map_kernel s physical virtual PAGE_READ_WRITE).1 D
      (page_directory_index virtual) pde s.memory_bitmap [D, frameOf pde] := by
  have hload : s.load (D * 4096) (page_directory_index virtual) =
      (pde, s.access D) := by
    unfold LowWindow.load
    rw [frameOf_page, hpde]
  have hentry : Turn (s.access D) (memory_paging_map_kernel_entry (s.access D) physical virtual
      PAGE_READ_WRITE).1 D (page_directory_index virtual) pde s.memory_bitmap [D, frameOf pde] :=
    map_kernel_entry_turn physical hk hpde hT
  unfold memory_paging_map_kernel
  simp only [hk, hload, hp, if_true]
  refine ⟨hentry.kernel, hentry.bitmap, hentry.entry, hentry.others, fun f => ?_⟩
  rw [hentry.accessed, LowWindow.mem_access]
  simp only [List.mem_cons, List.not_mem_nil, or_false]
  tauto

theorem map_kernel_full {pde : Nat} (hk : s.kernel_page_directory_phys = D * 4096)
    (hpde : s.frames D (page_directory_index virtual) = pde) (hp : present pde = false)
    (ha : memory_bitmap_allocate s.memory_bitmap = (s.memory_bitmap, 0)) :
    Turn s (memory_paging_map_kernel s physical virtual PAGE_READ_WRITE).1 D
      (page_directory_index virtual) pde s.memory_bitmap [D] := by
  have hload : s.load (D * 4096) (page_directory_index virtual) =
      (pde, s.access D) := by
    unfold LowWindow.load
    rw [frameOf_page, hpde]
  unfold memory_paging_map_kernel
  simp only [hk, hload, hp, Bool.false_eq_true, if_false, LowWindow.access_bitmap, ha, if_true]
  exact ⟨rfl, rfl, hpde, fun _ _ => rfl, fun f => by simp⟩

theorem map_kernel_new {p : Nat} (hk : s.kernel_page_directory_phys = D * 4096)
    (hp : present (s.frames D (page_directory_index virtual)) = false) (hp0 : 0 < p)
    (ha : (memory_bitmap_allocate s.memory_bitmap).2 = p * 4096) (hpD : p ≠ D) :
    Turn s (memory_paging_map_kernel s physical virtual PAGE_READ_WRITE).1 D
      (page_directory_index virtual) (p * 4096 ||| PAGE_READ_WRITE ||| PAGE_PRESENT)
      (memory_bitmap_allocate s.memory_bitmap).1 [D, p] := by
  have hload : s.load (D * 4096) (page_directory_index virtual) =
      (s.frames D (page_directory_index virtual), s.access D) := by
    unfold LowWindow.load
    rw [frameOf_page]
  have hne : ¬ p * 4096 = 0 := by omega
  obtain ⟨s1, h1, hb, hk1, hother, -, hacc⟩ := reset_words
    ((s.access D).setBitmap
      (memory_bitmap_allocate s.memory_bitmap).1) p 1024
  have hreset : memory_paging_reset_entry ((s.access D).setBitmap
      (memory_bitmap_allocate s.memory_bitmap).1) (p * 4096) = s1 := h1
  have hk2 : (s1.store (D * 4096) (page_directory_index virtual)
      (p * 4096 ||| PAGE_READ_WRITE ||| PAGE_PRESENT)).kernel_page_directory_phys = D * 4096 :=
    hk1.trans hk
  have hpde : (s1.store (D * 4096) (page_directory_index virtual)
      (p * 4096 ||| PAGE_READ_WRITE ||| PAGE_PRESENT)).frames D (page_directory_index virtual) =
      (p * 4096 ||| PAGE_READ_WRITE ||| PAGE_PRESENT) := by
    unfold LowWindow.store
    simp [frameOf_page]
  have hfr : frameOf (p * 4096 ||| PAGE_READ_WRITE ||| PAGE_PRESENT) = p := frameOf_entry p (by decide)
  have hentry := map_kernel_entry_turn physical hk2 hpde (by rw [hfr]; exact hpD)
  unfold memory_paging_map_kernel
  simp only [hk, hload, hp, Bool.false_eq_true, if_false, LowWindow.access_bitmap, ha, hne, hreset]
  refine ⟨hentry.kernel.trans hk1, hentry.bitmap.trans hb, hentry.entry, fun j hj => ?_, fun f => ?_⟩
  · rw [hentry.others j hj]
    unfold LowWindow.store
    simp only [frameOf_page, Function.update_self, Function.update_of_ne hj]
    exact congrFun (hother D hpD.symm) j
  · rw [hentry.accessed, hfr, mem_store, hacc]
    simp only [List.mem_cons, List.not_mem_nil, or_false, LowWindow.setBitmap_accessed,
      LowWindow.mem_access]
    constructor
    · rintro (h | h | ⟨-, h⟩ | h | h)
      · exact Or.inl h
      · exact Or.inl (Or.inl h)
      · exact Or.inl (Or.inr h)
      · exact Or.inl (Or.inl h)
      · exact Or.inr h
    · rintro (h | h)
      · exact Or.inl h
      · exact Or.inr (Or.inr (Or.inr (Or.inr h)))

end turns

/-! ## A range of pages -/

/-- The number of page tables that `pages` pages from the start of a table take. -/
def tables (pages : Nat) : Nat := (pages + 1023) / 1024

/-- The directory `D` before a range is mapped from entry `base` on: the entries of its `T` tables
are empty, and the allocator gives the pages in `L` next. -/
structure Before (s : LowWindow) (D base T : Nat) (L : List Nat) : Prop where
  kernel : s.kernel_page_directory_phys = D * 4096
  order : InOrder s.memory_bitmap
  free : free_pages s.memory_bitmap = L
  apart : D ∉ L
  empty : ∀ i, i < T → present (s.frames D (base + i)) = false

/-- After `k` pages: the tables are the first free pages, as far as there are any, and they and
the directory are what was accessed. -/
structure Ranged (s0 s : LowWindow) (D base T : Nat) (L : List Nat) (k : Nat) : Prop where
  kernel : s.kernel_page_directory_phys = D * 4096
  order : InOrder s.memory_bitmap
  free : free_pages s.memory_bitmap = L.drop (tables k)
  there : ∀ i, i < tables k → (h : i < L.length) →
    present (s.frames D (base + i)) = true ∧ frameOf (s.frames D (base + i)) = L[i]
  absent : ∀ i, i < T → tables k ≤ i ∨ L.length ≤ i → present (s.frames D (base + i)) = false
  others : ∀ j, j < base ∨ base + T ≤ j → s.frames D j = s0.frames D j
  accessed : ∀ f, f ∈ s.accessed ↔ (0 < k ∧ f = D) ∨ f ∈ L.take (tables k) ∨ f ∈ s0.accessed

theorem Before.ranged {s : LowWindow} {D base T : Nat} {L : List Nat} (h : Before s D base T L) :
    Ranged s s D base T L 0 where
  kernel := h.kernel
  order := h.order
  free := h.free
  there := fun i hi => absurd hi (by unfold tables; omega)
  absent := fun i hi _ => h.empty i hi
  others := fun _ _ => rfl
  accessed := fun f => by simp [tables]

/-- The indices of page `k` of a range from the start of the table `base`. -/
theorem range_index {virtual base k : Nat} (hv : virtual = base * 0x400000)
    (hb : base + k / 1024 < 1024) :
    page_directory_index (u32 (virtual + k * PAGE_SIZE)) = base + k / 1024 := by
  subst hv
  unfold PAGE_SIZE page_directory_index
  rw [u32_of_lt (by omega)]
  omega

/-- One page of a range. A new table is brought in with the first page of a table; when there is
none left, that page and the others of its table fail. -/
theorem Ranged.turn {s0 s : LowWindow} {D base T k physical virtual : Nat} {L : List Nat}
    (h : Ranged s0 s D base T L k) (hL : D ∉ L) (hk : k / 1024 < T) (hT : base + T ≤ 1024)
    (hv : virtual = base * 0x400000) :
    Ranged s0 (memory_paging_map_kernel s physical (u32 (virtual + k * PAGE_SIZE))
      PAGE_READ_WRITE).1 D base T L (k + 1) := by
  have hidx := range_index hv (show base + k / 1024 < 1024 by omega)
  -- A turn that leaves the allocator and the entries as they are.
  have hkeep : ∀ (s' : LowWindow) (more : List Nat), tables (k + 1) = tables k ∨
      (tables (k + 1) = tables k + 1 ∧ L.length ≤ tables k) →
      Turn s s' D (base + k / 1024) (s.frames D (base + k / 1024)) s.memory_bitmap (D :: more) →
      (∀ f ∈ more, f ∈ L.take (tables (k + 1))) → Ranged s0 s' D base T L (k + 1) := by
    intro s' more htab ht hmore
    have hsame : ∀ j, s'.frames D j = s.frames D j := by
      intro j
      by_cases hj : j = base + k / 1024
      · rw [hj, ht.entry]
      · exact ht.others j hj
    have hdrop : L.drop (tables (k + 1)) = L.drop (tables k) ∧
        L.take (tables (k + 1)) = L.take (tables k) := by
      rcases htab with he | ⟨he, hlen⟩
      · rw [he]
        exact ⟨rfl, rfl⟩
      · rw [he, List.drop_eq_nil_of_le (by omega), List.drop_eq_nil_of_le hlen,
          List.take_of_length_le (by omega), List.take_of_length_le hlen]
        exact ⟨rfl, rfl⟩
    refine ⟨ht.kernel.trans h.kernel, ht.bitmap ▸ h.order, ?_, fun i hi hlen => ?_,
      fun i hi hlen => ?_, fun j hj => (hsame j).trans (h.others j hj), fun f => ?_⟩
    · rw [ht.bitmap, hdrop.1]
      exact h.free
    · rw [hsame]
      exact h.there i (by omega) hlen
    · rw [hsame]
      exact h.absent i hi (by omega)
    · rw [ht.accessed, h.accessed, hdrop.2]
      rw [hdrop.2] at hmore
      constructor
      · rintro (hf | ⟨-, hf⟩ | hf | hf)
        · rcases List.mem_cons.mp hf with rfl | hf
          · exact Or.inl ⟨by omega, rfl⟩
          · exact Or.inr (Or.inl (hmore f hf))
        · exact Or.inl ⟨by omega, hf⟩
        · exact Or.inr (Or.inl hf)
        · exact Or.inr (Or.inr hf)
      · rintro (⟨-, rfl⟩ | hf | hf)
        · exact Or.inl List.mem_cons_self
        · exact Or.inr (Or.inr (Or.inl hf))
        · exact Or.inr (Or.inr (Or.inr hf))
  -- The entry is empty and no page is free.
  have hfail : tables (k + 1) = tables k ∨ tables (k + 1) = tables k + 1 →
      present (s.frames D (base + k / 1024)) = false → L.length ≤ tables k →
      Ranged s0 (memory_paging_map_kernel s physical (u32 (virtual + k * PAGE_SIZE))
        PAGE_READ_WRITE).1 D base T L (k + 1) := by
    intro htab hp hlen
    have hnone : memory_bitmap_allocate s.memory_bitmap = (s.memory_bitmap, 0) := by
      rcases allocate_first h.order with ⟨-, he⟩ | ⟨p, rest, he, -⟩
      · exact he
      · rw [h.free, List.drop_eq_nil_of_le hlen] at he
        cases he
    apply hkeep _ [] (htab.imp id fun he => ⟨he, hlen⟩) _ (by simp)
    have := map_kernel_full physical h.kernel (congrArg _ hidx) hp hnone
    rwa [hidx] at this
  by_cases hfirst : k % 1024 = 0
  · have htab : tables k = k / 1024 ∧ tables (k + 1) = tables k + 1 := by
      unfold tables
      omega
    have hp := h.absent (k / 1024) hk (Or.inl (by omega))
    rcases Nat.lt_or_ge (k / 1024) L.length with hlen | hlen
    · -- The next free page becomes the table.
      have hfree : L.drop (tables k) = L[k / 1024] :: L.drop (tables (k + 1)) := by
        rw [htab.2, htab.1]
        exact List.drop_eq_getElem_cons hlen
      rcases allocate_first h.order with ⟨he, -⟩ | ⟨p, rest, he, hp0, ha, hrest, horder⟩
      · rw [h.free, hfree] at he
        cases he
      · rw [h.free, hfree] at he
        obtain ⟨hpL, hrestL⟩ := List.cons.inj he
        have hpD : p ≠ D := by
          rintro rfl
          exact hL (hpL ▸ List.getElem_mem hlen)
        have ht := map_kernel_new physical h.kernel (hidx ▸ hp) hp0 ha hpD
        rw [hidx] at ht
        have htake : L.take (tables (k + 1)) = L.take (tables k) ++ [p] := by
          rw [htab.2, htab.1, ← hpL]
          exact (List.take_append_getElem hlen).symm
        refine ⟨ht.kernel.trans h.kernel, ht.bitmap ▸ horder, ?_, fun i hi hlen' => ?_,
          fun i hi hno => ?_, fun j hj => ?_, fun f => ?_⟩
        · rw [ht.bitmap, hrest, hrestL]
        · by_cases hik : i = k / 1024
          · subst hik
            rw [ht.entry, hpL]
            exact ⟨present_entry _ _, frameOf_entry p (by decide)⟩
          · rw [ht.others _ (by omega)]
            exact h.there i (by omega) hlen'
        · rw [ht.others _ (by omega)]
          exact h.absent i hi (by omega)
        · rw [ht.others _ (by omega)]
          exact h.others j hj
        · rw [ht.accessed, h.accessed, htake, List.mem_append]
          simp only [List.mem_cons, List.not_mem_nil, or_false]
          constructor
          · rintro ((hf | hf) | ⟨-, hf⟩ | hf | hf)
            · exact Or.inl ⟨by omega, hf⟩
            · exact Or.inr (Or.inl (Or.inr hf))
            · exact Or.inl ⟨by omega, hf⟩
            · exact Or.inr (Or.inl (Or.inl hf))
            · exact Or.inr (Or.inr hf)
          · rintro (⟨-, hf⟩ | (hf | hf) | hf)
            · exact Or.inl (Or.inl hf)
            · exact Or.inr (Or.inr (Or.inl hf))
            · exact Or.inl (Or.inr hf)
            · exact Or.inr (Or.inr (Or.inr hf))
    · exact hfail (Or.inr htab.2) hp (by omega)
  · have htab : tables k = k / 1024 + 1 ∧ tables (k + 1) = tables k := by
      unfold tables
      omega
    rcases Nat.lt_or_ge (k / 1024) L.length with hlen | hlen
    · obtain ⟨hp, hf⟩ := h.there (k / 1024) (by omega) hlen
      have hmem : L[k / 1024] ∈ L := List.getElem_mem hlen
      apply hkeep _ [L[k / 1024]] (Or.inl htab.2)
      · have := map_kernel_old physical h.kernel (congrArg _ hidx) hp (by
          rw [hf]
          rintro he
          exact hL (he ▸ hmem))
        rwa [hidx, hf] at this
      · intro f hf'
        rw [List.mem_singleton.mp hf', htab.2, htab.1]
        exact List.mem_take_iff_getElem.mpr ⟨k / 1024, by omega, rfl⟩
    · exact hfail (Or.inl htab.2) (h.absent _ hk (Or.inr hlen)) (by omega)

theorem map_pages_ranged {s : LowWindow} {D base T physical virtual : Nat} {L : List Nat}
    (h : Before s D base T L) (hT : base + T ≤ 1024) (hv : virtual = base * 0x400000) (n : Nat)
    (hn : n ≤ T * 1024) :
    Ranged s (map_pages s physical virtual PAGE_READ_WRITE n) D base T L n := by
  induction n with
  | zero => exact h.ranged
  | succ n ih =>
    unfold map_pages
    rw [List.range_succ, List.foldl_append]
    exact (ih (by omega)).turn h.apart (by omega) hT hv

/-! ## The boot -/

/-- The state in which `memory_paging_module_init` finds the allocator. -/
def boot_start (multiboot : multiboot_info_t) (entries : Nat → Nat) (frames : Nat → Nat → Nat) :
    LowWindow where
  frames := frames
  memory_bitmap := memory_bitmap_module_init entries multiboot
  kernel_page_directory_phys := 0
  accessed := []

/-- The boot steps between the paging and the framebuffer: they take `n` frames for themselves, in
the order of the allocator, and hang no table at the entries of the framebuffer. -/
structure Between (n : Nat) (s s' : LowWindow) : Prop where
  kernel : s'.kernel_page_directory_phys = s.kernel_page_directory_phys
  bitmap : s'.memory_bitmap = (fun b => (memory_bitmap_allocate b).1)^[n] s.memory_bitmap
  entries : ∀ j, 992 ≤ j → j < 1022 → s'.frames (frameOf s.kernel_page_directory_phys) j =
    s.frames (frameOf s.kernel_page_directory_phys) j
  accessed : s'.accessed = s.accessed

def KERNEL_FRAMEBUFFER_VIRTUAL_START : Nat := 0xF8000000

/-- The mapping in `framebuffer_driver_init`. -/
def framebuffer_map (s : LowWindow) (physical_address size : Nat) : LowWindow :=
  memory_paging_map_physical_range s physical_address size KERNEL_FRAMEBUFFER_VIRTUAL_START
    PAGE_READ_WRITE

/-- The frames accessed at `address + KERNEL_VIRTUAL_SPACE_START` are in the low window. -/
def InWindow (s : LowWindow) : Prop := ∀ f ∈ s.accessed, f * PAGE_SIZE < KERNEL_LOW_WINDOW_SIZE

theorem boot_in_order (multiboot : multiboot_info_t) (entries : Nat → Nat) :
    InOrder (memory_bitmap_module_init entries multiboot) where
  zero := fun h => (used_after_init entries multiboot h).mpr (Or.inr (Or.inl (by omega)))
  below := fun p hp => absurd hp (Nat.not_lt_zero p)

/-- Other allocations take the next pages. -/
theorem allocations_in_order {b : memory_bitmap_t} (h : InOrder b) (n : Nat) :
    InOrder ((fun b => (memory_bitmap_allocate b).1)^[n] b) ∧
      free_pages ((fun b => (memory_bitmap_allocate b).1)^[n] b) = (free_pages b).drop n := by
  induction n with
  | zero => exact ⟨h, rfl⟩
  | succ n ih =>
    obtain ⟨horder, hfree⟩ := ih
    rw [Function.iterate_succ_apply']
    rcases allocate_first horder with ⟨hnil, he⟩ | ⟨p, rest, hcons, -, -, hrest, horder'⟩
    · rw [he]
      refine ⟨horder, ?_⟩
      rw [hfree] at hnil ⊢
      rw [hnil, ← List.drop_drop, hnil]
      rfl
    · refine ⟨horder', ?_⟩
      rw [hrest, ← List.drop_drop, ← hfree, hcons]
      rfl

/-- The low window has sixteen tables. -/
theorem window_tables : tables (KERNEL_LOW_WINDOW_SIZE / PAGE_SIZE) = 16 := by decide

theorem higher_half_ranged {s : LowWindow} {D : Nat} {L : List Nat} (h : Before s D 768 16 L) :
    Ranged s (memory_paging_map_higher_half s) D 768 16 L (KERNEL_LOW_WINDOW_SIZE / PAGE_SIZE) :=
  map_pages_ranged h (by omega) (by decide) _ (by decide)

/-- The kernel's directory and its sixteen tables are the first free pages. -/
structure Created (s : LowWindow) (D : Nat) (L : List Nat) : Prop where
  kernel : s.kernel_page_directory_phys = D * 4096
  order : InOrder s.memory_bitmap
  free : free_pages s.memory_bitmap = L.drop 16
  apart : D ∉ L
  empty : ∀ j, 992 ≤ j → j < 1022 → present (s.frames D j) = false
  accessed : ∀ f, f ∈ s.accessed ↔ f = D ∨ f ∈ L.take 16

/-- Without a free page the directory is not created, and nothing is accessed. -/
theorem create_none {s : LowWindow} (h : InOrder s.memory_bitmap)
    (hfree : free_pages s.memory_bitmap = []) :
    (memory_paging_create_kernel_page_directory s).2 = MEMORY_PAGING_RESULT_ALLOCATION_ERROR ∧
      (memory_paging_create_kernel_page_directory s).1.accessed = s.accessed := by
  have hnone : memory_bitmap_allocate s.memory_bitmap = (s.memory_bitmap, 0) := by
    rcases allocate_first h with ⟨-, he⟩ | ⟨p, rest, he, -⟩
    · exact he
    · rw [hfree] at he
      cases he
  unfold memory_paging_create_kernel_page_directory
  simp only [hnone, if_true]
  exact ⟨trivial, rfl⟩

theorem create_spec {s : LowWindow} {D : Nat} {L : List Nat} (h : InOrder s.memory_bitmap)
    (hfree : free_pages s.memory_bitmap = D :: L) (hacc : s.accessed = []) :
    (memory_paging_create_kernel_page_directory s).2 = MEMORY_PAGING_RESULT_OK ∧
      Created (memory_paging_create_kernel_page_directory s).1 D L := by
  rcases allocate_first h with ⟨he, -⟩ | ⟨p, rest, he, hp0, ha, hrest, horder⟩
  · rw [hfree] at he
    cases he
  · rw [hfree] at he
    obtain ⟨rfl, rfl⟩ := List.cons.inj he
    have hsorted := free_pages_sorted s.memory_bitmap
    rw [hfree] at hsorted
    have hDL : D ∉ L := fun hc => absurd ((List.pairwise_cons.mp hsorted).1 D hc) (by omega)
    have hne : ¬ D * 4096 = 0 := by omega
    obtain ⟨s1, h1, hb, hk, -, hzero, hacc1⟩ := reset_words
      ((s.setBitmap (memory_bitmap_allocate s.memory_bitmap).1).setKernel (D * 4096)) D 1024
    have hreset : memory_paging_reset_entry ((s.setBitmap
      (memory_bitmap_allocate s.memory_bitmap).1).setKernel (D * 4096)) (D * 4096) = s1 := h1
    have hbefore : Before s1 D 768 16 L := by
      refine ⟨hk, hb ▸ horder, hb ▸ hrest, hDL, fun i hi => ?_⟩
      rw [hzero (768 + i) (by omega)]
      rfl
    have hr := higher_half_ranged hbefore
    unfold memory_paging_create_kernel_page_directory
    simp only [ha, hne, if_false, hreset]
    generalize memory_paging_map_higher_half s1 = s2 at hr ⊢
    refine ⟨trivial, ?_, ?_, ?_, hDL, fun j hj hj' => ?_, fun f => ?_⟩
    · rw [LowWindow.store_kernel, hr.kernel]
    · rw [LowWindow.store_bitmap]
      exact hr.order
    · rw [LowWindow.store_bitmap, hr.free, window_tables]
    · have hword : (s2.store (D * 4096) 1023
          (D * 4096 ||| PAGE_PRESENT ||| PAGE_READ_WRITE)).frames D j =
          s2.frames D j := by
        unfold LowWindow.store
        simp only [frameOf_page, Function.update_self]
        exact Function.update_of_ne (by omega) _ _
      rw [hword, hr.others j (by omega), hzero j (by omega)]
      rfl
    · rw [mem_store, hr.accessed, window_tables, hacc1]
      have hnone : f ∉ ((s.setBitmap
          (memory_bitmap_allocate s.memory_bitmap).1).setKernel (D * 4096)).accessed := by
        show f ∉ s.accessed
        rw [hacc]
        exact List.not_mem_nil
      constructor
      · rintro (hf | ⟨-, hf⟩ | hf | ⟨-, hf⟩ | hf)
        · exact Or.inl hf
        · exact Or.inl hf
        · exact Or.inr hf
        · exact Or.inl hf
        · exact absurd hf hnone
      · rintro (hf | hf)
        · exact Or.inl hf
        · exact Or.inr (Or.inr (Or.inl hf))

/-- The tables of the framebuffer are the free pages after those that the steps between took. -/
theorem framebuffer_accesses {s s' : LowWindow} {D n physical_address size : Nat} {L : List Nat}
    (hs : Created s D L) (hb : Between n s s') (hfit : range_size physical_address size ≤ 0x7800000)
    (f : Nat) :
    f ∈ (framebuffer_map s' physical_address size).accessed ↔
      f = D ∨ f ∈ L.take 16 ∨
        f ∈ (L.drop (16 + n)).take (tables (range_size physical_address size / PAGE_SIZE)) := by
  obtain ⟨horder, hfree⟩ := allocations_in_order hs.order n
  have hD : frameOf s.kernel_page_directory_phys = D := by
    rw [hs.kernel]
    exact frameOf_page D
  have hbefore : Before s' D 992 30 (L.drop (16 + n)) := by
    refine ⟨hb.kernel.trans hs.kernel, hb.bitmap ▸ horder, ?_,
      fun hc => hs.apart (List.mem_of_mem_drop hc), fun i hi => ?_⟩
    · rw [hb.bitmap, hfree, hs.free, List.drop_drop]
    · have hentry := hb.entries (992 + i) (by omega) (by omega)
      rw [hD] at hentry
      rw [hentry]
      exact hs.empty (992 + i) (by omega) (by omega)
  have hr : Ranged s' (framebuffer_map s' physical_address size) D 992 30 (L.drop (16 + n))
      (range_size physical_address size / PAGE_SIZE) :=
    map_pages_ranged hbefore (by omega) (by decide) _ (by unfold PAGE_SIZE; omega)
  rw [hr.accessed, hb.accessed, hs.accessed]
  constructor
  · rintro (⟨-, hf⟩ | hf | hf | hf)
    · exact Or.inl hf
    · exact Or.inr (Or.inr hf)
    · exact Or.inl hf
    · exact Or.inr (Or.inl hf)
  · rintro (hf | hf | hf)
    · exact Or.inr (Or.inr (Or.inl hf))
    · exact Or.inr (Or.inr (Or.inr hf))
    · exact Or.inr (Or.inl hf)

/-! ## The pages at boot -/

instance (r : multiboot_memory_map_t) (p : Nat) : Decidable (Clears r p) :=
  inferInstanceAs (Decidable (_ ∧ _ ∧ _))

instance (multiboot : multiboot_info_t) (p : Nat) : Decidable (Cleared multiboot p) :=
  inferInstanceAs (Decidable (∃ r ∈ multiboot.mmap, Clears r p))

instance (first last p : Nat) : Decidable (LocksBytes first last p) :=
  inferInstanceAs (Decidable (_ ∧ _))

instance (multiboot : multiboot_info_t) (p : Nat) : Decidable (Locked multiboot p) :=
  inferInstanceAs (Decidable (_ ∨ (∃ mod ∈ multiboot.mods, LocksBytes mod.mod_start mod.mod_end p) ∨
    _ ∨ _ ∧ _))

/-- The pages that the memory map gives and that the boot does not lock, in order. -/
def pages_at_boot (multiboot : multiboot_info_t) : List Nat :=
  (List.range (bitmap_pages_of multiboot)).filter fun p => Cleared multiboot p ∧ ¬ Locked multiboot p

theorem free_pages_at_boot (multiboot : multiboot_info_t) (entries : Nat → Nat) :
    free_pages (memory_bitmap_module_init entries multiboot) = pages_at_boot multiboot := by
  apply List.filter_congr
  intro p hp
  have hused := used_after_init entries multiboot (List.mem_range.mp hp)
  simp only [hused, not_or, not_not]

/-- From the page tables of the boot loader to the mapping of the framebuffer, every access is in
the low window. Without a page for its directory, the boot ends in an allocation error. -/
def LowAddressing (multiboot : multiboot_info_t) (entries : Nat → Nat) (frames : Nat → Nat → Nat)
    (n physical_address size : Nat) : Prop :=
  ∀ s result, memory_paging_create_kernel_page_directory (boot_start multiboot entries frames) =
      (s, result) →
    InWindow s ∧ (result = MEMORY_PAGING_RESULT_OK → ∀ s', Between n s s' →
      InWindow (framebuffer_map s' physical_address size))

/-- The page lies in the low window. -/
def Low (p : Nat) : Prop := p * PAGE_SIZE < KERNEL_LOW_WINDOW_SIZE

/-- The first seventeen pages are low, and so are those of the framebuffer's tables, after the `n`
that the steps between take. -/
def TablesLow (multiboot : multiboot_info_t) (n physical_address size : Nat) : Prop :=
  (∀ p ∈ (pages_at_boot multiboot).take 17, Low p) ∧
    ∀ p ∈ ((pages_at_boot multiboot).drop (17 + n)).take
      (tables (range_size physical_address size / PAGE_SIZE)), Low p

/-- The boot stays in the low window if and only if the pages that its tables take do. -/
theorem the_boot_stays_in_the_low_window {multiboot : multiboot_info_t} {entries : Nat → Nat}
    {frames : Nat → Nat → Nat} {n physical_address size : Nat}
    (hfit : range_size physical_address size ≤ 0x7800000) :
    LowAddressing multiboot entries frames n physical_address size ↔
      TablesLow multiboot n physical_address size := by
  have horder : InOrder (boot_start multiboot entries frames).memory_bitmap :=
    boot_in_order multiboot entries
  have hfree : free_pages (boot_start multiboot entries frames).memory_bitmap =
      pages_at_boot multiboot := free_pages_at_boot multiboot entries
  unfold LowAddressing TablesLow
  cases hpages : pages_at_boot multiboot with
  | nil =>
    obtain ⟨herr, hacc⟩ := create_none horder (hfree.trans hpages)
    constructor
    · intro _
      simp
    · rintro - s result hrun
      rw [hrun] at herr hacc
      refine ⟨fun f hf => ?_, fun hok => ?_⟩
      · rw [hacc] at hf
        cases hf
      · rw [hok] at herr
        cases herr
  | cons D L =>
    obtain ⟨hok, hs⟩ := create_spec horder (hfree.trans hpages) rfl
    have hfirst : ∀ f, f ∈ (D :: L).take 17 ↔ f = D ∨ f ∈ L.take 16 := by
      intro f
      rw [List.take_succ_cons, List.mem_cons]
    have hlater : (D :: L).drop (17 + n) = L.drop (16 + n) := by
      rw [show 17 + n = 16 + n + 1 by omega, List.drop_succ_cons]
    simp only [hfirst, hlater]
    constructor
    · intro h
      obtain ⟨hcreate, hmap⟩ := h _ _ rfl
      have hbetween : Between n (memory_paging_create_kernel_page_directory
          (boot_start multiboot entries frames)).1
          ((memory_paging_create_kernel_page_directory (boot_start multiboot entries frames)).1.setBitmap
            ((fun b => (memory_bitmap_allocate b).1)^[n] (memory_paging_create_kernel_page_directory
              (boot_start multiboot entries frames)).1.memory_bitmap)) :=
        ⟨rfl, rfl, fun _ _ _ => rfl, rfl⟩
      refine ⟨fun p hp => hcreate p ((hs.accessed p).mpr hp), fun p hp => ?_⟩
      exact hmap hok _ hbetween p
        ((framebuffer_accesses hs hbetween hfit p).mpr (Or.inr (Or.inr hp)))
    · rintro ⟨h17, htables⟩ s result hrun
      rw [hrun] at hs
      refine ⟨fun f hf => h17 f ((hs.accessed f).mp hf), fun _ s' hb f hf => ?_⟩
      rcases (framebuffer_accesses hs hb hfit f).mp hf with hf | hf | hf
      · exact h17 f (Or.inl hf)
      · exact h17 f (Or.inr hf)
      · exact htables f hf

/-- A framebuffer of three megabytes, after forty frames of the kernel's own. -/
theorem a_small_boot_stays_in_the_low_window :
    LowAddressing oneExtraPage (fun _ => 0) (fun _ _ => 0) 40 0xFD000000 0x300000 ↔
      TablesLow oneExtraPage 40 0xFD000000 0x300000 :=
  the_boot_stays_in_the_low_window (by decide)

/-- Half of 128 MiB of memory is taken by a module, right behind the kernel and the bitmap. -/
def largeModule : multiboot_info_t where
  mmap := [⟨0, 0x8000000, 1, first_address_lt, size_128_MiB_lt⟩]
  mods := [⟨0x201000, 0x4000000, by decide, by decide⟩]
  kernel_physical_start := 0x100000
  kernel_physical_end := 0x200000
  kernel_start_lt := oneExtraPage.kernel_start_lt
  kernel_end_lt := oneExtraPage.kernel_end_lt

theorem large_module_locks {p : Nat} (hp : p < 0x4000) : Locked largeModule p := by
  have hbitmap : ALIGN_UP (bitmap_pages_of largeModule / 8) / 4096 = 1 := by decide
  have hstart : bitmap_start largeModule = 0x200 := by decide
  unfold Locked
  rw [hbitmap, hstart]
  by_cases h1 : p < 256
  · exact Or.inl h1
  by_cases h2 : p < 0x200
  · refine Or.inr (Or.inr (Or.inl ⟨?_, ?_⟩))
    · show 0x100000 / 4096 ≤ p
      omega
    · show p < 0x200FFF / 4096
      omega
  by_cases h3 : p < 0x201
  · exact Or.inr (Or.inr (Or.inr ⟨by omega, by omega⟩))
  · refine Or.inr (Or.inl ⟨_, List.mem_cons_self, ?_, ?_⟩)
    · show 0x201000 / 4096 ≤ p
      omega
    · show p < 0x4000FFF / 4096
      omega

/-- Then the directory lies above the window. -/
theorem the_directory_lies_above_the_window :
    ¬ LowAddressing largeModule (fun _ => 0) (fun _ _ => 0) 40 0xFD000000 0x300000 := by
  intro h
  have horder : InOrder (boot_start largeModule (fun _ => 0) (fun _ _ => 0)).memory_bitmap :=
    boot_in_order largeModule (fun _ => 0)
  have hfree : free_pages (boot_start largeModule (fun _ => 0) (fun _ _ => 0)).memory_bitmap =
      pages_at_boot largeModule := free_pages_at_boot largeModule (fun _ => 0)
  have hmem : 0x4000 ∈ pages_at_boot largeModule := by
    unfold pages_at_boot
    rw [List.mem_filter, List.mem_range]
    exact ⟨by decide, by decide⟩
  cases hpages : pages_at_boot largeModule with
  | nil =>
    rw [hpages] at hmem
    cases hmem
  | cons D L =>
    obtain ⟨-, hs⟩ := create_spec horder (hfree.trans hpages) rfl
    generalize hrun : memory_paging_create_kernel_page_directory
      (boot_start largeModule (fun _ => 0) (fun _ _ => 0)) = run at hs
    obtain ⟨s, result⟩ := run
    have hlow : D * PAGE_SIZE < KERNEL_LOW_WINDOW_SIZE :=
      (h s result hrun).1 D ((hs.accessed D).mpr (Or.inl rfl))
    have hD : D ∈ pages_at_boot largeModule := hpages ▸ List.mem_cons_self
    unfold pages_at_boot at hD
    rw [List.mem_filter, decide_eq_true_iff] at hD
    unfold KERNEL_LOW_WINDOW_SIZE PAGE_SIZE at hlow
    exact hD.2.2 (large_module_locks (by omega))

end alura_os.kernel_window
