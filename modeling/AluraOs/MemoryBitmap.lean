-- The frame allocator (`memory_bitmap.c`): one bit for each page of physical
-- memory, and a first-fit search that starts where the last one ended.
import Mathlib.Data.Nat.Bitwise
import AluraOs.Memory

namespace alura_os.memory_bitmap

open alura_os.memory

/-! ## The bits -/

def BITMAP_ENTRY_SIZE_IN_BITS : Nat := 32

def BITMAP_SET (bitmap : Nat → Nat) (page_index : Nat) : Nat → Nat :=
  Function.update bitmap (page_index / BITMAP_ENTRY_SIZE_IN_BITS)
    (bitmap (page_index / BITMAP_ENTRY_SIZE_IN_BITS) |||
      (1 <<< (page_index % BITMAP_ENTRY_SIZE_IN_BITS)))

/-- `BITMAP_CLEAR`: the complement of a 32-bit entry is its difference from all ones. -/
def BITMAP_CLEAR (bitmap : Nat → Nat) (page_index : Nat) : Nat → Nat :=
  Function.update bitmap (page_index / BITMAP_ENTRY_SIZE_IN_BITS)
    (bitmap (page_index / BITMAP_ENTRY_SIZE_IN_BITS) &&&
      (0xFFFFFFFF ^^^ (1 <<< (page_index % BITMAP_ENTRY_SIZE_IN_BITS))))

def BITMAP_TEST (bitmap : Nat → Nat) (page_index : Nat) : Nat :=
  bitmap (page_index / BITMAP_ENTRY_SIZE_IN_BITS) &&&
    (1 <<< (page_index % BITMAP_ENTRY_SIZE_IN_BITS))

/-! ## The allocator -/

/-- `memory_bitmap_t`. The page count comes from a 32-bit number of bytes, and the
search index never passes it. -/
structure memory_bitmap_t where
  entries : Nat → Nat
  pages : Nat
  last_allocated_page_index : Nat
  pages_lt : pages < 0x100000
  last_le : last_allocated_page_index ≤ pages

/-- A search loop of `memory_bitmap_allocate`: the first clear bit among the `count`
pages from `page_index` on. -/
def memory_bitmap_search (bitmap : Nat → Nat) : Nat → Nat → Option Nat
  | _, 0 => none
  | page_index, count + 1 =>
    if BITMAP_TEST bitmap page_index = 0 then some page_index
    else memory_bitmap_search bitmap (page_index + 1) count

/-- Both loops: from the last allocated page to the end, then from the start. -/
def memory_bitmap_find (b : memory_bitmap_t) : Option Nat :=
  match memory_bitmap_search b.entries b.last_allocated_page_index
      (b.pages - b.last_allocated_page_index) with
  | some page_index => some page_index
  | none => memory_bitmap_search b.entries 0 b.last_allocated_page_index

theorem memory_bitmap_search_spec {bitmap : Nat → Nat} {i n page : Nat}
    (h : memory_bitmap_search bitmap i n = some page) :
    i ≤ page ∧ page < i + n ∧ BITMAP_TEST bitmap page = 0 := by
  induction n generalizing i with
  | zero => simp [memory_bitmap_search] at h
  | succ n ih =>
    unfold memory_bitmap_search at h
    split at h
    · cases h
      exact ⟨le_refl _, by omega, by assumption⟩
    · have := ih h
      exact ⟨by omega, by omega, this.2.2⟩

theorem memory_bitmap_find_spec {b : memory_bitmap_t} {page : Nat}
    (h : memory_bitmap_find b = some page) :
    page < b.pages ∧ BITMAP_TEST b.entries page = 0 := by
  have hl := b.last_le
  unfold memory_bitmap_find at h
  split at h
  · rename_i p hs
    cases h
    have := memory_bitmap_search_spec hs
    exact ⟨by omega, this.2.2⟩
  · have := memory_bitmap_search_spec h
    exact ⟨by omega, this.2.2⟩

/-- `memory_bitmap_allocate`: the address 0 is `NULL`. -/
def memory_bitmap_allocate (b : memory_bitmap_t) : memory_bitmap_t × Nat :=
  match h : memory_bitmap_find b with
  | none => (b, 0)
  | some page_index =>
    ({ b with
        entries := BITMAP_SET b.entries page_index
        last_allocated_page_index := page_index
        last_le := le_of_lt (memory_bitmap_find_spec h).1 },
      page_index * PAGE_SIZE)

def memory_bitmap_free (b : memory_bitmap_t) (address : Nat) : memory_bitmap_t :=
  let page_index := address / PAGE_SIZE
  let entries :=
    if BITMAP_TEST b.entries page_index ≠ 0 then BITMAP_CLEAR b.entries page_index
    else b.entries
  -- The next allocation starts at the freed page if that page is lower.
  if h : page_index < b.last_allocated_page_index then
    { b with
        entries := entries
        last_allocated_page_index := page_index
        last_le := le_trans (le_of_lt h) b.last_le }
  else { b with entries := entries }

/-! ## What the bits say -/

theorem test_eq (bitmap : Nat → Nat) (i : Nat) :
    BITMAP_TEST bitmap i = 0 ↔ (bitmap (i / 32)).testBit (i % 32) = false := by
  unfold BITMAP_TEST BITMAP_ENTRY_SIZE_IN_BITS
  rw [Nat.one_shiftLeft, Nat.and_two_pow]
  cases (bitmap (i / 32)).testBit (i % 32) <;> simp

/-- The frame is marked used. -/
def Used (b : memory_bitmap_t) (i : Nat) : Prop := BITMAP_TEST b.entries i ≠ 0

instance (b : memory_bitmap_t) (i : Nat) : Decidable (Used b i) :=
  inferInstanceAs (Decidable (BITMAP_TEST b.entries i ≠ 0))

theorem test_set (bitmap : Nat → Nat) (i j : Nat) :
    BITMAP_TEST (BITMAP_SET bitmap i) j ≠ 0 ↔ j = i ∨ BITMAP_TEST bitmap j ≠ 0 := by
  simp only [ne_eq, test_eq, BITMAP_SET, BITMAP_ENTRY_SIZE_IN_BITS, Nat.one_shiftLeft]
  by_cases hw : j / 32 = i / 32
  · have hbit : j = i ↔ i % 32 = j % 32 := by omega
    simp only [hw, Function.update_self, Nat.testBit_or, Nat.testBit_two_pow, hbit]
    cases (bitmap (i / 32)).testBit (j % 32) <;> simp
  · have hne : j ≠ i := by rintro rfl; exact hw rfl
    simp [Function.update_of_ne hw, hne]

theorem test_clear (bitmap : Nat → Nat) (i j : Nat) :
    BITMAP_TEST (BITMAP_CLEAR bitmap i) j ≠ 0 ↔ j ≠ i ∧ BITMAP_TEST bitmap j ≠ 0 := by
  simp only [ne_eq, test_eq, BITMAP_CLEAR, BITMAP_ENTRY_SIZE_IN_BITS, Nat.one_shiftLeft]
  by_cases hw : j / 32 = i / 32
  · have hbit : j = i ↔ i % 32 = j % 32 := by omega
    have hones : Nat.testBit 0xFFFFFFFF (j % 32) = true := by
      have hlt : j % 32 < 32 := by omega
      rw [show (0xFFFFFFFF : Nat) = 2 ^ 32 - 1 from rfl, Nat.testBit_two_pow_sub_one]
      simpa using hlt
    simp [hw, Nat.testBit_two_pow, hbit, hones, and_comm]
  · have hne : j ≠ i := by rintro rfl; exact hw rfl
    simp [Function.update_of_ne hw, hne]

@[simp] theorem used_free (b : memory_bitmap_t) (address j : Nat) :
    Used (memory_bitmap_free b address) j ↔ j ≠ address / 4096 ∧ Used b j := by
  unfold Used memory_bitmap_free PAGE_SIZE
  by_cases ht : BITMAP_TEST b.entries (address / 4096) ≠ 0
  · have h := test_clear b.entries (address / 4096) j
    by_cases hl : address / 4096 < b.last_allocated_page_index <;> simpa [ht, hl] using h
  · have hj : BITMAP_TEST b.entries j ≠ 0 ↔
        j ≠ address / 4096 ∧ BITMAP_TEST b.entries j ≠ 0 := by
      constructor
      · intro hj
        exact ⟨fun he => ht (he ▸ hj), hj⟩
      · exact And.right
    by_cases hl : address / 4096 < b.last_allocated_page_index <;> simpa [ht, hl] using hj

@[simp] theorem pages_free (b : memory_bitmap_t) (address : Nat) :
    (memory_bitmap_free b address).pages = b.pages := by
  unfold memory_bitmap_free
  simp only
  split <;> rfl

/-! ## What an allocation gives -/

/-- An allocation fails and changes nothing, or it marks one page that was free. -/
theorem allocate_cases (b : memory_bitmap_t) :
    (memory_bitmap_allocate b = (b, 0) ∧ memory_bitmap_find b = none) ∨
    ∃ i, i < b.pages ∧ ¬ Used b i ∧ (memory_bitmap_allocate b).2 = i * 4096 ∧
      (∀ j, Used (memory_bitmap_allocate b).1 j ↔ j = i ∨ Used b j) ∧
      (memory_bitmap_allocate b).1.pages = b.pages := by
  unfold memory_bitmap_allocate
  split
  · rename_i h
    exact Or.inl ⟨rfl, h⟩
  · rename_i i h
    have hi := memory_bitmap_find_spec h
    refine Or.inr ⟨i, hi.1, by simpa [Used] using hi.2, rfl, fun j => ?_, rfl⟩
    exact test_set b.entries i j

theorem search_none {bitmap : Nat → Nat} {i n : Nat}
    (h : memory_bitmap_search bitmap i n = none) {page : Nat} (hi : i ≤ page)
    (hn : page < i + n) : BITMAP_TEST bitmap page ≠ 0 := by
  induction n generalizing i with
  | zero => omega
  | succ n ih =>
    unfold memory_bitmap_search at h
    split at h
    · cases h
    · rename_i ht
      by_cases hp : page = i
      · rw [hp]; exact ht
      · exact ih h (by omega) (by omega)

/-- The search visits every page, so it fails only when all are used. -/
theorem find_none {b : memory_bitmap_t} (h : memory_bitmap_find b = none) {page : Nat}
    (hp : page < b.pages) : Used b page := by
  have hl := b.last_le
  unfold memory_bitmap_find at h
  split at h
  · cases h
  · rename_i hs
    by_cases hlow : page < b.last_allocated_page_index
    · exact search_none h (Nat.zero_le _) (by omega)
    · exact search_none hs (by omega) (by omega)

/-- The allocator will not give the frame: it is used, or beyond physical memory. -/
def Taken (b : memory_bitmap_t) (i : Nat) : Prop := i < b.pages → Used b i

/-- The frames that an allocation can still give. -/
def freeFrames (b : memory_bitmap_t) : Finset Nat :=
  (Finset.range b.pages).filter fun i => ¬ Used b i

theorem allocate_fresh {b : memory_bitmap_t} (ha : (memory_bitmap_allocate b).2 ≠ 0) :
    ∃ n, (memory_bitmap_allocate b).2 = n * 4096 ∧ 0 < n ∧ n < b.pages ∧ ¬ Used b n ∧
      (∀ j, Used (memory_bitmap_allocate b).1 j ↔ j = n ∨ Used b j) ∧
      (memory_bitmap_allocate b).1.pages = b.pages := by
  rcases allocate_cases b with ⟨he, -⟩ | ⟨n, hn, hu, he, hj, hp⟩
  · rw [he] at ha
    exact absurd rfl ha
  · refine ⟨n, he, ?_, hn, hu, hj, hp⟩
    rcases Nat.eq_zero_or_pos n with rfl | hpos
    · rw [he] at ha
      exact absurd (Nat.zero_mul _) ha
    · exact hpos

theorem Taken.ne {b : memory_bitmap_t} {n i : Nat} (h : Taken b i) (hn : n < b.pages)
    (hu : ¬ Used b n) : n ≠ i := by
  rintro rfl
  exact hu (h hn)

theorem Taken.allocate {b : memory_bitmap_t} {i : Nat} (h : Taken b i) :
    Taken (memory_bitmap_allocate b).1 i := by
  rcases allocate_cases b with ⟨he, -⟩ | ⟨n, -, -, -, hj, hp⟩
  · rw [he]; exact h
  · intro hi
    rw [hp] at hi
    exact (hj i).mpr (Or.inr (h hi))

theorem mem_freeFrames {b : memory_bitmap_t} {i : Nat} :
    i ∈ freeFrames b ↔ i < b.pages ∧ ¬ Used b i := by
  simp [freeFrames]

/-- While a frame is free, an allocation gives one of them and takes exactly that
one from the free frames. The frame 0 is locked, so the address is not `NULL`. -/
theorem allocate_spec {b : memory_bitmap_t} (h0 : Used b 0) (hf : 0 < (freeFrames b).card) :
    (memory_bitmap_allocate b).2 ≠ 0 ∧
      (freeFrames (memory_bitmap_allocate b).1).card + 1 = (freeFrames b).card := by
  rcases allocate_cases b with ⟨-, hn⟩ | ⟨i, hi, hu, ha, hj, hp⟩
  · obtain ⟨page, hpage⟩ := Finset.card_pos.mp hf
    rw [mem_freeFrames] at hpage
    exact absurd (find_none hn hpage.1) hpage.2
  · have hpos : i ≠ 0 := by
      rintro rfl
      exact hu h0
    have hset : freeFrames (memory_bitmap_allocate b).1 = (freeFrames b).erase i := by
      ext j
      simp only [mem_freeFrames, Finset.mem_erase, hj, hp]
      tauto
    have hmem : i ∈ freeFrames b := mem_freeFrames.mpr ⟨hi, hu⟩
    refine ⟨by rw [ha]; omega, ?_⟩
    rw [hset]
    exact Finset.card_erase_add_one hmem

end alura_os.memory_bitmap
