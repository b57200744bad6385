-- The frame allocator as a pool: whatever the search index, the calls of
-- `memory_bitmap.c` hand out the frames of a finite set and take them back.
import AluraOs.Pools
import AluraOs.MemoryBitmap

namespace alura_os.memory_bitmap

open alura_os.memory

/-! ## Calls -/

/-- A call on the allocator. -/
inductive Call where
  | allocate
  | free (address : Nat)

/-- One call, with the address that it returns (0 from `memory_bitmap_free`). -/
def call (b : memory_bitmap_t) : Call → memory_bitmap_t × Nat
  | .allocate => memory_bitmap_allocate b
  | .free address => (memory_bitmap_free b address, 0)

/-- A run of calls. -/
def calls (b : memory_bitmap_t) : List Call → memory_bitmap_t
  | [] => b
  | c :: cs => calls (call b c).1 cs

/-- The caller frees a frame of physical memory, and never the frame 0, which
`memory_bitmap_module_init` locks. -/
def Frees (b : memory_bitmap_t) : Call → Prop
  | .allocate => True
  | .free address => PAGE_SIZE ≤ address ∧ address < b.pages * PAGE_SIZE

/-! ## The set behind the bits -/

/-- The frames in use. -/
def usedFrames (b : memory_bitmap_t) : Finset Nat := (Finset.range b.pages).filter (Used b)

/-- What a caller learns from a call. -/
def event (b : memory_bitmap_t) : Call → pools.Event Nat
  | .allocate =>
    if (memory_bitmap_allocate b).2 = 0 then .refused
    else .taken ((memory_bitmap_allocate b).2 / PAGE_SIZE)
  | .free address => .returned (address / PAGE_SIZE)

/-- What the callers learn over a run. -/
def events (b : memory_bitmap_t) : List Call → List (pools.Event Nat)
  | [] => []
  | c :: cs => event b c :: events (call b c).1 cs

theorem mem_usedFrames {b : memory_bitmap_t} {i : Nat} :
    i ∈ usedFrames b ↔ i < b.pages ∧ Used b i := by
  simp [usedFrames]

@[simp] theorem pages_call (b : memory_bitmap_t) (c : Call) : (call b c).1.pages = b.pages := by
  cases c with
  | allocate =>
    rcases allocate_cases b with ⟨he, -⟩ | ⟨-, -, -, -, -, hp⟩
    · simp [call, he]
    · exact hp
  | free address => exact pages_free b address

theorem call_zero {b : memory_bitmap_t} {c : Call} (h0 : Used b 0) (hc : Frees b c) :
    Used (call b c).1 0 := by
  cases c with
  | allocate =>
    rcases allocate_cases b with ⟨he, -⟩ | ⟨_, -, -, -, hj, -⟩
    · simpa [call, he] using h0
    · exact (hj 0).mpr (Or.inr h0)
  | free address =>
    refine (used_free b address 0).mpr ⟨?_, h0⟩
    have := hc.1
    unfold PAGE_SIZE at this
    omega

theorem allocate_null {b : memory_bitmap_t} (h0 : Used b 0) :
    (memory_bitmap_allocate b).2 = 0 ↔ ∀ i < b.pages, Used b i := by
  rcases allocate_cases b with ⟨he, hn⟩ | ⟨i, hi, hu, ha, -, -⟩
  · constructor
    · intro _ i hi
      exact find_none hn hi
    · intro _
      rw [he]
  · constructor
    · intro hz
      have hi0 : i = 0 := by omega
      exact absurd h0 (hi0 ▸ hu)
    · intro hall
      exact absurd (hall i hi) hu

theorem allocate_full {b : memory_bitmap_t} (h : (memory_bitmap_allocate b).2 = 0) (h0 : Used b 0) :
    (memory_bitmap_allocate b).1 = b := by
  rcases allocate_cases b with ⟨he, -⟩ | ⟨i, -, hu, ha, -, -⟩
  · rw [he]
  · have hi0 : i = 0 := by omega
    exact absurd h0 (hi0 ▸ hu)

/-- Every call is a step of the pool. -/
theorem call_step {b : memory_bitmap_t} {c : Call} (h0 : Used b 0) :
    pools.Step (Finset.range b.pages) (usedFrames b) (event b c) (usedFrames (call b c).1) := by
  cases c with
  | allocate =>
    by_cases hz : (memory_bitmap_allocate b).2 = 0
    · simp only [event, hz, if_true, call, allocate_full hz h0]
      apply pools.Step.refused
      intro i hi
      have hi := Finset.mem_range.mp hi
      exact mem_usedFrames.mpr ⟨hi, (allocate_null h0).mp hz i hi⟩
    · obtain ⟨n, ha, -, hn, hu, hj, hp⟩ := allocate_fresh hz
      have hset : usedFrames (memory_bitmap_allocate b).1 = insert n (usedFrames b) := by
        ext j
        simp only [mem_usedFrames, Finset.mem_insert, hj, hp]
        constructor
        · rintro ⟨hlt, rfl | hu'⟩
          · exact Or.inl rfl
          · exact Or.inr ⟨hlt, hu'⟩
        · rintro (rfl | ⟨hlt, hu'⟩)
          · exact ⟨hn, Or.inl rfl⟩
          · exact ⟨hlt, Or.inr hu'⟩
      have hdiv : (memory_bitmap_allocate b).2 / PAGE_SIZE = n := by
        rw [ha]
        exact Nat.mul_div_cancel n (by decide)
      simp only [event, hz, if_false, call, hdiv, hset]
      apply pools.Step.taken (Finset.mem_range.mpr hn)
      intro hm
      exact hu (mem_usedFrames.mp hm).2
  | free address =>
    have hset : usedFrames (memory_bitmap_free b address) =
        (usedFrames b).erase (address / PAGE_SIZE) := by
      ext j
      simp only [mem_usedFrames, Finset.mem_erase, used_free, pages_free, PAGE_SIZE]
      tauto
    simp only [event, call, hset]
    exact pools.Step.returned

/-! ## Whole runs -/

/-- Every free of the run is of a frame other than 0. -/
def AllFree (b : memory_bitmap_t) (cs : List Call) : Prop := ∀ c ∈ cs, Frees b c

theorem Frees.congr {b b' : memory_bitmap_t} {c : Call} (hp : b'.pages = b.pages)
    (h : Frees b c) : Frees b' c := by
  cases c with
  | allocate => trivial
  | free address =>
    refine ⟨h.1, ?_⟩
    rw [hp]
    exact h.2

theorem calls_spec {b : memory_bitmap_t} {cs : List Call} (h0 : Used b 0) (hc : AllFree b cs) :
    Used (calls b cs) 0 ∧ (calls b cs).pages = b.pages ∧
      pools.Steps (Finset.range b.pages) (usedFrames b) (events b cs) (usedFrames (calls b cs)) := by
  induction cs generalizing b with
  | nil => exact ⟨h0, rfl, pools.Steps.nil⟩
  | cons c cs ih =>
    have hp := pages_call b c
    have hrest : AllFree (call b c).1 cs := by
      intro d hd
      exact (hc d (List.mem_cons_of_mem c hd)).congr hp
    obtain ⟨h1, h2, h3⟩ := ih (call_zero h0 (hc c List.mem_cons_self)) hrest
    refine ⟨h1, h2.trans hp, ?_⟩
    rw [hp] at h3
    exact pools.Steps.cons (call_step h0) h3

/-- The allocator is a finite set. After any run of calls from a bitmap whose
frame 0 is locked, with any search index: an allocation gives `NULL` only when every
frame is used, and then changes nothing; otherwise it gives a free frame and
marks exactly that bit; a free clears exactly the bit of its address; and no
frame is handed out twice without a free of it in between. -/
theorem the_frames_are_a_finite_set (b : memory_bitmap_t) (cs : List Call) (h0 : Used b 0)
    (hc : AllFree b cs) :
    (((memory_bitmap_allocate (calls b cs)).2 = 0 ↔ ∀ i < b.pages, Used (calls b cs) i) ∧
      ((memory_bitmap_allocate (calls b cs)).2 = 0 →
        (memory_bitmap_allocate (calls b cs)).1 = calls b cs) ∧
      ((memory_bitmap_allocate (calls b cs)).2 ≠ 0 →
        ∃ i < b.pages, ¬ Used (calls b cs) i ∧
          (memory_bitmap_allocate (calls b cs)).2 = 4096 * i ∧
          ∀ j, Used (memory_bitmap_allocate (calls b cs)).1 j ↔ j = i ∨ Used (calls b cs) j)) ∧
    (∀ address j, Used (memory_bitmap_free (calls b cs) address) j ↔
      j ≠ address / 4096 ∧ Used (calls b cs) j) ∧
    pools.Steps (Finset.range b.pages) (usedFrames b) (events b cs) (usedFrames (calls b cs)) ∧
    ∀ es fs gs i, events b cs = es ++ .taken i :: fs ++ .taken i :: gs →
      pools.Event.returned i ∈ fs := by
  obtain ⟨hz, hp, hs⟩ := calls_spec h0 hc
  refine ⟨⟨?_, fun h => allocate_full h hz, ?_⟩, ?_, hs, ?_⟩
  · rw [← hp]
    exact allocate_null hz
  · intro ha
    obtain ⟨i, he, -, hi, hu, hj, -⟩ := allocate_fresh ha
    exact ⟨i, hp ▸ hi, hu, by rw [he, Nat.mul_comm], hj⟩
  · intro address j
    exact used_free _ address j
  · intro es fs gs i he
    rw [he] at hs
    exact hs.no_double

/-- Two pages, the first of them locked. -/
def twoPages : memory_bitmap_t where
  entries := fun _ => 1
  pages := 2
  last_allocated_page_index := 2
  pages_lt := by decide
  last_le := by decide

theorem the_two_pages_are_a_finite_set :
    Used twoPages 0 ∧ (memory_bitmap_allocate twoPages).2 = 4096 ∧
      (memory_bitmap_allocate (calls twoPages [.allocate])).2 = 0 ∧
      ∀ i < twoPages.pages, Used (calls twoPages [.allocate]) i := by
  have h := the_frames_are_a_finite_set twoPages [.allocate] (by decide)
    (by intro c hc; cases hc with | head => trivial | tail _ hc => cases hc)
  have hnull : (memory_bitmap_allocate (calls twoPages [.allocate])).2 = 0 := by decide
  exact ⟨by decide, by decide, hnull, h.1.1.mp hnull⟩

/-- The frame 0 can be freed like any other, and then an allocation gives its address,
which is `NULL`, while that frame was free. -/
theorem a_freed_frame_zero_is_null :
    Used twoPages 0 ∧ 0 < twoPages.pages * PAGE_SIZE ∧
      (memory_bitmap_allocate (calls twoPages [.allocate, .free 0])).2 = 0 ∧
      ¬ ∀ i < twoPages.pages, Used (calls twoPages [.allocate, .free 0]) i := by
  decide

end alura_os.memory_bitmap
