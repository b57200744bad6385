-- What a call of malloc costs: how often the heap grows for it, and whether
-- every byte of the heap stays in a block.
import AluraOs.HeapRuns

namespace alura_os.kernel_heap

open alura_os.memory chains blocks

variable {σ : Type} {map_page : σ → Nat → σ × Bool}

/-! ## Enough fuel -/

theorem free_location_more {k : kernel_heap_t σ} {freed fuel location r : Nat}
    (h : kernel_heap_free_location k freed fuel location = some r) :
    kernel_heap_free_location k freed (fuel + 1) location = some r := by
  induction fuel generalizing location with
  | zero => cases h
  | succ fuel ih =>
    rw [kernel_heap_free_location] at h ⊢
    split
    · rename_i hbetween
      rwa [if_pos hbetween] at h
    · rename_i hbetween
      rw [if_neg hbetween] at h
      split
      · rename_i hend
        rwa [if_pos hend] at h
      · rename_i hend
        rw [if_neg hend] at h
        exact ih h

theorem free_more {k k' : kernel_heap_t σ} {fuel address : Nat}
    (h : kernel_heap_free fuel k address = some k') :
    kernel_heap_free (fuel + 1) k address = some k' := by
  unfold kernel_heap_free at h ⊢
  by_cases hnull : address = 0
  · rwa [if_pos hnull] at h ⊢
  · rw [if_neg hnull] at h ⊢
    cases hl : kernel_heap_free_location k (sub32 address 8) fuel k.free_headers_head with
    | none =>
      simp only [hl] at h
      cases h
    | some location =>
      simp only [hl] at h
      simp only [free_location_more hl]
      exact h

theorem more_headers_more {k : kernel_heap_t σ} {fuel n : Nat} {r : kernel_heap_t σ × Nat}
    (h : kernel_heap_allocate_more_headers map_page fuel k n = some r) :
    kernel_heap_allocate_more_headers map_page (fuel + 1) k n = some r := by
  unfold kernel_heap_allocate_more_headers at h ⊢
  simp only at h ⊢
  split
  · rename_i hnull
    rwa [if_pos hnull] at h
  · rename_i hnull
    rw [if_neg hnull] at h
    split at h
    · cases h
    · rename_i hfree
      rw [free_more hfree]
      exact h

theorem malloc_trace_more {n fuel previous current : Nat} {k : kernel_heap_t σ}
    {r : (kernel_heap_t σ × Nat) × List Bool}
    (h : kernel_heap_malloc_trace map_page n fuel k previous current = some r) :
    kernel_heap_malloc_trace map_page n (fuel + 1) k previous current = some r := by
  induction fuel generalizing k previous current r with
  | zero => cases h
  | succ fuel ih =>
    rw [kernel_heap_malloc_trace] at h ⊢
    split
    · rename_i hfit
      rwa [if_pos hfit] at h
    · rename_i hfit
      rw [if_neg hfit] at h
      split
      · rename_i hhead
        rw [if_pos hhead] at h
        cases hg : kernel_heap_allocate_more_headers map_page fuel k n with
        | none =>
          rw [hg] at h
          cases h
        | some grown =>
          rw [hg] at h
          rw [more_headers_more hg]
          simp only at h ⊢
          split
          · rename_i hnull
            rwa [if_pos hnull] at h
          · rename_i hnull
            rw [if_neg hnull] at h
            obtain ⟨r', hr', rfl⟩ := Option.map_eq_some_iff.mp h
            rw [ih hr']
            rfl
      · rename_i hhead
        rw [if_neg hhead] at h
        exact ih h

/-- More fuel does not change an answer. -/
theorem ends_of_more {β : Type*} {f : Nat → Option β} {r : β} {N : Nat}
    (hmore : ∀ fuel r, f fuel = some r → f (fuel + 1) = some r) (h : f N = some r) : Ends f r := by
  refine ⟨N, fun fuel hfuel => ?_⟩
  induction fuel, hfuel using Nat.le_induction with
  | base => exact h
  | succ fuel _ ih => exact hmore fuel r ih

theorem malloc_log_ends {k : kernel_heap_t σ} {fuel size : Nat}
    {r : (kernel_heap_t σ × Nat) × List Bool}
    (h : kernel_heap_malloc_log map_page fuel k size = some r) :
    Ends (fun fuel => kernel_heap_malloc_log map_page fuel k size) r := by
  refine ends_of_more (fun fuel r hr => ?_) h
  simp only [kernel_heap_malloc_log] at hr ⊢
  split
  · rename_i hzero
    rwa [if_pos hzero] at hr
  · rename_i hzero
    rw [if_neg hzero] at hr
    exact malloc_trace_more hr

theorem malloc_ends_at {k : kernel_heap_t σ} {fuel size : Nat} {r : kernel_heap_t σ × Nat}
    (h : kernel_heap_malloc map_page fuel k size = some r) :
    Ends (fun fuel => kernel_heap_malloc map_page fuel k size) r := by
  rw [malloc_log_fst] at h
  obtain ⟨⟨res, log⟩, hlog, rfl⟩ := Option.map_eq_some_iff.mp h
  exact ends_of_log (malloc_log_ends hlog)

theorem free_ends_at {k k' : kernel_heap_t σ} {fuel address : Nat}
    (h : kernel_heap_free fuel k address = some k') :
    Ends (fun fuel => kernel_heap_free fuel k address) k' :=
  ends_of_more (fun _ _ hr => free_more hr) h

/-! ## How often malloc grows the heap -/

/-- What malloc owes for a request of `n` headers: at most one growth, `NULL` only after a growth
that gave nothing, and after a growth that gave memory a block that reaches into that memory. -/
structure GrowsAtMostOnce (k : kernel_heap_t σ) (n : Nat) (res : kernel_heap_t σ × Nat)
    (log : List Bool) : Prop where
  once : log.length ≤ 1
  null : res.2 = 0 → log = [false]
  served : log = [true] → k.heap_break + 8 < res.2 + 8 * n

/-- A free block fits, or growth gives nothing, or the walk finds the new memory before the head:
the head is the last free block, or the last free block touches the break and is joined. -/
def MeetsNewMemory (map_page : σ → Nat → σ × Bool) (k : kernel_heap_t σ) (n : Nat) : Prop :=
  (∃ b, OnRing k b ∧ n ≤ k.size b) ∨ (grow_pages map_page n k.extent).2 = false ∨
    k.next k.free_headers_head = k.base ∨ ∃ b, OnRing k b ∧ k.endOf b = k.heap_break

/-- In every state of a run, malloc grows the heap at most once and serves the request from the
new memory if and only if its walk finds that memory before it comes to the head again. -/
theorem malloc_grows_at_most_once {memory : Nat → kernel_heap_header_t} {base : Nat} {pages : σ}
    (hb : 0 < base) (hlow : base + 8 ≤ KERNEL_HEAP_VIRTUAL_START) {k : kernel_heap_t σ}
    {live : List (Nat × Nat)} (h : Reachable map_page memory base pages k live) {size : Nat}
    (h1 : 1 ≤ size) (h2 : size ≤ 0x04000000) :
    ∃ res log, Ends (fun fuel => kernel_heap_malloc_log map_page fuel k size) (res, log) ∧
      (GrowsAtMostOnce k (kernel_heap_headers_for size) res log ↔
        MeetsNewMemory map_page k (kernel_heap_headers_for size)) := by
  obtain ⟨free, hrun⟩ := reachable_runInv hb hlow h
  obtain ⟨res, log, hres, hcase⟩ := kernel_heap_malloc_spec map_page hrun.inv h1
    fun _ => growth_no_wrap hrun.inv h2
  refine ⟨res, log, hres, ?_⟩
  cases hcase with
  | fits b on_ring fit no_log gives extent =>
    subst no_log
    exact ⟨fun _ => Or.inl ⟨b, on_ring, fit⟩,
      fun _ => ⟨by simp, fun hnull => absurd hnull gives.ne_zero, nofun⟩⟩
  | refused small grows one result refuses =>
    subst one
    exact ⟨fun _ => Or.inr (Or.inl grows), fun _ => ⟨by simp, fun _ => rfl, nofun⟩⟩
  | once small grows one again extent reach gives =>
    subst one
    refine ⟨fun _ => Or.inr (Or.inr ?_),
      fun _ => ⟨by simp, fun hnull => absurd hnull gives.ne_zero, fun _ => reach⟩⟩
    by_contra hnot
    simp only [not_or, not_exists, not_and] at hnot
    exact again ⟨hnot.1, hnot.2⟩
  | twice small grows again two extent gives refuses =>
    subst two
    constructor
    · intro honce
      have := honce.once
      simp at this
    · rintro (⟨b, hb, hfit⟩ | hnone | hlast | ⟨b, hb, htouch⟩)
      · exact absurd hfit (small b hb)
      · rw [grows] at hnone
        cases hnone
      · exact absurd hlast again.1
      · exact absurd htouch (again.2 b hb)

/-- Pages are always there. -/
def endlessPages (s : Unit) (_ : Nat) : Unit × Bool := (s, true)

def emptyHeap : kernel_heap_t Unit := kernel_heap_module_init (fun _ => ⟨0, 0⟩) 0xC0100000 ()

/-- The answer to a request of `size` bytes. -/
def asked (k : kernel_heap_t Unit) (size : Nat) : kernel_heap_t Unit × Nat :=
  (kernel_heap_malloc endlessPages 10 k size).getD (k, 0)

/-- Two blocks of two pages each, the first of them free again. -/
def gapBelow : kernel_heap_t Unit :=
  (kernel_heap_free 10 (asked (asked emptyHeap 8184).1 8184).1 0xF0000008).getD emptyHeap

theorem some_getD {β : Type*} {o : Option β} (d : β) (h : o.isSome = true) : o = some (o.getD d) := by
  cases o with
  | none => cases h
  | some b => rfl

theorem asked_reachable {k : kernel_heap_t Unit} {live : List (Nat × Nat)} {n p : Nat}
    (h : Reachable endlessPages (fun _ => ⟨0, 0⟩) 0xC0100000 () k live) (h1 : 1 ≤ n)
    (h2 : n ≤ 0x04000000) (hsome : (kernel_heap_malloc endlessPages 10 k n).isSome = true)
    (hp : (asked k n).2 = p) (hne : p ≠ 0) :
    Reachable endlessPages (fun _ => ⟨0, 0⟩) 0xC0100000 () (asked k n).1 ((p, n) :: live) := by
  have hrun : kernel_heap_malloc endlessPages 10 k n = some ((asked k n).1, p) := by
    rw [← hp]
    exact some_getD (k, 0) hsome
  have hstep := Reachable.malloc h h1 h2 (malloc_ends_at hrun)
  rwa [if_neg hne] at hstep

theorem gapBelow_reachable : Reachable endlessPages (fun _ => ⟨0, 0⟩) 0xC0100000 () gapBelow
    [(0xF0002008, 8184)] := by
  have h1 := asked_reachable (k := emptyHeap) (n := 8184) (p := 0xF0000008) .init (by decide)
    (by decide) (by decide +kernel) (by decide +kernel) (by decide)
  have h2 := asked_reachable (n := 8184) (p := 0xF0002008) h1 (by decide) (by decide)
    (by decide +kernel) (by decide +kernel) (by decide)
  have hsome : (kernel_heap_free 10 (asked (asked emptyHeap 8184).1 8184).1 0xF0000008).isSome =
      true := by decide +kernel
  have hfree : kernel_heap_free 10 (asked (asked emptyHeap 8184).1 8184).1 0xF0000008 =
      some gapBelow := by
    unfold gapBelow
    exact some_getD emptyHeap hsome
  have h3 := Reachable.free h2 (show (0xF0000008, 8184) ∈ _ by simp) (free_ends_at hfree)
  simpa using h3

theorem malloc_can_grow_twice : ∃ (k : kernel_heap_t Unit) (live : List (Nat × Nat)),
    Reachable endlessPages (fun _ => ⟨0, 0⟩) 0xC0100000 () k live ∧
    ∃ res log, Ends (fun fuel => kernel_heap_malloc_log endlessPages fuel k 16376) (res, log) ∧
      ¬ GrowsAtMostOnce k (kernel_heap_headers_for 16376) res log := by
  have hlog : (kernel_heap_malloc_log endlessPages 10 gapBelow 16376).map Prod.snd =
      some [true, true] := by decide +kernel
  obtain ⟨⟨res, log⟩, hrun, hlog⟩ := Option.map_eq_some_iff.mp hlog
  refine ⟨gapBelow, _, gapBelow_reachable, res, log, malloc_log_ends hrun, fun honce => ?_⟩
  have := honce.once
  simp only at hlog
  simp [hlog] at this

/-- Before the second request the walk does not meet the new memory. -/
theorem malloc_in_the_gap : ∃ res log,
    Ends (fun fuel => kernel_heap_malloc_log endlessPages fuel gapBelow 16376) (res, log) ∧
      (GrowsAtMostOnce gapBelow (kernel_heap_headers_for 16376) res log ↔
        MeetsNewMemory endlessPages gapBelow (kernel_heap_headers_for 16376)) :=
  malloc_grows_at_most_once (by decide) (by decide) gapBelow_reachable (by decide) (by decide)

/-! ## Every byte in a block -/

/-- A free block fits, or growth gives nothing, or the growth asks for whole pages. -/
def WholePages (map_page : σ → Nat → σ × Bool) (k : kernel_heap_t σ) (size : Nat) : Prop :=
  (∃ b, OnRing k b ∧ kernel_heap_headers_for size ≤ k.size b) ∨
    (grow_pages map_page (kernel_heap_headers_for size) k.extent).2 = false ∨
    kernel_heap_growth_bytes (kernel_heap_headers_for size) % PAGE_SIZE = 0

/-- The runs of the heap in which every request meets `P`. Between two calls the rest of the
kernel may use frames and page tables as `rest` allows. -/
inductive RunsWith (P : kernel_heap_t σ → Nat → Prop) (rest : σ → σ → Prop)
    (map_page : σ → Nat → σ × Bool) (memory : Nat → kernel_heap_header_t) (base : Nat) (pages : σ) :
    kernel_heap_t σ → List (Nat × Nat) → Prop
  | init : RunsWith P rest map_page memory base pages (kernel_heap_module_init memory base pages) []
  | malloc {k k' : kernel_heap_t σ} {live : List (Nat × Nat)} {size p : Nat} :
      RunsWith P rest map_page memory base pages k live → 1 ≤ size → P k size →
      Ends (fun fuel => kernel_heap_malloc map_page fuel k size) (k', p) →
      RunsWith P rest map_page memory base pages k' (if p = 0 then live else (p, size) :: live)
  | free {k k' : kernel_heap_t σ} {live : List (Nat × Nat)} {size p : Nat} :
      RunsWith P rest map_page memory base pages k live → (p, size) ∈ live →
      Ends (fun fuel => kernel_heap_free fuel k p) k' →
      RunsWith P rest map_page memory base pages k' (live.erase (p, size))
  | store {k : kernel_heap_t σ} {live : List (Nat × Nat)} {size p : Nat}
      {memory' : Nat → kernel_heap_header_t} :
      RunsWith P rest map_page memory base pages k live → (p, size) ∈ live →
      (∀ a, a + 8 ≤ p ∨ p - 8 + k.bytes (p - 8) ≤ a → memory' a = k.memory a) →
      RunsWith P rest map_page memory base pages { k with memory := memory' } live
  | other {k : kernel_heap_t σ} {live : List (Nat × Nat)} {s : σ} :
      RunsWith P rest map_page memory base pages k live → rest k.pages s →
      RunsWith P rest map_page memory base pages { k with pages := s } live

/-- The run invariant, when the blocks fill the heap. -/
structure Filled (k : kernel_heap_t σ) (live : List (Nat × Nat)) (free : List Nat) : Prop where
  run : RunInv k live free
  sum : total k.bytes (free ++ headers live) = k.heap_break - k.heap_start

theorem grow_pages_break (n : Nat) (s : σ × Nat) : (grow_pages map_page n s).1.2 =
    if (grow_pages map_page n s).2 then s.2 + growth n else s.2 := by
  unfold grow_pages
  split
  · rfl
  · simp only
    split <;> rfl

/-- A growth of whole pages moves the break by the bytes of its block. -/
theorem growth_whole {n : Nat} (hn : growth n < 0x10000000)
    (hwhole : kernel_heap_growth_bytes n % PAGE_SIZE = 0) :
    growth n = kernel_heap_growth_bytes n := by
  rw [growth_bytes_eq hn] at hwhole ⊢
  unfold PAGE_SIZE at hwhole
  unfold growth
  omega

theorem Filled.refuses {k : kernel_heap_t σ} {live : List (Nat × Nat)} {free : List Nat} {sum : Nat}
    {res : kernel_heap_t σ × Nat} (h : RunInv k live free) (hr : Refuses k (headers live) sum res)
    (hsum : sum = res.1.heap_break - 0xF0000000) : ∃ free', Filled res.1 live free' := by
  obtain ⟨free', hrun, htotal⟩ := runInv_refuses h hr
  refine ⟨free', hrun, ?_⟩
  rw [htotal, hsum, hrun.inv.window.start_eq]

theorem Filled.gives {k : kernel_heap_t σ} {live : List (Nat × Nat)} {free : List Nat}
    {size sum : Nat} {res : kernel_heap_t σ × Nat} (h : RunInv k live free)
    (hsize : size + 7 < 0x100000000)
    (hg : Gives k (headers live) (kernel_heap_headers_for size) sum res)
    (hsum : sum = res.1.heap_break - 0xF0000000) :
    ∃ free', Filled res.1 ((res.2, size) :: live) free' := by
  obtain ⟨free', hrun, htotal⟩ := runInv_gives h hsize hg
  refine ⟨free', hrun, ?_⟩
  rw [htotal, hsum, hrun.inv.window.start_eq]

/-- A request of whole pages keeps the heap filled, however often the heap grows for it. -/
theorem filled_malloc {k k' : kernel_heap_t σ} {live : List (Nat × Nat)} {free : List Nat}
    {size p : Nat} (h : Filled k live free) (h1 : 1 ≤ size) (h2 : size ≤ 0x04000000)
    (hwhole : WholePages map_page k size)
    (he : Ends (fun fuel => kernel_heap_malloc map_page fuel k size) (k', p)) :
    ∃ free', Filled k' (if p = 0 then live else (p, size) :: live) free' := by
  have hinv := h.run.inv
  have hlow := hinv.window.break_low
  have hnowrap := growth_no_wrap hinv h2
  have hsum := h.sum
  rw [hinv.window.start_eq] at hsum
  obtain ⟨res, log, hres, hcase⟩ := kernel_heap_malloc_spec map_page hinv h1
    fun _ => hnowrap
  obtain rfl : res = (k', p) := Ends.unique (ends_of_log hres) he
  -- A growth that gives memory asks for whole pages here.
  have hgrowth : (∀ b, OnRing k b → ¬ kernel_heap_headers_for size ≤ k.size b) →
      (grow_pages map_page (kernel_heap_headers_for size) k.extent).2 = true →
      growth (kernel_heap_headers_for size) =
        kernel_heap_growth_bytes (kernel_heap_headers_for size) := by
    intro hsmall hgrows
    rcases hwhole with ⟨b, hb, hfit⟩ | hnone | hpages
    · exact absurd hfit (hsmall b hb)
    · rw [hgrows] at hnone
      cases hnone
    · exact growth_whole (by omega) hpages
  have hbreak := congrArg Prod.snd (show k.extent = (k.pages, k.heap_break) from rfl)
  simp only at hbreak
  cases hcase with
  | fits b on_ring fit no_log gives extent =>
    rw [if_neg gives.ne_zero]
    refine Filled.gives h.run (by omega) gives ?_
    rw [hsum]
    exact congrArg (· - 0xF0000000) (congrArg Prod.snd extent).symm
  | refused small grows one result refuses =>
    rw [if_pos refuses.null]
    refine Filled.refuses h.run refuses ?_
    rw [hsum, congrArg Prod.fst result]
  | once small grows one again extent reach gives =>
    rw [if_neg gives.ne_zero]
    refine Filled.gives h.run (by omega) gives ?_
    have hmove : k'.heap_break = _ := congrArg Prod.snd extent
    rw [grow_pages_break, if_pos grows, hbreak, hgrowth small grows] at hmove
    simp only [hmove]
    omega
  | twice small grows again two extent gives refuses =>
    have hmove : k'.heap_break = _ := congrArg Prod.snd extent
    rw [grow_pages_break, grow_pages_break, if_pos grows, hbreak, hgrowth small grows] at hmove
    cases hsecond : (grow_pages map_page (kernel_heap_headers_for size)
        (grow_pages map_page (kernel_heap_headers_for size) k.extent).1).2 with
    | true =>
      rw [if_neg (gives hsecond).ne_zero]
      refine Filled.gives h.run (by omega) (gives hsecond) ?_
      rw [if_pos hsecond] at hmove
      simp only [hmove]
      omega
    | false =>
      rw [if_pos (refuses hsecond).null]
      refine Filled.refuses h.run (refuses hsecond) ?_
      rw [if_neg (by rw [hsecond]; decide)] at hmove
      simp only [hmove]
      omega

theorem filled_runs {memory : Nat → kernel_heap_header_t} {base : Nat} {pages : σ}
    (hb : 0 < base) (hlow : base + 8 ≤ KERNEL_HEAP_VIRTUAL_START) {k : kernel_heap_t σ}
    {live : List (Nat × Nat)} {rest : σ → σ → Prop}
    (h : RunsWith (fun k size => size ≤ 0x04000000 ∧ WholePages map_page k size) rest map_page
      memory base pages k live) : ∃ free, Filled k live free := by
  induction h with
  | init =>
    exact ⟨[], ⟨inv_init memory pages hb hlow, by simp, by simp⟩, (Nat.sub_self _).symm⟩
  | malloc _ h1 hp he ih =>
    obtain ⟨free, ih⟩ := ih
    exact filled_malloc ih h1 hp.1 hp.2 he
  | free _ hm he ih =>
    obtain ⟨free, ih⟩ := ih
    obtain ⟨free', hrun, hextent, hsum⟩ := runInv_free ih.run hm he
    refine ⟨free', hrun, ?_⟩
    rw [hsum, ih.sum, hrun.inv.window.start_eq, ih.run.inv.window.start_eq]
    exact congrArg (· - 0xF0000000) (congrArg Prod.snd hextent).symm
  | store _ hm hs ih =>
    obtain ⟨free, ih⟩ := ih
    obtain ⟨hrun, hsum⟩ := runInv_store ih.run hm hs
    exact ⟨free, hrun, hsum.trans ih.sum⟩
  | @other k live s _ _ ih =>
    obtain ⟨free, ih⟩ := ih
    exact ⟨free, ih.run.repaged s, ih.sum⟩

/-- In a run in which every request finds a block or asks for whole pages, the blocks fill the
heap: every byte between the start and the break lies in exactly one block. -/
theorem the_heap_loses_no_memory {memory : Nat → kernel_heap_header_t} {base : Nat} {pages : σ}
    (hb : 0 < base) (hlow : base + 8 ≤ KERNEL_HEAP_VIRTUAL_START) {k : kernel_heap_t σ}
    {live : List (Nat × Nat)} {rest : σ → σ → Prop}
    (h : RunsWith (fun k size => size ≤ 0x04000000 ∧ WholePages map_page k size) rest map_page
      memory base pages k live) :
    ∃ free, WellFormed k live free ∧
      total k.bytes (free ++ headers live) = k.heap_break - k.heap_start ∧
      ∀ a, k.heap_start ≤ a → a < k.heap_break →
        ∃! b, b ∈ free ++ headers live ∧ b ≤ a ∧ a < b + k.bytes b := by
  obtain ⟨free, hrun, hsum⟩ := filled_runs hb hlow h
  refine ⟨free, wellFormed_of_runInv hrun, hsum, fun a hlo hhi => ?_⟩
  have hlay := hrun.inv.layout
  obtain ⟨b, hmem, hb1, hb2⟩ := hlay.covers hsum hlo hhi
  refine ⟨b, ⟨hmem, hb1, hb2⟩, fun c ⟨hc, hc1, hc2⟩ => ?_⟩
  by_contra hne
  have := hlay.apart c hc b hmem hne
  unfold Apart at this
  omega

/-- The last 8 bytes of a request of 8192 lie on a third page, whose rest no block gets. -/
theorem a_page_rest_is_lost : ∃ (k : kernel_heap_t Unit) (live : List (Nat × Nat)),
    Reachable endlessPages (fun _ => ⟨0, 0⟩) 0xC0100000 () k live ∧
    ¬ ∃ free, WellFormed k live free ∧
      total k.bytes (free ++ headers live) = k.heap_break - k.heap_start := by
  refine ⟨(asked emptyHeap 8192).1, _, asked_reachable (p := 0xF0000008) .init (by decide)
    (by decide) (by decide +kernel) (by decide +kernel) (by decide), ?_⟩
  rintro ⟨free, hwell, hsum⟩
  have hbase : (asked emptyHeap 8192).1.base = 0xC0100000 := by decide +kernel
  have hnext : (asked emptyHeap 8192).1.next 0xC0100000 = 0xC0100000 := by decide +kernel
  have hsize : (asked emptyHeap 8192).1.bytes 0xF0000000 = 8200 := by decide +kernel
  have hbreak : (asked emptyHeap 8192).1.heap_break - (asked emptyHeap 8192).1.heap_start =
      12288 := by decide +kernel
  rw [hbreak] at hsum
  have hring := hwell.ring
  have hsorted := hwell.sorted
  rw [hbase] at hring hsorted
  cases free with
  | nil =>
    simp [headers, total, hsize] at hsum
  | cons b bs =>
    unfold Loop at hring
    have hb : b = 0xC0100000 := by rw [← hring.2.1, hnext]
    have hlt := (List.pairwise_cons.mp hsorted).1 b (by simp)
    omega

/-- A request of two whole pages fills them. -/
theorem two_pages_are_filled : ∃ free,
    WellFormed (asked emptyHeap 8184).1 [(0xF0000008, 8184)] free ∧
    total (asked emptyHeap 8184).1.bytes (free ++ headers [(0xF0000008, 8184)]) =
      (asked emptyHeap 8184).1.heap_break - (asked emptyHeap 8184).1.heap_start ∧
    ∀ a, (asked emptyHeap 8184).1.heap_start ≤ a → a < (asked emptyHeap 8184).1.heap_break →
      ∃! b, b ∈ free ++ headers [(0xF0000008, 8184)] ∧ b ≤ a ∧
        a < b + (asked emptyHeap 8184).1.bytes b := by
  have hsome : (kernel_heap_malloc endlessPages 10 emptyHeap 8184).isSome = true := by
    decide +kernel
  have hp : (asked emptyHeap 8184).2 = 0xF0000008 := by decide +kernel
  have hrun : kernel_heap_malloc endlessPages 10 emptyHeap 8184 =
      some ((asked emptyHeap 8184).1, 0xF0000008) := by
    rw [← hp]
    exact some_getD (emptyHeap, 0) hsome
  have hpages : WholePages endlessPages emptyHeap 8184 := Or.inr (Or.inr (by decide))
  have hstart : RunsWith (fun k size => size ≤ 0x04000000 ∧ WholePages endlessPages k size) Eq
      endlessPages (fun _ => ⟨0, 0⟩) 0xC0100000 () emptyHeap [] := .init
  have hstep := RunsWith.malloc hstart (by decide) ⟨by decide, hpages⟩ (malloc_ends_at hrun)
  rw [if_neg (by decide)] at hstep
  exact the_heap_loses_no_memory (by decide) (by decide) hstep

end alura_os.kernel_heap
