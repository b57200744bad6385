-- Sizes of the kernel heap: every request is honoured or refused, in a run
-- whose sizes and sums fit 32 bits and whose frames do not end just before the
-- table of a page.
import AluraOs.HeapFrames

namespace alura_os.kernel_heap

open alura_os.memory alura_os.memory_bitmap alura_os.memory_paging alura_os.elf_executable
open alura_os.task_manager Machine chains blocks

/-! ## Pages of the heap -/

/-- The machine and the break of a heap: every page between the start and the break is mapped. -/
structure HeapMapped (s : Option Machine × Nat) (m : Machine) : Prop where
  pages : s.1 = some m
  space : KernelSpace m
  slots : 0 < (freeSlots m).card
  low : KERNEL_HEAP_VIRTUAL_START ≤ s.2
  high : s.2 ≤ 0xF7FFF000
  aligned : s.2 % 4096 = 0
  mapped : ∀ v, KERNEL_HEAP_VIRTUAL_START ≤ v → v < s.2 → m.entry m.kdir v ≠ none

/-- What the rest of the kernel keeps between two calls. -/
def KernelGoesOn (s s' : Option Machine) : Prop :=
  ∀ m, s = some m → ∃ m', s' = some m' ∧ KernelSpace m' ∧ 0 < (freeSlots m').card ∧ PagesStay m m'

/-- The frames suffice for `count` pages from `address` on, but for the table of the last. -/
def LacksTable (m : Machine) (count address : Nat) : Prop :=
  page_need (tablesOf m m.kdir) (count - 1) address < freeCount m ∧
    freeCount m < page_need (tablesOf m m.kdir) count address

theorem page_need_add (tables : Nat → Bool) (p q address : Nat) :
    page_need tables (p + q) address = page_need tables p address +
      page_need (page_tables tables p address) q (address + p * 4096) := by
  induction p generalizing tables address with
  | zero => simp [page_need, page_tables]
  | succ p ih =>
    rw [show p + 1 + q = p + q + 1 by omega]
    have hnext : address + PAGE_SIZE + p * 4096 = address + (p + 1) * 4096 := by
      unfold PAGE_SIZE
      ring
    simp only [page_need, page_tables, ih, hnext]
    omega

/-- A growth that gives memory maps all its pages, unless it lacks a table. -/
theorem Turns.all_mapped {m m' : Machine} {n address : Nat} (ht : Turns m m' n address true)
    (hn : 0 < n) (hlack : ¬ LacksTable m n address) :
    freeCount m' + page_need (tablesOf m m.kdir) n address = freeCount m ∧
      tablesOf m' m'.kdir = page_tables (tablesOf m m.kdir) n address ∧
      ∀ v, address ≤ v → v < address + n * 4096 → m'.entry m'.kdir v ≠ none := by
  have hneed : page_need (tablesOf m m.kdir) n address ≤ freeCount m := by
    by_contra hlt
    rcases ht.last rfl with hzero | hlast
    · omega
    · exact hlack ⟨hlast, by omega⟩
  exact (ht.full hneed).2

/-! ## Requests that fit -/

/-- The sizes of a request fit 32 bits, and no growth for it ends just before a page table. -/
structure Fits (k : kernel_heap_t (Option Machine)) (size : Nat) : Prop where
  headers : size + 7 < 0x100000000
  sum : (∀ b, OnRing k b → ¬ kernel_heap_headers_for size ≤ k.size b) →
    k.heap_break + growth (kernel_heap_headers_for size) < 0x100000000
  table : (∀ b, OnRing k b → ¬ kernel_heap_headers_for size ≤ k.size b) →
    ∀ m, k.pages = some m → ∀ rounds, rounds = 1 ∨ rounds = 2 ∧ GrowsTwice k →
      k.heap_break + rounds * growth (kernel_heap_headers_for size) ≤ 0xF7FFF000 →
      ¬ LacksTable m (rounds * (growth (kernel_heap_headers_for size) / 4096)) k.heap_break

/-- A live pointer and its size: the payload is large enough, and its block lies inside the window
on pages that are there. -/
structure Honoured (k : kernel_heap_t (Option Machine)) (e : Nat × Nat) : Prop where
  payload : e.1 + e.2 ≤ e.1 - 8 + k.bytes (e.1 - 8)
  low : KERNEL_HEAP_VIRTUAL_START ≤ e.1 - 8
  high : e.1 - 8 + k.bytes (e.1 - 8) ≤ KERNEL_HEAP_VIRTUAL_END + 1
  mapped : ∃ m, k.pages = some m ∧
    ∀ v, e.1 - 8 ≤ v → v < e.1 - 8 + k.bytes (e.1 - 8) → m.entry m.kdir v ≠ none

/-- The sizes that the code computes for a request, all without a wrap. -/
structure ExactSizes (k : kernel_heap_t (Option Machine)) (size : Nat) : Prop where
  headers : kernel_heap_headers_for size = (size + 7) / 8 + 1
  grown : (∀ b, OnRing k b → ¬ kernel_heap_headers_for size ≤ k.size b) →
    kernel_heap_growth_bytes (kernel_heap_headers_for size) =
      max (8 * kernel_heap_headers_for size) 8192 ∧
    ALIGN_UP (kernel_heap_growth_bytes (kernel_heap_headers_for size)) =
      growth (kernel_heap_headers_for size) ∧
    u32 (k.heap_break + growth (kernel_heap_headers_for size)) =
      k.heap_break + growth (kernel_heap_headers_for size)

theorem Fits.exact {k : kernel_heap_t (Option Machine)} {free live : List Nat} {size : Nat}
    (h : Fits k size) (hinv : Inv k free live) : ExactSizes k size := by
  refine ⟨headers_for_eq h.headers, fun hsmall => ?_⟩
  have hsum := h.sum hsmall
  have hlow := hinv.window.break_low
  have hlt : growth (kernel_heap_headers_for size) < 0x10000000 := by omega
  exact ⟨growth_bytes_eq hlt, (growth_bytes_spec hlt).2.2.2, u32_of_lt hsum⟩

/-- What the page loop did, the heap has: the pages below the break, and after a good end those
up to the new break. -/
theorem HeapMapped.grown {s : Option Machine × Nat} {m m' : Machine} {n : Nat} {served : Bool}
    (h : HeapMapped s m) (hroom : s.2 + growth n ≤ 0xF7FFF000)
    (ht : Turns m m' (growth n / 4096) s.2 served)
    (hall : served = true → ∀ v, s.2 ≤ v → v < s.2 + growth n → m'.entry m'.kdir v ≠ none) :
    HeapMapped (some m', if served then s.2 + growth n else s.2) m' := by
  have hslots := h.slots
  rw [← ht.grown.freeSlots_eq] at hslots
  have hlow := h.low
  have hhigh := h.high
  have hmod := h.aligned
  have hmod' := growth_mod n
  have hold : ∀ v, KERNEL_HEAP_VIRTUAL_START ≤ v → v < s.2 → m'.entry m'.kdir v ≠ none := by
    intro v hv1 hv2
    refine ht.stay v ⟨hv1, ?_⟩ (h.mapped v hv1 hv2)
    unfold KERNEL_HEAP_VIRTUAL_END
    omega
  cases served with
  | false => exact ⟨rfl, ht.space, hslots, hlow, hhigh, hmod, hold⟩
  | true =>
    refine ⟨rfl, ht.space, hslots, le_trans hlow (Nat.le_add_right _ _), hroom, ?_,
      fun v hv1 hv2 => ?_⟩
    · simp only [if_true]
      omega
    · by_cases hv : v < s.2
      · exact hold v hv1 hv
      · exact hall rfl v (by omega) hv2

/-- A growth that refuses keeps the heap mapped, and one that gives memory does unless it lacks a
table. -/
theorem HeapMapped.after_growth {s : Option Machine × Nat} {m : Machine} {n : Nat}
    (h : HeapMapped s m)
    (hlack : s.2 + growth n ≤ 0xF7FFF000 → (grow_pages heap_page n s).2 = true →
      ¬ LacksTable m (growth n / 4096) s.2) :
    ∃ m', HeapMapped (grow_pages heap_page n s).1 m' ∧ ((grow_pages heap_page n s).2 = true →
      freeCount m' + page_need (tablesOf m m.kdir) (growth n / 4096) s.2 = freeCount m ∧
      tablesOf m' m'.kdir = page_tables (tablesOf m m.kdir) (growth n / 4096) s.2) := by
  have hmod := growth_mod n
  have hpos := growth_pos n
  obtain ⟨pages, brk⟩ := s
  obtain rfl : pages = some m := h.pages
  by_cases hroom : brk + growth n ≤ 0xF7FFF000
  · obtain ⟨m', served, hgrow, ht⟩ := grow_pages_turns h.space h.slots h.aligned h.low hroom
    rw [hgrow] at hlack ⊢
    cases served with
    | false => exact ⟨m', h.grown hroom ht nofun, nofun⟩
    | true =>
      obtain ⟨hcount, htables, hall⟩ := ht.all_mapped (by omega) (hlack hroom rfl)
      refine ⟨m', h.grown hroom ht fun _ v hv1 hv2 => hall v hv1 ?_, fun _ => ⟨hcount, htables⟩⟩
      simp only at hv2
      omega
  · have hnone : grow_pages heap_page n (some m, brk) = ((some m, brk), false) := by
      unfold grow_pages
      rw [if_pos (by simp only; omega)]
    rw [hnone]
    exact ⟨m, h, nofun⟩

/-- A block of the heap is honoured once its pages are there. -/
theorem RunInv.honoured {k : kernel_heap_t (Option Machine)} {live : List (Nat × Nat)}
    {free : List Nat} {m : Machine} (h : RunInv k live free) (hm : HeapMapped k.extent m)
    {e : Nat × Nat} (he : e ∈ live) : Honoured k e := by
  have hmem : e.1 - 8 ∈ free ++ headers live :=
    List.mem_append_right _ (List.mem_map_of_mem (f := fun e : Nat × Nat => e.1 - 8) he)
  have hlow := h.inv.layout.low _ hmem
  have hhigh := h.inv.layout.high _ hmem
  have htop := h.inv.window.break_high
  have howns := h.owns e he
  have hptr := h.pointer e he
  rw [h.inv.window.start_eq] at hlow
  refine ⟨by omega, hlow, ?_, m, hm.pages, fun v hv1 hv2 => hm.mapped v ?_ (lt_of_lt_of_le hv2 hhigh)⟩
  · unfold KERNEL_HEAP_VIRTUAL_END
    omega
  · unfold KERNEL_HEAP_VIRTUAL_START
    omega

/-- However malloc ends, the heap of a request that fits stays mapped. -/
theorem Malloced.mapped {k : kernel_heap_t (Option Machine)} {live : List Nat} {m : Machine}
    {size sum : Nat} {res : kernel_heap_t (Option Machine) × Nat} {log : List Bool}
    (h : Malloced heap_page k (kernel_heap_headers_for size) live sum res log)
    (hm : HeapMapped k.extent m) (hfits : Fits k size) : ∃ m', HeapMapped res.1.extent m' := by
  have htable : (∀ b, OnRing k b → ¬ kernel_heap_headers_for size ≤ k.size b) → ∀ rounds,
      rounds = 1 ∨ rounds = 2 ∧ GrowsTwice k →
      k.heap_break + rounds * growth (kernel_heap_headers_for size) ≤ 0xF7FFF000 →
      ¬ LacksTable m (rounds * (growth (kernel_heap_headers_for size) / 4096)) k.heap_break :=
    fun hsmall => hfits.table hsmall m hm.pages
  generalize kernel_heap_headers_for size = n at *
  have hmod := growth_mod n
  have hpos := growth_pos n
  have hfirst : (∀ b, OnRing k b → ¬ n ≤ k.size b) → _ := fun hsmall =>
    hm.after_growth (n := n) fun hroom _ => by
      have := htable hsmall 1 (Or.inl rfl) (by rw [one_mul]; exact hroom)
      rwa [one_mul] at this
  cases h with
  | fits b on_ring fit no_log gives extent => exact ⟨m, by rw [extent]; exact hm⟩
  | refused small grows one result refuses =>
    obtain ⟨m', hm', -⟩ := hfirst small
    refine ⟨m', ?_⟩
    have hsame : (grow_pages heap_page n k.extent).1.2 = k.heap_break := by
      rw [grow_pages_break, if_neg (by rw [grows]; decide)]
      rfl
    have hextent : res.1.extent = (grow_pages heap_page n k.extent).1 := by
      rw [result]
      exact Prod.ext rfl hsame.symm
    rwa [hextent]
  | once small grows one again extent reach gives =>
    obtain ⟨m', hm', -⟩ := hfirst small
    exact ⟨m', by rwa [extent]⟩
  | twice small grows again two extent gives refuses =>
    obtain ⟨m1, hm1, hcount⟩ := hfirst small
    obtain ⟨hcount, htables⟩ := hcount grows
    have hmoved := grow_pages_moves grows
    have hbreak : k.extent.2 = k.heap_break := rfl
    rw [hbreak] at hmoved hcount htables
    rw [extent]
    obtain ⟨m2, hm2, -⟩ := hm1.after_growth (n := n) fun hroom _ hlack => by
      rw [hmoved] at hroom
      have hnot := htable small 2 (Or.inr ⟨rfl, again⟩) (by
        rw [two_mul, ← Nat.add_assoc]
        exact hroom)
      -- What the two growths need is what one growth of twice the pages needs.
      have hpages : k.heap_break + growth n / 4096 * 4096 = k.heap_break + growth n := by omega
      have hadd : ∀ q, page_need (tablesOf m m.kdir) (growth n / 4096 + q) k.heap_break =
          page_need (tablesOf m m.kdir) (growth n / 4096) k.heap_break +
            page_need (tablesOf m1 m1.kdir) q (k.heap_break + growth n) := by
        intro q
        rw [page_need_add, hpages, htables]
      apply hnot
      unfold LacksTable at hlack ⊢
      rw [hmoved] at hlack
      have hq1 := hadd (growth n / 4096)
      have hq2 := hadd (growth n / 4096 - 1)
      rw [show 2 * (growth n / 4096) = growth n / 4096 + growth n / 4096 by omega,
        show growth n / 4096 + growth n / 4096 - 1 = growth n / 4096 + (growth n / 4096 - 1) by omega]
      omega
    exact ⟨m2, hm2⟩

/-- A request that fits keeps the run invariant and the mapped heap. -/
theorem malloc_honours {k : kernel_heap_t (Option Machine)} {live : List (Nat × Nat)}
    {free : List Nat} {m : Machine} {size : Nat} (h : RunInv k live free)
    (hm : HeapMapped k.extent m) (h1 : 1 ≤ size) (hfits : Fits k size) :
    ∃ res, Ends (fun fuel => kernel_heap_malloc heap_page fuel k size) res ∧
      ∃ free' m', RunInv res.1 (if res.2 = 0 then live else (res.2, size) :: live) free' ∧
        HeapMapped res.1.extent m' := by
  obtain ⟨res, log, hres, hcase⟩ := kernel_heap_malloc_spec heap_page h.inv h1
    hfits.sum
  refine ⟨res, ends_of_log hres, ?_⟩
  obtain ⟨m', hm'⟩ := hcase.mapped hm hfits
  rcases hcase.outcome with ⟨sum, hr⟩ | ⟨sum, hg⟩
  · obtain ⟨free', hrun, -⟩ := runInv_refuses h hr
    exact ⟨free', m', by rwa [if_pos hr.null], hm'⟩
  · obtain ⟨free', hrun, -⟩ := runInv_gives h hfits.headers hg
    exact ⟨free', m', by rwa [if_neg hg.ne_zero], hm'⟩

/-! ## Runs -/

theorem fitting_runs {memory : Nat → kernel_heap_header_t} {base : Nat} {m₀ : Machine}
    (hb : 0 < base) (hlow : base + 8 ≤ KERNEL_HEAP_VIRTUAL_START) (h0 : KernelSpace m₀)
    (hs0 : 0 < (freeSlots m₀).card) {k : kernel_heap_t (Option Machine)} {live : List (Nat × Nat)}
    (h : RunsWith Fits KernelGoesOn heap_page memory base (some m₀) k live) :
    ∃ free m, RunInv k live free ∧ HeapMapped k.extent m := by
  induction h with
  | init =>
    refine ⟨[], m₀, ⟨inv_init memory (some m₀) hb hlow, by simp, by simp⟩, rfl, h0, hs0, ?_, ?_, ?_,
      fun v hv1 hv2 => ?_⟩
    · show KERNEL_HEAP_VIRTUAL_START ≤ ALIGN_UP KERNEL_HEAP_VIRTUAL_START
      decide
    · show ALIGN_UP KERNEL_HEAP_VIRTUAL_START ≤ _
      decide
    · show ALIGN_UP KERNEL_HEAP_VIRTUAL_START % 4096 = 0
      decide
    · have hstart : ALIGN_UP KERNEL_HEAP_VIRTUAL_START = KERNEL_HEAP_VIRTUAL_START := by decide
      have hv : v < ALIGN_UP KERNEL_HEAP_VIRTUAL_START := hv2
      omega
  | malloc _ h1 hfits he ih =>
    obtain ⟨free, m, hrun, hm⟩ := ih
    obtain ⟨res, hres, free', m', hrun', hm'⟩ := malloc_honours hrun hm h1 hfits
    obtain rfl := Ends.unique hres he
    exact ⟨free', m', hrun', hm'⟩
  | free _ hmem he ih =>
    obtain ⟨free, m, hrun, hm⟩ := ih
    obtain ⟨free', hrun', hextent, -⟩ := runInv_free hrun hmem he
    exact ⟨free', m, hrun', by rwa [hextent]⟩
  | store _ hmem hs ih =>
    obtain ⟨free, m, hrun, hm⟩ := ih
    exact ⟨free, m, (runInv_store hrun hmem hs).1, hm⟩
  | @other k live s _ hrest ih =>
    obtain ⟨free, m, hrun, hm⟩ := ih
    obtain ⟨m', rfl, hspace, hslots, hstay⟩ := hrest m hm.pages
    have hhigh := hm.high
    refine ⟨free, m', hrun.repaged _, rfl, hspace, hslots, hm.low, hhigh, hm.aligned,
      fun v hv1 hv2 => hstay v ⟨hv1, ?_⟩ (hm.mapped v hv1 hv2)⟩
    have hv : v < k.extent.2 := hv2
    unfold KERNEL_HEAP_VIRTUAL_END
    omega

/-- Two pages of the heap fit the small machine. -/
theorem small_growth {n : Nat} (h : growth n = growth 1) :
    ∃ m', grow_pages heap_page n smallHeap.extent =
      ((some m', 0xF0000000 + growth 1), true) := by
  obtain ⟨m', served, hgrow, ht⟩ := grow_pages_turns small_kernelSpace small_slots (n := 1)
    (b := 0xF0000000) (by decide) (by decide) (by decide)
  have hneed : page_need (tablesOf smallMachine smallMachine.kdir) (growth 1 / 4096) 0xF0000000 ≤
      freeCount smallMachine := by decide +kernel
  obtain rfl := (ht.full hneed).1
  have hextent : smallHeap.extent = (some smallMachine, 0xF0000000) := by
    refine Prod.ext rfl ?_
    decide
  refine ⟨m', ?_⟩
  unfold grow_pages at hgrow ⊢
  rw [h, hextent, hgrow]
  rfl

end alura_os.kernel_heap
