-- Whole runs of the kernel heap: any calls of malloc and free, with any use
-- of the live blocks between them, keep the heap well formed.
import AluraOs.HeapGrowth

namespace alura_os.kernel_heap

open alura_os.memory chains blocks

variable {σ : Type}

section growth

variable {map_page : σ → Nat → σ × Bool}

/-! ## Whole runs -/

/-- The states of the heap after any calls of malloc and free, with the live
pointers and the sizes they were asked for. A client may store anything in the
payload of a live block between two calls. -/
inductive Reachable (map_page : σ → Nat → σ × Bool) (memory : Nat → kernel_heap_header_t)
    (base : Nat) (pages : σ) : kernel_heap_t σ → List (Nat × Nat) → Prop
  | init : Reachable map_page memory base pages (kernel_heap_module_init memory base pages) []
  | malloc {k k' : kernel_heap_t σ} {live : List (Nat × Nat)} {size p : Nat} :
      Reachable map_page memory base pages k live → 1 ≤ size → size ≤ 0x04000000 →
      Ends (fun fuel => kernel_heap_malloc map_page fuel k size) (k', p) →
      Reachable map_page memory base pages k' (if p = 0 then live else (p, size) :: live)
  | free {k k' : kernel_heap_t σ} {live : List (Nat × Nat)} {size p : Nat} :
      Reachable map_page memory base pages k live → (p, size) ∈ live →
      Ends (fun fuel => kernel_heap_free fuel k p) k' →
      Reachable map_page memory base pages k' (live.erase (p, size))
  | store {k : kernel_heap_t σ} {live : List (Nat × Nat)} {size p : Nat}
      {memory' : Nat → kernel_heap_header_t} :
      Reachable map_page memory base pages k live → (p, size) ∈ live →
      (∀ a, a + 8 ≤ p ∨ p - 8 + k.bytes (p - 8) ≤ a → memory' a = k.memory a) →
      Reachable map_page memory base pages { k with memory := memory' } live

/-- The headers of the live blocks. -/
def headers (live : List (Nat × Nat)) : List Nat := live.map (fun e => e.1 - 8)

/-- The representation invariant, with the live pointers and their sizes. -/
structure WellFormed (k : kernel_heap_t σ) (live : List (Nat × Nat)) (free : List Nat) : Prop where
  /-- From the base, the free list visits `free` in address order and comes back. -/
  ring : Loop k.next k.base free
  sorted : (k.base :: free).Pairwise (· < ·)
  head_mem : k.free_headers_head ∈ k.base :: free
  /-- Free and live blocks are disjoint, and lie between the start and the break. -/
  layout : Layout k.bytes k.heap_start k.heap_break (free ++ headers live)
  gap : ∀ b ∈ free, ∀ c ∈ free, b + k.bytes b ≠ c
  aligned : ∀ e ∈ live, e.1 % 8 = 0
  owns : ∀ e ∈ live, e.1 + e.2 ≤ e.1 - 8 + k.bytes (e.1 - 8)

/-- What a run keeps: the invariant, and for each live pointer a block behind it
that is large enough. -/
structure RunInv (k : kernel_heap_t σ) (live : List (Nat × Nat)) (free : List Nat) : Prop where
  inv : Inv k free (headers live)
  pointer : ∀ e ∈ live, 8 ≤ e.1
  owns : ∀ e ∈ live, e.2 + 8 ≤ k.bytes (e.1 - 8)

theorem inv_perm {k : kernel_heap_t σ} {free live live' : List Nat} (h : Inv k free live)
    (hp : live'.Perm live) : Inv k free live' := by
  obtain ⟨h1, h2, h3, h4, h5, h6, h7⟩ := h
  refine ⟨h1, h2, h3, h4, layout_perm h5 (hp.append_left free), ?_, h7⟩
  intro b hb
  exact h6 b ((hp.append_left free).subset hb)

/-- The invariant reads only the headers of the base and of the blocks. -/
theorem inv_congr {k : kernel_heap_t σ} {free live : List Nat}
    {memory' : Nat → kernel_heap_header_t} (h : Inv k free live)
    (he : ∀ a ∈ k.base :: (free ++ live), memory' a = k.memory a) :
    Inv { k with memory := memory' } free live := by
  obtain ⟨h1, h2, h3, h4, h5, h6, h7⟩ := h
  obtain ⟨w1, w2, w3, w4, w5, w6, w7, w8⟩ := h1
  have hnext : ∀ a ∈ k.base :: free,
      ({ k with memory := memory' } : kernel_heap_t σ).next a = k.next a := by
    intro a ha
    show (memory' a).next = (k.memory a).next
    rw [he a (by rw [← List.cons_append]; exact List.mem_append_left _ ha)]
  have hbytes : ∀ a ∈ k.base :: (free ++ live),
      ({ k with memory := memory' } : kernel_heap_t σ).bytes a = k.bytes a := by
    intro a ha
    show 8 * (memory' a).size = 8 * (k.memory a).size
    rw [he a ha]
  refine ⟨⟨w1, w2, ?_, w4, w5, w6, w7, w8⟩, ?_, h3, h4, ?_, h6, ?_⟩
  · show (memory' k.base).size = 0
    rw [he k.base (by simp)]
    exact w3
  · exact (path_congr hnext).mpr h2
  · exact layout_congr h5 (fun b hb => hbytes b (by simp only [List.mem_cons]; exact Or.inr hb))
  · intro b hb c hc
    rw [hbytes b (by simp [hb])]
    exact h7 b hb c hc

theorem inv_init (memory : Nat → kernel_heap_header_t) {base : Nat} (pages : σ) (hb : 0 < base)
    (hlow : base + 8 ≤ KERNEL_HEAP_VIRTUAL_START) :
    Inv (kernel_heap_module_init memory base pages) [] [] := by
  have hs : ALIGN_UP KERNEL_HEAP_VIRTUAL_START = 0xF0000000 := by decide
  have he : ALIGN_DOWN KERNEL_HEAP_VIRTUAL_END = 0xF7FFF000 := by decide
  refine ⟨⟨hb, hlow, ?_, hs, he, ?_, ?_, ?_⟩, ?_, by simp, ?_, layout_nil, by simp, by simp⟩
  · simp [kernel_heap_module_init, kernel_heap_t.size]
  · show _ ≤ ALIGN_UP _; omega
  · show ALIGN_UP _ ≤ _; omega
  · show ALIGN_UP _ % _ = 0; omega
  · simp [Loop, kernel_heap_module_init, kernel_heap_t.next]
  · simp [kernel_heap_module_init]

/-- What the calls keep of the sizes of the live blocks, they keep of what is owned. -/
theorem RunInv.owns_of_kept {k k' : kernel_heap_t σ} {live : List (Nat × Nat)} {free : List Nat}
    (h : RunInv k live free) (hlive : ∀ x ∈ headers live, k'.size x = k.size x) :
    ∀ e ∈ live, e.2 + 8 ≤ k'.bytes (e.1 - 8) := by
  intro e hm
  unfold kernel_heap_t.bytes
  rw [hlive _ (List.mem_map_of_mem (f := fun e : Nat × Nat => e.1 - 8) hm)]
  exact h.owns e hm

/-- The pages are no part of what the runs keep. -/
theorem RunInv.repaged {k : kernel_heap_t σ} {live : List (Nat × Nat)} {free : List Nat}
    (h : RunInv k live free) (s : σ) : RunInv { k with pages := s } live free :=
  ⟨h.inv.repaged s, h.pointer, h.owns⟩

theorem runInv_refuses {k : kernel_heap_t σ} {live : List (Nat × Nat)} {free : List Nat} {sum : Nat}
    {res : kernel_heap_t σ × Nat} (h : RunInv k live free)
    (hr : Refuses k (headers live) sum res) :
    ∃ free', RunInv res.1 live free' ∧ total res.1.bytes (free' ++ headers live) = sum := by
  obtain ⟨free', hinv, hsum⟩ := hr.blocks
  exact ⟨free', ⟨hinv, h.pointer, h.owns_of_kept hr.kept⟩, hsum⟩

theorem runInv_gives {k : kernel_heap_t σ} {live : List (Nat × Nat)} {free : List Nat}
    {size sum : Nat} {res : kernel_heap_t σ × Nat} (h : RunInv k live free)
    (hsize : size + 7 < 0x100000000)
    (hg : Gives k (headers live) (kernel_heap_headers_for size) sum res) :
    ∃ free', RunInv res.1 ((res.2, size) :: live) free' ∧
      total res.1.bytes (free' ++ headers ((res.2, size) :: live)) = sum := by
  obtain ⟨b, free', hp, hinv, hb, hsum⟩ := hg.block
  have hh : headers ((res.2, size) :: live) = b :: headers live := by
    simp [headers, hp]
  rw [← hh] at hinv hsum
  refine ⟨free', ⟨hinv, ?_, ?_⟩, hsum⟩
  · intro e hm
    rcases List.mem_cons.mp hm with rfl | hm
    · simp [hp]
    · exact h.pointer e hm
  · intro e hm
    rcases List.mem_cons.mp hm with rfl | hm
    · unfold kernel_heap_t.bytes
      simp only [hp, Nat.add_sub_cancel, hb, headers_for_eq hsize]
      omega
    · exact h.owns_of_kept hg.kept e hm

theorem runInv_malloc {k k' : kernel_heap_t σ}
    {live : List (Nat × Nat)} {free : List Nat} {size p : Nat} (h : RunInv k live free)
    (h1 : 1 ≤ size) (h2 : size ≤ 0x04000000)
    (he : Ends (fun fuel => kernel_heap_malloc map_page fuel k size) (k', p)) :
    ∃ free', RunInv k' (if p = 0 then live else (p, size) :: live) free' := by
  obtain ⟨res, log, hres, hcase⟩ := kernel_heap_malloc_spec map_page h.inv h1
    fun _ => growth_no_wrap h.inv h2
  obtain rfl : res = (k', p) := Ends.unique (ends_of_log hres) he
  rcases hcase.outcome with ⟨sum, hr⟩ | ⟨sum, hg⟩
  · obtain ⟨free', hinv, -⟩ := runInv_refuses h hr
    exact ⟨free', by rwa [if_pos hr.null]⟩
  · obtain ⟨free', hinv, -⟩ := runInv_gives h (by omega) hg
    exact ⟨free', by rwa [if_neg hg.ne_zero]⟩

theorem runInv_free {k k' : kernel_heap_t σ} {live : List (Nat × Nat)} {free : List Nat}
    {size p : Nat} (h : RunInv k live free) (hm : (p, size) ∈ live)
    (he : Ends (fun fuel => kernel_heap_free fuel k p) k') :
    ∃ free', RunInv k' (live.erase (p, size)) free' ∧ k'.extent = k.extent ∧
      total k'.bytes (free' ++ headers (live.erase (p, size))) =
        total k.bytes (free ++ headers live) := by
  have hperm := List.perm_cons_erase hm
  have hinv : Inv k free ((p - 8) :: headers (live.erase (p, size))) := by
    refine inv_perm h.inv ?_
    exact (hperm.map (fun e : Nat × Nat => e.1 - 8)).symm
  have hp := h.pointer _ hm
  obtain ⟨k1, l, r, l', w, r', -, -, -, -, hinv', -, hsame, hlive, -, -, hsum,
    hfuel⟩ :=
    kernel_heap_free_spec hinv
  simp only at hp
  rw [Nat.sub_add_cancel hp] at hfuel
  obtain rfl : k1 = k' := Ends.unique ⟨_, hfuel⟩ he
  refine ⟨_, ⟨hinv', ?_, ?_⟩, Prod.ext hsame.pages hsame.heap_break, hsum.trans ?_⟩
  · intro e hm'
    exact h.pointer e (List.mem_of_mem_erase hm')
  · intro e hm'
    unfold kernel_heap_t.bytes
    rw [hlive _ (List.mem_map_of_mem (f := fun e : Nat × Nat => e.1 - 8) hm')]
    exact h.owns e (List.mem_of_mem_erase hm')
  · exact total_perm ((hperm.map (fun e : Nat × Nat => e.1 - 8)).symm.append_left free)

theorem runInv_store {k : kernel_heap_t σ} {live : List (Nat × Nat)} {free : List Nat}
    {size p : Nat} {memory' : Nat → kernel_heap_header_t} (h : RunInv k live free)
    (hm : (p, size) ∈ live)
    (hs : ∀ a, a + 8 ≤ p ∨ p - 8 + k.bytes (p - 8) ≤ a → memory' a = k.memory a) :
    RunInv { k with memory := memory' } live free ∧
      total ({ k with memory := memory' } : kernel_heap_t σ).bytes (free ++ headers live) =
        total k.bytes (free ++ headers live) := by
  have hp := h.pointer _ hm
  simp only at hp
  have hmem : p - 8 ∈ free ++ headers live :=
    List.mem_append_right _ (List.mem_map_of_mem (f := fun e : Nat × Nat => e.1 - 8) hm)
  -- A header of another block ends before the payload, or starts after it.
  have hagree : ∀ a ∈ k.base :: (free ++ headers live), memory' a = k.memory a := by
    intro a ha
    apply hs
    have hb := block_bounds h.inv.window h.inv.layout hmem
    rcases List.mem_cons.mp ha with rfl | ha
    · have := h.inv.window.base_low; omega
    · have ha' := block_bounds h.inv.window h.inv.layout ha
      by_cases hne : a = p - 8
      · omega
      · have := h.inv.layout.apart a ha (p - 8) hmem hne
        unfold Apart kernel_heap_t.bytes at this
        unfold kernel_heap_t.bytes
        omega
  refine ⟨⟨inv_congr h.inv hagree, h.pointer, ?_⟩, ?_⟩
  · intro e he
    show e.2 + 8 ≤ 8 * (memory' (e.1 - 8)).size
    rw [hagree (e.1 - 8)]
    · exact h.owns e he
    · simp only [List.mem_cons, List.mem_append]
      exact Or.inr (Or.inr (List.mem_map_of_mem (f := fun e : Nat × Nat => e.1 - 8) he))
  · apply total_congr
    intro b hb
    show 8 * (memory' b).size = 8 * (k.memory b).size
    rw [hagree b (List.mem_cons_of_mem _ hb)]

theorem reachable_runInv {memory : Nat → kernel_heap_header_t} {base : Nat} {pages : σ} (hb : 0 < base)
    (hlow : base + 8 ≤ KERNEL_HEAP_VIRTUAL_START) {k : kernel_heap_t σ}
    {live : List (Nat × Nat)} (h : Reachable map_page memory base pages k live) :
    ∃ free, RunInv k live free := by
  induction h with
  | init => exact ⟨[], inv_init memory pages hb hlow, by simp, by simp⟩
  | malloc _ h1 h2 he ih =>
    obtain ⟨free, ih⟩ := ih
    exact runInv_malloc ih h1 h2 he
  | free _ hm he ih =>
    obtain ⟨free, ih⟩ := ih
    obtain ⟨free', hrun, -⟩ := runInv_free ih hm he
    exact ⟨free', hrun⟩
  | store _ hm hs ih =>
    obtain ⟨free, ih⟩ := ih
    exact ⟨free, (runInv_store ih hm hs).1⟩

theorem wellFormed_of_runInv {k : kernel_heap_t σ} {live : List (Nat × Nat)} {free : List Nat}
    (h : RunInv k live free) : WellFormed k live free := by
  have hal : ∀ e ∈ live, (e.1 - 8) % 8 = 0 := fun e he =>
    h.inv.aligned _ (List.mem_append_right _
      (List.mem_map_of_mem (f := fun e : Nat × Nat => e.1 - 8) he))
  refine ⟨h.inv.ring, h.inv.sorted, h.inv.head_mem, h.inv.layout, h.inv.gap, ?_, ?_⟩
  · intro e he
    have h1 := hal e he
    have h2 := h.pointer e he
    omega
  · intro e he
    have h1 := h.owns e he
    have h2 := h.pointer e he
    omega

/-- After any calls of malloc and free, the heap is well formed, and the next call
of malloc or free ends. -/
theorem the_heap_stays_well_formed {memory : Nat → kernel_heap_header_t} {base : Nat} {pages : σ}
    (hb : 0 < base) (hlow : base + 8 ≤ KERNEL_HEAP_VIRTUAL_START) {k : kernel_heap_t σ}
    {live : List (Nat × Nat)} (h : Reachable map_page memory base pages k live) :
    (∃ free, WellFormed k live free) ∧
      (∀ size, 1 ≤ size → size ≤ 0x04000000 →
        ∃ res, Ends (fun fuel => kernel_heap_malloc map_page fuel k size) res) ∧
      ∀ e ∈ live, ∃ k', Ends (fun fuel => kernel_heap_free fuel k e.1) k' := by
  obtain ⟨free, hrun⟩ := reachable_runInv hb hlow h
  refine ⟨⟨free, wellFormed_of_runInv hrun⟩, ?_, ?_⟩
  · intro size h1 h2
    obtain ⟨res, log, hres, -⟩ := kernel_heap_malloc_spec map_page hrun.inv h1
      fun _ => growth_no_wrap hrun.inv h2
    exact ⟨res, ends_of_log hres⟩
  · intro e he
    have hperm := List.perm_cons_erase he
    have hinv : Inv k free ((e.1 - 8) :: headers (live.erase e)) :=
      inv_perm hrun.inv (hperm.map (fun e : Nat × Nat => e.1 - 8)).symm
    obtain ⟨k1, l, r, l', w, r', -, -, -, -, -, -, -, -, -, -, -, hfuel⟩ := kernel_heap_free_spec hinv
    rw [Nat.sub_add_cancel (hrun.pointer e he)] at hfuel
    exact ⟨k1, _, hfuel⟩

end growth

/-- One request of 16 bytes after the init of the heap, with pages always there. -/
theorem the_heap_is_well_formed_after_one_malloc :
    ∃ (k : kernel_heap_t Unit) (p : Nat), p ≠ 0 ∧
      Reachable (fun s _ => (s, true)) (fun _ => ⟨0, 0⟩) 0xC0100000 () k [(p, 16)] ∧
      ∃ free, WellFormed k [(p, 16)] free := by
  have hb : 0 < 0xC0100000 := by decide
  have hlow : 0xC0100000 + 8 ≤ KERNEL_HEAP_VIRTUAL_START := by decide
  have h0 : Reachable (fun s _ => (s, true)) (fun _ => ⟨0, 0⟩) 0xC0100000 ()
      (kernel_heap_module_init (fun _ => ⟨0, 0⟩) 0xC0100000 ()) [] := Reachable.init
  have hinv : Inv (kernel_heap_module_init (fun _ => ⟨0, 0⟩) 0xC0100000 ()) [] [] :=
    inv_init _ _ hb hlow
  obtain ⟨⟨k, p⟩, log, hres, hcase⟩ := kernel_heap_malloc_spec (fun s _ => (s, true)) hinv
    (show 1 ≤ 16 by decide) fun _ => growth_no_wrap hinv (by decide)
  obtain ⟨sum, hg⟩ := hcase.gives_block (by decide) fun hc => absurd (by decide) hc.1
  have hp : p ≠ 0 := hg.ne_zero
  have h1 := Reachable.malloc h0 (by decide) (by decide) (ends_of_log hres)
  rw [if_neg hp] at h1
  exact ⟨k, p, hp, h1, (the_heap_stays_well_formed hb hlow h1).1⟩

end alura_os.kernel_heap
