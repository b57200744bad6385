-- Layouts of memory blocks: blocks of given lengths that lie apart from each
-- other inside one interval, and how an allocator cuts and joins them.
import Mathlib.Tactic

namespace blocks

variable {len len' : Nat → Nat} {lo hi : Nat} {bs cs : List Nat}

/-- The blocks at `b` and `c` share no byte. -/
def Apart (len : Nat → Nat) (b c : Nat) : Prop := b + len b ≤ c ∨ c + len c ≤ b

/-- The blocks of `bs` are not empty, lie in `[lo, hi)` and share no byte. -/
structure Layout (len : Nat → Nat) (lo hi : Nat) (bs : List Nat) : Prop where
  nodup : bs.Nodup
  pos : ∀ b ∈ bs, 0 < len b
  low : ∀ b ∈ bs, lo ≤ b
  high : ∀ b ∈ bs, b + len b ≤ hi
  apart : ∀ b ∈ bs, ∀ c ∈ bs, b ≠ c → Apart len b c

theorem layout_nil : Layout len lo hi [] :=
  ⟨by simp, by simp, by simp, by simp, by simp⟩

theorem layout_congr (h : Layout len lo hi bs) (he : ∀ b ∈ bs, len' b = len b) :
    Layout len' lo hi bs := by
  refine ⟨h.nodup, ?_, h.low, ?_, ?_⟩
  · intro b hb; rw [he b hb]; exact h.pos b hb
  · intro b hb; rw [he b hb]; exact h.high b hb
  · intro b hb c hc hne
    unfold Apart
    rw [he b hb, he c hc]
    exact h.apart b hb c hc hne

theorem layout_perm (h : Layout len lo hi bs) (hp : cs.Perm bs) : Layout len lo hi cs := by
  refine ⟨hp.nodup_iff.mpr h.nodup, ?_, ?_, ?_, ?_⟩
  · intro b hb; exact h.pos b (hp.subset hb)
  · intro b hb; exact h.low b (hp.subset hb)
  · intro b hb; exact h.high b (hp.subset hb)
  · intro b hb c hc; exact h.apart b (hp.subset hb) c (hp.subset hc)

theorem layout_tail {b : Nat} (h : Layout len lo hi (b :: bs)) : Layout len lo hi bs := by
  refine ⟨(List.nodup_cons.mp h.nodup).2, ?_, ?_, ?_, ?_⟩
  · intro x hx; exact h.pos x (by simp [hx])
  · intro x hx; exact h.low x (by simp [hx])
  · intro x hx; exact h.high x (by simp [hx])
  · intro x hx y hy; exact h.apart x (by simp [hx]) y (by simp [hy])

theorem layout_mono {hi' : Nat} (h : Layout len lo hi bs) (hle : hi ≤ hi') :
    Layout len lo hi' bs :=
  ⟨h.nodup, h.pos, h.low, fun b hb => le_trans (h.high b hb) hle, h.apart⟩

/-- No other block begins inside a block. -/
theorem Layout.not_inside {b c : Nat} (h : Layout len lo hi bs) (hb : b ∈ bs) (hc : c ∈ bs)
    (hne : b ≠ c) : c < b ∨ b + len b ≤ c := by
  have h1 := h.apart b hb c hc hne
  have h2 := h.pos c hc
  unfold Apart at h1
  omega

/-- A block that keeps clear of a layout joins it. -/
theorem layout_cons {b : Nat} (h : Layout len lo hi bs) (hpos : 0 < len b) (hlo : lo ≤ b)
    (hhi : b + len b ≤ hi) (hap : ∀ c ∈ bs, Apart len b c) : Layout len lo hi (b :: bs) := by
  have hnot : b ∉ bs := by
    intro hb
    have := hap b hb
    unfold Apart at this
    omega
  refine ⟨List.nodup_cons.mpr ⟨hnot, h.nodup⟩, ?_, ?_, ?_, ?_⟩
  · simp only [List.mem_cons, forall_eq_or_imp]; exact ⟨hpos, h.pos⟩
  · simp only [List.mem_cons, forall_eq_or_imp]; exact ⟨hlo, h.low⟩
  · simp only [List.mem_cons, forall_eq_or_imp]; exact ⟨hhi, h.high⟩
  · intro x hx y hy hne
    simp only [List.mem_cons] at hx hy
    rcases hx with rfl | hx <;> rcases hy with rfl | hy
    · exact absurd rfl hne
    · exact hap y hy
    · exact Or.symm (hap x hx)
    · exact h.apart x hx y hy hne

/-- A new block on top of the interval. -/
theorem layout_top {n : Nat} {hi' : Nat} (h : Layout len lo hi bs) (hlo : lo ≤ hi)
    (hn : len hi = n) (hpos : 0 < n) (hhi : hi + n ≤ hi') : Layout len lo hi' (hi :: bs) := by
  subst hn
  refine layout_cons (layout_mono h (by omega)) hpos hlo hhi ?_
  intro c hc
  exact Or.inr (h.high c hc)

/-- Two blocks that touch join into one. -/
theorem layout_merge {b c : Nat} (h : Layout len lo hi (b :: c :: bs)) (hbc : b + len b = c) :
    Layout (Function.update len b (len b + len c)) lo hi (b :: bs) := by
  have hn := h.nodup
  simp only [List.nodup_cons, List.mem_cons, not_or] at hn
  have hpb := h.pos b (by simp)
  have hpc := h.pos c (by simp)
  have hbs : Layout (Function.update len b (len b + len c)) lo hi bs := by
    refine layout_congr (layout_tail (layout_tail h)) ?_
    intro x hx
    rw [Function.update_of_ne]
    rintro rfl
    exact hn.1.2 hx
  refine layout_cons hbs (by simp; omega) (h.low b (by simp)) ?_ ?_
  · have := h.high c (by simp)
    simp only [Function.update_self]
    omega
  · intro x hx
    have hxb : x ≠ b := by rintro rfl; exact hn.1.2 hx
    have hxc : x ≠ c := by rintro rfl; exact hn.2.1 hx
    have h1 := h.not_inside (b := x) (c := c) (by simp [hx]) (by simp) hxc
    have h2 := h.not_inside (b := b) (c := x) (by simp) (by simp [hx]) hxb.symm
    have h3 := h.not_inside (b := c) (c := x) (by simp) (by simp [hx]) hxc.symm
    have h4 := h.not_inside (b := x) (c := b) (by simp [hx]) (by simp) hxb
    unfold Apart
    rw [Function.update_self, Function.update_of_ne hxb]
    omega

/-- A block cut in two: its front keeps `len b - n` bytes, the tail gets `n`. -/
theorem layout_cut {b t n : Nat} (h : Layout len lo hi (b :: bs)) (hn : 0 < n) (hlt : n < len b)
    (ht : t = b + (len b - n)) :
    Layout (Function.update (Function.update len b (len b - n)) t n) lo hi (b :: t :: bs) := by
  have hb := List.nodup_cons.mp h.nodup
  have hne : b ≠ t := by omega
  have hbs : Layout (Function.update (Function.update len b (len b - n)) t n) lo hi bs := by
    refine layout_congr (layout_tail h) ?_
    intro x hx
    have hxb : x ≠ b := by rintro rfl; exact hb.1 hx
    have := h.not_inside (b := b) (c := x) (by simp) (by simp [hx]) hxb.symm
    rw [Function.update_of_ne (by omega), Function.update_of_ne hxb]
  have hap : ∀ x ∈ bs, x ≠ b ∧ x ≠ t ∧ (b + len b ≤ x ∨ x + len x ≤ b) := by
    intro x hx
    have hxb : x ≠ b := by rintro rfl; exact hb.1 hx
    have h1 := h.not_inside (b := b) (c := x) (by simp) (by simp [hx]) hxb.symm
    have h2 := h.apart b (by simp) x (by simp [hx]) hxb.symm
    exact ⟨hxb, by omega, h2⟩
  have hlow := h.low b (by simp)
  have hhigh := h.high b (by simp)
  refine layout_cons (layout_cons hbs (by simpa using hn) (by omega) ?_ ?_) ?_ hlow ?_ ?_
  · simp only [Function.update_self]; omega
  · intro x hx
    obtain ⟨hxb, hxt, ho⟩ := hap x hx
    unfold Apart
    rw [Function.update_self, Function.update_of_ne hxt, Function.update_of_ne hxb]
    omega
  · rw [Function.update_of_ne hne, Function.update_self]; omega
  · rw [Function.update_of_ne hne, Function.update_self]; omega
  · intro x hx
    simp only [List.mem_cons] at hx
    rcases hx with rfl | hx
    · unfold Apart
      rw [Function.update_of_ne hne, Function.update_self]
      omega
    · obtain ⟨hxb, hxt, ho⟩ := hap x hx
      unfold Apart
      rw [Function.update_of_ne hne, Function.update_self, Function.update_of_ne hxt,
        Function.update_of_ne hxb]
      omega

/-! ## The bytes of all blocks -/

def total (len : Nat → Nat) (bs : List Nat) : Nat := (bs.map len).sum

@[simp] theorem total_cons (b : Nat) : total len (b :: bs) = len b + total len bs := by
  simp [total]

theorem total_congr (he : ∀ b ∈ bs, len' b = len b) : total len' bs = total len bs := by
  unfold total
  rw [List.map_congr_left he]

theorem total_perm (hp : cs.Perm bs) : total len cs = total len bs := (hp.map len).sum_eq

theorem total_merge {b c : Nat} (hn : (b :: c :: bs).Nodup) :
    total (Function.update len b (len b + len c)) (b :: bs) = total len (b :: c :: bs) := by
  simp only [List.nodup_cons, List.mem_cons, not_or] at hn
  have hrest : total (Function.update len b (len b + len c)) bs = total len bs := by
    apply total_congr
    intro x hx
    rw [Function.update_of_ne]
    rintro rfl
    exact hn.1.2 hx
  simp only [total_cons, hrest, Function.update_self]
  omega

theorem total_cut {b t n : Nat} (hb : b ∉ bs) (ht : t ∉ b :: bs) (hle : n ≤ len b) :
    total (Function.update (Function.update len b (len b - n)) t n) (b :: t :: bs) =
      total len (b :: bs) := by
  simp only [List.mem_cons, not_or] at ht
  have hrest : total (Function.update (Function.update len b (len b - n)) t n) bs =
      total len bs := by
    apply total_congr
    intro x hx
    rw [Function.update_of_ne, Function.update_of_ne]
    · rintro rfl
      exact hb hx
    · rintro rfl
      exact ht.2 hx
  simp only [total_cons, hrest, Function.update_self, Function.update_of_ne (Ne.symm ht.1)]
  omega

/-- Blocks that fill the interval leave no byte out. -/
theorem Layout.covers (h : Layout len lo hi bs) (hfull : total len bs = hi - lo)
    {a : Nat} (h1 : lo ≤ a) (h2 : a < hi) : ∃ b ∈ bs, b ≤ a ∧ a < b + len b := by
  have hsub : bs.toFinset.biUnion (fun b => Finset.Ico b (b + len b)) ⊆ Finset.Ico lo hi := by
    intro x hx
    obtain ⟨b, hb, hx⟩ := Finset.mem_biUnion.mp hx
    have hb := List.mem_toFinset.mp hb
    have hlo := h.low b hb
    have hhi := h.high b hb
    rw [Finset.mem_Ico] at hx ⊢
    omega
  have hcard : (bs.toFinset.biUnion fun b => Finset.Ico b (b + len b)).card =
      (Finset.Ico lo hi).card := by
    rw [Finset.card_biUnion, Nat.card_Ico, ← hfull]
    · unfold total
      rw [← List.sum_toFinset _ h.nodup]
      apply Finset.sum_congr rfl
      intro b _
      rw [Nat.card_Ico, Nat.add_sub_cancel_left]
    · intro b hb c hc hne
      have hap := h.apart b (List.mem_toFinset.mp hb) c (List.mem_toFinset.mp hc) hne
      refine Finset.disjoint_left.mpr fun x hx hx' => ?_
      rw [Finset.mem_Ico] at hx hx'
      unfold Apart at hap
      omega
  have hall := Finset.eq_of_subset_of_card_le hsub hcard.ge
  have hmem : a ∈ Finset.Ico lo hi := Finset.mem_Ico.mpr ⟨h1, h2⟩
  rw [← hall] at hmem
  obtain ⟨b, hb, hx⟩ := Finset.mem_biUnion.mp hmem
  exact ⟨b, List.mem_toFinset.mp hb, Finset.mem_Ico.mp hx⟩

end blocks
