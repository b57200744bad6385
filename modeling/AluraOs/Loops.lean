-- Counting loops whose turns can fail: rules for what a whole loop keeps.
import Mathlib.Tactic

namespace loops

variable {σ : Type*}

/-- The total rule: if every turn goes on and carries the invariant one further,
the loop ends and the invariant holds there. -/
theorem foldlM_range' {f : σ → Nat → Option σ} {P : Nat → σ → Prop} {k n : Nat}
    (hstep : ∀ i s, k ≤ i → i < k + n → P i s → ∃ s', f s i = some s' ∧ P (i + 1) s')
    {s : σ} (h : P k s) :
    ∃ s', (List.range' k n).foldlM f s = some s' ∧ P (k + n) s' := by
  induction n generalizing k s with
  | zero => exact ⟨s, rfl, h⟩
  | succ n ih =>
    obtain ⟨s1, hb, h1⟩ := hstep k s (le_refl _) (by omega) h
    obtain ⟨s', hf, hs'⟩ := ih (fun i s hi hn => hstep i s (by omega) (by omega)) h1
    refine ⟨s', ?_, ?_⟩
    · rw [List.range'_succ, List.foldlM_cons, hb]
      exact hf
    · rw [show k + (n + 1) = k + 1 + n by omega]
      exact hs'

theorem foldlM_range {f : σ → Nat → Option σ} {P : Nat → σ → Prop} {n : Nat}
    (hstep : ∀ i s, i < n → P i s → ∃ s', f s i = some s' ∧ P (i + 1) s')
    {s : σ} (h : P 0 s) :
    ∃ s', (List.range n).foldlM f s = some s' ∧ P n s' := by
  have := foldlM_range' (k := 0) (n := n) (fun i s _ hi => hstep i s (by omega)) h
  rwa [Nat.zero_add, ← List.range_eq_range'] at this

/-- Two turns that go together, then two more. -/
theorem rel_bind {τ σ' τ' : Type*} {R : σ → τ → Prop} {S : σ' → τ' → Prop} {a : Option σ}
    {b : Option τ} {f : σ → Option σ'} {g : τ → Option τ'} (h : Option.Rel R a b)
    (hrest : ∀ x y, R x y → Option.Rel S (f x) (g y)) : Option.Rel S (a.bind f) (b.bind g) := by
  cases h with
  | none => exact Option.Rel.none
  | some hr => exact hrest _ _ hr

theorem rel_mono {τ : Type*} {R S : σ → τ → Prop} {a : Option σ} {b : Option τ}
    (h : Option.Rel R a b) (hrs : ∀ x y, R x y → S x y) : Option.Rel S a b := by
  cases h with
  | none => exact Option.Rel.none
  | some hr => exact Option.Rel.some (hrs _ _ hr)

/-- What goes together with a result is one. -/
theorem rel_some {τ : Type*} {R : σ → τ → Prop} {a : Option σ} {t : τ}
    (h : Option.Rel R a (some t)) : ∃ s, a = some s ∧ R s t := by
  cases h with
  | some hr => exact ⟨_, rfl, hr⟩

/-- Two loops that go together: if each turn ends both or keeps the relation between them, so do
the loops. -/
theorem foldlM_rel {α τ : Type*} {f : σ → α → Option σ} {g : τ → α → Option τ}
    {R : σ → τ → Prop} {l : List α}
    (hstep : ∀ a s t, a ∈ l → R s t → Option.Rel R (f s a) (g t a))
    {s : σ} {t : τ} (h : R s t) : Option.Rel R (l.foldlM f s) (l.foldlM g t) := by
  induction l generalizing s t with
  | nil => exact Option.Rel.some h
  | cons a l ih =>
    rw [List.foldlM_cons, List.foldlM_cons]
    refine rel_bind (hstep a s t List.mem_cons_self h) fun s' t' hr => ?_
    exact ih (fun b s t hb => hstep b s t (List.mem_cons_of_mem a hb)) hr

/-- The same for counting loops, where the relation may tell how far they are. -/
theorem foldlM_range_rel {τ : Type*} {f : σ → Nat → Option σ} {g : τ → Nat → Option τ}
    {R : Nat → σ → τ → Prop} {n : Nat}
    (hstep : ∀ i s t, i < n → R i s t → Option.Rel (R (i + 1)) (f s i) (g t i))
    {s : σ} {t : τ} (h : R 0 s t) :
    Option.Rel (R n) ((List.range n).foldlM f s) ((List.range n).foldlM g t) := by
  induction n with
  | zero => exact Option.Rel.some h
  | succ n ih =>
    rw [List.range_succ, List.foldlM_append, List.foldlM_append]
    refine rel_bind (ih fun i s t hi => hstep i s t (Nat.lt_succ_of_lt hi)) fun s' t' hr => ?_
    simpa using hstep n s' t' (Nat.lt_succ_self n) hr

/-- The rule for a loop whose turns cannot fail. -/
theorem foldl_range {f : σ → Nat → σ} {P : Nat → σ → Prop} {n : Nat}
    (hstep : ∀ i s, i < n → P i s → P (i + 1) (f s i)) {s : σ} (h : P 0 s) :
    P n ((List.range n).foldl f s) := by
  induction n with
  | zero => exact h
  | succ n ih =>
    rw [List.range_succ, List.foldl_append]
    exact hstep n _ (Nat.lt_succ_self n) (ih fun i s hi => hstep i s (Nat.lt_succ_of_lt hi))

end loops
