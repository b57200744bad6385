-- Calls that end in a result or in a fault: how a sequence of them comes apart.
import Mathlib.Tactic

namespace faults

variable {ε : Type*} {α β : Type}

/-- A sequence has a result when each part has one. -/
theorem bind_ok {x : Except ε α} {f : α → Except ε β} {b : β} :
    (x >>= f) = .ok b ↔ ∃ a, x = .ok a ∧ f a = .ok b := by
  cases x with
  | error e => simp [bind, Except.bind]
  | ok a => simp [bind, Except.bind]

/-- A sequence ends in the fault of its first part that has one. -/
theorem bind_fault {x : Except ε α} {f : α → Except ε β} {e : ε} :
    (x >>= f) = .error e ↔ x = .error e ∨ ∃ a, x = .ok a ∧ f a = .error e := by
  cases x with
  | error e => simp [bind, Except.bind]
  | ok a => simp [bind, Except.bind]

/-- A first part that has a result can be left out. -/
@[simp]
theorem ok_bind (a : α) (f : α → Except ε β) : (Except.ok a >>= f) = f a := rfl

@[simp]
theorem error_bind (e : ε) (f : α → Except ε β) : (Except.error e >>= f) = .error e := rfl

@[simp]
theorem pure_eq_ok (a : α) : (pure a : Except ε α) = .ok a := rfl

/-- A counting loop of calls, each of which has a result and carries the invariant one further. -/
theorem foldlM_range {f : α → Nat → Except ε α} {P : Nat → α → Prop} {n : Nat}
    (hstep : ∀ i s, i < n → P i s → ∃ s', f s i = .ok s' ∧ P (i + 1) s') {s : α} (h : P 0 s) :
    ∃ s', (List.range n).foldlM f s = .ok s' ∧ P n s' := by
  induction n with
  | zero => exact ⟨s, rfl, h⟩
  | succ n ih =>
    obtain ⟨s1, h1, hs1⟩ := ih fun i s hi => hstep i s (Nat.lt_succ_of_lt hi)
    obtain ⟨s', h', hs'⟩ := hstep n s1 (Nat.lt_succ_self n) hs1
    refine ⟨s', ?_, hs'⟩
    rw [List.range_succ, List.foldlM_append, h1, ok_bind, List.foldlM_cons, h', ok_bind]
    rfl

/-! ## What holds of a result -/

/-- A result satisfies `Q`, and a fault is one of `E`. -/
def Post (E : ε → Prop) (Q : α → Prop) : Except ε α → Prop
  | .ok a => Q a
  | .error e => E e

variable {E : ε → Prop} {Q : α → Prop} {R : β → Prop}

@[simp]
theorem post_ok (a : α) : Post E Q (.ok a) ↔ Q a := Iff.rfl

@[simp]
theorem post_error (e : ε) : Post E Q (.error e : Except ε α) ↔ E e := Iff.rfl

/-- A sequence: what holds after the first part lets the second begin. -/
theorem Post.bind {x : Except ε α} {f : α → Except ε β} (hx : Post E Q x)
    (hf : ∀ a, Q a → Post E R (f a)) : Post E R (x >>= f) := by
  cases x with
  | error e => exact hx
  | ok a => exact hf a hx

theorem Post.mono {E' : ε → Prop} {Q' : α → Prop} {x : Except ε α} (h : Post E Q x)
    (hE : ∀ e, E e → E' e) (hQ : ∀ a, Q a → Q' a) : Post E' Q' x := by
  cases x with
  | error e => exact hE e h
  | ok a => exact hQ a h

theorem Post.result {x : Except ε α} {a : α} (h : Post E Q x) (ha : x = .ok a) : Q a := by
  rw [ha] at h
  exact h

theorem Post.fault {x : Except ε α} {e : ε} (h : Post E Q x) (he : x = .error e) : E e := by
  rw [he] at h
  exact h

end faults
