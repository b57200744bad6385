-- A sequence of stores to a memory: what an address holds after it.
import Mathlib.Tactic

namespace byte_stores

variable {α β : Type*}

/-- No two stores disagree about an address. -/
def Agreeing (l : List (α × β)) : Prop := ∀ a b c, (a, b) ∈ l → (a, c) ∈ l → b = c

theorem Agreeing.tail {s : α × β} {l : List (α × β)} (h : Agreeing (s :: l)) : Agreeing l :=
  fun a b c hb hc => h a b c (List.mem_cons_of_mem s hb) (List.mem_cons_of_mem s hc)

variable [DecidableEq α]

/-- The memory after the stores, the first one first. -/
def stored (memory : α → β) : List (α × β) → α → β
  | [] => memory
  | s :: rest => stored (Function.update memory s.1 s.2) rest

/-- An address that no store is for stays. -/
theorem stored_other {l : List (α × β)} {a : α} (memory : α → β) (h : ∀ b, (a, b) ∉ l) :
    stored memory l a = memory a := by
  induction l generalizing memory with
  | nil => rfl
  | cons s rest ih =>
    have hne : a ≠ s.1 := by
      rintro rfl
      exact h s.2 (by simp)
    have hrest : ∀ b, (a, b) ∉ rest := fun b hb => h b (List.mem_cons_of_mem s hb)
    simp only [stored]
    rw [ih _ hrest, Function.update_of_ne hne]

/-- The value of a store stands, when no other one disagrees. -/
theorem stored_at {l : List (α × β)} {a : α} {b : β} (memory : α → β) (hl : Agreeing l)
    (h : (a, b) ∈ l) : stored memory l a = b := by
  induction l generalizing memory with
  | nil => simp at h
  | cons s rest ih =>
    simp only [stored]
    by_cases hr : (a, b) ∈ rest
    · exact ih _ hl.tail hr
    · have hs : s = (a, b) := ((List.mem_cons.mp h).resolve_right hr).symm
      subst hs
      by_cases hc : ∃ c, (a, c) ∈ rest
      · obtain ⟨c, hc⟩ := hc
        have hbc := hl a b c (by simp) (by simp [hc])
        subst hbc
        exact absurd hc hr
      · rw [stored_other _ fun c hm => hc ⟨c, hm⟩]
        simp

end byte_stores
