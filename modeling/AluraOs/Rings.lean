-- Ring buffers: a list that lies in `n` cells from `tail` on and wraps around at the
-- end. What it holds when an element is added at its head or taken from its tail.
import Mathlib.Tactic

namespace rings

variable {α : Type*} {n tail count : Nat} {buffer : Nat → α}

/-- The elements of the ring, the oldest first. -/
def contents (n : Nat) (buffer : Nat → α) (tail count : Nat) : List α :=
  (List.range count).map fun i => buffer ((tail + i) % n)

@[simp] theorem length_contents : (contents n buffer tail count).length = count := by
  simp [contents]

/-- Two places of the ring that are less than `n` apart are different cells. -/
theorem cells_differ {i : Nat} (hi : i < count) (hc : count < n) :
    (tail + i) % n ≠ (tail + count) % n := by
  intro he
  have hmod : tail + i ≡ tail + count [MOD n] := he
  have hcount : i ≡ count [MOD n] := Nat.ModEq.add_left_cancel' tail hmod
  rw [Nat.ModEq, Nat.mod_eq_of_lt (by omega), Nat.mod_eq_of_lt hc] at hcount
  omega

/-- An element is added at the head. -/
theorem contents_push (hc : count < n) (x : α) :
    contents n (Function.update buffer ((tail + count) % n) x) tail (count + 1) =
      contents n buffer tail count ++ [x] := by
  unfold contents
  rw [List.range_succ, List.map_append, List.map_singleton, Function.update_self]
  congr 1
  apply List.map_congr_left
  intro i hi
  exact Function.update_of_ne (cells_differ (List.mem_range.mp hi) hc) x buffer

/-- An element is taken from the tail. -/
theorem contents_pop (ht : tail < n) :
    contents n buffer tail (count + 1) =
      buffer tail :: contents n buffer ((tail + 1) % n) count := by
  unfold contents
  rw [List.range_succ_eq_map, List.map_cons, List.map_map]
  congr 1
  · rw [Nat.add_zero, Nat.mod_eq_of_lt ht]
  · apply List.map_congr_left
    intro i _
    have hcell : (tail + (i + 1)) % n = ((tail + 1) % n + i) % n := by
      rw [Nat.mod_add_mod]
      congr 1
      omega
    exact congrArg buffer hcell

/-- The head, after an element is added. -/
theorem head_push (tail count n : Nat) :
    ((tail + count) % n + 1) % n = (tail + (count + 1)) % n := by
  rw [Nat.mod_add_mod]
  rfl

/-- The head stays where it is when an element is taken. -/
theorem head_pop (tail count n : Nat) :
    (tail + (count + 1)) % n = ((tail + 1) % n + count) % n := by
  rw [Nat.mod_add_mod]
  congr 1
  omega

end rings
