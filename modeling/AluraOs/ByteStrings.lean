-- Byte strings with holes: a write past the end fills the gap with zeros.
import Mathlib.Tactic

namespace byte_strings

/-- The string zero-extended to the offset, with the bytes from there on replaced. -/
def overwrite (s : List Nat) (offset : Nat) (bytes : List Nat) : List Nat :=
  (s ++ List.replicate (offset - s.length) 0).take offset ++ bytes ++
    s.drop (offset + bytes.length)

/-- The bytes of a range, as far as the string goes. -/
def slice (s : List Nat) (offset length : Nat) : List Nat := (s.drop offset).take length

@[simp]
theorem length_overwrite (s : List Nat) (offset : Nat) (bytes : List Nat) :
    (overwrite s offset bytes).length = max s.length (offset + bytes.length) := by
  simp only [overwrite, List.length_append, List.length_take, List.length_replicate,
    List.length_drop]
  omega

theorem getD_overwrite (s : List Nat) (offset : Nat) (bytes : List Nat) (i : Nat) :
    (overwrite s offset bytes).getD i 0 =
      if offset ≤ i ∧ i < offset + bytes.length then bytes.getD (i - offset) 0
      else s.getD i 0 := by
  have hpre : ((s ++ List.replicate (offset - s.length) 0).take offset).length = offset := by
    simp only [List.length_take, List.length_append, List.length_replicate]
    omega
  unfold overwrite
  simp only [List.getD_eq_getElem?_getD]
  rcases lt_or_ge i offset with hi | hi
  · rw [List.append_assoc, List.getElem?_append_left (by omega), if_neg (by omega),
      List.getElem?_take_of_lt hi]
    rcases lt_or_ge i s.length with hs | hs
    · rw [List.getElem?_append_left hs]
    · rw [List.getElem?_append_right hs, List.getElem?_replicate, if_pos (by omega),
        List.getElem?_eq_none hs]
      rfl
  · rcases lt_or_ge i (offset + bytes.length) with hb | hb
    · rw [List.append_assoc, List.getElem?_append_right (by omega), hpre,
        List.getElem?_append_left (by omega), if_pos ⟨hi, hb⟩]
    · rw [List.getElem?_append_right (by simp only [List.length_append, hpre]; omega),
        if_neg (by omega), List.length_append, hpre, List.getElem?_drop]
      congr 2
      omega

/-- Two strings of one length with the same bytes are equal. -/
theorem ext_getD {s t : List Nat} (hl : s.length = t.length)
    (h : ∀ i < s.length, s.getD i 0 = t.getD i 0) : s = t := by
  apply List.ext_getElem hl
  intro i hs ht
  simpa [List.getD_eq_getElem?_getD, hs, ht] using h i hs

end byte_strings
