-- Strings that end with a zero, as they stand in a memory, and the words of a list between
-- delimiters.
import Mathlib.Tactic

namespace c_strings

variable {m m' : Nat → Nat} {a : Nat} {s t : List Nat}

/-! ## Strings in a memory -/

/-- The string stands at the address, and a zero after it. -/
def Holds (m : Nat → Nat) : Nat → List Nat → Prop
  | a, [] => m a = 0
  | a, c :: s => m a = c ∧ c ≠ 0 ∧ Holds m (a + 1) s

/-- A string is held where the memory is the same. -/
theorem Holds.congr (h : Holds m a s) (hm : ∀ b, a ≤ b → b ≤ a + s.length → m' b = m b) :
    Holds m' a s := by
  induction s generalizing a with
  | nil => exact (hm a le_rfl (by simp)).trans h
  | cons c s ih =>
    obtain ⟨hc, hne, hs⟩ := h
    refine ⟨(hm a le_rfl (by simp)).trans hc, hne, ih hs fun b h1 h2 => ?_⟩
    exact hm b (by omega) (by rw [List.length_cons]; omega)

/-- The rest of a string is held after its beginning. -/
theorem Holds.drop (h : Holds m a (s ++ t)) : Holds m (a + s.length) t := by
  induction s generalizing a with
  | nil => exact h
  | cons c s ih =>
    have hrest := ih h.2.2
    rwa [Nat.add_assoc, Nat.add_comm 1] at hrest

/-- A zero put into a string cuts it. -/
theorem Holds.cut {c : Nat} (h : Holds m a (s ++ c :: t)) :
    Holds (Function.update m (a + s.length) 0) a s ∧
      Holds (Function.update m (a + s.length) 0) (a + s.length + 1) t := by
  constructor
  · induction s generalizing a with
    | nil => simp [Holds]
    | cons d s ih =>
      obtain ⟨hd, hne, hs⟩ := h
      have hrest := ih hs
      rw [Nat.add_assoc, Nat.add_comm 1] at hrest
      refine ⟨?_, hne, hrest⟩
      rw [Function.update_of_ne (by rw [List.length_cons]; omega)]
      exact hd
  · have hrest := h.drop.2.2
    refine hrest.congr fun b h1 _ => ?_
    exact Function.update_of_ne (by omega) _ _

/-- A list of bytes that is stored with a zero after it. -/
theorem holds_of_bytes (hs : ∀ c ∈ s, c ≠ 0) (hm : ∀ i (h : i < s.length), m (a + i) = s[i])
    (hend : m (a + s.length) = 0) : Holds m a s := by
  induction s generalizing a with
  | nil => exact hend
  | cons c s ih =>
    refine ⟨hm 0 (by simp), hs c (by simp), ih (fun d hd => hs d (by simp [hd])) ?_ ?_⟩
    · intro i hi
      have hbyte := hm (i + 1) (by simpa using hi)
      rwa [Nat.add_assoc, Nat.add_comm 1]
    · rw [Nat.add_assoc, Nat.add_comm 1]
      exact hend

/-! ## Words -/

section words

variable {α : Type*} (p : α → Bool)

/-- The parts of a list between delimiters that are not empty, after the part of one that was
read. -/
def words (word : List α) : List α → List (List α)
  | [] => if word = [] then [] else [word]
  | c :: s =>
    if p c then if word = [] then words [] s else word :: words [] s
    else words (word ++ [c]) s

theorem words_skip (s : List α) : words p [] s = words p [] (s.dropWhile p) := by
  induction s with
  | nil => rfl
  | cons c s ih =>
    by_cases hc : p c
    · rw [List.dropWhile_cons_of_pos hc, ← ih, words, if_pos hc, if_pos rfl]
    · rw [List.dropWhile_cons_of_neg hc]

theorem words_take (s word : List α) (hne : word ≠ []) :
    words p word s =
      (word ++ s.takeWhile fun c => !p c) :: words p [] (s.dropWhile fun c => !p c) := by
  induction s generalizing word with
  | nil => simp [words, hne]
  | cons c s ih =>
    rw [words]
    by_cases hc : p c
    · rw [if_pos hc, if_neg hne, List.takeWhile_cons_of_neg (by simpa using hc),
        List.dropWhile_cons_of_neg (by simpa using hc), List.append_nil, words, if_pos hc,
        if_pos rfl]
    · rw [if_neg hc, List.takeWhile_cons_of_pos (by simpa using hc),
        List.dropWhile_cons_of_pos (by simpa using hc), ih _ (by simp), List.append_assoc]
      rfl

/-- A list that does not begin with a delimiter begins with a word. -/
theorem words_cons {c : α} (hc : ¬ p c) (s : List α) :
    words p [] (c :: s) =
      (c :: s.takeWhile fun c => !p c) :: words p [] (s.dropWhile fun c => !p c) := by
  rw [words, if_neg hc, List.nil_append, words_take p s [c] (by simp)]
  rfl

/-- The words hold everything that is not a delimiter, in order. -/
theorem flatten_words (s word : List α) :
    (words p word s).flatten = word ++ s.filter fun c => !p c := by
  induction s generalizing word with
  | nil =>
    by_cases hw : word = []
    · simp [words, hw]
    · simp [words, hw]
  | cons c s ih =>
    rw [words]
    by_cases hc : p c
    · by_cases hw : word = []
      · simp [hc, hw, ih]
      · simp [hc, hw, ih]
    · simp [hc, ih]

theorem length_le_of_mem_words {s w : List α} (h : w ∈ words p [] s) : w.length ≤ s.length := by
  have hflat := flatten_words p s []
  rw [List.nil_append] at hflat
  calc w.length ≤ (words p [] s).flatten.length := (List.sublist_flatten_of_mem h).length_le
    _ = (s.filter fun c => !p c).length := by rw [hflat]
    _ ≤ s.length := List.length_filter_le _ s

end words

end c_strings
