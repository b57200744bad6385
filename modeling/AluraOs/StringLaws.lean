-- The laws of the strings in memory: lengths, comparisons and copies are those of the lists that
-- they hold, and the tokens of a string are its words.
import AluraOs.Strings

namespace alura_os.string

open c_strings

variable {m : Nat → Nat} {a b fuel : Nat} {s t delimiter : List Nat}

/-! ## Lengths, comparisons and copies -/

theorem strlen_loop_eq {n : Nat} (h : Holds m (a + n) s) (hf : s.length < fuel) :
    strlen_loop m a fuel n = some (n + s.length) := by
  induction s generalizing n fuel with
  | nil =>
    obtain ⟨fuel, rfl⟩ : ∃ k, fuel = k + 1 := ⟨fuel - 1, by simp at hf; omega⟩
    rw [strlen_loop, if_neg (fun hne => hne h)]
    rfl
  | cons c s ih =>
    obtain ⟨fuel, rfl⟩ : ∃ k, fuel = k + 1 := ⟨fuel - 1, by simp at hf; omega⟩
    obtain ⟨hc, hne, hs⟩ := h
    rw [strlen_loop, if_pos (by rw [hc]; exact hne), ih hs (by simpa using hf)]
    simp only [List.length_cons, Option.some.injEq]
    omega

theorem strlen_eq (h : Holds m a s) (hf : s.length < fuel) : strlen m fuel a = some s.length := by
  unfold strlen
  rw [strlen_loop_eq h hf, Nat.zero_add]

/-- A comparison is the one of the lists of bytes. -/
theorem strcmp_eq (hs : Holds m a s) (ht : Holds m b t) (hf : s.length < fuel) :
    strcmp m fuel a b = some (if s = t then 0 else if s < t then -1 else 1) := by
  induction s generalizing a b t fuel with
  | nil =>
    obtain ⟨fuel, rfl⟩ : ∃ k, fuel = k + 1 := ⟨fuel - 1, by simp at hf; omega⟩
    have hzero : m a = 0 := hs
    rw [strcmp, if_neg (fun he => he.1 hzero)]
    cases t with
    | nil =>
      have hzero' : m b = 0 := ht
      simp [hzero, hzero']
    | cons d t =>
      obtain ⟨hd, hne, -⟩ := ht
      have hneg : ((m a : Int) - m b) < 0 := by
        rw [hzero, hd]
        omega
      simp [hneg]
  | cons c s ih =>
    obtain ⟨fuel, rfl⟩ : ∃ k, fuel = k + 1 := ⟨fuel - 1, by simp at hf; omega⟩
    obtain ⟨hc, hne, hs⟩ := hs
    rw [strcmp]
    cases t with
    | nil =>
      have hzero : m b = 0 := ht
      rw [if_neg (by rw [hc, hzero]; exact fun he => hne he.2)]
      have hpos : ¬ ((m a : Int) - m b) < 0 ∧ 0 < ((m a : Int) - m b) := by
        rw [hzero, hc]
        omega
      simp only [if_neg hpos.1, if_pos hpos.2]
      simp
    | cons d t =>
      obtain ⟨hd, hne', ht⟩ := ht
      by_cases hcd : c = d
      · subst hcd
        rw [if_pos ⟨by rw [hc]; exact hne, hc.trans hd.symm⟩, ih hs ht (by simpa using hf)]
        simp
      · rw [if_neg (by rw [hc, hd]; exact fun he => hcd he.2), hc, hd]
        simp only [List.cons.injEq, hcd, false_and, if_false, List.cons_lt_cons_iff, or_false]
        by_cases hlt : c < d
        · rw [if_pos (by omega), if_pos hlt]
        · rw [if_neg (by omega), if_pos (by omega), if_neg hlt]

/-- A copy downwards or to a place beyond the string. -/
theorem strcpy_eq {dst src : Nat} (h : Holds m src s) (hf : s.length < fuel)
    (hplace : dst ≤ src ∨ src + s.length < dst) :
    ∃ m', strcpy fuel m dst src = some m' ∧ Holds m' dst s ∧
      ∀ b, b < dst ∨ dst + s.length < b → m' b = m b := by
  induction s generalizing m dst src fuel with
  | nil =>
    obtain ⟨fuel, rfl⟩ : ∃ k, fuel = k + 1 := ⟨fuel - 1, by simp at hf; omega⟩
    have hzero : m src = 0 := h
    refine ⟨_, by rw [strcpy, if_neg (fun hne => hne hzero)], by simp [Holds], fun b hb => ?_⟩
    exact Function.update_of_ne (by simp at hb; omega) _ _
  | cons c s ih =>
    obtain ⟨fuel, rfl⟩ : ∃ k, fuel = k + 1 := ⟨fuel - 1, by simp at hf; omega⟩
    rw [List.length_cons] at hplace
    obtain ⟨hc, hne, hs⟩ := h
    have hs' : Holds (Function.update m dst (m src)) (src + 1) s :=
      hs.congr fun b h1 h2 => Function.update_of_ne (by omega) _ _
    have hplace' : dst + 1 ≤ src + 1 ∨ src + 1 + s.length < dst + 1 := by omega
    obtain ⟨m', hcopy, hheld, hother⟩ := ih hs' (by simpa using hf) hplace'
    refine ⟨m', ?_, ⟨?_, hne, hheld⟩, fun b hb => ?_⟩
    · rw [strcpy, if_pos (by rw [hc]; exact hne)]
      exact hcopy
    · rw [hother dst (Or.inl (by omega)), Function.update_self, hc]
    · rw [List.length_cons] at hb
      rw [hother b (by omega), Function.update_of_ne (by omega)]

/-! ## Tokens -/

theorem is_delimiter_iff (c : Nat) (delimiter : List Nat) :
    is_delimiter c delimiter = true ↔ c ∈ delimiter := by
  induction delimiter with
  | nil => simp [is_delimiter]
  | cons d delimiter ih =>
    rw [is_delimiter, List.mem_cons]
    by_cases hc : c = d
    · simp [hc]
    · rw [if_neg hc, ih]
      simp [hc]

/-- The words of a string between these delimiters. -/
def words_of (delimiter s : List Nat) : List (List Nat) :=
  words (is_delimiter · delimiter) [] s

theorem skip_delimiters_eq (h : Holds m a s) (hf : s.length < fuel) :
    skip_delimiters m delimiter fuel a =
      some (a + (s.takeWhile (is_delimiter · delimiter)).length) := by
  induction s generalizing a fuel with
  | nil =>
    obtain ⟨fuel, rfl⟩ : ∃ k, fuel = k + 1 := ⟨fuel - 1, by simp at hf; omega⟩
    rw [skip_delimiters, if_neg (fun hne => hne.1 h)]
    rfl
  | cons c s ih =>
    obtain ⟨fuel, rfl⟩ : ∃ k, fuel = k + 1 := ⟨fuel - 1, by simp at hf; omega⟩
    obtain ⟨hc, hne, hs⟩ := h
    rw [skip_delimiters, hc]
    by_cases hd : is_delimiter c delimiter
    · rw [if_pos ⟨hne, hd⟩, ih hs (by simpa using hf), 
        List.takeWhile_cons_of_pos (p := (is_delimiter · delimiter)) hd, List.length_cons]
      congr 1
      omega
    · rw [if_neg (fun hboth => hd hboth.2),
        List.takeWhile_cons_of_neg (p := (is_delimiter · delimiter)) hd]
      rfl

theorem end_token_eq (h : Holds m a s) (hf : s.length < fuel) :
    end_token m delimiter fuel a =
      match s.dropWhile (!is_delimiter · delimiter) with
      | [] => some ⟨m, some (a + s.length)⟩
      | _ :: _ =>
        some ⟨Function.update m (a + (s.takeWhile (!is_delimiter · delimiter)).length) 0,
          some (a + (s.takeWhile (!is_delimiter · delimiter)).length + 1)⟩ := by
  induction s generalizing a fuel with
  | nil =>
    obtain ⟨fuel, rfl⟩ : ∃ k, fuel = k + 1 := ⟨fuel - 1, by simp at hf; omega⟩
    rw [end_token, if_neg (fun hne => hne h)]
    rfl
  | cons c s ih =>
    obtain ⟨fuel, rfl⟩ : ∃ k, fuel = k + 1 := ⟨fuel - 1, by simp at hf; omega⟩
    obtain ⟨hc, hne, hs⟩ := h
    rw [end_token, hc, if_pos hne]
    by_cases hd : is_delimiter c delimiter
    · rw [if_pos hd, List.dropWhile_cons_of_neg (by simpa using hd),
        List.takeWhile_cons_of_neg (by simpa using hd)]
      rfl
    · rw [if_neg hd, ih hs (by simpa using hf), List.dropWhile_cons_of_pos (by simpa using hd),
        List.takeWhile_cons_of_pos (by simpa using hd), List.length_cons, List.length_cons]
      have hlen : a + 1 + s.length = a + (s.length + 1) := by omega
      have htake : a + 1 + (s.takeWhile (!is_delimiter · delimiter)).length =
          a + ((s.takeWhile (!is_delimiter · delimiter)).length + 1) := by omega
      rw [hlen, htake]

/-- What a call of `strtok` finds in the string that is left at `q`. -/
structure NextToken (m : Nat → Nat) (q : Nat) (delimiter s : List Nat) (m' : Nat → Nat)
    (start q' : Nat) (w s' : List Nat) : Prop where
  words : words_of delimiter s = w :: words_of delimiter s'
  token : Holds m' start w
  rest : Holds m' q' s'
  after : q ≤ start
  word : w ≠ []
  ends : start + w.length ≤ q'
  within : q' + s'.length ≤ q + s.length
  shorter : s'.length < s.length
  zeroed : ∀ b, m' b = m b ∨
    (q < b ∧ b < q + s.length ∧ is_delimiter (m b) delimiter ∧ m' b = 0)

/-- A call of `strtok` on the string that is left: there is no token and no word, or the next token
is the next word. -/
theorem strtok_step {k : strtok_t} {str : Option Nat} {q : Nat}
    (hq : (if str ≠ none then str else k.last_pos) = some q) (h : Holds k.memory q s)
    (hf : s.length < fuel) :
    (words_of delimiter s = [] ∧ ∃ q', strtok fuel k str delimiter =
      some (⟨k.memory, some q'⟩, none) ∧ Holds k.memory q' []) ∨
    ∃ m' start q' w s', strtok fuel k str delimiter = some (⟨m', some q'⟩, some start) ∧
      NextToken k.memory q delimiter s m' start q' w s' := by
  unfold strtok
  rw [hq]
  simp only []
  have hskip : skip_delimiters k.memory delimiter fuel q = _ := skip_delimiters_eq h hf
  have hsplit := s.takeWhile_append_dropWhile (p := (is_delimiter · delimiter))
  cases hd : s.dropWhile (is_delimiter · delimiter) with
  | nil =>
    -- nothing but delimiters is left
    have hwords : words_of delimiter s = [] := by
      unfold words_of
      rw [words_skip, hd]
      rfl
    rw [hd, List.append_nil] at hsplit
    rw [hsplit] at hskip
    have hend : Holds k.memory (q + s.length) [] := by
      have hdrop := Holds.drop (t := []) (by rwa [List.append_nil])
      exact hdrop
    left
    refine ⟨hwords, ?_⟩
    by_cases hzero : k.memory q = 0
    · exact ⟨q, if_pos hzero, hzero⟩
    · refine ⟨q + s.length, ?_, hend⟩
      have hat : k.memory (q + s.length) = 0 := hend
      rw [if_neg hzero, hskip]
      simp only [Option.bind_eq_bind, Option.bind_some, if_pos hat]
      rfl
  | cons c r =>
    right
    have hc : ¬ is_delimiter c delimiter := by
      have hhead := List.head?_dropWhile_not (is_delimiter · delimiter) s
      rw [hd] at hhead
      simpa using hhead
    rw [hd] at hsplit
    generalize s.takeWhile (is_delimiter · delimiter) = pre at hsplit hskip
    subst hsplit
    have hstart : Holds k.memory (q + pre.length) (c :: r) := h.drop
    have hwords : words_of delimiter (pre ++ c :: r) =
        (c :: r.takeWhile (!is_delimiter · delimiter)) ::
          words (is_delimiter · delimiter) [] (r.dropWhile (!is_delimiter · delimiter)) := by
      unfold words_of
      rw [words_skip, hd, words_cons (is_delimiter · delimiter) hc]
    have hfirst : k.memory q ≠ 0 := by
      cases pre with
      | nil => exact h.1 ▸ h.2.1
      | cons d pre => exact h.1 ▸ h.2.1
    have hhead : k.memory (q + pre.length) ≠ 0 := hstart.1 ▸ hstart.2.1
    rw [List.length_append, List.length_cons] at hf
    have hend : end_token k.memory delimiter fuel (q + pre.length) = _ :=
      end_token_eq hstart (by rw [List.length_cons]; omega)
    rw [if_neg hfirst, hskip]
    simp only [Option.bind_eq_bind, Option.bind_some, if_neg hhead]
    rw [List.takeWhile_cons_of_pos (by simpa using hc),
      List.dropWhile_cons_of_pos (by simpa using hc)] at hend
    have hparts := r.takeWhile_append_dropWhile (p := (!is_delimiter · delimiter))
    rw [hend]
    cases hr : r.dropWhile (!is_delimiter · delimiter) with
    | nil =>
      -- the token ends with the string
      rw [hr, List.append_nil] at hparts
      rw [hparts, hr] at hwords
      refine ⟨_, _, _, c :: r, [], rfl, hwords, hstart, ?_, by omega, by simp, le_rfl, ?_, ?_, ?_⟩
      · have hdrop := Holds.drop (t := []) (by rwa [List.append_nil])
        exact hdrop
      · simp
        omega
      · simp
      · exact fun b => Or.inl rfl
    | cons d t =>
      -- the token ends at a delimiter, which becomes a zero
      rw [hr] at hparts hwords
      have hd' : is_delimiter d delimiter := by
        have hhead := List.head?_dropWhile_not (!is_delimiter · delimiter) r
        rw [hr] at hhead
        simpa using hhead
      generalize r.takeWhile (!is_delimiter · delimiter) = w at hparts hwords
      subst hparts
      obtain ⟨htoken, hrest⟩ := Holds.cut (s := c :: w) hstart
      have hcut : k.memory (q + pre.length + (c :: w).length) = d :=
        (Holds.drop (s := c :: w) hstart).1
      have hnext : words (is_delimiter · delimiter) [] (d :: t) = words_of delimiter t := by
        rw [words, if_pos hd', if_pos rfl]
        rfl
      rw [hnext] at hwords
      refine ⟨_, _, _, c :: w, t, rfl, hwords, htoken, hrest, by omega, by simp, by omega, ?_, ?_,
        ?_⟩
      · simp only [List.length_append, List.length_cons]
        omega
      · simp only [List.length_append, List.length_cons]
        omega
      · intro b
        by_cases hb : b = q + pre.length + (c :: w).length
        · subst hb
          refine Or.inr ⟨by simp; omega, ?_, by rw [hcut]; exact hd', Function.update_self ..⟩
          simp only [List.length_append, List.length_cons]
          omega
        · exact Or.inl (Function.update_of_ne hb _ _)

/-- What the calls of `strtok` leave of a memory in which a string stood at `q`: bytes of the string
that were delimiters have become zeros, and nothing else has changed. -/
def Cut (m : Nat → Nat) (q : Nat) (delimiter s : List Nat) (m' : Nat → Nat) : Prop :=
  ∀ b, m' b = m b ∨ (q < b ∧ b < q + s.length ∧ is_delimiter (m b) delimiter ∧ m' b = 0)

/-- The string that is left after a token is cut further. -/
theorem NextToken.cut {m' m'' : Nat → Nat} {q start q' : Nat} {w s' : List Nat}
    (h : NextToken m q delimiter s m' start q' w s') (hc : Cut m' q' delimiter s' m'') :
    Cut m q delimiter s m'' ∧ Holds m'' start w := by
  have hafter := h.after
  have hends := h.ends
  have hwithin := h.within
  constructor
  · intro b
    rcases hc b with hb | ⟨h1, h2, hd, hb⟩
    · rw [hb]
      exact h.zeroed b
    · rcases h.zeroed b with hm | ⟨h3, h4, hd', -⟩
      · exact Or.inr ⟨by omega, by omega, hm ▸ hd, hb⟩
      · exact Or.inr ⟨h3, h4, hd', hb⟩
  · refine h.token.congr fun b _ h2 => ?_
    rcases hc b with hb | ⟨h3, -⟩
    · exact hb
    · omega

/-- The tokens stand in the string one behind the other. -/
def InOrder (q : Nat) (s ts : List Nat) : Prop :=
  ts.Pairwise (· < ·) ∧ ∀ token ∈ ts, q ≤ token ∧ token < q + s.length

/-- What a caller has when `strtok` gave it the last token of a string. -/
structure AllTokens (m : Nat → Nat) (q : Nat) (delimiter s : List Nat) (m' : Nat → Nat)
    (q' : Nat) (ts : List Nat) : Prop where
  words : List.Forall₂ (Holds m') ts (words_of delimiter s)
  order : InOrder q s ts
  cut : Cut m q delimiter s m'
  done : m' q' = 0

/-- A token stands before those of the string that is left behind it. -/
theorem NextToken.order {m' : Nat → Nat} {q start q' : Nat} {w s' ts : List Nat}
    (h : NextToken m q delimiter s m' start q' w s') (ho : InOrder q' s' ts) :
    InOrder q s (start :: ts) := by
  have hafter := h.after
  have hends := h.ends
  have hwithin := h.within
  have hword : 0 < w.length := List.length_pos_iff.mpr h.word
  obtain ⟨hrising, hinside⟩ := ho
  refine ⟨List.pairwise_cons.mpr ⟨?_, hrising⟩, ?_⟩
  · intro token ht
    have hlow := (hinside token ht).1
    omega
  · intro token ht
    rcases List.mem_cons.mp ht with rfl | ht
    · omega
    · have hin := hinside token ht
      omega

theorem further_tokens_eq (delimiter : List Nat) {k : strtok_t} {q turns : Nat}
    (hq : k.last_pos = some q) (h : Holds k.memory q s) (hf : s.length < fuel)
    (ht : s.length < turns) :
    ∃ m' q' ts, further_tokens fuel delimiter turns k = some (⟨m', some q'⟩, ts) ∧
      AllTokens k.memory q delimiter s m' q' ts := by
  induction turns generalizing k q s with
  | zero => omega
  | succ turns ih =>
    have hlast : (if (none : Option Nat) ≠ none then none else k.last_pos) = some q := hq
    rw [further_tokens]
    rcases strtok_step hlast h hf with
      ⟨hnone, q', hcall, hend⟩ | ⟨m1, start, q1, w, s1, hcall, hnext⟩
    · rw [hcall]
      refine ⟨k.memory, q', [], rfl, ?_, ⟨List.Pairwise.nil, by simp⟩, fun b => Or.inl rfl, hend⟩
      rw [hnone]
      exact List.Forall₂.nil
    · have hshorter := hnext.shorter
      obtain ⟨m', q', ts, hrest, hall⟩ :=
        ih (k := ⟨m1, some q1⟩) rfl hnext.rest (by omega) (by omega)
      obtain ⟨hcut, htoken⟩ := hnext.cut hall.cut
      rw [hcall]
      simp only [Option.bind_eq_bind, Option.bind_some, hrest]
      refine ⟨m', q', start :: ts, rfl, ?_, hnext.order hall.order, hcut, hall.done⟩
      rw [hnext.words]
      exact List.Forall₂.cons htoken hall.words

theorem tokens_eq (delimiter : List Nat) {str turns : Nat} (last_pos : Option Nat)
    (h : Holds m str s) (hf : s.length < fuel) (ht : s.length < turns) :
    ∃ m' q' ts, tokens fuel turns ⟨m, last_pos⟩ str delimiter = some (⟨m', some q'⟩, ts) ∧
      AllTokens m str delimiter s m' q' ts := by
  have hlast : (if (some str : Option Nat) ≠ none then some str else last_pos) = some str :=
    if_pos (by simp)
  unfold tokens
  rcases strtok_step (k := ⟨m, last_pos⟩) hlast h hf with
    ⟨hnone, q', hcall, hend⟩ | ⟨m1, start, q1, w, s1, hcall, hnext⟩
  · rw [hcall]
    refine ⟨m, q', [], rfl, ?_, ⟨List.Pairwise.nil, by simp⟩, fun b => Or.inl rfl, hend⟩
    rw [hnone]
    exact List.Forall₂.nil
  · have hshorter := hnext.shorter
    obtain ⟨m', q', ts, hrest, hall⟩ := further_tokens_eq delimiter (k := ⟨m1, some q1⟩) rfl
      hnext.rest (show s1.length < fuel by omega) (show s1.length < turns by omega)
    obtain ⟨hcut, htoken⟩ := hnext.cut hall.cut
    rw [hcall]
    simp only [Option.bind_eq_bind, Option.bind_some, hrest]
    refine ⟨m', q', start :: ts, rfl, ?_, hnext.order hall.order, hcut, hall.done⟩
    rw [hnext.words]
    exact List.Forall₂.cons htoken hall.words

/-- The tokens of a string are its words. The calls of `strtok` give the words of the string in
order, one behind the other in the string itself, and then no more; all that changes is that
delimiters of the string become zeros. -/
theorem tokens_are_words {str turns : Nat} (last_pos : Option Nat) (h : Holds m str s)
    (hf : s.length < fuel) (ht : s.length < turns) :
    ∃ m' q' ts, tokens fuel turns ⟨m, last_pos⟩ str delimiter = some (⟨m', some q'⟩, ts) ∧
      List.Forall₂ (Holds m') ts (words_of delimiter s) ∧ InOrder str s ts ∧
      Cut m str delimiter s m' ∧
      strtok fuel ⟨m', some q'⟩ none delimiter = some (⟨m', some q'⟩, none) := by
  obtain ⟨m', q', ts, htokens, hall⟩ := tokens_eq delimiter last_pos h hf ht
  refine ⟨m', q', ts, htokens, hall.words, hall.order, hall.cut, ?_⟩
  simp only [strtok, ne_eq, not_true_eq_false, if_false, if_pos hall.done]

/-- "ls  /a" at 0x1000. -/
def two_words : Nat → Nat := fun b => [108, 115, 32, 32, 47, 97].getD (b - 0x1000) 0

theorem two_words_are_cut :
    ∃ m' q' ts, tokens 16 16 ⟨two_words, none⟩ 0x1000 [32] = some (⟨m', some q'⟩, ts) ∧
      List.Forall₂ (Holds m') ts (words_of [32] [108, 115, 32, 32, 47, 97]) ∧
      InOrder 0x1000 [108, 115, 32, 32, 47, 97] ts ∧
      Cut two_words 0x1000 [32] [108, 115, 32, 32, 47, 97] m' ∧
      strtok 16 ⟨m', some q'⟩ none [32] = some (⟨m', some q'⟩, none) :=
  tokens_are_words none (by simp [Holds, two_words]) (by decide) (by decide)

/-! ## Paths -/

/-- The bytes of a path. -/
def bytes_of (path : List Char) : List Nat := path.map Char.toNat

theorem words_path (path part : List Char) :
    words (is_delimiter · [47]) (bytes_of part) (bytes_of path) =
      (vfs.components part path).map bytes_of := by
  have hslash : ∀ c : Char, is_delimiter c.toNat [47] = true ↔ c = '/' := by
    intro c
    rw [is_delimiter_iff, List.mem_singleton]
    exact ⟨fun h => Char.toNat_inj.mp h, fun h => by rw [h]; rfl⟩
  have hnil : ∀ l : List Char, bytes_of l = [] ↔ l = [] := fun l => List.map_eq_nil_iff
  induction path generalizing part with
  | nil =>
    by_cases hp : part = []
    · simp [words, vfs.components, bytes_of, hp]
    · simp [words, vfs.components, bytes_of, hp]
  | cons c path ih =>
    have hcons : bytes_of (c :: path) = c.toNat :: bytes_of path := rfl
    have hsnoc : bytes_of part ++ [c.toNat] = bytes_of (part ++ [c]) := by simp [bytes_of]
    rw [hcons, words, vfs.components]
    by_cases hc : c = '/'
    · rw [if_pos ((hslash c).mpr hc), if_pos hc]
      by_cases hp : part = []
      · rw [if_pos ((hnil part).mpr hp), if_pos hp]
        exact ih []
      · rw [if_neg (fun h => hp ((hnil part).mp h)), if_neg hp, List.map_cons, ← ih []]
        rfl
    · rw [if_neg (fun h => hc ((hslash c).mp h)), if_neg hc, hsnoc, ih]

/-- The tokens that `ramfs_get_or_create_directory` cuts out of a path are its components. -/
theorem path_tokens_are_components {str turns : Nat} (last_pos : Option Nat) {path : List Char}
    (h : Holds m str (bytes_of path)) (hf : path.length < fuel) (ht : path.length < turns) :
    ∃ m' q' ts, tokens fuel turns ⟨m, last_pos⟩ str [47] = some (⟨m', some q'⟩, ts) ∧
      List.Forall₂ (fun token part => Holds m' token (bytes_of part)) ts
        (vfs.components [] path) ∧ InOrder str (bytes_of path) ts := by
  have hlength : (bytes_of path).length = path.length := List.length_map _
  obtain ⟨m', q', ts, htokens, hall⟩ := tokens_eq [47] last_pos h (hlength ▸ hf) (hlength ▸ ht)
  refine ⟨m', q', ts, htokens, ?_, hall.order⟩
  have hwords := hall.words
  have hparts : words_of [47] (bytes_of path) = (vfs.components [] path).map bytes_of :=
    words_path path []
  rw [hparts] at hwords
  exact List.forall₂_map_right_iff.mp hwords

/-- The path at 0x1004. -/
theorem a_path_is_cut :
    ∃ m' q' ts, tokens 8 8 ⟨two_words, none⟩ 0x1004 [47] = some (⟨m', some q'⟩, ts) ∧
      List.Forall₂ (fun token part => Holds m' token (bytes_of part)) ts
        (vfs.components [] ['/', 'a']) ∧ InOrder 0x1004 (bytes_of ['/', 'a']) ts :=
  path_tokens_are_components none (by simp [Holds, two_words, bytes_of]) (by decide) (by decide)

end alura_os.string
