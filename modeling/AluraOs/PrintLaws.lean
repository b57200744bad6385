-- The laws of formatted output: the text that a format stands for, and when `vsnprintf` prints it
-- inside its buffer.
import Mathlib.Data.Nat.Digits.Lemmas
import AluraOs.Faults
import AluraOs.Print

namespace alura_os.print

open alura_os.memory alura_os.task_manager faults print_t

/-! ## Formats -/

/-- The parts of a format: plain characters, conversions, letters that are none, and a `%` or `%l` that
the format ends in. -/
inductive piece_t where
  | char (c : Nat)
  | str
  | dec
  | chr
  | hex
  | long_hex
  | unknown (first c : Nat)
  | cut (first : Nat)
  deriving DecidableEq, Repr

def pieces : List Nat → List piece_t
  | [] => []
  | c :: fmt =>
    if c ≠ PERCENT then .char c :: pieces fmt
    else
      match fmt with
      | [] => [.cut PERCENT]
      | 115 :: fmt => .str :: pieces fmt
      | 100 :: fmt => .dec :: pieces fmt
      | 99 :: fmt => .chr :: pieces fmt
      | 120 :: fmt => .hex :: pieces fmt
      | [108] => [.cut 108]
      | 108 :: 120 :: fmt => .long_hex :: pieces fmt
      | 108 :: 100 :: fmt => .dec :: pieces fmt
      | 108 :: c :: fmt => .unknown 108 c :: pieces fmt
      | c :: fmt => .unknown PERCENT c :: pieces fmt

/-- What `vsnprintf` does for one part. -/
def print_piece (s : print_t) : piece_t → List arg_t → Except fault_t (print_t × List arg_t)
  | .char c, args => (·, args) <$> s.put c
  | .str, .string string :: args => (·, args) <$> s.put_text string
  | .dec, .int number :: args => (·, args) <$> print_decimal s number
  | .chr, .int number :: args => (·, args) <$> s.put (number % 256).toNat
  | .hex, .unsigned number :: args => (·, args) <$> print_hexadecimal s number
  | .long_hex, .long number :: args => (·, args) <$> print_hexadecimal s number
  | .unknown first c, args => (·, args) <$> print_unknown s first c
  | .cut first, _ => print_unknown s first 0 >>= fun _ => throw .format
  | _, _ => throw .arguments

def piece_loop (s : print_t) : List piece_t → List arg_t → Except fault_t print_t
  | [], _ => .ok s
  | p :: rest, args =>
    if s.buffer_len ≤ s.written + 1 then .ok s
    else do
      let r ← print_piece s p args
      piece_loop r.1 rest r.2

theorem piece_loop_full {s : print_t} (h : s.buffer_len ≤ s.written + 1) (ps : List piece_t)
    (args : List arg_t) : piece_loop s ps args = .ok s := by
  cases ps with
  | nil => rfl
  | cons p rest => exact if_pos h

theorem piece_loop_cons {s : print_t} (h : ¬ s.buffer_len ≤ s.written + 1) (p : piece_t)
    (rest : List piece_t) (args : List arg_t) :
    piece_loop s (p :: rest) args =
      print_piece s p args >>= fun r => piece_loop r.1 rest r.2 := if_neg h

theorem throw_bind {α β : Type} (e : fault_t) (f : α → Except fault_t β) :
    ((throw e : Except fault_t α) >>= f) = throw e := rfl

theorem pieces_char {c : Nat} (h : c ≠ PERCENT) (fmt : List Nat) :
    pieces (c :: fmt) = .char c :: pieces fmt := by
  rw [pieces.eq_def]
  exact if_pos h

/-- An argument that a conversion does not take. -/
theorem print_piece_mismatch (s : print_t) {p : piece_t} {args : List arg_t}
    (h : match p with
      | .str => ∀ x rest, args ≠ .string x :: rest
      | .dec | .chr => ∀ x rest, args ≠ .int x :: rest
      | .hex => ∀ x rest, args ≠ .unsigned x :: rest
      | .long_hex => ∀ x rest, args ≠ .long x :: rest
      | _ => False) : print_piece s p args = throw .arguments := by
  cases p <;> cases args with
  | nil => first | rfl | exact absurd h id
  | cons a rest => cases a <;> first | rfl | exact absurd h id | exact absurd rfl (h _ _)

/-- The loop over the characters of a format is a loop over its parts. -/
theorem format_loop_eq (s : print_t) (fmt : List Nat) (args : List arg_t) :
    format_loop s fmt args = piece_loop s (pieces fmt) args := by
  fun_induction format_loop s fmt args
  case case1 => rfl
  case case2 h => exact (piece_loop_full h _ _).symm
  case case3 h hc ih =>
    rw [pieces_char hc, piece_loop_cons h]
    simp only [print_piece, bind_map_left, ih]
  case case6 | case8 | case10 | case12 | case15 | case17 =>
    simp_all only [pieces, ne_eq, not_false_eq_true, if_false, piece_loop_cons]
    rw [print_piece_mismatch]
    · rfl
    · assumption
  all_goals
    simp_all only [pieces, ne_eq, not_false_eq_true, if_false, piece_loop_cons, print_piece,
      bind_map_left, bind_assoc, throw_bind]

/-! ## Text in the buffer -/

variable {b : Nat → Nat} {len : Nat} {text : List Nat}

/-- A buffer that held `b`, with the text in it as far as it goes. -/
def printed (b : Nat → Nat) (len : Nat) (text : List Nat) : print_t where
  buffer := fun i => if i < min text.length (len - 1) then text.getD i 0 else b i
  buffer_len := len
  written := min text.length (len - 1)

theorem printed_nil : printed b len [] = ⟨b, len, 0⟩ := by
  simp [printed]

/-- A full buffer takes no more. -/
theorem printed_full (h : len ≤ text.length + 1) (more : List Nat) :
    printed b len (text ++ more) = printed b len text := by
  have hmin : min (text ++ more).length (len - 1) = min text.length (len - 1) := by
    rw [List.length_append]
    omega
  unfold printed
  rw [hmin]
  congr 1
  funext i
  split
  · rw [List.getD_append _ _ _ _ (by omega)]
  · rfl

theorem put_printed (h : text.length + 1 < len) (c : Nat) :
    (printed b len text).put c = .ok (printed b len (text ++ [c])) := by
  have hmin : min text.length (len - 1) = text.length := by omega
  have hmin' : min (text ++ [c]).length (len - 1) = text.length + 1 := by
    rw [List.length_append, List.length_singleton]
    omega
  unfold put store
  rw [if_pos (by simp only [printed, hmin]; omega)]
  refine congrArg Except.ok ?_
  unfold advance printed
  rw [hmin, hmin']
  congr 1
  funext i
  simp only [Function.update_apply]
  rcases Nat.lt_trichotomy i text.length with hi | rfl | hi
  · rw [if_neg (by omega), if_pos hi, if_pos (by omega), List.getD_append _ _ _ _ hi]
  · rw [if_pos rfl, if_pos (by omega), List.getD_append_right _ _ _ _ le_rfl]
    simp
  · rw [if_neg (by omega), if_neg (by omega), if_neg (by omega)]

theorem put_text_printed (hl : 1 ≤ len) (more : List Nat) :
    (printed b len text).put_text more = .ok (printed b len (text ++ more)) := by
  induction more generalizing text with
  | nil => rw [List.append_nil, put_text]
  | cons c rest ih =>
    rw [put_text]
    by_cases h : text.length + 1 < len
    · rw [if_pos (by simp only [printed]; omega), put_printed h]
      show (printed b len (text ++ [c])).put_text rest = _
      rw [ih, List.append_assoc, List.singleton_append]
    · rw [if_neg (by simp only [printed]; omega), printed_full (by omega)]

/-- Two characters that are stored and then counted. -/
theorem store_two (s : print_t) (c d : Nat) :
    (s.store s.written c >>= fun s => s.store (s.written + 1) d >>= fun s => .ok (s.advance 2)) =
      s.put c >>= fun s => s.put d := by
  unfold put store
  by_cases h1 : s.written < s.buffer_len
  · by_cases h2 : s.written + 1 < s.buffer_len
    · simp [h1, h2, advance, bind, Except.bind, pure, Except.pure]
    · simp [h1, h2, advance, bind, Except.bind, pure, Except.pure]
  · simp only [if_neg h1]
    rfl

theorem put_two_printed (h : text.length + 2 < len) (c d : Nat) :
    ((printed b len text).put c >>= fun s => s.put d) = .ok (printed b len (text ++ [c, d])) := by
  rw [put_printed (by omega)]
  show (printed b len (text ++ [c])).put d = _
  rw [put_printed (by rw [List.length_append, List.length_singleton]; omega), List.append_assoc,
    List.singleton_append]

/-! ## Conversions -/

/-- The digits of a number in C order, as `%x` prints it. -/
def hexadecimal_text (number : Nat) : List Nat :=
  [48, 120] ++ (hexadecimal_digits (FORMATTED_PRINT_NUMBER_BUFFER_LENGTH - 1) number).reverse

/-- What `%d` prints. -/
def decimal_text (number : Int) : List Nat :=
  if number < 0 then
    45 :: (decimal_digits (FORMATTED_PRINT_NUMBER_BUFFER_LENGTH - 1) (negate number)).reverse
  else (decimal_digits (FORMATTED_PRINT_NUMBER_BUFFER_LENGTH - 1) number).reverse

theorem print_decimal_printed (h : text.length + 1 < len) (number : Int) :
    print_decimal (printed b len text) number =
      .ok (printed b len (text ++ decimal_text number)) := by
  unfold print_decimal decimal_text
  split
  · rw [put_printed h]
    show (printed b len (text ++ [45])).put_text _ = _
    rw [put_text_printed (by omega), List.append_assoc, List.singleton_append]
  · exact put_text_printed (by omega) _

theorem print_hexadecimal_eq (s : print_t) (number : Nat) :
    print_hexadecimal s number =
      (s.put 48 >>= fun s => s.put 120) >>= fun s => s.put_text
        (hexadecimal_digits (FORMATTED_PRINT_NUMBER_BUFFER_LENGTH - 1) number).reverse := by
  rw [← store_two]
  simp only [bind_assoc]
  rfl

theorem print_hexadecimal_printed (h : text.length + 2 < len) (number : Nat) :
    print_hexadecimal (printed b len text) number =
      .ok (printed b len (text ++ hexadecimal_text number)) := by
  rw [print_hexadecimal_eq, put_two_printed h]
  show (printed b len (text ++ [48, 120])).put_text _ = _
  rw [put_text_printed (by omega), hexadecimal_text, List.append_assoc]

theorem print_unknown_printed (h : text.length + 2 < len) (first c : Nat) :
    print_unknown (printed b len text) first c = .ok (printed b len (text ++ [first, c])) := by
  rw [← put_two_printed h]
  unfold print_unknown
  rw [put_printed (by omega)]
  have hroom : (printed b len (text ++ [first])).written + 1 <
      (printed b len (text ++ [first])).buffer_len := by
    simp only [printed, List.length_append, List.length_singleton]
    omega
  simp only [bind, Except.bind, if_pos hroom]
  rfl

theorem put_text_full {s : print_t} (h : s.buffer_len ≤ s.written + 1) (more : List Nat) :
    s.put_text more = .ok s := by
  cases more with
  | nil => rfl
  | cons c rest => exact if_neg (by omega)

theorem put_last {s : print_t} (h : s.written + 1 = s.buffer_len) (c : Nat) :
    ∃ s', s.put c = .ok s' ∧ s'.buffer_len = s.buffer_len ∧ s'.written = s.buffer_len := by
  unfold put store
  rw [if_pos (by omega)]
  exact ⟨_, rfl, rfl, h⟩

/-- A pair of characters on the last two bytes of the buffer: they are counted past its end. -/
theorem print_hexadecimal_overruns (h : text.length + 2 = len) (number : Nat) :
    ∃ s, print_hexadecimal (printed b len text) number = .ok s ∧ s.buffer_len = len ∧
      s.written = len := by
  have hwritten : (printed b len (text ++ [48])).written + 1 = len := by
    simp only [printed, List.length_append, List.length_singleton]
    omega
  obtain ⟨s, hput, hs, hw⟩ := put_last hwritten 120
  refine ⟨s, ?_, hs, hw⟩
  rw [print_hexadecimal_eq, put_printed (by omega)]
  show ((printed b len (text ++ [48])).put 120 >>= _) = _
  rw [hput]
  exact put_text_full (by omega) _

theorem print_unknown_overruns (h : text.length + 2 = len) (first c : Nat) :
    ∃ s, print_unknown (printed b len text) first c = .ok s ∧ s.buffer_len = len ∧
      s.written = len := by
  have hwritten : (printed b len (text ++ [first])).written + 1 = len := by
    simp only [printed, List.length_append, List.length_singleton]
    omega
  have hfull : ¬ (printed b len (text ++ [first])).written + 1 <
      (printed b len (text ++ [first])).buffer_len := by
    rw [hwritten]
    exact lt_irrefl len
  refine ⟨(printed b len (text ++ [first])).advance 1, ?_, rfl, hwritten⟩
  unfold print_unknown
  rw [put_printed (by omega)]
  simp only [bind, Except.bind, if_neg hfull]
  rfl

/-! ## Parts of a format -/

/-- The text of one part, with numbers as `dec` and `hex` write them, and the arguments after it. -/
def piece_text (dec : Int → List Nat) (hex : Nat → List Nat) :
    piece_t → List arg_t → Option (List Nat × List arg_t)
  | .char c, args => some ([c], args)
  | .str, .string string :: args => some (string, args)
  | .dec, .int number :: args => some (dec number, args)
  | .chr, .int number :: args => some ([(number % 256).toNat], args)
  | .hex, .unsigned number :: args => some (hex number, args)
  | .long_hex, .long number :: args => some (hex number, args)
  | .unknown first c, args => some ([first, c], args)
  | .cut first, args => some ([first], args)
  | _, _ => none

/-- The text of a format for its arguments, if they match it. -/
def render (dec : Int → List Nat) (hex : Nat → List Nat) :
    List piece_t → List arg_t → Option (List Nat)
  | [], _ => some []
  | p :: rest, args => do
    let r ← piece_text dec hex p args
    let text ← render dec hex rest r.2
    return r.1 ++ text

theorem render_cons {dec : Int → List Nat} {hex : Nat → List Nat} {p : piece_t}
    {ps : List piece_t} {args : List arg_t} {t : List Nat} :
    render dec hex (p :: ps) args = some t ↔
      ∃ u rest, piece_text dec hex p args = some (u, rest) ∧
        ∃ v, render dec hex ps rest = some v ∧ u ++ v = t := by
  simp [render, Option.bind_eq_some_iff]

/-- Parts that are printed two characters at a time. -/
def Pair : piece_t → Prop
  | .hex | .long_hex | .unknown _ _ => True
  | _ => False

/-- The `%` or `%l` that the format ends in. -/
def Cut : piece_t → Prop
  | .cut _ => True
  | _ => False

theorem print_piece_printed {p : piece_t} {args rest : List arg_t} {t : List Nat}
    (hp : piece_text decimal_text hexadecimal_text p args = some (t, rest))
    (h : text.length + 1 < len) (hcut : ¬ Cut p) (hpair : Pair p → text.length + 2 ≠ len) :
    print_piece (printed b len text) p args = .ok (printed b len (text ++ t), rest) := by
  unfold piece_text at hp
  split at hp
  case h_8 => exact absurd trivial hcut
  case h_9 => exact absurd hp (by simp)
  all_goals
    obtain ⟨rfl, rfl⟩ := Prod.mk.inj (Option.some.inj hp)
    have hpair' : Pair _ → text.length + 2 < len := fun hq => by have := hpair hq; omega
    simp only [print_piece, put_printed h, put_text_printed (show 1 ≤ len by omega),
      print_decimal_printed h]
  case h_5 | h_6 =>
    rw [print_hexadecimal_printed (hpair' trivial)]
    rfl
  case h_7 =>
    rw [print_unknown_printed (hpair' trivial)]
    rfl
  all_goals rfl

theorem print_piece_overruns {p : piece_t} {args rest : List arg_t} {t : List Nat}
    (hp : piece_text decimal_text hexadecimal_text p args = some (t, rest)) (hpair : Pair p)
    (h : text.length + 2 = len) :
    ∃ s, print_piece (printed b len text) p args = .ok (s, rest) ∧ s.buffer_len = len ∧
      s.written = len := by
  unfold piece_text at hp
  split at hp
  case h_5 number args | h_6 number args =>
    obtain ⟨rfl, rfl⟩ := Prod.mk.inj (Option.some.inj hp)
    obtain ⟨s, hs, hlen, hw⟩ := print_hexadecimal_overruns (b := b) h number
    exact ⟨s, by rw [print_piece, hs]; rfl, hlen, hw⟩
  case h_7 first c =>
    obtain ⟨rfl, rfl⟩ := Prod.mk.inj (Option.some.inj hp)
    obtain ⟨s, hs, hlen, hw⟩ := print_unknown_overruns (b := b) h first c
    exact ⟨s, by rw [print_piece, hs]; rfl, hlen, hw⟩
  all_goals first | exact absurd hpair id | exact absurd hp (by simp)

/-- A format that ends in a conversion is read past its end. -/
theorem print_piece_cut {p : piece_t} (hcut : Cut p) (h : text.length + 1 < len)
    (args : List arg_t) : print_piece (printed b len text) p args = .error .format := by
  cases p with
  | cut first =>
    rcases Nat.lt_or_ge (text.length + 2) len with hlt | hge
    · rw [print_piece, print_unknown_printed hlt]
      rfl
    · obtain ⟨s, hs, -, -⟩ := print_unknown_overruns (b := b) (show text.length + 2 = len by omega) first 0
      rw [print_piece, hs]
      rfl
  | _ => exact absurd hcut id

/-! ## Whole formats -/

/-- No conversion stands where it leaves the buffer or the format, when `before` characters are there
already: a pair does not start on the last two bytes, and a `%` or `%l` at the end of the format is not
reached. -/
def Contained (dec : Int → List Nat) (hex : Nat → List Nat) (len before : Nat)
    (ps : List piece_t) (args : List arg_t) : Prop :=
  ∀ first p rest, ps = first ++ p :: rest → ∀ t, render dec hex first args = some t →
    (Cut p → len ≤ before + t.length + 1) ∧ (Pair p → before + t.length + 2 ≠ len)

theorem contained_cons {dec : Int → List Nat} {hex : Nat → List Nat} {before : Nat} {p : piece_t}
    {ps : List piece_t} {args rest : List arg_t} {t : List Nat}
    (hp : piece_text dec hex p args = some (t, rest)) :
    Contained dec hex len before (p :: ps) args ↔
      (Cut p → len ≤ before + 1) ∧ (Pair p → before + 2 ≠ len) ∧
        Contained dec hex len (before + t.length) ps rest := by
  constructor
  · intro h
    have hhead := h [] p ps rfl [] rfl
    refine ⟨by simpa using hhead.1, by simpa using hhead.2, ?_⟩
    rintro first q after rfl u hu
    have htail := h (p :: first) q after rfl (t ++ u) (by simp [render, hp, hu])
    simpa [Nat.add_assoc] using htail
  · rintro ⟨hcut, hpair, h⟩ first q after he u hu
    cases first with
    | nil =>
      obtain ⟨rfl, rfl⟩ := List.cons.inj he
      obtain rfl : [] = u := Option.some.inj hu
      exact ⟨by simpa using hcut, by simpa using hpair⟩
    | cons p' first =>
      obtain ⟨rfl, rfl⟩ := List.cons.inj he
      obtain ⟨t', rest', hp', v, hv, rfl⟩ := render_cons.mp hu
      obtain ⟨rfl, rfl⟩ := Prod.mk.inj (Option.some.inj (hp.symm.trans hp'))
      simpa [Nat.add_assoc] using h first q after rfl v hv

/-- A full buffer contains whatever comes. -/
theorem contained_full {dec : Int → List Nat} {hex : Nat → List Nat} {before : Nat}
    (h : len ≤ before + 1) (ps : List piece_t) (args : List arg_t) :
    Contained dec hex len before ps args := by
  rintro first p rest - t -
  constructor
  · intro _
    omega
  · intro _
    omega

/-- The loop prints the text of the format, as far as the buffer goes. -/
theorem piece_loop_printed (hl : 1 ≤ len) {ps : List piece_t} {args : List arg_t} {t : List Nat}
    (ht : render decimal_text hexadecimal_text ps args = some t)
    (hc : Contained decimal_text hexadecimal_text len text.length ps args) :
    piece_loop (printed b len text) ps args = .ok (printed b len (text ++ t)) := by
  induction ps generalizing text args t with
  | nil =>
    obtain rfl : [] = t := Option.some.inj ht
    rw [List.append_nil]
    rfl
  | cons p rest ih =>
    by_cases hfull : len ≤ text.length + 1
    · rw [piece_loop_full (by simp only [printed]; omega), printed_full hfull]
    · obtain ⟨u, args', hp, v, hv, rfl⟩ := render_cons.mp ht
      obtain ⟨hcut, hpair, hrest⟩ := (contained_cons hp).mp hc
      rw [piece_loop_cons (by simp only [printed]; omega),
        print_piece_printed hp (by omega) (fun h => hfull (hcut h)) hpair]
      show piece_loop (printed b len (text ++ u)) rest args' = _
      rw [ih hv (by rwa [List.length_append]), List.append_assoc]

/-- A loop that ends behind the buffer leaves no room for the `NUL`. -/
theorem finish_fails {s : print_t} (h : s.written = s.buffer_len) :
    s.store s.written 0 = .error .buffer := if_neg (by omega)

/-- A conversion that is not contained ends the call. -/
theorem piece_loop_fails {ps : List piece_t} {args : List arg_t} {t : List Nat}
    (ht : render decimal_text hexadecimal_text ps args = some t)
    (hc : ¬ Contained decimal_text hexadecimal_text len text.length ps args) :
    ∃ e, (piece_loop (printed b len text) ps args >>= fun s => s.store s.written 0) = .error e := by
  induction ps generalizing text args t with
  | nil =>
    refine absurd ?_ hc
    rintro first p rest he
    simp at he
  | cons p rest ih =>
    by_cases hfull : len ≤ text.length + 1
    · exact absurd (contained_full hfull _ _) hc
    · obtain ⟨u, args', hp, v, hv, rfl⟩ := render_cons.mp ht
      rw [contained_cons hp] at hc
      rw [piece_loop_cons (by simp only [printed]; omega)]
      by_cases hcut : Cut p
      · rw [print_piece_cut hcut (by omega)]
        exact ⟨_, rfl⟩
      by_cases hpair : Pair p ∧ text.length + 2 = len
      · -- the pair is counted past the end, and the loop stops there
        obtain ⟨s, hs, hlen, hw⟩ := print_piece_overruns (b := b) hp hpair.1 hpair.2
        rw [hs]
        refine ⟨.buffer, ?_⟩
        show (piece_loop s rest args' >>= fun s => s.store s.written 0) = _
        rw [piece_loop_full (by omega)]
        exact finish_fails (by omega)
      · have hok : Pair p → text.length + 2 ≠ len := fun h1 h2 => hpair ⟨h1, h2⟩
        rw [print_piece_printed hp (by omega) hcut hok]
        show ∃ e, (piece_loop (printed b len (text ++ u)) rest args' >>= _) = _
        refine ih hv ?_
        rw [List.length_append]
        exact fun h => hc ⟨fun h' => absurd h' hcut, hok, h⟩

/-! ## Numerals -/

def digit_char (d : Nat) : Nat := if d < 10 then 48 + d else 55 + d

/-- The canonical numeral of a number: no zero stands in front. -/
def numeral (base m : Nat) : List Nat :=
  if m = 0 then [48] else (Nat.digits base m).reverse.map digit_char

def decimal (n : Int) : List Nat := (if n < 0 then [45] else []) ++ numeral 10 n.natAbs

def hexadecimal (m : Nat) : List Nat := [48, 120] ++ numeral 16 m

/-- The value of a numeral. -/
def value (base : Nat) (text : List Nat) : Nat :=
  text.foldl (fun v c => v * base + if c < 65 then c - 48 else c - 55) 0

def read_decimal : List Nat → Int
  | 45 :: text => -(value 10 text : Nat)
  | text => (value 10 text : Nat)

def read_hexadecimal (text : List Nat) : Nat := value 16 (text.drop 2)

theorem value_digits {base : Nat} (hb : 1 < base) (m : Nat) :
    value base ((Nat.digits base m).reverse.map digit_char) = m := by
  have hfold : ∀ l : List Nat, (∀ d ∈ l, d < base) →
      value base (l.reverse.map digit_char) = Nat.ofDigits base l := by
    intro l hl
    induction l with
    | nil => rfl
    | cons d l ih =>
      have hd : d < base := hl d (by simp)
      have hrest := ih fun e he => hl e (by simp [he])
      have hchar : (if digit_char d < 65 then digit_char d - 48 else digit_char d - 55) = d := by
        unfold digit_char
        split <;> split <;> omega
      unfold value at *
      rw [List.reverse_cons, List.map_append, List.foldl_append, hrest, List.map_singleton,
        List.foldl_cons, List.foldl_nil, hchar, Nat.ofDigits_cons]
      ring
  rw [hfold _ fun d hd => Nat.digits_lt_base hb hd, Nat.ofDigits_digits]

theorem value_numeral {base : Nat} (hb : 1 < base) (m : Nat) :
    value base (numeral base m) = m := by
  unfold numeral
  split
  · rename_i hm
    simp [value, hm]
  · exact value_digits hb m

/-- A numeral starts with a digit. -/
theorem numeral_head (m : Nat) : ∃ c rest, numeral 10 m = c :: rest ∧ c ≠ 45 := by
  unfold numeral
  split
  · exact ⟨48, [], rfl, by decide⟩
  · rename_i hm
    have hne : (Nat.digits 10 m).reverse.map digit_char ≠ [] := by
      simpa using Nat.digits_ne_nil_iff_ne_zero.mpr hm
    obtain ⟨c, rest, hcons⟩ := List.exists_cons_of_ne_nil hne
    refine ⟨c, rest, hcons, ?_⟩
    have hmem : c ∈ (Nat.digits 10 m).reverse.map digit_char := by
      rw [hcons]
      simp
    obtain ⟨d, -, rfl⟩ := List.mem_map.mp hmem
    unfold digit_char
    split <;> omega

theorem read_decimal_decimal (n : Int) : read_decimal (decimal n) = n := by
  unfold decimal
  split
  · show -((value 10 (numeral 10 n.natAbs) : Nat) : Int) = n
    rw [value_numeral (by decide)]
    omega
  · obtain ⟨c, rest, hcons, hc⟩ := numeral_head n.natAbs
    have hvalue := value_numeral (show 1 < 10 by decide) n.natAbs
    rw [List.nil_append, hcons] at *
    unfold read_decimal
    split
    · rename_i heq
      exact absurd (List.cons.inj heq).1 hc
    · rw [hvalue]
      omega

theorem read_hexadecimal_hexadecimal (m : Nat) : read_hexadecimal (hexadecimal m) = m :=
  value_numeral (by decide) m

/-- The digits that `%x` finds, the lowest one first. -/
theorem hexadecimal_digits_eq {room m : Nat} (h : m < 16 ^ room) (hm : m ≠ 0) :
    hexadecimal_digits room m = (Nat.digits 16 m).map digit_char := by
  induction room generalizing m with
  | zero => omega
  | succ room ih =>
    have hdigit : (if m % 16 < 10 then 48 + m % 16 else 65 + m % 16 - 10) = digit_char (m % 16) := by
      unfold digit_char
      split <;> omega
    rw [Nat.digits_def' (by decide) (by omega), hexadecimal_digits, hdigit, List.map_cons]
    congr 1
    by_cases hz : m / 16 = 0
    · rw [if_pos hz, hz]
      rfl
    · rw [if_neg hz]
      rw [pow_succ] at h
      exact ih (Nat.div_lt_of_lt_mul (by omega)) hz

theorem decimal_digits_eq {room m : Nat} (h : m < 10 ^ room) (hm : m ≠ 0) :
    decimal_digits room m = (Nat.digits 10 m).map digit_char := by
  induction room generalizing m with
  | zero => omega
  | succ room ih =>
    have hdigit : ((48 + (m : Int).tmod 10) % 256).toNat = digit_char (m % 10) := by
      unfold digit_char
      rw [Int.tmod_eq_emod_of_nonneg (by omega), if_pos (by omega)]
      omega
    have hdiv : (m : Int).tdiv 10 = (m / 10 : Nat) := by
      rw [Int.tdiv_eq_ediv_of_nonneg (by omega)]
      rfl
    rw [Nat.digits_def' (by decide) (by omega), decimal_digits, hdigit, hdiv, List.map_cons]
    congr 1
    by_cases hz : m / 10 = 0
    · rw [if_pos (by omega), hz]
      rfl
    · rw [if_neg (by omega)]
      rw [pow_succ] at h
      exact ih (Nat.div_lt_of_lt_mul (by omega)) hz

/-- A 64-bit number prints as itself. -/
theorem hexadecimal_text_eq {m : Nat} (h : m < 2 ^ 64) : hexadecimal_text m = hexadecimal m := by
  unfold hexadecimal_text hexadecimal numeral
  congr 1
  by_cases hm : m = 0
  · rw [if_pos hm, hm]
    rfl
  · rw [if_neg hm, hexadecimal_digits_eq (h.trans (by decide)) hm, List.map_reverse]

theorem decimal_digits_numeral {m : Nat} (h : m < 2 ^ 32) :
    (decimal_digits (FORMATTED_PRINT_NUMBER_BUFFER_LENGTH - 1) m).reverse = numeral 10 m := by
  unfold numeral
  by_cases hm : m = 0
  · rw [if_pos hm, hm]
    rfl
  · rw [if_neg hm, decimal_digits_eq (h.trans (by decide)) hm, List.map_reverse]

def INT_MIN : Int := -0x80000000

/-- An `int` other than the least one prints as itself. -/
theorem decimal_text_eq {n : Int} (h1 : -0x80000000 < n) (h2 : n < 0x80000000) :
    decimal_text n = decimal n := by
  unfold decimal_text decimal
  split
  · have hneg : negate n = (n.natAbs : Nat) := by
      unfold negate int32
      rw [if_pos (by omega)]
      omega
    rw [hneg, decimal_digits_numeral (by omega)]
    rfl
  · have hself : n = (n.natAbs : Nat) := by omega
    rw [List.nil_append, ← decimal_digits_numeral (by omega), ← hself]

/-- The least `int` is its own negative: its digits come out below `0`. -/
theorem decimal_text_INT_MIN :
    decimal_text INT_MIN = [45, 46, 47, 44, 41, 44, 40, 45, 42, 44, 40] := by
  decide

theorem decimal_INT_MIN :
    decimal INT_MIN = [45, 50, 49, 52, 55, 52, 56, 51, 54, 52, 56] := by
  have hdigits : numeral 10 2147483648 = [50, 49, 52, 55, 52, 56, 51, 54, 52, 56] := by
    norm_num [numeral, digit_char]
  unfold decimal INT_MIN
  rw [if_pos (by decide)]
  exact congrArg (45 :: ·) hdigits

/-! ## Arguments -/

/-- The values that an argument has in C. -/
def arg_t.Valid : arg_t → Prop
  | .int n => -0x80000000 ≤ n ∧ n < 0x80000000
  | .unsigned m => m < 2 ^ 32
  | .long m => m < 2 ^ 64
  | .string s => 0 ∉ s

/-- The numbers that `%d` and `%ld` print. -/
def converted : List piece_t → List arg_t → List Int
  | .dec :: ps, .int n :: args => n :: converted ps args
  | .str :: ps, _ :: args | .chr :: ps, _ :: args | .hex :: ps, _ :: args
  | .long_hex :: ps, _ :: args => converted ps args
  | _ :: ps, args => converted ps args
  | [], _ => []

theorem decimal_text_code {n : Int} (h : (arg_t.int n).Valid) :
    (decimal_text n).length = (decimal n).length ∧ (decimal_text n = decimal n ↔ INT_MIN ≠ n) := by
  obtain ⟨h1, h2⟩ := h
  by_cases hmin : INT_MIN = n
  · subst hmin
    rw [decimal_text_INT_MIN, decimal_INT_MIN]
    simp
  · have hne : n ≠ -0x80000000 := fun he => hmin he.symm
    have heq := decimal_text_eq (by omega) h2
    exact ⟨by rw [heq], fun _ => hmin, fun _ => heq⟩

/-- What the code prints for a part is as long as its text, and the same unless it is the decimal of
the least `int`. -/
theorem piece_text_code {p : piece_t} {args rest : List arg_t} {t : List Nat}
    (hv : ∀ a ∈ args, a.Valid) (hp : piece_text decimal hexadecimal p args = some (t, rest)) :
    (∀ a ∈ rest, a.Valid) ∧ ∃ u, piece_text decimal_text hexadecimal_text p args = some (u, rest) ∧
      u.length = t.length ∧
      ∀ ps, (converted (p :: ps) args = converted ps rest ∧ u = t) ∨
        ∃ n, converted (p :: ps) args = n :: converted ps rest ∧ (u = t ↔ INT_MIN ≠ n) := by
  unfold piece_text at hp
  split at hp
  case h_9 => exact absurd hp (by simp)
  all_goals
    obtain ⟨rfl, rfl⟩ := Prod.mk.inj (Option.some.inj hp)
    refine ⟨fun a ha => hv a (by first | exact ha | exact List.mem_cons_of_mem _ ha), ?_⟩
  case h_3 n _ =>
    obtain ⟨hlen, hsame⟩ := decimal_text_code (hv _ (List.mem_cons_self ..))
    exact ⟨_, rfl, hlen, fun ps => Or.inr ⟨n, rfl, hsame⟩⟩
  case h_5 m _ | h_6 m _ =>
    have hm := hv _ (List.mem_cons_self ..)
    have hnum : hexadecimal_text m = hexadecimal m := hexadecimal_text_eq (by
      simp only [arg_t.Valid] at hm
      omega)
    exact ⟨_, rfl, by rw [hnum], fun ps => Or.inl ⟨rfl, hnum⟩⟩
  all_goals exact ⟨_, rfl, rfl, fun ps => Or.inl ⟨rfl, rfl⟩⟩

/-- What the code prints for a format is as long as its text, and the same exactly if the least `int`
is not among the numbers. -/
theorem render_code {ps : List piece_t} {args : List arg_t} {t : List Nat}
    (hv : ∀ a ∈ args, a.Valid) (ht : render decimal hexadecimal ps args = some t) :
    ∃ u, render decimal_text hexadecimal_text ps args = some u ∧ u.length = t.length ∧
      (u = t ↔ INT_MIN ∉ converted ps args) := by
  induction ps generalizing args t with
  | nil =>
    obtain rfl : [] = t := Option.some.inj ht
    exact ⟨[], rfl, rfl, by simp [converted]⟩
  | cons p rest ih =>
    obtain ⟨t1, args', hp, t2, ht2, rfl⟩ := render_cons.mp ht
    obtain ⟨hv', u1, hp', hlen1, hcase⟩ := piece_text_code hv hp
    obtain ⟨u2, hu2, hlen2, hsame⟩ := ih hv' ht2
    refine ⟨u1 ++ u2, render_cons.mpr ⟨u1, args', hp', u2, hu2, rfl⟩, ?_, ?_⟩
    · rw [List.length_append, List.length_append, hlen1, hlen2]
    · have happend : u1 ++ u2 = t1 ++ t2 ↔ u1 = t1 ∧ u2 = t2 :=
        ⟨fun h => List.append_inj h hlen1, fun ⟨h1, h2⟩ => by rw [h1, h2]⟩
      rw [happend, hsame]
      rcases hcase rest with ⟨hconv, heq⟩ | ⟨n, hconv, heq⟩
      · rw [hconv]
        simp [heq]
      · rw [hconv, List.mem_cons, not_or, heq]

/-- Whether arguments match a format does not depend on how numbers are written. -/
theorem render_matches {dec dec' : Int → List Nat} {hex hex' : Nat → List Nat}
    {ps : List piece_t} {args : List arg_t} {t : List Nat} (ht : render dec hex ps args = some t) :
    ∃ u, render dec' hex' ps args = some u := by
  induction ps generalizing args t with
  | nil => exact ⟨[], rfl⟩
  | cons p rest ih =>
    obtain ⟨t1, args', hp, t2, ht2, -⟩ := render_cons.mp ht
    obtain ⟨u2, hu2⟩ := ih ht2
    have hpiece : ∃ u1, piece_text dec' hex' p args = some (u1, args') := by
      unfold piece_text at hp
      split at hp
      case h_9 => exact absurd hp (by simp)
      all_goals
        obtain ⟨-, rfl⟩ := Prod.mk.inj (Option.some.inj hp)
        exact ⟨_, rfl⟩
    obtain ⟨u1, hu1⟩ := hpiece
    exact ⟨u1 ++ u2, render_cons.mpr ⟨u1, args', hu1, u2, hu2, rfl⟩⟩

/-- The positions of the conversions do not depend on which of the texts is meant. -/
theorem contained_code {ps : List piece_t} {args : List arg_t} {before : Nat}
    (hv : ∀ a ∈ args, a.Valid) :
    Contained decimal_text hexadecimal_text len before ps args ↔
      Contained decimal hexadecimal len before ps args := by
  constructor
  · rintro h first p rest he t ht
    obtain ⟨u, hu, hlen, -⟩ := render_code hv ht
    simpa [hlen] using h first p rest he u hu
  · rintro h first p rest he u hu
    obtain ⟨t, ht⟩ : ∃ t, render decimal hexadecimal first args = some t := render_matches hu
    obtain ⟨u', hu', hlen, -⟩ := render_code hv ht
    obtain rfl : u = u' := Option.some.inj (hu.symm.trans hu')
    simpa [hlen] using h first p rest he t ht

/-- The text of one part inside the text of the format. -/
theorem render_split {first rest : List piece_t} {p : piece_t} {args : List arg_t} {t : List Nat}
    (ht : render decimal hexadecimal (first ++ p :: rest) args = some t) :
    ∃ before u args' rest', render decimal hexadecimal first args = some before ∧
      piece_text decimal hexadecimal p args' = some (u, rest') ∧
      before.length + u.length ≤ t.length := by
  induction first generalizing args t with
  | nil =>
    obtain ⟨u, rest', hp, v, -, rfl⟩ := render_cons.mp ht
    refine ⟨[], u, args, rest', rfl, hp, ?_⟩
    simp
  | cons q first ih =>
    obtain ⟨u1, args1, hq, v, hv, rfl⟩ := render_cons.mp ht
    obtain ⟨before, u, args', rest', hbefore, hp, hle⟩ := ih hv
    refine ⟨u1 ++ before, u, args', rest', render_cons.mpr ⟨u1, args1, hq, before, hbefore, rfl⟩,
      hp, ?_⟩
    simp only [List.length_append]
    omega

/-- A pair is at least two characters long, and a cut part is one. -/
theorem piece_text_length {p : piece_t} {args rest : List arg_t} {u : List Nat}
    (hp : piece_text decimal hexadecimal p args = some (u, rest)) :
    (Cut p → u.length = 1) ∧ (Pair p → 2 ≤ u.length) := by
  unfold piece_text at hp
  split at hp
  case h_9 => exact absurd hp (by simp)
  all_goals
    obtain ⟨rfl, -⟩ := Prod.mk.inj (Option.some.inj hp)
    simp [Cut, Pair, hexadecimal]

/-- With room for the whole text, only a format that ends in a conversion is not contained. -/
theorem contained_iff_uncut {ps : List piece_t} {args : List arg_t} {t : List Nat}
    (ht : render decimal hexadecimal ps args = some t) (hl : t.length < len) :
    Contained decimal hexadecimal len 0 ps args ↔ ∀ p ∈ ps, ¬ Cut p := by
  constructor
  · intro hc p hp hcut
    obtain ⟨first, rest, rfl⟩ := List.append_of_mem hp
    obtain ⟨before, u, args', rest', hbefore, hu, hle⟩ := render_split ht
    have hone := (piece_text_length hu).1 hcut
    have hroom := (hc first p rest rfl before hbefore).1 hcut
    omega
  · rintro hc first p rest rfl before hbefore
    refine ⟨fun hcut => absurd hcut (hc p (by simp)), fun hpair => ?_⟩
    obtain ⟨before', u, args', rest', hbefore', hu, hle⟩ := render_split ht
    obtain rfl : before = before' := Option.some.inj (hbefore.symm.trans hbefore')
    have htwo := (piece_text_length hu).2 hpair
    omega

/-! ## The laws -/

variable {fmt : List Nat} {args : List arg_t}

/-- A contained format prints its text, as far as the buffer goes, and a `NUL`. -/
theorem vsnprintf_printed (hl : 1 ≤ len)
    (ht : render decimal_text hexadecimal_text (pieces fmt) args = some text)
    (hc : Contained decimal_text hexadecimal_text len 0 (pieces fmt) args) :
    vsnprintf b len fmt args = .ok
      (Function.update (printed b len text).buffer (min text.length (len - 1)) 0,
        int32 (min text.length (len - 1))) := by
  have hloop : piece_loop (printed b len []) (pieces fmt) args = .ok (printed b len ([] ++ text)) :=
    piece_loop_printed hl ht hc
  unfold vsnprintf
  rw [← printed_nil, format_loop_eq, hloop]
  have hstore : (printed b len text).store (printed b len text).written 0 =
      .ok { printed b len text with
        buffer := Function.update (printed b len text).buffer (min text.length (len - 1)) 0 } :=
    if_pos (show min text.length (len - 1) < len by omega)
  show ((printed b len text).store (printed b len text).written 0 >>= _) = _
  rw [hstore]
  rfl

theorem vsnprintf_fails
    (ht : render decimal_text hexadecimal_text (pieces fmt) args = some text)
    (hc : ¬ Contained decimal_text hexadecimal_text len 0 (pieces fmt) args) :
    ∃ e, vsnprintf b len fmt args = .error e := by
  obtain ⟨e, he⟩ : ∃ e, (piece_loop (printed b len []) (pieces fmt) args >>=
      fun s => s.store s.written 0) = .error e := piece_loop_fails ht hc
  refine ⟨e, ?_⟩
  unfold vsnprintf
  rw [← printed_nil, format_loop_eq, ← bind_assoc, he]
  rfl

/-- A call keeps to its format and to its buffer and ends the text in it with a `NUL`, exactly if no
pair of characters starts on the last two bytes, no `%` or `%l` at the end of the format is reached, and
the text is counted by an `int`. -/
theorem output_stays_in_its_buffer (hl : 1 ≤ len) (hsize : len < 0x100000000)
    (hv : ∀ a ∈ args, a.Valid)
    (ht : render decimal hexadecimal (pieces fmt) args = some text) (b : Nat → Nat) :
    (∃ b' n, vsnprintf b len fmt args = .ok (b', n) ∧ 0 ≤ n ∧ n < len ∧ b' n.toNat = 0 ∧
        ∀ i, len ≤ i → b' i = b i) ↔
      Contained decimal hexadecimal len 0 (pieces fmt) args ∧
        min text.length (len - 1) < 0x80000000 := by
  obtain ⟨u, hu, hlen, -⟩ := render_code hv ht
  rw [← contained_code hv, ← hlen]
  constructor
  · rintro ⟨b', n, hcall, h0, -, -, -⟩
    by_cases hc : Contained decimal_text hexadecimal_text len 0 (pieces fmt) args
    · refine ⟨hc, ?_⟩
      rw [vsnprintf_printed hl hu hc] at hcall
      obtain ⟨-, rfl⟩ := Prod.mk.inj (Except.ok.inj hcall)
      unfold int32 at h0
      split at h0 <;> omega
    · obtain ⟨e, he⟩ := vsnprintf_fails (b := b) hu hc
      rw [he] at hcall
      exact absurd hcall (by simp)
  · rintro ⟨hc, hint⟩
    have hcount : int32 (min u.length (len - 1)) = (min u.length (len - 1) : Nat) := by
      unfold int32
      rw [if_pos hint]
    refine ⟨_, _, vsnprintf_printed hl hu hc, ?_, ?_, ?_, ?_⟩
    · omega
    · omega
    · rw [hcount, Int.toNat_natCast, Function.update_self]
    · intro i hi
      rw [Function.update_of_ne (by omega)]
      exact if_neg (by omega)

/-- In a buffer with room for it, the text of a format is printed, numbers as their canonical numerals,
exactly if the format does not end in a conversion and `%d` does not get the least `int`. -/
theorem numbers_print_as_themselves (hv : ∀ a ∈ args, a.Valid)
    (ht : render decimal hexadecimal (pieces fmt) args = some text) (hl : text.length < len)
    (b : Nat → Nat) :
    (∀ n, read_decimal (decimal n) = n) ∧ (∀ m, read_hexadecimal (hexadecimal m) = m) ∧
      ((∃ b', vsnprintf b len fmt args = .ok (b', int32 text.length) ∧
          ∀ i < text.length, b' i = text.getD i 0) ↔
        (∀ p ∈ pieces fmt, ¬ Cut p) ∧ INT_MIN ∉ converted (pieces fmt) args) := by
  obtain ⟨u, hu, hlen, hsame⟩ := render_code hv ht
  have hmin : min u.length (len - 1) = u.length := by omega
  refine ⟨read_decimal_decimal, read_hexadecimal_hexadecimal, ?_⟩
  rw [← contained_iff_uncut ht hl, ← contained_code hv, ← hsame]
  constructor
  · rintro ⟨b', hcall, htext⟩
    by_cases hc : Contained decimal_text hexadecimal_text len 0 (pieces fmt) args
    · refine ⟨hc, ?_⟩
      rw [vsnprintf_printed (by omega) hu hc, hmin] at hcall
      obtain ⟨rfl, -⟩ := Prod.mk.inj (Except.ok.inj hcall)
      apply List.ext_getElem hlen
      intro i hi hi'
      have hi1 := htext i hi'
      rw [Function.update_of_ne (by omega)] at hi1
      simp only [printed, hmin, if_pos hi] at hi1
      rwa [List.getD_eq_getElem _ _ hi, List.getD_eq_getElem _ _ hi'] at hi1
    · obtain ⟨e, he⟩ := vsnprintf_fails (b := b) hu hc
      rw [he] at hcall
      exact absurd hcall (by simp)
  · rintro ⟨hc, rfl⟩
    refine ⟨_, by rw [vsnprintf_printed (by omega) hu hc, hmin], ?_⟩
    intro i hi
    rw [Function.update_of_ne (by omega)]
    simp only [printed, hmin, if_pos hi]

/-- A format that is two characters short of its buffer and prints a hexadecimal number there. -/
theorem a_pair_on_the_last_bytes :
    ¬ ∃ b' n, vsnprintf (fun _ => 1) 3 [97, PERCENT, 120] [.unsigned 5] = .ok (b', n) ∧ 0 ≤ n ∧
      n < (3 : Nat) ∧ b' n.toNat = 0 ∧ ∀ i, 3 ≤ i → b' i = 1 := by
  rintro ⟨b', n, hcall, -⟩
  have hfault : (vsnprintf (fun _ => 1) 3 [97, PERCENT, 120] [.unsigned 5]).isOk = false := by
    decide
  rw [hcall] at hfault
  exact absurd hfault (by simp [Except.isOk, Except.toBool])

/-- The same format with one more byte. -/
theorem a_pair_before_the_last_bytes :
    (∃ b' n, vsnprintf (fun _ => 1) 4 [97, PERCENT, 120] [.unsigned 5] = .ok (b', n) ∧ 0 ≤ n ∧
        n < (4 : Nat) ∧ b' n.toNat = 0 ∧ ∀ i, 4 ≤ i → b' i = 1) ↔
      Contained decimal hexadecimal 4 0 (pieces [97, PERCENT, 120]) [.unsigned 5] ∧
        min [97, 48, 120, 53].length (4 - 1) < 0x80000000 :=
  output_stays_in_its_buffer (by decide) (by decide) (by simp [arg_t.Valid])
    (by simp [pieces, PERCENT, render, piece_text, hexadecimal, numeral, digit_char]) (fun _ => 1)

/-- The least `int` in a buffer of 16 bytes. -/
theorem the_least_int_is_no_numeral :
    ¬ ∃ b', vsnprintf (fun _ => 0) 16 [PERCENT, 100] [.int INT_MIN] =
        .ok (b', int32 (decimal INT_MIN).length) ∧
      ∀ i < (decimal INT_MIN).length, b' i = (decimal INT_MIN).getD i 0 := by
  rintro ⟨b', hcall, htext⟩
  have hsecond : (vsnprintf (fun _ => 0) 16 [PERCENT, 100] [.int INT_MIN]).map (fun r => r.1 1) =
      .ok 46 := by
    decide
  rw [hcall] at hsecond
  have hbyte : b' 1 = 46 := Except.ok.inj hsecond
  have htwo := htext 1 (by rw [decimal_INT_MIN]; decide)
  rw [decimal_INT_MIN, hbyte] at htwo
  exact absurd htwo (by decide)

/-- Minus five in a buffer of 16 bytes. -/
theorem minus_five_prints_as_itself :
    (∀ n, read_decimal (decimal n) = n) ∧ (∀ m, read_hexadecimal (hexadecimal m) = m) ∧
      ((∃ b', vsnprintf (fun _ => 0) 16 [PERCENT, 100] [.int (-5)] =
            .ok (b', int32 [45, 53].length) ∧
          ∀ i < [45, 53].length, b' i = [45, 53].getD i 0) ↔
        (∀ p ∈ pieces [PERCENT, 100], ¬ Cut p) ∧
          INT_MIN ∉ converted (pieces [PERCENT, 100]) [.int (-5)]) :=
  numbers_print_as_themselves (by simp [arg_t.Valid])
    (by simp [pieces, PERCENT, render, piece_text, decimal, numeral, digit_char]) (by decide)
    (fun _ => 0)

end alura_os.print
