-- The laws of the shell: its line is the text that was typed, with what was erased taken away, and
-- the command of a line is its words.
import AluraOs.Shell
import AluraOs.StringLaws

namespace alura_os.shell

open alura_os.string c_strings

variable {line : Nat → Nat} {text : List Nat}

/-! ## Arguments -/

theorem string_at_eq {a fuel : Nat} (h : Holds line a text) (hf : text.length < fuel) :
    string_at line fuel a = text := by
  induction text generalizing a fuel with
  | nil =>
    obtain ⟨fuel, rfl⟩ : ∃ k, fuel = k + 1 := ⟨fuel - 1, by simp at hf; omega⟩
    exact if_pos h
  | cons c text ih =>
    obtain ⟨fuel, rfl⟩ : ∃ k, fuel = k + 1 := ⟨fuel - 1, by simp at hf; omega⟩
    obtain ⟨hc, hne, hrest⟩ := h
    rw [string_at, if_neg (by rw [hc]; exact hne), hc, ih hrest (by simpa using hf)]

theorem strings_at_eq {argv : List Nat} {ws : List (List Nat)} {fuel : Nat}
    (h : List.Forall₂ (Holds line) argv ws) (hf : ∀ w ∈ ws, w.length < fuel) :
    argv.map (string_at line fuel) = ws := by
  induction h with
  | nil => rfl
  | cons hheld hrest ih =>
    rw [List.map_cons, string_at_eq hheld (hf _ List.mem_cons_self),
      ih fun w hw => hf w (List.mem_cons_of_mem _ hw)]

/-- A call of `strtok` and the loop after it: the words, as far as there is room. -/
theorem parse_loop_eq (room : Nat) {k : strtok_t} {str : Option Nat} {q : Nat}
    (hq : (if str ≠ none then str else k.last_pos) = some q) (h : Holds k.memory q text)
    (hf : text.length < LINE_MAX) :
    ∃ k' argv, ((strtok LINE_MAX k str [32]).bind fun r => parse_loop room r.1 r.2) =
        some (k', argv) ∧ List.Forall₂ (Holds k'.memory) argv ((words_of [32] text).take room) ∧
      Cut k.memory q [32] text k'.memory := by
  induction room generalizing k str q text with
  | zero =>
    rcases strtok_step hq h hf with ⟨-, q', hcall, -⟩ | ⟨m1, start, q1, w, s1, hcall, hnext⟩
    · rw [hcall]
      exact ⟨_, [], rfl, List.Forall₂.nil, fun b => Or.inl rfl⟩
    · rw [hcall]
      exact ⟨_, [], rfl, List.Forall₂.nil, hnext.zeroed⟩
  | succ room ih =>
    rcases strtok_step hq h hf with
      ⟨hnone, q', hcall, -⟩ | ⟨m1, start, q1, w, s1, hcall, hnext⟩
    · rw [hcall]
      refine ⟨_, [], rfl, ?_, fun b => Or.inl rfl⟩
      rw [hnone]
      exact List.Forall₂.nil
    · have hshorter := hnext.shorter
      have hlast : (if (none : Option Nat) ≠ none then none
          else (strtok_t.mk m1 (some q1)).last_pos) = some q1 := rfl
      obtain ⟨k', argv, hrest, hargv, hcut⟩ := ih hlast hnext.rest (by omega)
      obtain ⟨hall, htoken⟩ := hnext.cut hcut
      refine ⟨k', start :: argv, ?_, ?_, hall⟩
      · rw [hcall]
        cases hs : strtok LINE_MAX ⟨m1, some q1⟩ none [32] with
        | none =>
          rw [hs] at hrest
          cases hrest
        | some r =>
          rw [hs] at hrest
          have hloop : parse_loop room r.1 r.2 = some (k', argv) := hrest
          simp only [Option.bind_some, parse_loop, Option.bind_eq_bind, hs, hloop]
          rfl
      · rw [hnext.words, List.take_succ_cons]
        exact List.Forall₂.cons htoken hargv

/-- What a line does: nothing when it is blank, else its first words are the arguments of a
command, of which `exit` ends the shell. -/
def command (text : List Nat) : List effect_t × Bool :=
  match (words_of [32] text).take (ARGV_MAX - 1) with
  | [] => ([], true)
  | name :: arguments =>
    if name = EXIT then ([.exit 0], false) else ([.execute (name :: arguments)], true)

theorem run_command_eq (h : Holds line 0 text) (hf : text.length < LINE_MAX) :
    ∃ line', run_command line = some (line', command text) := by
  have hlast : (if (some 0 : Option Nat) ≠ none then some 0
      else (strtok_t.mk line none).last_pos) = some 0 := rfl
  obtain ⟨k, argv, hparse, hargv, -⟩ := parse_loop_eq (ARGV_MAX - 1) hlast h hf
  have hargs : parse_args line = some (k.memory, argv) := by
    unfold parse_args
    cases hs : strtok LINE_MAX ⟨line, none⟩ (some 0) [32] with
    | none =>
      rw [hs] at hparse
      cases hparse
    | some r =>
      rw [hs] at hparse
      have hloop : parse_loop (ARGV_MAX - 1) r.1 r.2 = some (k, argv) := hparse
      simp only [Option.bind_eq_bind, Option.bind_some, hloop]
      rfl
  have hstrings : argv.map (string_at k.memory LINE_MAX) =
      (words_of [32] text).take (ARGV_MAX - 1) :=
    strings_at_eq hargv fun w hw =>
      (length_le_of_mem_words _ (List.mem_of_mem_take hw)).trans_lt hf
  refine ⟨k.memory, ?_⟩
  unfold run_command command
  rw [hargs]
  simp only [Option.bind_eq_bind, Option.bind_some, hstrings]
  cases (words_of [32] text).take (ARGV_MAX - 1) with
  | nil => rfl
  | cons name arguments =>
    simp only []
    split <;> rfl

/-! ## The text of a line -/

/-- What a scancode is to the shell. -/
inductive key_t where
  | shift (down : Bool)
  | erase
  | enter
  | typed (character : Nat)
  | nothing
  deriving DecidableEq, Repr

def key_of (shift : Bool) (scancode : Nat) : key_t :=
  if scancode &&& 0x7F = 42 ∨ scancode &&& 0x7F = 54 then .shift (scancode &&& 0x80 = 0)
  else if scancode &&& 0x80 ≠ 0 then .nothing
  else
    let character := character_of shift (scancode &&& 0x7F)
    if character = 0 then .nothing
    else if character = BACKSPACE then .erase
    else if character = NEW_LINE then .enter
    else .typed character

/-- A line as it is edited: its text, and what the shell remembers besides. -/
structure editor_t where
  text : List Nat
  shift : Bool
  running : Bool
  deriving DecidableEq, Repr

/-- What a key does to the line, and what the shell does then. -/
def edit (e : editor_t) : key_t → editor_t × List effect_t
  | .shift down => ({ e with shift := down }, [])
  | .erase =>
    if e.text = [] then (e, []) else ({ e with text := e.text.dropLast }, [.write [BACKSPACE]])
  | .enter =>
    let (effects, running) := command e.text
    if running then ({ e with text := [] }, .write [NEW_LINE] :: effects ++ [.write PROMPT])
    else ({ e with running := false }, .write [NEW_LINE] :: effects)
  | .typed character =>
    if e.text.length < LINE_MAX - 1 then
      ({ e with text := e.text ++ [character] }, [.write [character]])
    else (e, [])
  | .nothing => (e, [])

/-- The edits for some scancodes, as long as the shell is there. -/
def edits (e : editor_t) : List Nat → editor_t × List effect_t
  | [] => (e, [])
  | scancode :: rest =>
    if e.running then
      let (e, effects) := edit e (key_of e.shift scancode)
      let (e, more) := edits e rest
      (e, effects ++ more)
    else (e, [])

/-- The line of the shell is the text: its characters are the first ones of the array, and there is
room for a zero after them. -/
structure Edits (s : shell_t) (e : editor_t) : Prop where
  length : s.line_length = e.text.length
  bytes : ∀ i (h : i < e.text.length), s.line i = e.text[i]
  fits : e.text.length < LINE_MAX
  plain : ∀ c ∈ e.text, c ≠ 0
  shift : s.shift = e.shift
  running : s.running = true
  still : e.running = true

variable {s : shell_t} {e : editor_t}

/-- The end of a line: the text stands in the array with a zero after it. -/
theorem Edits.ended (h : Edits s e) :
    ∃ s', store s s.line_length 0 = some s' ∧ Holds s'.line 0 e.text := by
  have hroom : s.line_length < LINE_MAX := h.length ▸ h.fits
  refine ⟨_, if_pos hroom, holds_of_bytes h.plain ?_ ?_⟩
  · intro i hi
    show Function.update s.line s.line_length 0 (0 + i) = _
    rw [Nat.zero_add, Function.update_of_ne (by rw [h.length]; omega)]
    exact h.bytes i hi
  · show Function.update s.line s.line_length 0 (0 + e.text.length) = 0
    rw [Nat.zero_add, ← h.length, Function.update_self]

theorem Edits.typed (h : Edits s e) {c : Nat} (hc : c ≠ 0) (hroom : e.text.length < LINE_MAX - 1) :
    ∃ s', store s s.line_length c = some s' ∧
      Edits { s' with line_length := s'.line_length + 1 } { e with text := e.text ++ [c] } := by
  unfold LINE_MAX at *
  have hlength := h.length
  refine ⟨_, if_pos (by unfold LINE_MAX; omega), ?_, ?_, ?_, ?_, h.shift, h.running, h.still⟩
  · simp [hlength]
  · intro i hi
    simp only [List.length_append, List.length_singleton] at hi
    show Function.update s.line s.line_length c i = _
    by_cases hlast : i = e.text.length
    · subst hlast
      simp [hlength]
    · rw [Function.update_of_ne (by omega), h.bytes i (by omega),
        List.getElem_append_left (by omega)]
  · simp only [List.length_append, List.length_singleton, LINE_MAX]
    omega
  · intro d hd
    rcases List.mem_append.mp hd with hd | hd
    · exact h.plain d hd
    · rw [List.mem_singleton.mp hd]
      exact hc

theorem Edits.erased (h : Edits s e) :
    Edits { s with line_length := s.line_length - 1 } { e with text := e.text.dropLast } := by
  have hfits := h.fits
  refine ⟨?_, ?_, ?_, ?_, h.shift, h.running, h.still⟩
  · simp [h.length]
  · intro i hi
    simp only [List.length_dropLast] at hi
    simp only [List.getElem_dropLast]
    exact h.bytes i (by omega)
  · simp only [List.length_dropLast]
    omega
  · exact fun c hc => h.plain c (List.dropLast_subset _ hc)

/-! ## Runs -/

/-- One turn is one edit. -/
theorem Edits.turn (h : Edits s e) (scancode : Nat) :
    ∃ s', shell.turn s scancode = some (s', (edit e (key_of e.shift scancode)).2) ∧
      s'.running = (edit e (key_of e.shift scancode)).1.running ∧
      ((edit e (key_of e.shift scancode)).1.running = true →
        Edits s' (edit e (key_of e.shift scancode)).1) := by
  have hchar : character_of s.shift (scancode &&& 0x7F) =
      character_of e.shift (scancode &&& 0x7F) := by rw [h.shift]
  unfold shell.turn key_of
  rw [if_neg (by simp [h.running])]
  simp only [hchar]
  by_cases hshift : scancode &&& 0x7F = 42 ∨ scancode &&& 0x7F = 54
  · simp only [if_pos hshift]
    exact ⟨_, rfl, h.running.trans h.still.symm,
      fun _ => ⟨h.length, h.bytes, h.fits, h.plain, rfl, h.running, h.still⟩⟩
  simp only [if_neg hshift]
  by_cases hreleased : scancode &&& 0x80 ≠ 0
  · simp only [if_pos hreleased]
    exact ⟨s, rfl, h.running.trans h.still.symm, fun _ => h⟩
  simp only [if_neg hreleased]
  generalize character_of e.shift (scancode &&& 0x7F) = c
  by_cases hzero : c = 0
  · simp only [if_pos hzero]
    exact ⟨s, rfl, h.running.trans h.still.symm, fun _ => h⟩
  simp only [if_neg hzero]
  by_cases hback : c = BACKSPACE
  · simp only [if_pos hback]
    by_cases hempty : e.text = []
    · have hlength : ¬ 0 < s.line_length := by
        rw [h.length, hempty]
        simp
      simp only [if_neg hlength, edit, if_pos hempty]
      exact ⟨s, rfl, h.running.trans h.still.symm, fun _ => h⟩
    · have hlength : 0 < s.line_length := by
        rw [h.length]
        exact List.length_pos_iff.mpr hempty
      simp only [if_pos hlength, edit, if_neg hempty, hback]
      exact ⟨_, rfl, h.running.trans h.still.symm, fun _ => h.erased⟩
  simp only [if_neg hback]
  by_cases henter : c = NEW_LINE
  · subst henter
    obtain ⟨s1, hstore, hheld⟩ := h.ended
    obtain ⟨line', hrun⟩ := run_command_eq hheld h.fits
    have hs1 : s1.shift = s.shift ∧ s1.running = s.running := by
      obtain rfl : _ = s1 := Option.some.inj ((if_pos (h.length ▸ h.fits)).symm.trans hstore)
      exact ⟨rfl, rfl⟩
    simp only [if_true, hstore, hrun, edit, Option.bind_eq_bind, Option.bind_some]
    cases hcommand : command e.text with
    | mk effects running =>
      cases running with
      | false =>
        simp only [Bool.not_false, if_true, Bool.false_eq_true, if_false]
        exact ⟨_, rfl, rfl, fun hr => hr.elim⟩
      | true =>
        simp only [Bool.not_true, if_true, Bool.false_eq_true, if_false]
        refine ⟨_, rfl, hs1.2.trans (h.running.trans h.still.symm), fun _ => ?_⟩
        exact ⟨rfl, fun i hi => absurd hi (Nat.not_lt_zero i), show 0 < LINE_MAX by decide, by simp,
          hs1.1.trans h.shift, hs1.2.trans h.running, h.still⟩
  simp only [if_neg henter]
  by_cases hroom : e.text.length < LINE_MAX - 1
  · obtain ⟨s1, hstore, hedits⟩ := h.typed hzero hroom
    have hlength : s.line_length < LINE_MAX - 1 := h.length ▸ hroom
    simp only [if_pos hlength, edit, if_pos hroom, hstore, Option.bind_eq_bind, Option.bind_some]
    exact ⟨_, rfl, hedits.running.trans hedits.still.symm, fun _ => hedits⟩
  · have hlength : ¬ s.line_length < LINE_MAX - 1 := h.length ▸ hroom
    simp only [if_neg hlength, edit, if_neg hroom]
    exact ⟨s, rfl, h.running.trans h.still.symm, fun _ => h⟩

/-- A shell that has ended reads nothing. -/
theorem turns_ended (hs : s.running = false) (scancodes : List Nat) :
    turns s scancodes = some (s, []) := by
  induction scancodes with
  | nil => rfl
  | cons scancode rest ih =>
    have hturn : shell.turn s scancode = some (s, []) := if_pos (by simp [hs])
    rw [turns, hturn]
    simp only [Option.bind_eq_bind, Option.bind_some, ih]
    rfl

theorem Edits.turns (h : Edits s e) (scancodes : List Nat) :
    ∃ s', shell.turns s scancodes = some (s', (edits e scancodes).2) ∧
      s'.running = (edits e scancodes).1.running ∧
      ((edits e scancodes).1.running = true → Edits s' (edits e scancodes).1) := by
  induction scancodes generalizing s e with
  | nil => exact ⟨s, rfl, h.running.trans h.still.symm, fun _ => h⟩
  | cons scancode rest ih =>
    obtain ⟨s1, hturn, hrunning, hedits⟩ := h.turn scancode
    rw [shell.turns, hturn, edits, if_pos h.still]
    generalize edit e (key_of e.shift scancode) = r at hrunning hedits ⊢
    simp only [Option.bind_eq_bind, Option.bind_some]
    by_cases hr : r.1.running = true
    · obtain ⟨s', hturns, hlast, hedits'⟩ := ih (hedits hr)
      rw [hturns]
      exact ⟨s', rfl, hlast, hedits'⟩
    · have hended : s1.running = false := by
        rw [hrunning]
        simpa using hr
      have hstop : edits r.1 rest = (r.1, []) := by
        cases rest with
        | nil => rfl
        | cons scancode rest => rw [edits, if_neg hr]
      rw [turns_ended hended, hstop]
      exact ⟨s1, rfl, hrunning, fun hr' => absurd hr' hr⟩

/-- The shell edits a line. Whatever is typed, the text of the line is what was typed since the last
command, with what was erased taken away and at most 255 characters; each character is echoed as it
comes into the text, and each command is made of the words of its line. No store misses the line. -/
theorem the_shell_edits_a_line (line : Nat → Nat) (scancodes : List Nat) :
    ∃ s, main line scancodes = some (s, .write PROMPT :: (edits ⟨[], false, true⟩ scancodes).2) ∧
      s.running = (edits ⟨[], false, true⟩ scancodes).1.running ∧
      ((edits ⟨[], false, true⟩ scancodes).1.running = true →
        Edits s (edits ⟨[], false, true⟩ scancodes).1) := by
  have hstart : Edits ⟨line, 0, false, true⟩ ⟨[], false, true⟩ :=
    ⟨rfl, fun i hi => absurd hi (Nat.not_lt_zero i), by decide, by simp, rfl, rfl, rfl⟩
  obtain ⟨s, hturns, hrunning, hedits⟩ := hstart.turns scancodes
  refine ⟨s, ?_, hrunning, hedits⟩
  unfold main
  rw [hturns]
  rfl

end alura_os.shell
