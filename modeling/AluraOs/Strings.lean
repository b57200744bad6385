-- The strings of the kernel (`libc/string.c`) in memory. A loop over a string is given how many
-- characters it may read, and has no result if that does not reach the end.
import AluraOs.CStrings
import AluraOs.PathSplits

namespace alura_os.string

open c_strings

/-! ## Lengths, comparisons and copies -/

/-- The loop of `strlen`. -/
def strlen_loop (memory : Nat → Nat) (str : Nat) : Nat → Nat → Option Nat
  | 0, _ => none
  | fuel + 1, length =>
    if memory (str + length) ≠ 0 then strlen_loop memory str fuel (length + 1) else some length

def strlen (memory : Nat → Nat) (fuel str : Nat) : Option Nat := strlen_loop memory str fuel 0

/-- `strcmp`. Bytes are compared as unsigned ones. -/
def strcmp (memory : Nat → Nat) : Nat → Nat → Nat → Option Int
  | 0, _, _ => none
  | fuel + 1, s1, s2 =>
    if memory s1 ≠ 0 ∧ memory s1 = memory s2 then strcmp memory fuel (s1 + 1) (s2 + 1)
    else
      let result : Int := memory s1 - memory s2
      if result < 0 then some (-1) else if 0 < result then some 1 else some 0

/-- `strcpy`, which leaves a memory. -/
def strcpy : Nat → (Nat → Nat) → Nat → Nat → Option (Nat → Nat)
  | 0, _, _, _ => none
  | fuel + 1, memory, output, src =>
    if memory src ≠ 0 then
      strcpy fuel (Function.update memory output (memory src)) (output + 1) (src + 1)
    else some (Function.update memory output 0)

/-! ## Tokens -/

/-- `is_delimiter`, on the characters of the string of delimiters. -/
def is_delimiter (c : Nat) : List Nat → Bool
  | [] => false
  | d :: delimiter => if c = d then true else is_delimiter c delimiter

/-- The memory, and the static `last_pos` of `strtok`. -/
structure strtok_t where
  memory : Nat → Nat
  last_pos : Option Nat

/-- The first loop of `strtok`: past the delimiters. -/
def skip_delimiters (memory : Nat → Nat) (delimiter : List Nat) : Nat → Nat → Option Nat
  | 0, _ => none
  | fuel + 1, last_pos =>
    if memory last_pos ≠ 0 ∧ is_delimiter (memory last_pos) delimiter then
      skip_delimiters memory delimiter fuel (last_pos + 1)
    else some last_pos

/-- The second loop: up to the end of the token, which becomes a zero. -/
def end_token (memory : Nat → Nat) (delimiter : List Nat) : Nat → Nat → Option strtok_t
  | 0, _ => none
  | fuel + 1, last_pos =>
    if memory last_pos ≠ 0 then
      if is_delimiter (memory last_pos) delimiter then
        some ⟨Function.update memory last_pos 0, some (last_pos + 1)⟩
      else end_token memory delimiter fuel (last_pos + 1)
    else some ⟨memory, some last_pos⟩

def strtok (fuel : Nat) (s : strtok_t) (str : Option Nat) (delimiter : List Nat) :
    Option (strtok_t × Option Nat) :=
  let last_pos := if str ≠ none then str else s.last_pos
  match last_pos with
  | none => some (⟨s.memory, none⟩, none)
  | some last_pos =>
    if s.memory last_pos = 0 then some (⟨s.memory, some last_pos⟩, none)
    else do
      let token_start ← skip_delimiters s.memory delimiter fuel last_pos
      if s.memory token_start = 0 then return (⟨s.memory, some token_start⟩, none)
      let s ← end_token s.memory delimiter fuel token_start
      return (s, some token_start)

/-- `strtok(NULL, delimiter)` again and again, until it gives no token. -/
def further_tokens (fuel : Nat) (delimiter : List Nat) :
    Nat → strtok_t → Option (strtok_t × List Nat)
  | 0, _ => none
  | turns + 1, s => do
    let (s, token) ← strtok fuel s none delimiter
    match token with
    | none => return (s, [])
    | some token =>
      let (s, tokens) ← further_tokens fuel delimiter turns s
      return (s, token :: tokens)

/-- The loop that callers run: the first call gets the string. -/
def tokens (fuel turns : Nat) (s : strtok_t) (str : Nat) (delimiter : List Nat) :
    Option (strtok_t × List Nat) := do
  let (s, token) ← strtok fuel s (some str) delimiter
  match token with
  | none => return (s, [])
  | some token =>
    let (s, tokens) ← further_tokens fuel delimiter turns s
    return (s, token :: tokens)

end alura_os.string
