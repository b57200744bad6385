-- The shell (`initrd/src/shell.c`): scancodes become a line, and a line becomes a command. A store
-- outside the line has no result.
import AluraOs.Strings

namespace alura_os.shell

open alura_os.string

/-! ## Keys -/

/-- `keymap`: the characters of the keys from 0 on. The keys after the last one have none. -/
def keymap : List Nat :=
  [0, 0, 49, 50, 51, 52, 53, 54, 55, 56, 57, 48, 45, 61, 8, 9,
   113, 119, 101, 114, 116, 121, 117, 105, 111, 112, 91, 93, 10, 0,
   97, 115, 100, 102, 103, 104, 106, 107, 108, 59, 39, 96, 0, 92,
   122, 120, 99, 118, 98, 110, 109, 44, 46, 47, 0, 42, 0, 32]

def keymap_shift : List Nat :=
  [0, 0, 33, 64, 35, 36, 37, 94, 38, 42, 40, 41, 95, 43, 8, 9,
   81, 87, 69, 82, 84, 89, 85, 73, 79, 80, 123, 125, 10, 0,
   65, 83, 68, 70, 71, 72, 74, 75, 76, 58, 34, 126, 0, 124,
   90, 88, 67, 86, 66, 78, 77, 60, 62, 63, 0, 42, 0, 32]

def LINE_MAX : Nat := 256
def ARGV_MAX : Nat := 16
def NEW_LINE : Nat := 10
def BACKSPACE : Nat := 8

/-- "> " -/
def PROMPT : List Nat := [62, 32]

/-- "exit" -/
def EXIT : List Nat := [101, 120, 105, 116]

/-! ## Commands -/

/-- What the shell does outside its own memory: it writes to `STDOUT`, it lets a child of a `fork`
call `execve` on the arguments and waits for it, or it ends. -/
inductive effect_t where
  | write (bytes : List Nat)
  | execute (argv : List (List Nat))
  | exit (code : Nat)
  deriving DecidableEq, Repr

/-- The string at an address of the line. -/
def string_at (line : Nat → Nat) : Nat → Nat → List Nat
  | 0, _ => []
  | fuel + 1, a => if line a = 0 then [] else line a :: string_at line fuel (a + 1)

/-- The loop of `parse_args`, with the places of `argv` that are left and the next token. -/
def parse_loop : Nat → strtok_t → Option Nat → Option (strtok_t × List Nat)
  | _, s, none => some (s, [])
  | 0, s, some _ => some (s, [])
  | room + 1, s, some tok => do
    let (s, next) ← strtok LINE_MAX s none [32]
    let (s, argv) ← parse_loop room s next
    return (s, tok :: argv)

/-- `parse_args`: what is left of the line, and the tokens in `argv` before the `NULL`. -/
def parse_args (line : Nat → Nat) : Option ((Nat → Nat) × List Nat) := do
  let (s, tok) ← strtok LINE_MAX ⟨line, none⟩ (some 0) [32]
  let (s, argv) ← parse_loop (ARGV_MAX - 1) s tok
  return (s.memory, argv)

/-- `run_command`: what is left of the line, what was done, and whether the shell goes on. -/
def run_command (line : Nat → Nat) : Option ((Nat → Nat) × List effect_t × Bool) := do
  let (line, argv) ← parse_args line
  match argv.map (string_at line LINE_MAX) with
  | [] => return (line, [], true)
  | name :: arguments =>
    if name = EXIT then return (line, [.exit 0], false)
    return (line, [.execute (name :: arguments)], true)

/-! ## The line -/

/-- The variables of `main`, and whether the shell is still there. -/
structure shell_t where
  line : Nat → Nat
  line_length : Nat
  shift : Bool
  running : Bool

/-- `line[i] = character` -/
def store (s : shell_t) (i character : Nat) : Option shell_t :=
  if i < LINE_MAX then some { s with line := Function.update s.line i character } else none

/-- The character of a key. -/
def character_of (shift : Bool) (key : Nat) : Nat :=
  if shift then keymap_shift.getD key 0 else keymap.getD key 0

/-- A turn of the loop of `main` that has read a scancode. -/
def turn (s : shell_t) (scancode : Nat) : Option (shell_t × List effect_t) :=
  if !s.running then some (s, [])
  else
    let released := scancode &&& 0x80
    let key := scancode &&& 0x7F
    if key = 42 ∨ key = 54 then some ({ s with shift := released = 0 }, [])
    else if released ≠ 0 then some (s, [])
    else
      let character := character_of s.shift key
      if character = 0 then some (s, [])
      else if character = BACKSPACE then
        if 0 < s.line_length then
          some ({ s with line_length := s.line_length - 1 }, [.write [character]])
        else some (s, [])
      else if character = NEW_LINE then do
        let s ← store s s.line_length 0
        let (line, effects, running) ← run_command s.line
        if !running then
          return ({ s with line := line, running := false }, .write [character] :: effects)
        return ({ s with line := line, line_length := 0 },
          .write [character] :: effects ++ [.write PROMPT])
      else if s.line_length < LINE_MAX - 1 then do
        let s ← store s s.line_length character
        return ({ s with line_length := s.line_length + 1 }, [.write [character]])
      else some (s, [])

/-- The turns for some scancodes. -/
def turns (s : shell_t) : List Nat → Option (shell_t × List effect_t)
  | [] => some (s, [])
  | scancode :: rest => do
    let (s, effects) ← turn s scancode
    let (s, more) ← turns s rest
    return (s, effects ++ more)

/-- `main`, on a line with anything in it. -/
def main (line : Nat → Nat) (scancodes : List Nat) : Option (shell_t × List effect_t) := do
  let (s, effects) ← turns ⟨line, 0, false, true⟩ scancodes
  return (s, .write PROMPT :: effects)

end alura_os.shell
