-- The terminal (`terminal.c`): its buffer of characters, its cursor and what the driver shows of
-- them. An access outside the buffer ends an operation.
import AluraOs.UserMemory

namespace alura_os.terminal

open alura_os.memory alura_os.task_manager

/-! ## The record -/

inductive terminal_overflow_t where
  | TERMINAL_OVERFLOW_NONE
  | TERMINAL_OVERFLOW_WRAP
  | TERMINAL_OVERFLOW_NEW_LINE
  deriving DecidableEq, Repr

inductive terminal_result_t where
  | TERMINAL_RESULT_OK
  | TERMINAL_RESULT_OUT_OF_BOUNDS
  deriving DecidableEq, Repr

open terminal_overflow_t terminal_result_t

structure terminal_point_t where
  x : Int
  y : Int
  deriving DecidableEq, Repr

/-- `terminal_t`, and with it the cells of the screen as the driver shows them: `screen x y` is the
cell in column `x` of row `y`. -/
structure terminal_t where
  buffer : Nat → Nat
  cursor : terminal_point_t
  overflow : terminal_overflow_t
  width : Nat
  height : Nat
  screen : Nat → Nat → Nat

def NEW_LINE : Nat := 10
def BACKSPACE : Nat := 8
def SPACE : Nat := 32
def UNDERSCORE : Nat := 95

namespace terminal_t

/-- The value that an `unsigned int` keeps of an `int`. -/
def unsigned (n : Int) : Nat := (n % 0x100000000).toNat

/-- `point.y * terminal->width + point.x` -/
def index (t : terminal_t) (p : terminal_point_t) : Nat :=
  u32 (unsigned p.y * t.width + unsigned p.x)

/-- `terminal->buffer[i]` -/
def load (t : terminal_t) (i : Nat) : Option Nat :=
  if i < t.width * t.height then some (t.buffer i) else none

/-- `terminal->buffer[i] = character` -/
def store (t : terminal_t) (i character : Nat) : Option terminal_t :=
  if i < t.width * t.height then
    some { t with buffer := Function.update t.buffer i character }
  else none

/-- `driver->put_char` -/
def draw (t : terminal_t) (character x y : Nat) : terminal_t :=
  { t with screen := Function.update t.screen x (Function.update (t.screen x) y character) }

/-- `terminal->cursor = point` -/
def setCursor (t : terminal_t) (p : terminal_point_t) : terminal_t := { t with cursor := p }

/-- `driver->set_cursor`: an underscore. -/
def draw_cursor (t : terminal_t) : terminal_t :=
  t.draw UNDERSCORE (unsigned t.cursor.x) (unsigned t.cursor.y)

end terminal_t

open terminal_t

/-! ## Characters -/

def terminal_display_char (character : Nat) : Nat :=
  if character = NEW_LINE then SPACE else character

/-- One turn of the outer loop of `terminal_render`. -/
def render_row (t : terminal_t) (y : Nat) : Option terminal_t :=
  (List.range t.width).foldlM (fun t x => do
    let character ← t.load (u32 (y * t.width + x))
    return t.draw (terminal_display_char character) x y) t

def terminal_render (t : terminal_t) : Option terminal_t :=
  (List.range t.height).foldlM render_row t

/-- One turn of the first loop of `terminal_scroll`: row `y` goes to the row above. -/
def scroll_row (t : terminal_t) (y : Nat) : Option terminal_t :=
  (List.range t.width).foldlM (fun t x => do
    let character ← t.load (u32 (y * t.width + x))
    t.store (u32 ((y - 1) * t.width + x)) character) t

/-- The last loop of `terminal_scroll`. -/
def clear_row (t : terminal_t) (y : Nat) : Option terminal_t :=
  (List.range t.width).foldlM (fun t x => t.store (u32 (y * t.width + x)) 0) t

def terminal_scroll (t : terminal_t) : Option terminal_t := do
  let t ← (List.range' 1 (t.height - 1)).foldlM scroll_row t
  let t ← clear_row t (sub32 t.height 1)
  terminal_render t

/-- The end of `terminal_set_cursor`: the character under the cursor appears again, and the cursor
goes to the point. -/
def move_cursor (t : terminal_t) (point : terminal_point_t) :
    Option (terminal_t × terminal_result_t) := do
  let previous_character ← t.load (t.index t.cursor)
  let t := t.draw (terminal_display_char previous_character) (unsigned t.cursor.x)
    (unsigned t.cursor.y)
  return ((t.setCursor point).draw_cursor, TERMINAL_RESULT_OK)

/-- The point is off the screen. -/
def Outside (t : terminal_t) (point : terminal_point_t) : Prop :=
  point.x < 0 ∨ t.width ≤ point.x ∨ point.y < 0 ∨ t.height ≤ point.y

instance (t : terminal_t) (point : terminal_point_t) : Decidable (Outside t point) :=
  inferInstanceAs (Decidable (_ ∨ _ ∨ _ ∨ _))

def terminal_set_cursor (t : terminal_t) (point : terminal_point_t) :
    Option (terminal_t × terminal_result_t) :=
  if Outside t point then
    match t.overflow with
    | TERMINAL_OVERFLOW_NONE => some (t, TERMINAL_RESULT_OUT_OF_BOUNDS)
    | TERMINAL_OVERFLOW_WRAP => move_cursor t ⟨0, point.y⟩
    | TERMINAL_OVERFLOW_NEW_LINE =>
      if t.height ≤ unsigned (point.y + 1) then do
        let t ← terminal_scroll t
        move_cursor t ⟨0, int32 (sub32 t.height 1)⟩
      else move_cursor t ⟨0, point.y + 1⟩
  else move_cursor t point

def terminal_put_char (t : terminal_t) (character : Nat) :
    Option (terminal_t × terminal_result_t) :=
  if character = NEW_LINE then do
    let t ← t.store (t.index t.cursor) character
    let (t, _) ← terminal_set_cursor t ⟨0, t.cursor.y + 1⟩
    return (t, TERMINAL_RESULT_OK)
  else if character = BACKSPACE then
    if t.cursor.x = 0 then some (t, TERMINAL_RESULT_OK)
    else do
      let previous_point : terminal_point_t := ⟨t.cursor.x - 1, t.cursor.y⟩
      let t ← t.store (t.index previous_point) SPACE
      let t := t.draw SPACE (unsigned previous_point.x) (unsigned previous_point.y)
      let (t, _) ← terminal_set_cursor t previous_point
      return (t, TERMINAL_RESULT_OK)
  else do
    let t ← t.store (t.index t.cursor) character
    let t := t.draw character (unsigned t.cursor.x) (unsigned t.cursor.y)
    terminal_set_cursor t ⟨t.cursor.x + 1, t.cursor.y⟩

def terminal_set_overflow (t : terminal_t) (overflow : terminal_overflow_t) : terminal_t :=
  { t with overflow := overflow }

/-- `terminal_create` on a driver with these dimensions and on a screen with anything on it. -/
def terminal_create (width height : Nat) (screen : Nat → Nat → Nat) : Option terminal_t :=
  terminal_render ⟨fun _ => 0, ⟨0, 0⟩, TERMINAL_OVERFLOW_NEW_LINE, width, height, screen⟩

end alura_os.terminal
