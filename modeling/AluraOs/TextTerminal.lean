-- The terminal (`terminal.c`) over any driver: it knows its display by the three functions of the
-- driver only.
import AluraOs.Terminal
import AluraOs.TextDisplay

namespace alura_os.text_display

open alura_os.memory alura_os.task_manager
open terminal terminal.terminal_t terminal.terminal_overflow_t terminal.terminal_result_t

variable {δ : Type} (driver : text_display_driver_t δ)

/-- `terminal_t`, with the display behind its driver. -/
structure text_terminal_t (δ : Type) where
  display : δ
  buffer : Nat → Nat
  cursor : terminal_point_t
  overflow : terminal_overflow_t
  width : Nat
  height : Nat

namespace text_terminal_t

/-- `point.y * terminal->width + point.x` -/
def index (s : text_terminal_t δ) (p : terminal_point_t) : Nat :=
  u32 (unsigned p.y * s.width + unsigned p.x)

/-- `terminal->buffer[i]` -/
def load (s : text_terminal_t δ) (i : Nat) : Option Nat :=
  if i < s.width * s.height then some (s.buffer i) else none

/-- `terminal->buffer[i] = character` -/
def store (s : text_terminal_t δ) (i character : Nat) : Option (text_terminal_t δ) :=
  if i < s.width * s.height then
    some { s with buffer := Function.update s.buffer i character }
  else none

/-- `terminal->driver->put_char` -/
def draw (s : text_terminal_t δ) (character x y : Nat) : text_terminal_t δ :=
  { s with display := driver.put_char s.display character x y }

/-- `terminal->cursor = point` -/
def setCursor (s : text_terminal_t δ) (p : terminal_point_t) : text_terminal_t δ :=
  { s with cursor := p }

/-- `terminal->driver->set_cursor` -/
def draw_cursor (s : text_terminal_t δ) : text_terminal_t δ :=
  { s with display := driver.set_cursor s.display (unsigned s.cursor.x) (unsigned s.cursor.y) }

end text_terminal_t

/-! ## Characters -/

/-- One turn of the outer loop of `terminal_render`. -/
def render_row (s : text_terminal_t δ) (y : Nat) : Option (text_terminal_t δ) :=
  (List.range s.width).foldlM (fun s x => do
    let character ← s.load (u32 (y * s.width + x))
    return s.draw driver (terminal_display_char character) x y) s

def terminal_render (s : text_terminal_t δ) : Option (text_terminal_t δ) :=
  (List.range s.height).foldlM (render_row driver) s

/-- One turn of the first loop of `terminal_scroll`. -/
def scroll_row (s : text_terminal_t δ) (y : Nat) : Option (text_terminal_t δ) :=
  (List.range s.width).foldlM (fun s x => do
    let character ← s.load (u32 (y * s.width + x))
    s.store (u32 ((y - 1) * s.width + x)) character) s

/-- The last loop of `terminal_scroll`. -/
def clear_row (s : text_terminal_t δ) (y : Nat) : Option (text_terminal_t δ) :=
  (List.range s.width).foldlM (fun s x => s.store (u32 (y * s.width + x)) 0) s

def terminal_scroll (s : text_terminal_t δ) : Option (text_terminal_t δ) := do
  let s ← (List.range' 1 (s.height - 1)).foldlM scroll_row s
  let s ← clear_row s (sub32 s.height 1)
  terminal_render driver s

/-- The end of `terminal_set_cursor`. -/
def move_cursor (s : text_terminal_t δ) (point : terminal_point_t) :
    Option (text_terminal_t δ × terminal_result_t) := do
  let previous_character ← s.load (s.index s.cursor)
  let s := s.draw driver (terminal_display_char previous_character) (unsigned s.cursor.x)
    (unsigned s.cursor.y)
  return ((s.setCursor point).draw_cursor driver, TERMINAL_RESULT_OK)

/-- The point is off the screen. -/
def Outside (s : text_terminal_t δ) (point : terminal_point_t) : Prop :=
  point.x < 0 ∨ s.width ≤ point.x ∨ point.y < 0 ∨ s.height ≤ point.y

instance (s : text_terminal_t δ) (point : terminal_point_t) : Decidable (Outside s point) :=
  inferInstanceAs (Decidable (_ ∨ _ ∨ _ ∨ _))

def terminal_set_cursor (s : text_terminal_t δ) (point : terminal_point_t) :
    Option (text_terminal_t δ × terminal_result_t) :=
  if Outside s point then
    match s.overflow with
    | TERMINAL_OVERFLOW_NONE => some (s, TERMINAL_RESULT_OUT_OF_BOUNDS)
    | TERMINAL_OVERFLOW_WRAP => move_cursor driver s ⟨0, point.y⟩
    | TERMINAL_OVERFLOW_NEW_LINE =>
      if s.height ≤ unsigned (point.y + 1) then do
        let s ← terminal_scroll driver s
        move_cursor driver s ⟨0, int32 (sub32 s.height 1)⟩
      else move_cursor driver s ⟨0, point.y + 1⟩
  else move_cursor driver s point

def terminal_put_char (s : text_terminal_t δ) (character : Nat) :
    Option (text_terminal_t δ × terminal_result_t) :=
  if character = NEW_LINE then do
    let s ← s.store (s.index s.cursor) character
    let (s, _) ← terminal_set_cursor driver s ⟨0, s.cursor.y + 1⟩
    return (s, TERMINAL_RESULT_OK)
  else if character = BACKSPACE then
    if s.cursor.x = 0 then some (s, TERMINAL_RESULT_OK)
    else do
      let previous_point : terminal_point_t := ⟨s.cursor.x - 1, s.cursor.y⟩
      let s ← s.store (s.index previous_point) SPACE
      let s := s.draw driver SPACE (unsigned previous_point.x) (unsigned previous_point.y)
      let (s, _) ← terminal_set_cursor driver s previous_point
      return (s, TERMINAL_RESULT_OK)
  else do
    let s ← s.store (s.index s.cursor) character
    let s := s.draw driver character (unsigned s.cursor.x) (unsigned s.cursor.y)
    terminal_set_cursor driver s ⟨s.cursor.x + 1, s.cursor.y⟩

/-- `terminal_create` on a display. -/
def terminal_create (display : δ) : Option (text_terminal_t δ) :=
  terminal_render driver ⟨display, fun _ => 0, ⟨0, 0⟩, TERMINAL_OVERFLOW_NEW_LINE,
    (driver.get_dimensions display).1, (driver.get_dimensions display).2⟩

/-- The bytes of `terminal_write` up to the first zero, one after the other, whatever a character
answers. -/
def write_loop (s : text_terminal_t δ) : List Nat → Option (text_terminal_t δ × Nat)
  | [] => some (s, 0)
  | character :: rest =>
    if character = 0 then some (s, 0)
    else do
      let (s, _) ← terminal_put_char driver s character
      let (s, written) ← write_loop s rest
      return (s, written + 1)

/-- `terminal_write` of a buffer of `length` bytes: the terminal and the count of bytes written. -/
def terminal_write (s : text_terminal_t δ) (data : List Nat) : Option (text_terminal_t δ × Nat) :=
  write_loop driver s data

end alura_os.text_display
