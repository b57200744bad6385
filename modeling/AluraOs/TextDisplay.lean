-- Text displays: what a terminal asks of a driver (`text_display_driver.h`), and the framebuffer
-- (`drivers/framebuffer.c`) and the VGA text mode (`drivers/vga.c`) as drivers.
import AluraOs.Blit
import AluraOs.Font8x8
import AluraOs.Loops

/-! ## Drivers -/

namespace alura_os.text_display

/-- `text_display_driver_t`, over the states of the display that the driver draws on. -/
structure text_display_driver_t (δ : Type) where
  put_char : δ → Nat → Nat → Nat → δ
  set_cursor : δ → Nat → Nat → δ
  get_dimensions : δ → Nat × Nat

/-- What a terminal relies on: a screen of cells, of which each shows the character that was put
there last, whatever is drawn in other cells, and one of which is marked as the cursor. -/
structure Display {δ : Type} (driver : text_display_driver_t δ) where
  width : Nat
  height : Nat
  /-- What the display keeps as it is drawn on. -/
  Keeps : δ → Prop
  /-- A cell shows a character. -/
  Shows : δ → Nat → Nat → Nat → Prop
  /-- A cell is marked. -/
  Marks : δ → Nat → Nat → Prop
  put_char_keeps : ∀ {d c x y}, Keeps d → x < width → y < height →
    Keeps (driver.put_char d c x y)
  put_char_shows : ∀ {d c x y}, Keeps d → x < width → y < height →
    Shows (driver.put_char d c x y) c x y
  put_char_other : ∀ {d c x y c' x' y'}, Keeps d → x < width → y < height → x' < width →
    y' < height → ¬ (x' = x ∧ y' = y) → Shows d c' x' y' →
      Shows (driver.put_char d c x y) c' x' y'
  set_cursor_keeps : ∀ {d x y}, Keeps d → x < width → y < height → Keeps (driver.set_cursor d x y)
  set_cursor_marks : ∀ {d x y}, Keeps d → x < width → y < height →
    Marks (driver.set_cursor d x y) x y
  set_cursor_other : ∀ {d x y c' x' y'}, Keeps d → x < width → y < height → x' < width →
    y' < height → ¬ (x' = x ∧ y' = y) → Shows d c' x' y' →
      Shows (driver.set_cursor d x y) c' x' y'

end alura_os.text_display

/-! ## The framebuffer -/

namespace alura_os.framebuffer

open alura_os.memory alura_os.task_manager alura_os.text_display byte_stores

structure framebuffer_color_t where
  r : Nat
  g : Nat
  b : Nat
  deriving DecidableEq, Repr

/-- `framebuffer_t` with the fields that text is drawn by, and the memory it is drawn in. -/
structure text_framebuffer_t extends framebuffer_t where
  foreground : framebuffer_color_t
  background : framebuffer_color_t
  cursor_x : Nat
  cursor_y : Nat
  memory : Nat → Nat

def QUESTION_MARK : Nat := 63
def UNDERSCORE : Nat := 95

/-- A colour as a word of a sprite. -/
def color_word (c : framebuffer_color_t) : Nat := c.r <<< 16 ||| c.g <<< 8 ||| c.b

/-- The inner loop of `framebuffer_put_char`: the pixels of one row of a glyph. -/
def glyph_row (bits fg bg row : Nat) (pixels : Nat → Nat) : Nat → Nat :=
  (List.range FONT8X8_WIDTH).foldl (fun pixels col =>
    Function.update pixels (row * FONT8X8_WIDTH + col)
      (if bits &&& (1 <<< col) ≠ 0 then fg else bg)) pixels

/-- The outer loop. Every word of `pixels` is set, whatever it was. -/
def glyph_pixels (code fg bg : Nat) (pixels : Nat → Nat) : Nat → Nat :=
  (List.range FONT8X8_HEIGHT).foldl (fun pixels row =>
    glyph_row (font_row code row) fg bg row pixels) pixels

/-- The glyph that stands for a character. -/
def glyph_code (character : Nat) : Nat :=
  let code := character % 256
  if 128 ≤ code then QUESTION_MARK else code

def framebuffer_put_char (fb : text_framebuffer_t) (character x y : Nat) : text_framebuffer_t :=
  let pixels := glyph_pixels (glyph_code character) (color_word fb.foreground)
    (color_word fb.background) fun _ => 0
  let sprite : framebuffer_sprite_t := ⟨pixels, FONT8X8_WIDTH, FONT8X8_HEIGHT⟩
  { fb with memory := drawn fb.memory (framebuffer_blit fb.toframebuffer_t
      (int32 (u32 (x * FONT8X8_WIDTH))) (int32 (u32 (y * FONT8X8_HEIGHT))) (some sprite)) }

def framebuffer_set_cursor (fb : text_framebuffer_t) (x y : Nat) : text_framebuffer_t :=
  framebuffer_put_char { fb with cursor_x := x, cursor_y := y } UNDERSCORE x y

def framebuffer_get_dimensions (fb : text_framebuffer_t) : Nat × Nat :=
  (fb.width / FONT8X8_WIDTH, fb.height / FONT8X8_HEIGHT)

/-- `framebuffer.driver` -/
def driver : text_display_driver_t text_framebuffer_t :=
  ⟨framebuffer_put_char, framebuffer_set_cursor, framebuffer_get_dimensions⟩

end alura_os.framebuffer

/-! ## The VGA text mode -/

namespace alura_os.vga

open alura_os.memory alura_os.text_display

def VGA_WIDTH : Nat := 80
def VGA_HEIGHT : Nat := 25

structure vga_color_t where
  background : Nat
  foreground : Nat
  deriving DecidableEq, Repr

/-- `vga_t` with what it drives: the words from `VGA_POINTER` on, and the bytes that went out to
ports, the last one first. -/
structure vga_t where
  color : vga_color_t
  words : Nat → Nat
  ports : List (Nat × Nat)

/-- `VGA_COLOR` -/
def VGA_COLOR (color : vga_color_t) : Nat := color.background <<< 4 ||| color.foreground

def io_outb (vga : vga_t) (port data : Nat) : vga_t :=
  { vga with ports := (port, data % 256) :: vga.ports }

/-- The word of a character. A `char` from 128 on is negative and sets the bits of the colour. -/
def vga_word (color : vga_color_t) (character : Nat) : Nat :=
  let promoted := if character % 256 < 128 then character % 256 else 0xFF00 + character % 256
  (VGA_COLOR color <<< 8 ||| promoted) % 0x10000

def vga_put_char (vga : vga_t) (character x y : Nat) : vga_t :=
  { vga with words :=
      Function.update vga.words (u32 (VGA_WIDTH * y + x)) (vga_word vga.color character) }

def vga_set_cursor (vga : vga_t) (x y : Nat) : vga_t :=
  let pos := (y * VGA_WIDTH + x) % 0x10000
  let vga := io_outb vga 0x3D4 0x0F
  let vga := io_outb vga 0x3D5 pos
  let vga := io_outb vga 0x3D4 0x0E
  io_outb vga 0x3D5 (pos >>> 8)

def vga_get_dimensions (_ : vga_t) : Nat × Nat := (VGA_WIDTH, VGA_HEIGHT)

/-- `vga.driver` -/
def driver : text_display_driver_t vga_t :=
  ⟨vga_put_char, vga_set_cursor, vga_get_dimensions⟩

end alura_os.vga
