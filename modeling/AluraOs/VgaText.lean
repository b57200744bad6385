-- The VGA text mode as the display of a terminal: after any writes each word holds its character
-- under the colour, and the cursor registers hold the place of the cursor.
import AluraOs.TextTerminalLaws

namespace alura_os.vga

open alura_os.memory alura_os.text_display

variable {v : vga_t}

/-- Where the word of a cell stands. -/
theorem word_index {x y : Nat} (hx : x < VGA_WIDTH) (hy : y < VGA_HEIGHT) :
    u32 (VGA_WIDTH * y + x) = VGA_WIDTH * y + x := by
  unfold VGA_WIDTH VGA_HEIGHT at *
  exact u32_of_lt (by omega)

/-- A text screen in use: its colour, and the words after the last cell as they were. -/
structure WordsKept (v d : vga_t) : Prop where
  color : d.color = v.color
  outside : ∀ i, VGA_WIDTH * VGA_HEIGHT ≤ i → d.words i = v.words i

/-- The last four bytes that went out to ports set the cursor registers to a place. -/
def CursorAt (d : vga_t) (place : Nat) : Prop :=
  ∃ low high rest,
    d.ports = (0x3D5, high) :: (0x3D4, 0x0E) :: (0x3D5, low) :: (0x3D4, 0x0F) :: rest ∧
      low < 256 ∧ high < 256 ∧ high * 256 + low = place

theorem put_char_at (d : vga_t) (c : Nat) {x y : Nat} (hx : x < VGA_WIDTH) (hy : y < VGA_HEIGHT) :
    (vga_put_char d c x y).words (VGA_WIDTH * y + x) = vga_word d.color c := by
  unfold vga_put_char
  rw [word_index hx hy]
  exact Function.update_self ..

theorem put_char_other (d : vga_t) (c : Nat) {x y i : Nat} (hx : x < VGA_WIDTH)
    (hy : y < VGA_HEIGHT) (hi : i ≠ VGA_WIDTH * y + x) :
    (vga_put_char d c x y).words i = d.words i := by
  unfold vga_put_char
  rw [word_index hx hy]
  exact Function.update_of_ne hi _ _

theorem set_cursor_at (d : vga_t) {x y : Nat} (hx : x < VGA_WIDTH) (hy : y < VGA_HEIGHT) :
    CursorAt (vga_set_cursor d x y) (VGA_WIDTH * y + x) := by
  unfold VGA_WIDTH VGA_HEIGHT at *
  refine ⟨_, _, d.ports, rfl, Nat.mod_lt _ (by decide), Nat.mod_lt _ (by decide), ?_⟩
  simp only [VGA_WIDTH, Nat.shiftRight_eq_div_pow]
  omega

/-- The text mode as a display. -/
def vga_display (v : vga_t) : Display driver where
  width := VGA_WIDTH
  height := VGA_HEIGHT
  Keeps := WordsKept v
  Shows d c x y := d.words (VGA_WIDTH * y + x) = vga_word v.color c
  Marks d x y := CursorAt d (VGA_WIDTH * y + x)
  put_char_keeps hd hx hy := by
    refine ⟨hd.color, fun i hi => ?_⟩
    rw [← hd.outside i hi]
    refine put_char_other _ _ hx hy ?_
    unfold VGA_WIDTH VGA_HEIGHT at *
    omega
  put_char_shows hd hx hy := (put_char_at _ _ hx hy).trans (congrArg (vga_word · _) hd.color)
  put_char_other hd hx hy hx' hy' hne hc := by
    refine (vga.put_char_other _ _ hx hy ?_).trans hc
    unfold VGA_WIDTH at *
    omega
  set_cursor_keeps hd _ _ := ⟨hd.color, hd.outside⟩
  set_cursor_marks _ hx hy := set_cursor_at _ hx hy
  set_cursor_other _ _ _ _ _ _ hc := hc

/-- The text that a terminal on the VGA was given stands in its words: each is the character of its
cell under the colour, the words after the screen are as they were, and once something was typed the
cursor registers hold the place of the cursor. -/
theorem the_words_hold_the_text (v : vga_t) (writes : List (List Nat)) :
    ∃ s cells, written_on driver v writes = some s ∧
      written_cells VGA_WIDTH VGA_HEIGHT writes = some cells ∧ s.buffer = cells.buffer ∧
      s.cursor = cells.cursor ∧ WordsKept v s.display ∧
      (∀ x y, x < VGA_WIDTH → y < VGA_HEIGHT → ¬ (s.cursor.x = x ∧ s.cursor.y = y) →
        s.display.words (VGA_WIDTH * y + x) = vga_word v.color (shown_char s x y)) ∧
      ((∃ c ∈ writes.flatMap text, c ≠ terminal.BACKSPACE) →
        CursorAt s.display (VGA_WIDTH * s.cursor.y.toNat + s.cursor.x.toNat)) := by
  obtain ⟨s, cells, hs, hcells, hgo, hco, hmark⟩ :=
    written_on_goes (D := vga_display v) (show 0 < VGA_WIDTH by decide)
      (show 0 < VGA_HEIGHT by decide) (show VGA_WIDTH * VGA_HEIGHT < 0x80000000 by decide)
      (show driver.get_dimensions v = (VGA_WIDTH, VGA_HEIGHT) from rfl) ⟨rfl, fun _ _ => rfl⟩ writes
  refine ⟨s, cells, hs, hcells, hgo.buffer, hgo.cursor, hgo.keeps, ?_, hmark⟩
  intro x y hx hy hne
  exact hgo.cell_shown hco hx hy hne

end alura_os.vga
