-- The framebuffer as the display of a terminal: after any writes each cell of eight by eight pixels
-- is the glyph of its character, and no byte outside the cells has changed.
import AluraOs.TextTerminalLaws

namespace alura_os.framebuffer

open alura_os.memory alura_os.task_manager alura_os.text_display byte_stores loops

/-! ## Glyphs -/

theorem glyph_row_eq (bits fg bg row : Nat) (pixels : Nat → Nat) :
    glyph_row bits fg bg row pixels = fun i =>
      if row * FONT8X8_WIDTH ≤ i ∧ i < row * FONT8X8_WIDTH + FONT8X8_WIDTH then
        if bits &&& (1 <<< (i - row * FONT8X8_WIDTH)) ≠ 0 then fg else bg
      else pixels i := by
  refine foldl_range (P := fun n p => p = fun i =>
    if row * FONT8X8_WIDTH ≤ i ∧ i < row * FONT8X8_WIDTH + n then
      if bits &&& (1 <<< (i - row * FONT8X8_WIDTH)) ≠ 0 then fg else bg
    else pixels i) ?_ ?_
  · rintro col p - rfl
    funext i
    rw [Function.update_apply]
    by_cases hi : i = row * FONT8X8_WIDTH + col
    · have hin : row * FONT8X8_WIDTH ≤ i ∧ i < row * FONT8X8_WIDTH + (col + 1) := by omega
      have hcol : i - row * FONT8X8_WIDTH = col := by omega
      simp only [if_pos hi, if_pos hin, hcol]
    · simp only [if_neg hi]
      by_cases hin : row * FONT8X8_WIDTH ≤ i ∧ i < row * FONT8X8_WIDTH + col
      · have hin' : row * FONT8X8_WIDTH ≤ i ∧ i < row * FONT8X8_WIDTH + (col + 1) := by omega
        simp only [if_pos hin, if_pos hin']
      · have hout : ¬ (row * FONT8X8_WIDTH ≤ i ∧ i < row * FONT8X8_WIDTH + (col + 1)) := by omega
        simp only [if_neg hin, if_neg hout]
  · funext i
    rw [if_neg (by omega)]

theorem glyph_pixels_eq (code fg bg : Nat) (pixels : Nat → Nat) {row col : Nat}
    (hrow : row < FONT8X8_HEIGHT) (hcol : col < FONT8X8_WIDTH) :
    glyph_pixels code fg bg pixels (row * FONT8X8_WIDTH + col) =
      if Lit code row col then fg else bg := by
  have hloop := foldl_range (n := FONT8X8_HEIGHT)
    (f := fun pixels row => glyph_row (font_row code row) fg bg row pixels)
    (P := fun n p => ∀ r < n, ∀ c < FONT8X8_WIDTH, p (r * FONT8X8_WIDTH + c) =
      if Lit code r c then fg else bg)
    (fun k p _ hp r hr c hc => by
      rw [glyph_row_eq]
      by_cases hk : r = k
      · subst hk
        have hin : r * FONT8X8_WIDTH ≤ r * FONT8X8_WIDTH + c ∧
            r * FONT8X8_WIDTH + c < r * FONT8X8_WIDTH + FONT8X8_WIDTH := by omega
        simp only [if_pos hin, Nat.add_sub_cancel_left]
        rfl
      · have hout : ¬ (k * FONT8X8_WIDTH ≤ r * FONT8X8_WIDTH + c ∧
            r * FONT8X8_WIDTH + c < k * FONT8X8_WIDTH + FONT8X8_WIDTH) := by
          unfold FONT8X8_WIDTH at *
          omega
        simp only [if_neg hout]
        exact hp r (by omega) c hc)
    (s := pixels) (fun r hr => by omega)
  exact hloop row hrow col hcol

/-! ## Cells -/

variable {t : text_framebuffer_t}

/-- The colour that the pixel of a cell with this character has, packed for the screen. -/
def text_color (t : text_framebuffer_t) (character i j : Nat) : Nat :=
  repack t.toframebuffer_t
    (if Lit (glyph_code character) j i then color_word t.foreground else color_word t.background)

/-- The byte belongs to a pixel of a cell. -/
def InText (t : text_framebuffer_t) (a : Nat) : Prop :=
  ∃ x y i j k, x < t.width / FONT8X8_WIDTH ∧ y < t.height / FONT8X8_HEIGHT ∧ i < FONT8X8_WIDTH ∧
    j < FONT8X8_HEIGHT ∧ k < t.bpp / 8 ∧
    a = pixel_address t.toframebuffer_t (x * FONT8X8_WIDTH + i) (y * FONT8X8_HEIGHT + j) + k

/-- The pixels of a cell are the glyph of a character. -/
def CellShows (t d : text_framebuffer_t) (character x y : Nat) : Prop :=
  ∀ i j k, i < FONT8X8_WIDTH → j < FONT8X8_HEIGHT → k < t.bpp / 8 →
    d.memory (pixel_address t.toframebuffer_t (x * FONT8X8_WIDTH + i)
      (y * FONT8X8_HEIGHT + j) + k) = byte_of (text_color t character i j) k

/-- A framebuffer with text on it: its mode and its colours, and every byte outside the cells as it
was. -/
structure TextKept (t d : text_framebuffer_t) : Prop where
  mode : d.toframebuffer_t = t.toframebuffer_t
  foreground : d.foreground = t.foreground
  background : d.background = t.background
  outside : ∀ a, ¬ InText t a → d.memory a = t.memory a

/-- A framebuffer that a terminal can have for its display. -/
structure TextScreen (t : text_framebuffer_t) : Prop where
  screen : Screen t.toframebuffer_t
  width : t.width < 0x8000
  height : t.height < 0x8000

/-- The sprite of a character. -/
def glyph (t : text_framebuffer_t) (character : Nat) : framebuffer_sprite_t :=
  ⟨glyph_pixels (glyph_code character) (color_word t.foreground) (color_word t.background)
    fun _ => 0, FONT8X8_WIDTH, FONT8X8_HEIGHT⟩

theorem glyph_small (h : TextScreen t) (character : Nat) :
    Small t.toframebuffer_t (glyph t character) :=
  ⟨h.width, h.height, show FONT8X8_WIDTH < 0x8000 by decide, show FONT8X8_HEIGHT < 0x8000 by decide⟩

theorem TextScreen.put_char_eq (h : TextScreen t) {d : text_framebuffer_t} (hd : TextKept t d)
    (c : Nat) {x y : Nat} (hx : x < t.width / FONT8X8_WIDTH) (hy : y < t.height / FONT8X8_HEIGHT) :
    framebuffer_put_char d c x y =
      { d with memory := drawn d.memory (framebuffer_blit t.toframebuffer_t
        ((x * FONT8X8_WIDTH : Nat) : Int) ((y * FONT8X8_HEIGHT : Nat) : Int)
        (some (glyph t c))) } := by
  have hwidth := h.width
  have hheight := h.height
  have hX : int32 (u32 (x * FONT8X8_WIDTH)) = ((x * FONT8X8_WIDTH : Nat) : Int) := by
    unfold FONT8X8_WIDTH at *
    rw [u32_of_lt (by omega), int32_small (by omega)]
  have hY : int32 (u32 (y * FONT8X8_HEIGHT)) = ((y * FONT8X8_HEIGHT : Nat) : Int) := by
    unfold FONT8X8_HEIGHT at *
    rw [u32_of_lt (by omega), int32_small (by omega)]
  unfold framebuffer_put_char glyph
  rw [hX, hY, hd.mode, hd.foreground, hd.background]

/-- The pixels of a character in a cell of the screen are those of the cell. -/
theorem visible_iff (t : text_framebuffer_t) (c : Nat) {x y i j : Nat}
    (hx : x < t.width / FONT8X8_WIDTH) (hy : y < t.height / FONT8X8_HEIGHT) :
    Visible t.toframebuffer_t (glyph t c) ((x * FONT8X8_WIDTH : Nat) : Int)
        ((y * FONT8X8_HEIGHT : Nat) : Int) i j ↔ i < FONT8X8_WIDTH ∧ j < FONT8X8_HEIGHT := by
  show ((i < FONT8X8_WIDTH ∧ _) ∧ j < FONT8X8_HEIGHT ∧ _) ↔ _
  unfold FONT8X8_WIDTH FONT8X8_HEIGHT at *
  omega

theorem cell_point (n m : Nat) : (((n : Nat) : Int) + m).toNat = n + m := by omega

/-- The drawn cell is the glyph of the character. -/
theorem TextScreen.put_char_at (h : TextScreen t) {d : text_framebuffer_t} (hd : TextKept t d)
    (c : Nat) {x y : Nat} (hx : x < t.width / FONT8X8_WIDTH) (hy : y < t.height / FONT8X8_HEIGHT) :
    CellShows t (framebuffer_put_char d c x y) c x y := by
  intro i j k hi hj hk
  rw [h.put_char_eq hd c hx hy]
  have hdrawn := h.screen.drawn_at (glyph_small h c) d.memory
    ((visible_iff t c hx hy).mpr ⟨hi, hj⟩) hk
  rw [cell_point, cell_point] at hdrawn
  refine hdrawn.trans ?_
  unfold sprite_color text_color
  refine congrArg (fun w => byte_of (repack t.toframebuffer_t w) k) ?_
  exact glyph_pixels_eq _ _ _ _ hj hi

/-- A byte that is not of the drawn cell stays. -/
theorem TextScreen.put_char_other (h : TextScreen t) {d : text_framebuffer_t} (hd : TextKept t d)
    (c : Nat) {x y a : Nat} (hx : x < t.width / FONT8X8_WIDTH) (hy : y < t.height / FONT8X8_HEIGHT)
    (ha : ∀ i j k, i < FONT8X8_WIDTH → j < FONT8X8_HEIGHT → k < t.bpp / 8 →
      a ≠ pixel_address t.toframebuffer_t (x * FONT8X8_WIDTH + i) (y * FONT8X8_HEIGHT + j) + k) :
    (framebuffer_put_char d c x y).memory a = d.memory a := by
  rw [h.put_char_eq hd c hx hy]
  refine h.screen.drawn_other (glyph_small h c) d.memory fun i j k hv hk => ?_
  obtain ⟨hi, hj⟩ := (visible_iff t c hx hy).mp hv
  rw [cell_point, cell_point]
  exact ha i j k hi hj hk

/-- Two bytes of cells at one address are of one cell. -/
theorem TextScreen.cell_unique (h : TextScreen t) {x y i j k x' y' i' j' k' : Nat}
    (hx : x < t.width / FONT8X8_WIDTH) (hy : y < t.height / FONT8X8_HEIGHT) (hi : i < FONT8X8_WIDTH)
    (hj : j < FONT8X8_HEIGHT) (hk : k < t.bpp / 8) (hx' : x' < t.width / FONT8X8_WIDTH)
    (hy' : y' < t.height / FONT8X8_HEIGHT) (hi' : i' < FONT8X8_WIDTH) (hj' : j' < FONT8X8_HEIGHT)
    (hk' : k' < t.bpp / 8)
    (he : pixel_address t.toframebuffer_t (x * FONT8X8_WIDTH + i) (y * FONT8X8_HEIGHT + j) + k =
      pixel_address t.toframebuffer_t (x' * FONT8X8_WIDTH + i') (y' * FONT8X8_HEIGHT + j') + k') :
    x = x' ∧ y = y' := by
  unfold FONT8X8_WIDTH FONT8X8_HEIGHT at *
  obtain ⟨hcol, hrow, -⟩ := h.screen.pixel_unique (by omega) (by omega) hk (by omega) (by omega) hk'
    (congrArg u32 he)
  omega

theorem TextScreen.put_char_keeps (h : TextScreen t) {d : text_framebuffer_t} (hd : TextKept t d)
    (c : Nat) {x y : Nat} (hx : x < t.width / FONT8X8_WIDTH) (hy : y < t.height / FONT8X8_HEIGHT) :
    TextKept t (framebuffer_put_char d c x y) := by
  refine ⟨hd.mode, hd.foreground, hd.background, fun a ha => ?_⟩
  rw [h.put_char_other hd c hx hy]
  · exact hd.outside a ha
  · rintro i j k hi hj hk rfl
    exact ha ⟨x, y, i, j, k, hx, hy, hi, hj, hk, rfl⟩

theorem TextScreen.put_char_beside (h : TextScreen t) {d : text_framebuffer_t} (hd : TextKept t d)
    (c : Nat) {x y c' x' y' : Nat} (hx : x < t.width / FONT8X8_WIDTH)
    (hy : y < t.height / FONT8X8_HEIGHT) (hx' : x' < t.width / FONT8X8_WIDTH)
    (hy' : y' < t.height / FONT8X8_HEIGHT) (hne : ¬ (x' = x ∧ y' = y))
    (hc : CellShows t d c' x' y') : CellShows t (framebuffer_put_char d c x y) c' x' y' := by
  intro i j k hi hj hk
  rw [h.put_char_other hd c hx hy]
  · exact hc i j k hi hj hk
  · intro i' j' k' hi' hj' hk' he
    exact hne (h.cell_unique hx' hy' hi hj hk hx hy hi' hj' hk' he)

theorem TextKept.with_cursor {d : text_framebuffer_t} (hd : TextKept t d) (x y : Nat) :
    TextKept t { d with cursor_x := x, cursor_y := y } :=
  ⟨hd.mode, hd.foreground, hd.background, hd.outside⟩

/-- The framebuffer as a display: its cells are the glyphs, and the cursor is an underscore. -/
def screen_display (t : text_framebuffer_t) (h : TextScreen t) : Display driver where
  width := t.width / FONT8X8_WIDTH
  height := t.height / FONT8X8_HEIGHT
  Keeps := TextKept t
  Shows := CellShows t
  Marks d x y := CellShows t d UNDERSCORE x y ∧ d.cursor_x = x ∧ d.cursor_y = y
  put_char_keeps hd hx hy := h.put_char_keeps hd _ hx hy
  put_char_shows hd hx hy := h.put_char_at hd _ hx hy
  put_char_other hd hx hy hx' hy' hne hc := h.put_char_beside hd _ hx hy hx' hy' hne hc
  set_cursor_keeps hd hx hy := h.put_char_keeps (hd.with_cursor _ _) _ hx hy
  set_cursor_marks hd hx hy := ⟨h.put_char_at (hd.with_cursor _ _) _ hx hy, rfl, rfl⟩
  set_cursor_other hd hx hy hx' hy' hne hc :=
    h.put_char_beside (hd.with_cursor _ _) _ hx hy hx' hy' hne hc

/-! ## Runs -/

/-- The display of a framebuffer is one that a terminal can be created on. -/
theorem written_on_screen (h : TextScreen t) (hw : FONT8X8_WIDTH ≤ t.width)
    (hh : FONT8X8_HEIGHT ≤ t.height) (writes : List (List Nat)) :
    ∃ s cells, written_on driver t writes = some s ∧
      written_cells (t.width / FONT8X8_WIDTH) (t.height / FONT8X8_HEIGHT) writes = some cells ∧
      Goes (screen_display t h) s cells ∧ terminal.Coherent cells ∧
      ((∃ c ∈ writes.flatMap text, c ≠ terminal.BACKSPACE) → Marked (screen_display t h) s) := by
  have hfits : t.width / FONT8X8_WIDTH * (t.height / FONT8X8_HEIGHT) < 0x80000000 := by
    have hwidth := (Nat.div_le_self t.width FONT8X8_WIDTH).trans h.width.le
    have hheight := (Nat.div_le_self t.height FONT8X8_HEIGHT).trans h.height.le
    have hmul := Nat.mul_le_mul hwidth hheight
    omega
  exact written_on_goes (D := screen_display t h) (Nat.div_pos hw (by decide))
    (Nat.div_pos hh (by decide)) hfits rfl ⟨rfl, rfl, rfl, fun _ _ => rfl⟩ writes

/-- The text that a terminal on a framebuffer was given shows in its pixels. Every cell but the one
with the cursor is the glyph of its character in the buffer, once something was typed the cursor is
an underscore, and every byte outside the cells is as it was. The buffer is that of the terminal
that is given the same bytes with cells for a screen. -/
theorem the_pixels_show_the_text (h : TextScreen t) (hw : FONT8X8_WIDTH ≤ t.width)
    (hh : FONT8X8_HEIGHT ≤ t.height) (writes : List (List Nat)) :
    ∃ s cells, written_on driver t writes = some s ∧
      written_cells (t.width / FONT8X8_WIDTH) (t.height / FONT8X8_HEIGHT) writes = some cells ∧
      s.buffer = cells.buffer ∧ s.cursor = cells.cursor ∧ TextKept t s.display ∧
      (∀ x y, x < t.width / FONT8X8_WIDTH → y < t.height / FONT8X8_HEIGHT →
        ¬ (s.cursor.x = x ∧ s.cursor.y = y) → CellShows t s.display (shown_char s x y) x y) ∧
      ((∃ c ∈ writes.flatMap text, c ≠ terminal.BACKSPACE) →
        CellShows t s.display UNDERSCORE s.cursor.x.toNat s.cursor.y.toNat) := by
  obtain ⟨s, cells, hs, hcells, hgo, hco, hmark⟩ := written_on_screen h hw hh writes
  refine ⟨s, cells, hs, hcells, hgo.buffer, hgo.cursor, hgo.keeps, ?_, fun hc => (hmark hc).1⟩
  intro x y hx hy hne
  exact hgo.cell_shown hco hx hy hne

/-- A screen of two cells, white on grey. -/
def twoCells : text_framebuffer_t :=
  ⟨⟨0xF8000000, 64, 16, 8, 32, 16, 8, 0⟩, ⟨255, 255, 255⟩, ⟨0x42, 0x42, 0x42⟩, 0, 0, fun _ => 0⟩

theorem twoCells_screen : TextScreen twoCells :=
  ⟨⟨Or.inr (Or.inr rfl), by decide, by decide⟩, by decide, by decide⟩

/-- One character on a screen of two cells. -/
theorem an_h_on_two_cells :
    TextScreen twoCells ∧ ∃ s cells, written_on driver twoCells [[72]] = some s ∧
      written_cells 2 1 [[72]] = some cells ∧ s.buffer = cells.buffer ∧
      s.cursor = cells.cursor ∧ TextKept twoCells s.display ∧
      (∀ x y : Nat, x < 2 → y < 1 → ¬ (s.cursor.x = x ∧ s.cursor.y = y) →
        CellShows twoCells s.display (shown_char s x y) x y) ∧
      ((∃ c ∈ [[72]].flatMap text, c ≠ terminal.BACKSPACE) →
        CellShows twoCells s.display UNDERSCORE s.cursor.x.toNat s.cursor.y.toNat) :=
  ⟨twoCells_screen, the_pixels_show_the_text twoCells_screen (by decide) (by decide) [[72]]⟩

/-! ## Reading the screen -/

/-- The two colours of the text differ on the screen in some byte of a pixel. -/
def Contrast (t : text_framebuffer_t) : Prop :=
  ∃ k < t.bpp / 8, byte_of (repack t.toframebuffer_t (color_word t.foreground)) k ≠
    byte_of (repack t.toframebuffer_t (color_word t.background)) k

/-- Cells with the same pixels are of the same character. -/
theorem CellShows.char_eq (hc : Contrast t) {d e : text_framebuffer_t} {c c' x y : Nat}
    (hd : CellShows t d c x y) (he : CellShows t e c' x y) (hm : d.memory = e.memory)
    (hp : Printable c) (hp' : Printable c') : c = c' := by
  obtain ⟨k, hk, hne⟩ := hc
  have hcode : ∀ {n}, Printable n → glyph_code n = n := by
    rintro n ⟨h0, h1⟩
    unfold glyph_code
    simp only [Nat.mod_eq_of_lt (show n < 256 by omega)]
    rw [if_neg (by omega)]
  refine glyphs_differ hp hp' fun row hrow col hcol => ?_
  have hpixel := (hd col row k hcol hrow hk).symm.trans
    ((congrFun hm _).trans (he col row k hcol hrow hk))
  unfold text_color at hpixel
  rw [hcode hp, hcode hp'] at hpixel
  by_cases h1 : Lit c row col <;> by_cases h2 : Lit c' row col
  · exact ⟨fun _ => h2, fun _ => h1⟩
  · rw [if_pos h1, if_neg h2] at hpixel
    exact absurd hpixel hne
  · rw [if_neg h1, if_pos h2] at hpixel
    exact absurd hpixel.symm hne
  · exact ⟨fun hl => absurd hl h1, fun hl => absurd hl h2⟩

/-- What was written can be read off the screen: if two runs of writes leave the same pixels, each
cell away from the cursors asks for the same character in both, when that is a printable one. -/
theorem equal_pixels_are_equal_texts (h : TextScreen t) (hw : FONT8X8_WIDTH ≤ t.width)
    (hh : FONT8X8_HEIGHT ≤ t.height) (hc : Contrast t) {writes writes' : List (List Nat)}
    {s s' : text_terminal_t text_framebuffer_t} (hs : written_on driver t writes = some s)
    (hs' : written_on driver t writes' = some s') (hm : s.display.memory = s'.display.memory)
    {x y : Nat}
    (hx : x < t.width / FONT8X8_WIDTH) (hy : y < t.height / FONT8X8_HEIGHT)
    (hne : ¬ (s.cursor.x = x ∧ s.cursor.y = y)) (hne' : ¬ (s'.cursor.x = x ∧ s'.cursor.y = y))
    (hp : Printable (shown_char s x y)) (hp' : Printable (shown_char s' x y)) :
    shown_char s x y = shown_char s' x y := by
  obtain ⟨s1, cells, hs1, -, hgo, hco, -⟩ := written_on_screen h hw hh writes
  obtain ⟨s2, cells', hs2, -, hgo', hco', -⟩ := written_on_screen h hw hh writes'
  obtain rfl : s1 = s := Option.some.inj (hs1.symm.trans hs)
  obtain rfl : s2 = s' := Option.some.inj (hs2.symm.trans hs')
  exact CellShows.char_eq hc (hgo.cell_shown hco hx hy hne)
    (hgo'.cell_shown hco' hx hy hne') hm hp hp'

/-- The other way round: runs that leave the same text and the same cursor leave the same pixels. -/
theorem equal_texts_are_equal_pixels (h : TextScreen t) (hw : FONT8X8_WIDTH ≤ t.width)
    (hh : FONT8X8_HEIGHT ≤ t.height) {writes writes' : List (List Nat)}
    {s s' : text_terminal_t text_framebuffer_t} (hs : written_on driver t writes = some s)
    (hs' : written_on driver t writes' = some s')
    (htyped : ∃ c ∈ writes.flatMap text, c ≠ terminal.BACKSPACE)
    (htyped' : ∃ c ∈ writes'.flatMap text, c ≠ terminal.BACKSPACE) (hcursor : s.cursor = s'.cursor)
    (hchars : ∀ x y, x < t.width / FONT8X8_WIDTH → y < t.height / FONT8X8_HEIGHT →
      shown_char s x y = shown_char s' x y) :
    s.display.memory = s'.display.memory := by
  obtain ⟨s1, cells, hs1, -, -, -, hkept, hshows, hmark⟩ := the_pixels_show_the_text h hw hh writes
  obtain ⟨s2, cells', hs2, -, -, -, hkept', hshows', hmark'⟩ :=
    the_pixels_show_the_text h hw hh writes'
  obtain rfl : s1 = s := Option.some.inj (hs1.symm.trans hs)
  obtain rfl : s2 = s' := Option.some.inj (hs2.symm.trans hs')
  funext a
  by_cases ha : InText t a
  · obtain ⟨x, y, i, j, k, hx, hy, hi, hj, hk, rfl⟩ := ha
    by_cases hc : s1.cursor.x = x ∧ s1.cursor.y = y
    · have hm := hmark htyped
      have hm' := hmark' htyped'
      rw [← hcursor] at hm'
      rw [hc.1, hc.2, Int.toNat_natCast, Int.toNat_natCast] at hm hm'
      exact (hm i j k hi hj hk).trans (hm' i j k hi hj hk).symm
    · have hcell := hshows x y hx hy hc i j k hi hj hk
      rw [hchars x y hx hy] at hcell
      exact hcell.trans (hshows' x y hx hy (hcursor ▸ hc) i j k hi hj hk).symm
  · rw [hkept.outside a ha, hkept'.outside a ha]

/-- A terminal on two cells after writes that leave an `H` and the cursor behind it. -/
theorem h_typed (writes : List (List Nat)) (hcells : (written_cells 2 1 writes).map
      (fun cells => (cells.buffer 0, cells.buffer 1, cells.cursor)) = some (72, 0, ⟨1, 0⟩)) :
    ∃ s, written_on driver twoCells writes = some s ∧ s.cursor = ⟨1, 0⟩ ∧
      shown_char s 0 0 = 72 ∧ shown_char s 1 0 = terminal.terminal_display_char 0 := by
  obtain ⟨s, cells, hs, hwritten, hgo, -, -⟩ :=
    written_on_screen twoCells_screen (by decide) (by decide) writes
  have hsize : written_cells 2 1 writes = some cells := hwritten
  rw [hsize] at hcells
  simp only [Option.map_some, Option.some.injEq, Prod.mk.injEq] at hcells
  obtain ⟨h0, h1, hcursor⟩ := hcells
  refine ⟨s, hs, hgo.cursor.trans hcursor, ?_, ?_⟩
  · unfold shown_char
    rw [hgo.buffer, hgo.width]
    exact congrArg terminal.terminal_display_char h0
  · unfold shown_char
    rw [hgo.buffer, hgo.width]
    exact congrArg terminal.terminal_display_char h1

/-- An `X` that is taken back leaves no trace. -/
theorem the_same_h_is_read :
    ∃ s s', written_on driver twoCells [[72]] = some s ∧
      written_on driver twoCells [[88], [terminal.BACKSPACE, 72]] = some s' ∧
      shown_char s 0 0 = shown_char s' 0 0 := by
  obtain ⟨s, hs, hcursor, hchar, hnext⟩ := h_typed [[72]] (by decide)
  obtain ⟨s', hs', hcursor', hchar', hnext'⟩ := h_typed [[88], [terminal.BACKSPACE, 72]] (by decide)
  have hpixels : s.display.memory = s'.display.memory := by
    refine equal_texts_are_equal_pixels twoCells_screen (by decide) (by decide) hs hs' (by decide)
      (by decide) (hcursor.trans hcursor'.symm) fun x y hx hy => ?_
    obtain rfl : y = 0 := Nat.lt_one_iff.mp hy
    have hx2 : x < 2 := hx
    interval_cases x
    · rw [hchar, hchar']
    · rw [hnext, hnext']
  have hne : ¬ ((⟨1, 0⟩ : terminal.terminal_point_t).x = ((0 : Nat) : Int) ∧
      (⟨1, 0⟩ : terminal.terminal_point_t).y = ((0 : Nat) : Int)) := by decide
  have hprintable : Printable 72 := ⟨by decide, by decide⟩
  have hcontrast : Contrast twoCells := ⟨0, by decide, by decide⟩
  exact ⟨s, s', hs, hs', equal_pixels_are_equal_texts twoCells_screen (by decide) (by decide)
    hcontrast hs hs' hpixels (by decide) (by decide) (hcursor ▸ hne) (hcursor' ▸ hne)
    (hchar ▸ hprintable) (hchar' ▸ hprintable)⟩

end alura_os.framebuffer
