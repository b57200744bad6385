-- The shell on a terminal: as long as a line fits into its row, the row shows the text of the line.
import AluraOs.ShellLaws
import AluraOs.TerminalLaws

namespace alura_os.shell

open alura_os.memory alura_os.task_manager alura_os.terminal
open terminal_overflow_t terminal_result_t terminal_t

variable {t t' t0 : terminal_t} {e : editor_t}

/-! ## The cursor -/

/-- A character in the middle of a row moves the cursor on. -/
theorem typed_cursor (h : Coherent t) {c : Nat} (hn : c ≠ terminal.NEW_LINE)
    (hb : c ≠ terminal.BACKSPACE) (hx : t.cursor.x + 1 < t.width)
    (hput : terminal_put_char t c = some (t', TERMINAL_RESULT_OK)) :
    t'.cursor = ⟨t.cursor.x + 1, t.cursor.y⟩ := by
  obtain ⟨hx0, -, hy0, hy⟩ := h.cursor
  have hin : ¬ Outside ((withBuffer t (written t c)).draw c t.cursor.x.toNat t.cursor.y.toNat)
      ⟨t.cursor.x + 1, t.cursor.y⟩ := by
    show ¬ (t.cursor.x + 1 < 0 ∨ (t.width : Int) ≤ t.cursor.x + 1 ∨ t.cursor.y < 0 ∨
      (t.height : Int) ≤ t.cursor.y)
    omega
  obtain ⟨r, hset, -⟩ := set_cursor_landed
    (t := (withBuffer t (written t c)).draw c t.cursor.x.toNat t.cursor.y.toNat)
    (h.sized.same rfl rfl) h.cursor (p := ⟨t.cursor.x + 1, t.cursor.y⟩) ⟨hy0, hy.le⟩
  rw [put_other h.sized h.cursor hn hb, hset] at hput
  obtain rfl := (Prod.mk.inj (Option.some.inj hput)).1
  unfold landed
  rw [if_neg hin]
  rfl

/-- A backspace after the first column moves it back. -/
theorem erased_cursor (h : Coherent t) (hx : t.cursor.x ≠ 0)
    (hput : terminal_put_char t terminal.BACKSPACE = some (t', TERMINAL_RESULT_OK)) :
    t'.cursor = ⟨t.cursor.x - 1, t.cursor.y⟩ := by
  obtain ⟨hx0, hxw, hy0, hy⟩ := h.cursor
  have hin : ¬ Outside ((withBuffer t (written t terminal.BACKSPACE)).draw SPACE
      (t.cursor.x - 1).toNat t.cursor.y.toNat) ⟨t.cursor.x - 1, t.cursor.y⟩ := by
    show ¬ (t.cursor.x - 1 < 0 ∨ (t.width : Int) ≤ t.cursor.x - 1 ∨ t.cursor.y < 0 ∨
      (t.height : Int) ≤ t.cursor.y)
    omega
  obtain ⟨r, hset, -⟩ := set_cursor_landed
    (t := (withBuffer t (written t terminal.BACKSPACE)).draw SPACE (t.cursor.x - 1).toNat
      t.cursor.y.toNat)
    (h.sized.same rfl rfl) h.cursor (p := ⟨t.cursor.x - 1, t.cursor.y⟩) ⟨hy0, hy.le⟩
  rw [put_backspace h.sized h.cursor hx, hset] at hput
  obtain rfl := (Prod.mk.inj (Option.some.inj hput)).1
  unfold landed
  rw [if_neg hin]
  rfl

/-! ## The row -/

/-- From column `x0` on, row `y0` shows the text, with the cursor after it. Of the other cells only
those after the cursor can have changed, to blanks. -/
structure RowShows (t0 t : terminal_t) (x0 y0 : Nat) (text : List Nat) : Prop where
  coherent : Coherent t
  mode : t.overflow = TERMINAL_OVERFLOW_NEW_LINE
  width : t.width = t0.width
  height : t.height = t0.height
  cursor : t.cursor = ⟨x0 + text.length, y0⟩
  row : ∀ i (h : i < text.length), t.buffer (place t (x0 + i) y0) = text[i]
  erased : ∀ x, x0 + text.length ≤ x → x < t.width →
    t.buffer (place t x y0) = t0.buffer (place t x y0) ∨ t.buffer (place t x y0) = SPACE
  others : ∀ x y, x < t.width → y < t.height → ¬ (y = y0 ∧ x0 ≤ x) →
    t.buffer (place t x y) = t0.buffer (place t x y)

variable {x0 y0 : Nat} {text : List Nat}

theorem RowShows.row_lt (h : RowShows t0 t x0 y0 text) :
    x0 + text.length < t.width ∧ y0 < t.height := by
  obtain ⟨-, hx, -, hy⟩ := h.coherent.cursor
  rw [h.cursor] at hx hy
  simp only at hx hy
  omega

/-- A cell after a character that does not leave the last row. -/
theorem typed_cell {c x y : Nat} (htyped : Typed t t' c) (hl : ¬ Leaves t c) (hx : x < t.width)
    (hy : y < t.height) : t'.buffer (place t' x y) = written t c (place t x y) := by
  have hplace : place t' x y = place t x y := by
    unfold place
    rw [htyped.width]
  rw [hplace, htyped.cells x y hx hy, if_neg hl]

theorem RowShows.typed (h : RowShows t0 t x0 y0 text) {c : Nat} (hn : c ≠ terminal.NEW_LINE)
    (hb : c ≠ terminal.BACKSPACE) (hfits : x0 + (text.length + 1) < t0.width) :
    ∃ t', type_all t [c] = some t' ∧ RowShows t0 t' x0 y0 (text ++ [c]) := by
  obtain ⟨t', hput, htyped⟩ := put_char_typed h.coherent h.mode c
  have hwidth := h.width
  obtain ⟨hrow, hy⟩ := h.row_lt
  have hstays : ¬ Leaves t c := by
    rintro ⟨-, -, hend⟩
    have hend := hend.resolve_left hn
    rw [h.cursor] at hend
    simp only at hend
    omega
  have hcursor := typed_cursor h.coherent hn hb (by rw [h.cursor]; simp only; omega) hput
  have hcell : place t t.cursor.x.toNat t.cursor.y.toNat = place t (x0 + text.length) y0 := by
    rw [h.cursor]
    have hx' : ((x0 : Int) + text.length).toNat = x0 + text.length := by omega
    simp only [hx', Int.toNat_natCast]
  have hcells : ∀ {x y}, x < t.width → y < t.height → t'.buffer (place t' x y) =
      if x = x0 + text.length ∧ y = y0 then c else t.buffer (place t x y) := by
    intro x y hx hy'
    have hiff : place t x y = place t (x0 + text.length) y0 ↔ x = x0 + text.length ∧ y = y0 :=
      place_inj hx hrow
    rw [typed_cell htyped hstays hx hy', written_other hb, hcell, Function.update_apply]
    simp only [hiff]
  have hplace : ∀ x y, place t' x y = place t x y := by
    intro x y
    unfold place
    rw [htyped.width]
  refine ⟨t', ?_, htyped.coherent, htyped.overflow.trans h.mode, htyped.width.trans hwidth,
    htyped.height.trans h.height, ?_, ?_, ?_, ?_⟩
  · unfold type_all
    rw [List.foldlM_cons, hput]
    rfl
  · rw [hcursor, h.cursor]
    simp only [List.length_append, List.length_singleton, Nat.cast_add, Nat.cast_one]
    rw [Int.add_assoc]
  · intro i hi
    simp only [List.length_append, List.length_singleton] at hi
    rw [hcells (by omega) hy]
    by_cases hlast : i = text.length
    · subst hlast
      simp
    · rw [if_neg (by omega), h.row i (by omega), List.getElem_append_left (by omega)]
  · intro x hx1 hx2
    simp only [List.length_append, List.length_singleton] at hx1
    rw [htyped.width] at hx2
    rw [hcells hx2 hy, if_neg (by omega), hplace]
    exact h.erased x (by omega) hx2
  · intro x y hx hy' hne
    rw [htyped.width] at hx
    rw [htyped.height] at hy'
    rw [hcells hx hy', if_neg (by omega), hplace]
    exact h.others x y hx hy' hne

theorem RowShows.backspaced (h : RowShows t0 t x0 y0 text) (hne : text ≠ []) :
    ∃ t', type_all t [terminal.BACKSPACE] = some t' ∧ RowShows t0 t' x0 y0 text.dropLast := by
  obtain ⟨t', hput, htyped⟩ := put_char_typed h.coherent h.mode terminal.BACKSPACE
  have hpos := List.length_pos_iff.mpr hne
  obtain ⟨hrow, hy⟩ := h.row_lt
  have hstays : ¬ Leaves t terminal.BACKSPACE := fun hl => hl.1 rfl
  have hcol : t.cursor.x ≠ 0 := by
    rw [h.cursor]
    simp only
    omega
  have hcursor := erased_cursor h.coherent hcol hput
  have hcell : place t (t.cursor.x - 1).toNat t.cursor.y.toNat =
      place t (x0 + (text.length - 1)) y0 := by
    rw [h.cursor]
    have hx' : ((x0 : Int) + text.length - 1).toNat = x0 + (text.length - 1) := by omega
    simp only [hx', Int.toNat_natCast]
  have hcells : ∀ {x y}, x < t.width → y < t.height → t'.buffer (place t' x y) =
      if x = x0 + (text.length - 1) ∧ y = y0 then SPACE else t.buffer (place t x y) := by
    intro x y hx hy'
    have hiff : place t x y = place t (x0 + (text.length - 1)) y0 ↔
        x = x0 + (text.length - 1) ∧ y = y0 := place_inj hx (by omega)
    rw [typed_cell htyped hstays hx hy', written_backspace hcol, hcell, Function.update_apply]
    simp only [hiff]
  have hplace : ∀ x y, place t' x y = place t x y := by
    intro x y
    unfold place
    rw [htyped.width]
  refine ⟨t', ?_, htyped.coherent, htyped.overflow.trans h.mode, htyped.width.trans h.width,
    htyped.height.trans h.height, ?_, ?_, ?_, ?_⟩
  · unfold type_all
    rw [List.foldlM_cons, hput]
    rfl
  · rw [hcursor, h.cursor]
    simp only [List.length_dropLast, terminal_point_t.mk.injEq, and_true]
    omega
  · intro i hi
    simp only [List.length_dropLast] at hi
    rw [hcells (by omega) hy, if_neg (by omega), List.getElem_dropLast]
    exact h.row i (by omega)
  · intro x hx1 hx2
    simp only [List.length_dropLast] at hx1
    rw [htyped.width] at hx2
    rw [hcells hx2 hy, hplace]
    by_cases hlast : x = x0 + (text.length - 1)
    · rw [if_pos ⟨hlast, rfl⟩]
      exact Or.inr rfl
    · rw [if_neg (fun hb => hlast hb.1)]
      exact h.erased x (by omega) hx2
  · intro x y hx hy' hout
    rw [htyped.width] at hx
    rw [htyped.height] at hy'
    rw [hcells hx hy', if_neg (by omega), hplace]
    exact h.others x y hx hy' hout

/-! ## Runs -/

/-- The bytes that the shell writes. -/
def shown_bytes (effects : List effect_t) : List Nat :=
  effects.flatMap fun
    | .write bytes => bytes
    | _ => []

theorem key_of_typed {shift : Bool} {scancode c : Nat} (h : key_of shift scancode = .typed c) :
    c ≠ terminal.NEW_LINE ∧ c ≠ terminal.BACKSPACE := by
  unfold key_of at h
  split at h
  · cases h
  split at h
  · cases h
  simp only at h
  split at h
  · cases h
  split at h
  · cases h
  split at h
  · cases h
  rename_i hb hn
  cases h
  exact ⟨hn, hb⟩

/-- One key that does not end the line. -/
theorem RowShows.key (h : RowShows t0 t x0 y0 e.text) {k : key_t} (hk : k ≠ .enter)
    (hplain : ∀ c, k = .typed c → c ≠ terminal.NEW_LINE ∧ c ≠ terminal.BACKSPACE)
    (hfits : x0 + (edit e k).1.text.length < t0.width) :
    ∃ t', type_all t (shown_bytes (edit e k).2) = some t' ∧
      RowShows t0 t' x0 y0 (edit e k).1.text ∧ (edit e k).1.running = e.running := by
  cases k with
  | enter => exact absurd rfl hk
  | shift down => exact ⟨t, rfl, h, rfl⟩
  | nothing => exact ⟨t, rfl, h, rfl⟩
  | erase =>
    by_cases hempty : e.text = []
    · simp only [edit, if_pos hempty]
      exact ⟨t, rfl, h, trivial⟩
    · obtain ⟨t', htype, hrow⟩ := h.backspaced hempty
      simp only [edit, if_neg hempty]
      exact ⟨t', htype, hrow, trivial⟩
  | typed c =>
    obtain ⟨hn, hb⟩ := hplain c rfl
    by_cases hroom : e.text.length < LINE_MAX - 1
    · simp only [edit, if_pos hroom, List.length_append, List.length_singleton] at hfits
      obtain ⟨t', htype, hrow⟩ := h.typed hn hb hfits
      simp only [edit, if_pos hroom]
      exact ⟨t', htype, hrow, trivial⟩
    · simp only [edit, if_neg hroom]
      exact ⟨t, rfl, h, trivial⟩

theorem RowShows.keys (h : RowShows t0 t x0 y0 e.text) (he : e.running = true)
    {scancodes : List Nat}
    (hkeys : ∀ before k after, scancodes = before ++ k :: after →
      key_of (edits e before).1.shift k ≠ .enter)
    (hfits : ∀ before, before <+: scancodes → x0 + (edits e before).1.text.length < t0.width) :
    ∃ t', type_all t (shown_bytes (edits e scancodes).2) = some t' ∧
      RowShows t0 t' x0 y0 (edits e scancodes).1.text := by
  induction scancodes generalizing t e with
  | nil => exact ⟨t, rfl, h⟩
  | cons scancode rest ih =>
    have hcons : ∀ before, edits e (scancode :: before) =
        ((edits (edit e (key_of e.shift scancode)).1 before).1,
          (edit e (key_of e.shift scancode)).2 ++
            (edits (edit e (key_of e.shift scancode)).1 before).2) := by
      intro before
      rw [edits, if_pos he]
    have hfirst : key_of e.shift scancode ≠ .enter := hkeys [] scancode rest rfl
    have hfit := hfits [scancode] ⟨rest, rfl⟩
    rw [hcons] at hfit
    have hnone : (edits (edit e (key_of e.shift scancode)).1 []) =
        ((edit e (key_of e.shift scancode)).1, []) := rfl
    rw [hnone] at hfit
    obtain ⟨t1, htype, hrow, hrunning⟩ := h.key hfirst (fun c => key_of_typed) hfit
    obtain ⟨t', hrest, hrows⟩ := ih hrow (hrunning.trans he)
      (fun before k after hsplit => by
        have hkey := hkeys (scancode :: before) k after (by rw [hsplit, List.cons_append])
        rwa [hcons] at hkey)
      (fun before hprefix => by
        have hfit' := hfits (scancode :: before) (List.cons_prefix_cons.mpr ⟨rfl, hprefix⟩)
        rwa [hcons] at hfit')
    refine ⟨t', ?_, ?_⟩
    · rw [hcons]
      unfold shown_bytes type_all at *
      rw [List.flatMap_append, List.foldlM_append, htype]
      exact hrest
    · rw [hcons]
      exact hrows

/-- What is on the screen is what will run. A line is edited on a terminal, from the cursor on. As
long as it is not ended and its text fits into the row, the cells from there to the cursor are the
text, so a key that ends it runs the words that the row shows. -/
theorem the_row_shows_the_line (hco : Coherent t0) (hm : t0.overflow = TERMINAL_OVERFLOW_NEW_LINE)
    (hc : t0.cursor = ⟨x0, y0⟩) {shift : Bool} {scancodes : List Nat}
    (hkeys : ∀ before k after, scancodes = before ++ k :: after →
      key_of (edits ⟨[], shift, true⟩ before).1.shift k ≠ .enter)
    (hfits : ∀ before, before <+: scancodes →
      x0 + (edits ⟨[], shift, true⟩ before).1.text.length < t0.width) :
    ∃ t, type_all t0 (shown_bytes (edits ⟨[], shift, true⟩ scancodes).2) = some t ∧
      RowShows t0 t x0 y0 (edits ⟨[], shift, true⟩ scancodes).1.text ∧
      ∃ length : Nat, t.cursor = ⟨x0 + length, y0⟩ ∧
        (edits ⟨[], shift, true⟩ scancodes).1.text =
          (List.range length).map (fun i => t.buffer (place t (x0 + i) y0)) := by
  have hstart : RowShows t0 t0 x0 y0 [] :=
    ⟨hco, hm, rfl, rfl, hc.trans (by simp), fun i hi => absurd hi (Nat.not_lt_zero i),
      fun _ _ _ => Or.inl rfl, fun _ _ _ _ _ => rfl⟩
  obtain ⟨t, htype, hrow⟩ := RowShows.keys (e := ⟨[], shift, true⟩) hstart rfl hkeys hfits
  refine ⟨t, htype, hrow, _, hrow.cursor, ?_⟩
  apply List.ext_getElem
  · simp
  · intro i h1 h2
    simp only [List.getElem_map, List.getElem_range]
    exact (hrow.row i h1).symm

/-- A row of four cells. -/
def fourCells : terminal_t :=
  ⟨fun _ => 0, ⟨0, 0⟩, TERMINAL_OVERFLOW_NEW_LINE, 4, 1, fun _ _ => 0⟩

theorem fourCells_coherent : Coherent fourCells :=
  ⟨⟨by decide, by decide, by decide⟩, by unfold Inside; decide, fun _ _ _ _ _ => rfl⟩

/-- Two keys on a row of four cells. -/
theorem two_keys_are_shown :
    ∃ t, type_all fourCells (shown_bytes (edits ⟨[], false, true⟩ [30, 48]).2) = some t ∧
      RowShows fourCells t 0 0 (edits ⟨[], false, true⟩ [30, 48]).1.text ∧
      ∃ length : Nat, t.cursor = ⟨(0 : Nat) + length, (0 : Nat)⟩ ∧
        (edits ⟨[], false, true⟩ [30, 48]).1.text =
          (List.range length).map (fun i => t.buffer (place t (0 + i) 0)) := by
  refine the_row_shows_the_line fourCells_coherent rfl rfl ?_ ?_
  · rintro (_ | ⟨k, _ | ⟨k', before⟩⟩) key after hsplit
    · cases hsplit
      decide
    · cases hsplit
      decide
    · simp at hsplit
  · intro before hprefix
    have hall : ∀ b ∈ [30, 48].inits,
        0 + (edits ⟨[], false, true⟩ b).1.text.length < fourCells.width := by
      decide
    exact hall before ((List.mem_inits _ _).mpr hprefix)

end alura_os.shell
