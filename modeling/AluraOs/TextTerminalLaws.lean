-- The laws of the terminal over any driver. It goes together with the terminal whose screen is
-- cells: the display shows those cells, so it shows the buffer wherever they do.
import AluraOs.TerminalLaws
import AluraOs.TextTerminal

namespace alura_os.text_display

open alura_os.memory alura_os.task_manager loops
open terminal terminal.terminal_t terminal.terminal_overflow_t terminal.terminal_result_t

variable {δ : Type} {driver : text_display_driver_t δ} {D : Display driver}
  {s : text_terminal_t δ} {t : terminal_t} {P Q : Nat → Nat → Prop}

/-! ## Two terminals that go together -/

/-- The terminal on a display has the buffer and the cursor of the one with cells, and the display
shows the cells of `P`. -/
structure Follows (D : Display driver) (P : Nat → Nat → Prop) (s : text_terminal_t δ)
    (t : terminal_t) : Prop where
  buffer : s.buffer = t.buffer
  cursor : s.cursor = t.cursor
  overflow : s.overflow = t.overflow
  width : s.width = D.width
  height : s.height = D.height
  columns : t.width = D.width
  rows : t.height = D.height
  keeps : D.Keeps s.display
  shows : ∀ x y, x < D.width → y < D.height → P x y → D.Shows s.display (t.screen x y) x y

theorem Follows.mono (h : Follows D P s t)
    (hq : ∀ x y, x < D.width → y < D.height → Q x y → P x y) : Follows D Q s t :=
  { h with shows := fun x y hx hy hxy => h.shows x y hx hy (hq x y hx hy hxy) }

theorem Follows.index_eq (h : Follows D P s t) (p : terminal_point_t) : s.index p = t.index p := by
  unfold text_terminal_t.index terminal_t.index
  rw [h.width, h.columns]

theorem Follows.load_eq (h : Follows D P s t) (i : Nat) : s.load i = t.load i := by
  unfold text_terminal_t.load terminal_t.load
  rw [h.width, h.columns, h.height, h.rows, h.buffer]

theorem Follows.size (h : Follows D P s t) : s.width * s.height = t.width * t.height := by
  rw [h.width, h.columns, h.height, h.rows]

theorem Follows.store (h : Follows D P s t) (i c : Nat) :
    Option.Rel (Follows D P) (s.store i c) (t.store i c) := by
  unfold text_terminal_t.store terminal_t.store
  by_cases hi : i < t.width * t.height
  · rw [if_pos hi, if_pos (h.size ▸ hi)]
    refine Option.Rel.some { h with buffer := ?_ }
    exact congrArg (Function.update · i c) h.buffer
  · rw [if_neg hi, if_neg (h.size ▸ hi)]
    exact Option.Rel.none

/-- A character that is drawn is shown as well. -/
theorem Follows.draw (h : Follows D P s t) (c : Nat) {x y : Nat} (hx : x < D.width)
    (hy : y < D.height) :
    Follows D (fun x' y' => P x' y' ∨ (x' = x ∧ y' = y)) (s.draw driver c x y) (t.draw c x y) := by
  rw [draw_eq]
  refine { h with keeps := D.put_char_keeps h.keeps hx hy, shows := ?_ }
  intro x' y' hx' hy' hp
  show D.Shows (driver.put_char s.display c x y)
    (if x' = x ∧ y' = y then c else t.screen x' y') x' y'
  by_cases hcell : x' = x ∧ y' = y
  · obtain ⟨rfl, rfl⟩ := hcell
    rw [if_pos ⟨rfl, rfl⟩]
    exact D.put_char_shows h.keeps hx hy
  · rw [if_neg hcell]
    exact D.put_char_other h.keeps hx hy hx' hy' hcell
      (h.shows x' y' hx' hy' (hp.resolve_right hcell))

/-! ## The loops -/

theorem Follows.render_row (h : Follows D P s t) {y : Nat} (hy : y < D.height) :
    Option.Rel (Follows D fun x' y' => P x' y' ∨ y' = y) (render_row driver s y)
      (terminal.render_row t y) := by
  unfold text_display.render_row terminal.render_row
  rw [h.width, h.columns]
  have hloop := foldlM_range_rel (n := D.width)
    (R := fun i => Follows D fun x' y' => P x' y' ∨ (y' = y ∧ x' < i))
    (f := fun s x => do
      let character ← s.load (u32 (y * s.width + x))
      return s.draw driver (terminal_display_char character) x y)
    (g := fun t x => do
      let character ← t.load (u32 (y * t.width + x))
      return t.draw (terminal_display_char character) x y)
    (fun x s' t' hx h' => by
      rw [h'.load_eq, h'.width, h'.columns]
      cases t'.load (u32 (y * D.width + x)) with
      | none => exact Option.Rel.none
      | some c =>
        refine Option.Rel.some ((h'.draw (terminal_display_char c) hx hy).mono ?_)
        rintro x' y' _ _ (hp | ⟨rfl, hp⟩)
        · exact Or.inl (Or.inl hp)
        · omega)
    (h.mono fun x' y' _ _ hp => hp.resolve_right (by omega))
  refine rel_mono hloop fun s' t' h' => h'.mono ?_
  rintro x' y' hx' _ (hp | hp)
  · exact Or.inl hp
  · exact Or.inr ⟨hp, hx'⟩

theorem Follows.render (h : Follows D P s t) :
    Option.Rel (Follows D fun _ _ => True) (terminal_render driver s)
      (terminal.terminal_render t) := by
  unfold text_display.terminal_render terminal.terminal_render
  rw [h.height, h.rows]
  have hloop := foldlM_range_rel (n := D.height) (R := fun i => Follows D fun x y => P x y ∨ y < i)
    (f := text_display.render_row driver) (g := terminal.render_row)
    (fun y s' t' hy h' => by
      refine rel_mono (h'.render_row hy) fun _ _ hr => hr.mono ?_
      rintro x' y' _ _ (hp | hp)
      · exact Or.inl (Or.inl hp)
      · omega)
    (h.mono fun x' y' _ _ hp => hp.resolve_right (by omega))
  exact rel_mono hloop fun s' t' h' => h'.mono fun x' y' _ hy' _ => Or.inr hy'

theorem Follows.scroll_row (h : Follows D P s t) (y : Nat) :
    Option.Rel (Follows D P) (scroll_row s y) (terminal.scroll_row t y) := by
  unfold text_display.scroll_row terminal.scroll_row
  rw [h.width, h.columns]
  refine foldlM_rel (fun x s' t' _ h' => ?_) h
  rw [h'.load_eq, h'.width, h'.columns]
  cases t'.load (u32 (y * D.width + x)) with
  | none => exact Option.Rel.none
  | some c => exact h'.store _ c

theorem Follows.clear_row (h : Follows D P s t) (y : Nat) :
    Option.Rel (Follows D P) (clear_row s y) (terminal.clear_row t y) := by
  unfold text_display.clear_row terminal.clear_row
  rw [h.width, h.columns]
  refine foldlM_rel (fun x s' t' _ h' => ?_) h
  rw [h'.width, h'.columns]
  exact h'.store _ 0

theorem Follows.scroll (h : Follows D P s t) :
    Option.Rel (Follows D fun _ _ => True) (terminal_scroll driver s)
      (terminal.terminal_scroll t) := by
  unfold text_display.terminal_scroll terminal.terminal_scroll
  rw [h.height, h.rows]
  refine rel_bind (foldlM_rel (fun y s' t' _ h' => h'.scroll_row y) h) fun s' t' h' => ?_
  rw [h'.height, h'.rows]
  exact rel_bind (h'.clear_row _) fun s' t' h' => h'.render

/-! ## The cursor -/

/-- The terminals go together, but for the cell with the cursor. -/
def Goes (D : Display driver) (s : text_terminal_t δ) (t : terminal_t) : Prop :=
  Follows D (fun x y => ¬ (t.cursor.x = x ∧ t.cursor.y = y)) s t

/-- The display marks the cell with the cursor. -/
def Marked (D : Display driver) (s : text_terminal_t δ) : Prop :=
  D.Marks s.display s.cursor.x.toNat s.cursor.y.toNat

/-- Once the character under the cursor is drawn, every cell is shown. -/
theorem Goes.redrawn (h : Goes D s t) (hc : Inside t t.cursor) :
    Follows D (fun _ _ => True) (s.draw driver
      (terminal_display_char (t.buffer (place t t.cursor.x.toNat t.cursor.y.toNat)))
        t.cursor.x.toNat t.cursor.y.toNat) (repaired t) := by
  obtain ⟨hx0, hx, hy0, hy⟩ := hc
  have hcolumns := h.columns
  have hrows := h.rows
  refine (Follows.draw h _ (by omega) (by omega)).mono ?_
  intro x y _ _ _
  omega

theorem Goes.move (h : Goes D s t) (hs : Sized t) (hc : Inside t t.cursor) {p : terminal_point_t}
    (hp : Inside t p) :
    ∃ s', move_cursor driver s p = some (s', TERMINAL_RESULT_OK) ∧ Goes D s' (moved t p) ∧
      Marked D s' := by
  have hw := hs.width_lt
  have hh := hs.height_lt
  have hcolumns := h.columns
  have hrows := h.rows
  have hload : s.load (s.index s.cursor) =
      some (t.buffer (place t t.cursor.x.toNat t.cursor.y.toNat)) := by
    rw [h.load_eq, h.index_eq, h.cursor, hs.index_eq hc]
    exact terminal.load_eq hc.place_lt
  have hred := h.redrawn hc
  have hp' := hp
  obtain ⟨hx0, hx, hy0, hy⟩ := hc
  obtain ⟨px0, px, py0, py⟩ := hp
  have hux : unsigned s.cursor.x = t.cursor.x.toNat := by
    rw [h.cursor, unsigned_nat hx0 (by omega)]
  have huy : unsigned s.cursor.y = t.cursor.y.toNat := by
    rw [h.cursor, unsigned_nat hy0 (by omega)]
  have hpx : unsigned p.x = p.x.toNat := unsigned_nat px0 (by omega)
  have hpy : unsigned p.y = p.y.toNat := unsigned_nat py0 (by omega)
  unfold text_display.move_cursor
  rw [hload]
  simp only [Option.bind_eq_bind, Option.bind_some, hux, huy]
  generalize hs1 : s.draw driver _ _ _ = s1 at hred ⊢
  have hdraw : (s1.setCursor p).draw_cursor driver =
      { s1 with cursor := p, display := driver.set_cursor s1.display p.x.toNat p.y.toNat } := by
    rw [← hpx, ← hpy]
    rfl
  refine ⟨_, rfl, ?_, ?_⟩
  · rw [hdraw]
    refine { hred with cursor := rfl, keeps := ?_, shows := ?_ }
    · exact D.set_cursor_keeps hred.keeps (by omega) (by omega)
    · intro x y hx' hy' hne
      have hcell : ¬ (x = p.x.toNat ∧ y = p.y.toNat) := by
        have hne' : ¬ (p.x = x ∧ p.y = y) := hne
        omega
      rw [moved_screen hs hp', if_neg hcell]
      exact D.set_cursor_other hred.keeps (by omega) (by omega) hx' hy' hcell
        (hred.shows x y hx' hy' trivial)
  · rw [hdraw]
    exact D.set_cursor_marks hred.keeps (by omega) (by omega)

theorem Follows.outside_iff (h : Follows D P s t) (p : terminal_point_t) :
    text_display.Outside s p ↔ terminal.Outside t p := by
  unfold text_display.Outside terminal.Outside
  rw [h.width, h.columns, h.height, h.rows]

/-- A cursor that leaves its row or the screen. -/
theorem Goes.land (h : Goes D s t) (hs : Sized t) (hc : Inside t t.cursor)
    (hm : t.overflow = TERMINAL_OVERFLOW_NEW_LINE) {p : terminal_point_t}
    (hp : 0 ≤ p.y ∧ p.y ≤ t.height) :
    ∃ s', terminal_set_cursor driver s p = some (s', TERMINAL_RESULT_OK) ∧
      Goes D s' (landed t p) ∧ Marked D s' := by
  have hw0 := hs.width
  have hh0 := hs.height
  have hh := hs.height_lt
  unfold text_display.terminal_set_cursor landed
  rw [h.overflow, hm]
  by_cases hout : terminal.Outside t p
  · rw [if_pos ((h.outside_iff p).mpr hout), if_pos hout]
    simp only []
    rw [unsigned_nat (by omega) (by omega), h.height, ← h.rows]
    by_cases hlast : (t.height : Int) ≤ p.y + 1
    · -- the last row: everything moves up
      rw [if_pos (by omega), if_pos hlast]
      have hscroll := h.scroll
      rw [terminal_scroll_eq hs] at hscroll
      obtain ⟨s1, h1, hgo⟩ := rel_some hscroll
      have hend : int32 (sub32 s1.height 1) = t.height - 1 := by
        rw [hgo.height, ← h.rows, sub32_of_le (by omega) (by omega)]
        unfold int32
        rw [if_pos (by omega)]
        omega
      have hin : Inside (scrolled t) ⟨0, t.height - 1⟩ := by
        show (0 : Int) ≤ 0 ∧ (0 : Int) < t.width ∧ (0 : Int) ≤ t.height - 1 ∧
          (t.height : Int) - 1 < t.height
        omega
      have hgoes : Goes D s1 (scrolled t) := hgo.mono fun _ _ _ _ _ => trivial
      rw [h1]
      simp only [Option.bind_eq_bind, Option.bind_some, hend]
      exact hgoes.move (scrolled_sized hs) hc hin
    · have hin : Inside t ⟨0, p.y + 1⟩ := by
        unfold Inside
        simp only
        omega
      rw [if_neg (by omega), if_neg hlast]
      exact h.move hs hc hin
  · rw [if_neg (fun ho => hout ((h.outside_iff p).mp ho)), if_neg hout]
    exact h.move hs hc (not_outside.mp hout)

/-- A move of the cursor in the default mode. -/
theorem Goes.set_cursor (h : Goes D s t) (hs : Sized t) (hc : Inside t t.cursor)
    (hm : t.overflow = TERMINAL_OVERFLOW_NEW_LINE) {p : terminal_point_t}
    (hp : 0 ≤ p.y ∧ p.y ≤ t.height) :
    ∃ s' t', terminal_set_cursor driver s p = some (s', TERMINAL_RESULT_OK) ∧
      terminal.terminal_set_cursor t p = some (t', TERMINAL_RESULT_OK) ∧ Goes D s' t' ∧
      Marked D s' := by
  obtain ⟨s', hset, hgoes, hmark⟩ := h.land hs hc hm hp
  obtain ⟨r, hland, hr⟩ := set_cursor_landed hs hc hp
  rw [hr (by rw [hm]; decide)] at hland
  exact ⟨s', landed t p, hset, hland, hgoes, hmark⟩

/-! ## Characters -/

/-- A character that is stored on both sides. -/
theorem Goes.stored (h : Goes D s t) {p : terminal_point_t} (hs : Sized t) (hp : Inside t p)
    (c : Nat) :
    ∃ s', s.store (s.index p) c = some s' ∧
      Goes D s' (withBuffer t (Function.update t.buffer (place t p.x.toNat p.y.toNat) c)) := by
  have hstore := Follows.store h (s.index p) c
  rw [h.index_eq, hs.index_eq hp, terminal.store_eq c hp.place_lt] at hstore
  obtain ⟨s', hs', hgo⟩ := rel_some hstore
  refine ⟨s', ?_, hgo⟩
  rw [h.index_eq, hs.index_eq hp]
  exact hs'

/-- A character that is drawn on both sides. -/
theorem Goes.drawn (h : Goes D s t) (hs : Sized t) {p : terminal_point_t} (hp : Inside t p)
    (c : Nat) :
    Goes D (s.draw driver c (unsigned p.x) (unsigned p.y)) (t.draw c p.x.toNat p.y.toNat) := by
  have hw := hs.width_lt
  have hh := hs.height_lt
  have hcolumns := h.columns
  have hrows := h.rows
  obtain ⟨hx0, hx, hy0, hy⟩ := hp
  rw [unsigned_nat hx0 (by omega), unsigned_nat hy0 (by omega)]
  exact (Follows.draw h c (by omega) (by omega)).mono fun _ _ _ _ hne => Or.inl hne

/-- One character in the default mode. -/
theorem Goes.put (h : Goes D s t) (hco : Coherent t) (hm : t.overflow = TERMINAL_OVERFLOW_NEW_LINE)
    (c : Nat) :
    ∃ s' t', terminal_put_char driver s c = some (s', TERMINAL_RESULT_OK) ∧
      terminal.terminal_put_char t c = some (t', TERMINAL_RESULT_OK) ∧ Goes D s' t' ∧
      (c ≠ BACKSPACE ∨ Marked D s → Marked D s') := by
  have hs := hco.sized
  have hc := hco.cursor
  obtain ⟨hx0, hx, hy0, hy⟩ := hco.cursor
  unfold text_display.terminal_put_char
  by_cases hnl : c = NEW_LINE
  · subst hnl
    obtain ⟨s1, h1, hgo⟩ := h.stored hs hc NEW_LINE
    rw [← written_other (by decide)] at hgo
    obtain ⟨s', t', hset, hset', hgoes, hmark⟩ := hgo.set_cursor (hs.same rfl rfl) hc hm
      (p := ⟨0, t.cursor.y + 1⟩) (by show 0 ≤ t.cursor.y + 1 ∧ t.cursor.y + 1 ≤ t.height; omega)
    have hcursor : s1.cursor = t.cursor := hgo.cursor
    refine ⟨s', t', ?_, ?_, hgoes, fun _ => hmark⟩
    · rw [if_pos rfl, h.cursor, h1]
      simp only [Option.bind_eq_bind, Option.bind_some, hcursor, hset]
      rfl
    · rw [put_new_line hs hc, hset']
      rfl
  by_cases hbs : c = BACKSPACE
  · subst hbs
    rw [if_neg hnl, if_pos rfl, h.cursor]
    by_cases hzero : t.cursor.x = 0
    · refine ⟨s, t, if_pos hzero, put_backspace_first hzero, h, ?_⟩
      rintro (hne | hmark)
      · exact absurd rfl hne
      · exact hmark
    · have hprevious := hc.before hzero
      obtain ⟨s1, h1, hgo⟩ := h.stored hs hprevious SPACE
      have hgo := hgo.drawn (hs.same rfl rfl) hprevious SPACE
      rw [← written_backspace hzero] at hgo
      obtain ⟨s', t', hset, hset', hgoes, hmark⟩ := hgo.set_cursor (hs.same rfl rfl) hc hm
        (p := ⟨t.cursor.x - 1, t.cursor.y⟩) ⟨hy0, hy.le⟩
      refine ⟨s', t', ?_, ?_, hgoes, fun _ => hmark⟩
      · rw [if_neg hzero]
        simp only [h1, Option.bind_eq_bind, Option.bind_some, hset]
        rfl
      · rw [put_backspace hs hc hzero, hset']
        rfl
  · obtain ⟨s1, h1, hgo⟩ := h.stored hs hc c
    have hgo := hgo.drawn (hs.same rfl rfl) hc c
    rw [← written_other hbs] at hgo
    obtain ⟨s', t', hset, hset', hgoes, hmark⟩ := hgo.set_cursor (hs.same rfl rfl) hc hm
      (p := ⟨t.cursor.x + 1, t.cursor.y⟩) ⟨hy0, hy.le⟩
    have hcursor : s1.cursor = t.cursor := hgo.cursor
    have hdrawn : (s1.draw driver c (unsigned t.cursor.x) (unsigned t.cursor.y)).cursor =
        t.cursor := hgo.cursor
    refine ⟨s', t', ?_, ?_, hgoes, fun _ => hmark⟩
    · rw [if_neg hnl, if_neg hbs, h.cursor, h1]
      simp only [Option.bind_eq_bind, Option.bind_some, hcursor, hdrawn, hset]
    · rw [put_other hs hc hnl hbs]
      exact hset'

/-! ## Runs -/

/-- The bytes of a buffer before the first zero. -/
def text (data : List Nat) : List Nat := data.takeWhile (· ≠ 0)

/-- A write puts the bytes before the first zero, and answers their number. -/
theorem Goes.write (h : Goes D s t) (hco : Coherent t)
    (hm : t.overflow = TERMINAL_OVERFLOW_NEW_LINE) (data : List Nat) :
    ∃ s' t', terminal_write driver s data = some (s', (text data).length) ∧
      type_all t (text data) = some t' ∧ Goes D s' t' ∧ Coherent t' ∧
      t'.overflow = TERMINAL_OVERFLOW_NEW_LINE ∧
      ((∃ c ∈ text data, c ≠ BACKSPACE) ∨ Marked D s → Marked D s') := by
  unfold terminal_write
  induction data generalizing s t with
  | nil =>
    refine ⟨s, t, rfl, rfl, h, hco, hm, ?_⟩
    rintro (⟨c, hc, -⟩ | hmark)
    · simp [text] at hc
    · exact hmark
  | cons c rest ih =>
    by_cases hzero : c = 0
    · subst hzero
      refine ⟨s, t, rfl, rfl, h, hco, hm, ?_⟩
      rintro (⟨c, hc, -⟩ | hmark)
      · simp [text] at hc
      · exact hmark
    · have htext : text (c :: rest) = c :: text rest := by
        unfold text
        rw [List.takeWhile_cons_of_pos (by simpa using hzero)]
      obtain ⟨s1, t1, hput, hput', hgo, hmark⟩ := h.put hco hm c
      obtain ⟨t2, hput2, htyped⟩ := put_char_typed hco hm c
      obtain rfl : t1 = t2 := congrArg Prod.fst (Option.some.inj (hput'.symm.trans hput2))
      obtain ⟨s', t', hwrite, htype, hgoes, hco', hm', hmarked⟩ :=
        ih hgo htyped.coherent (htyped.overflow.trans hm)
      refine ⟨s', t', ?_, ?_, hgoes, hco', hm', ?_⟩
      · unfold write_loop
        rw [if_neg hzero, hput]
        simp only [Option.bind_eq_bind, Option.bind_some, hwrite, htext]
        rfl
      · rw [htext]
        unfold type_all at *
        rw [List.foldlM_cons, hput']
        exact htype
      · rw [htext]
        rintro (⟨d, hd, hne⟩ | hold)
        · rcases List.mem_cons.mp hd with rfl | hd
          · exact hmarked (Or.inr (hmark (Or.inl hne)))
          · exact hmarked (Or.inl ⟨d, hd, hne⟩)
        · exact hmarked (Or.inr (hmark (Or.inr hold)))

/-- Writes one after the other. -/
def write_all (driver : text_display_driver_t δ) (s : text_terminal_t δ)
    (writes : List (List Nat)) : Option (text_terminal_t δ) :=
  writes.foldlM (fun s data => (terminal_write driver s data).map Prod.fst) s

theorem type_all_append (t : terminal_t) (l m : List Nat) :
    type_all t (l ++ m) = (type_all t l).bind fun t => type_all t m :=
  List.foldlM_append

theorem Goes.writes (h : Goes D s t) (hco : Coherent t)
    (hm : t.overflow = TERMINAL_OVERFLOW_NEW_LINE) (writes : List (List Nat)) :
    ∃ s' t', write_all driver s writes = some s' ∧
      type_all t (writes.flatMap text) = some t' ∧ Goes D s' t' ∧ Coherent t' ∧
      ((∃ c ∈ writes.flatMap text, c ≠ BACKSPACE) ∨ Marked D s → Marked D s') := by
  induction writes generalizing s t with
  | nil =>
    refine ⟨s, t, rfl, rfl, h, hco, ?_⟩
    rintro (⟨c, hc, -⟩ | hmark)
    · simp at hc
    · exact hmark
  | cons data rest ih =>
    obtain ⟨s1, t1, hwrite, htype, hgo, hco1, hm1, hmark⟩ := h.write hco hm data
    obtain ⟨s', t', hwrites, htypes, hgoes, hco', hmarked⟩ := ih hgo hco1 hm1
    refine ⟨s', t', ?_, ?_, hgoes, hco', ?_⟩
    · unfold write_all at *
      rw [List.foldlM_cons, hwrite]
      exact hwrites
    · rw [List.flatMap_cons, type_all_append, htype]
      exact htypes
    · rintro (⟨c, hc, hne⟩ | hold)
      · rw [List.flatMap_cons] at hc
        rcases List.mem_append.mp hc with hc | hc
        · exact hmarked (Or.inr (hmark (Or.inl ⟨c, hc, hne⟩)))
        · exact hmarked (Or.inl ⟨c, hc, hne⟩)
      · exact hmarked (Or.inr (hmark (Or.inr hold)))

/-- A terminal on a new display. The display of the driver has the size of its screen. -/
theorem create_goes {display : δ} (hw : 0 < D.width) (hh : 0 < D.height)
    (hf : D.width * D.height < 0x80000000)
    (hdim : driver.get_dimensions display = (D.width, D.height)) (hk : D.Keeps display)
    (screen : Nat → Nat → Nat) :
    ∃ s t, terminal_create driver display = some s ∧
      terminal.terminal_create D.width D.height screen = some t ∧
      Follows D (fun _ _ => True) s t ∧ Coherent t ∧ t.overflow = TERMINAL_OVERFLOW_NEW_LINE := by
  obtain ⟨t, hcreate, -, -, hm, hco⟩ := terminal_create_eq hw hh hf screen
  have hstart : Follows D (fun _ _ => False)
      ⟨display, fun _ => 0, ⟨0, 0⟩, TERMINAL_OVERFLOW_NEW_LINE, D.width, D.height⟩
      ⟨fun _ => 0, ⟨0, 0⟩, TERMINAL_OVERFLOW_NEW_LINE, D.width, D.height, screen⟩ :=
    ⟨rfl, rfl, rfl, rfl, rfl, rfl, rfl, hk, fun _ _ _ _ hp => hp.elim⟩
  have hrender := hstart.render
  have hcreate' := hcreate
  unfold terminal.terminal_create at hcreate'
  rw [hcreate'] at hrender
  obtain ⟨s, hs, hgo⟩ := rel_some hrender
  refine ⟨s, t, ?_, hcreate, hgo, hco, hm⟩
  unfold text_display.terminal_create
  rw [hdim]
  exact hs

/-- The terminal on a display after some writes. -/
def written_on (driver : text_display_driver_t δ) (display : δ) (writes : List (List Nat)) :
    Option (text_terminal_t δ) :=
  (text_display.terminal_create driver display).bind (write_all driver · writes)

/-- The terminal with cells after the same bytes. -/
def written_cells (width height : Nat) (writes : List (List Nat)) : Option terminal_t :=
  ( terminal.terminal_create width height fun _ _ => 0).bind (type_all · (writes.flatMap text))

/-- The character that a cell of the buffer asks for. -/
def shown_char (s : text_terminal_t δ) (x y : Nat) : Nat :=
  terminal_display_char (s.buffer (y * s.width + x))

theorem written_on_goes {display : δ} (hw : 0 < D.width) (hh : 0 < D.height)
    (hf : D.width * D.height < 0x80000000)
    (hdim : driver.get_dimensions display = (D.width, D.height)) (hk : D.Keeps display)
    (writes : List (List Nat)) :
    ∃ s cells, written_on driver display writes = some s ∧
      written_cells D.width D.height writes = some cells ∧ Goes D s cells ∧ Coherent cells ∧
      ((∃ c ∈ writes.flatMap text, c ≠ BACKSPACE) → Marked D s) := by
  obtain ⟨s0, cells0, hcreate, hcells, hgo, hco, hm⟩ := create_goes hw hh hf hdim hk fun _ _ => 0
  obtain ⟨s, cells, hwrites, htypes, hgoes, hco', hmarks⟩ :=
    Goes.writes (hgo.mono fun _ _ _ _ _ => trivial) hco hm writes
  refine ⟨s, cells, ?_, ?_, hgoes, hco', fun hc => hmarks (Or.inl hc)⟩
  · unfold written_on
    rw [hcreate]
    exact hwrites
  · unfold written_cells
    rw [hcells]
    exact htypes

/-- Every cell but the one with the cursor shows its character. -/
theorem Goes.cell_shown (h : Goes D s t) (hco : Coherent t) {x y : Nat} (hx : x < D.width)
    (hy : y < D.height) (hne : ¬ (s.cursor.x = x ∧ s.cursor.y = y)) :
    D.Shows s.display (shown_char s x y) x y := by
  have hx' : x < t.width := h.columns ▸ hx
  have hy' : y < t.height := h.rows ▸ hy
  rw [h.cursor] at hne
  have hshows := h.shows x y hx hy hne
  rw [hco.shows x y hx' hy' hne] at hshows
  unfold shown_char
  rw [h.buffer, h.width, ← h.columns]
  exact hshows

end alura_os.text_display
