-- The laws of the terminal: after every character the screen shows the buffer, apart from the
-- cursor, and the cursor is on the screen unless a line ends on the last row of a terminal that wraps.
import AluraOs.Loops
import AluraOs.Terminal

namespace alura_os.terminal

open alura_os.memory alura_os.task_manager loops
open terminal_t terminal_overflow_t terminal_result_t

variable {t : terminal_t}

/-! ## The buffer -/

/-- A terminal with a cell, whose buffer lies in the address space of the kernel. -/
structure Sized (t : terminal_t) : Prop where
  width : 0 < t.width
  height : 0 < t.height
  fits : t.width * t.height < 0x80000000

/-- The point is on the screen. -/
def Inside (t : terminal_t) (p : terminal_point_t) : Prop :=
  0 ≤ p.x ∧ p.x < t.width ∧ 0 ≤ p.y ∧ p.y < t.height

/-- Where the character of a cell stands in the buffer. -/
def place (t : terminal_t) (x y : Nat) : Nat := y * t.width + x

theorem not_outside {p : terminal_point_t} : ¬ Outside t p ↔ Inside t p := by
  unfold Outside Inside
  omega

theorem Sized.width_lt (h : Sized t) : t.width < 0x80000000 :=
  (Nat.le_mul_of_pos_right _ h.height).trans_lt h.fits

theorem Sized.height_lt (h : Sized t) : t.height < 0x80000000 :=
  (Nat.le_mul_of_pos_left _ h.width).trans_lt h.fits

theorem place_lt {x y : Nat} (hx : x < t.width) (hy : y < t.height) :
    place t x y < t.width * t.height := by
  have hrow : (y + 1) * t.width ≤ t.height * t.width := Nat.mul_le_mul_right _ hy
  rw [Nat.succ_mul] at hrow
  rw [Nat.mul_comm t.width]
  unfold place
  omega

/-- Two cells at one place are the same cell. -/
theorem place_inj {x y x' y' : Nat} (hx : x < t.width) (hx' : x' < t.width) :
    place t x y = place t x' y' ↔ x = x' ∧ y = y' := by
  constructor
  · intro h
    unfold place at h
    rw [Nat.add_comm, Nat.mul_comm, Nat.add_comm (y' * _), Nat.mul_comm y'] at h
    have hdiv := congrArg (· / t.width) h
    have hmod := congrArg (· % t.width) h
    simp only [Nat.add_mul_div_left _ _ (Nat.zero_lt_of_lt hx), Nat.div_eq_of_lt hx,
      Nat.div_eq_of_lt hx', Nat.zero_add] at hdiv
    simp only [Nat.add_mul_mod_self_left, Nat.mod_eq_of_lt hx, Nat.mod_eq_of_lt hx'] at hmod
    exact ⟨hmod, hdiv⟩
  · rintro ⟨rfl, rfl⟩
    rfl

theorem Sized.u32_place (h : Sized t) {x y : Nat} (hx : x < t.width) (hy : y < t.height) :
    u32 (y * t.width + x) = place t x y := by
  have hlt := place_lt hx hy
  have hfits := h.fits
  unfold place at *
  exact u32_of_lt (by omega)

theorem unsigned_nat {n : Int} (h0 : 0 ≤ n) (h : n < 0x100000000) : unsigned n = n.toNat := by
  unfold unsigned
  rw [Int.emod_eq_of_lt h0 h]

theorem Sized.index_eq (h : Sized t) {p : terminal_point_t} (hp : Inside t p) :
    t.index p = place t p.x.toNat p.y.toNat := by
  obtain ⟨hx0, hx, hy0, hy⟩ := hp
  have hw := h.width_lt
  have hh := h.height_lt
  unfold index
  rw [unsigned_nat hx0 (by omega), unsigned_nat hy0 (by omega)]
  exact h.u32_place (by omega) (by omega)

theorem Inside.place_lt {p : terminal_point_t} (hp : Inside t p) :
    place t p.x.toNat p.y.toNat < t.width * t.height := by
  obtain ⟨hx0, hx, hy0, hy⟩ := hp
  exact terminal.place_lt (by omega) (by omega)

theorem load_eq {i : Nat} (h : i < t.width * t.height) : t.load i = some (t.buffer i) := if_pos h

theorem store_eq {i : Nat} (c : Nat) (h : i < t.width * t.height) :
    t.store i c = some { t with buffer := Function.update t.buffer i c } := if_pos h

/-! ## The loops -/

/-- The terminal with another screen. -/
def onScreen (t : terminal_t) (screen : Nat → Nat → Nat) : terminal_t := { t with screen := screen }

/-- The terminal with another buffer. -/
def withBuffer (t : terminal_t) (buffer : Nat → Nat) : terminal_t := { t with buffer := buffer }

theorem draw_eq (c x y : Nat) : t.draw c x y = onScreen t fun x' y' =>
    if x' = x ∧ y' = y then c else t.screen x' y' := by
  unfold draw onScreen
  congr 1
  funext x' y'
  by_cases hx : x' = x
  · subst hx
    simp [Function.update_apply]
  · simp [hx]

/-- The cells before column `n` of row `k` show the buffer. -/
def renderedTo (t : terminal_t) (k n : Nat) : Nat → Nat → Nat := fun x y =>
  if (y < k ∧ x < t.width) ∨ (y = k ∧ x < n) then terminal_display_char (t.buffer (place t x y))
  else t.screen x y

theorem renderedTo_zero : renderedTo t 0 0 = t.screen := by
  funext x y
  simp [renderedTo]

def rendered (t : terminal_t) : terminal_t := onScreen t (renderedTo t t.height 0)

theorem render_row_eq (h : Sized t) {k : Nat} (hk : k < t.height) :
    render_row (onScreen t (renderedTo t k 0)) k = some (onScreen t (renderedTo t (k + 1) 0)) := by
  have hloop := foldlM_range (P := fun n s => s = onScreen t (renderedTo t k n)) (n := t.width)
    (f := fun s x => do
      let character ← s.load (u32 (k * s.width + x))
      return s.draw (terminal_display_char character) x k)
    (fun x s hx hs => by
      subst hs
      refine ⟨onScreen t (renderedTo t k (x + 1)), ?_, rfl⟩
      have hload : (onScreen t (renderedTo t k x)).load (u32 (k * t.width + x)) =
          some (t.buffer (place t x k)) := by
        rw [h.u32_place hx hk]
        exact load_eq (place_lt hx hk)
      have hdraw : (onScreen t (renderedTo t k x)).draw
          (terminal_display_char (t.buffer (place t x k))) x k =
            onScreen t (renderedTo t k (x + 1)) := by
        rw [draw_eq]
        refine congrArg (onScreen t) ?_
        funext x' y'
        simp only [onScreen, renderedTo]
        grind
      simp only [show (onScreen t (renderedTo t k x)).width = t.width from rfl, hload]
      exact congrArg some hdraw)
    rfl
  obtain ⟨s, hs, rfl⟩ := hloop
  refine Eq.trans hs (congrArg (fun f => some (onScreen t f)) ?_)
  funext x y
  simp only [renderedTo]
  grind

theorem terminal_render_eq (h : Sized t) : terminal_render t = some (rendered t) := by
  obtain ⟨s, hs, rfl⟩ := foldlM_range (P := fun k s => s = onScreen t (renderedTo t k 0))
    (n := t.height) (f := render_row)
    (fun k s hk hs => ⟨_, by rw [hs]; exact render_row_eq h hk, rfl⟩)
    (s := t) (by rw [renderedTo_zero]; rfl)
  exact hs

/-- The buffer with the first `k` places filled from the row below. -/
def shiftedTo (t : terminal_t) (k : Nat) : Nat → Nat := fun i =>
  if i < k then t.buffer (i + t.width) else t.buffer i

theorem withBuffer_withBuffer (b c : Nat → Nat) :
    withBuffer (withBuffer t b) c = withBuffer t c := rfl

theorem shiftedTo_zero : shiftedTo t 0 = t.buffer := by
  funext i
  simp [shiftedTo]

theorem load_withBuffer (b : Nat → Nat) {i : Nat} (h : i < t.width * t.height) :
    (withBuffer t b).load i = some (b i) := if_pos h

theorem store_withBuffer (b : Nat → Nat) (c : Nat) {i : Nat} (h : i < t.width * t.height) :
    (withBuffer t b).store i c = some (withBuffer t (Function.update b i c)) := if_pos h

theorem scroll_row_eq (h : Sized t) {y : Nat} (h1 : 1 ≤ y) (hy : y < t.height) :
    scroll_row (withBuffer t (shiftedTo t (place t 0 (y - 1)))) y =
      some (withBuffer t (shiftedTo t (place t 0 y))) := by
  have hrow : ∀ x, place t x y = place t x (y - 1) + t.width := by
    intro x
    obtain ⟨k, rfl⟩ : ∃ k, y = k + 1 := ⟨y - 1, by omega⟩
    simp only [place, Nat.add_sub_cancel, Nat.succ_mul]
    omega
  have hloop := foldlM_range (P := fun n s => s = withBuffer t (shiftedTo t (place t n (y - 1))))
    (n := t.width)
    (f := fun s x => do
      let character ← s.load (u32 (y * s.width + x))
      s.store (u32 ((y - 1) * s.width + x)) character)
    (fun x s hx hs => by
      subst hs
      refine ⟨withBuffer t (shiftedTo t (place t (x + 1) (y - 1))), ?_, rfl⟩
      have hload : (withBuffer t (shiftedTo t (place t x (y - 1)))).load (u32 (y * t.width + x)) =
          some (t.buffer (place t x y)) := by
        rw [h.u32_place hx hy, load_withBuffer _ (place_lt hx hy)]
        simp only [shiftedTo, hrow x]
        rw [if_neg (by omega)]
      have hstore : (withBuffer t (shiftedTo t (place t x (y - 1)))).store
          (u32 ((y - 1) * t.width + x)) (t.buffer (place t x y)) =
            some (withBuffer t (shiftedTo t (place t (x + 1) (y - 1)))) := by
        rw [h.u32_place hx (by omega), store_withBuffer _ _ (place_lt hx (by omega))]
        refine congrArg (fun b => some (withBuffer t b)) ?_
        funext i
        have hnext : place t (x + 1) (y - 1) = place t x (y - 1) + 1 := by
          unfold place
          omega
        simp only [Function.update_apply, shiftedTo, hrow x, hnext]
        grind
      simp only [show (withBuffer t (shiftedTo t (place t x (y - 1)))).width = t.width from rfl,
        hload]
      exact hstore)
    rfl
  obtain ⟨s, hs, rfl⟩ := hloop
  refine Eq.trans hs ?_
  have hnext : place t t.width (y - 1) = place t 0 y := by
    rw [hrow 0]
    unfold place
    omega
  rw [hnext]

theorem clear_row_eq (h : Sized t) {y : Nat} (hy : y < t.height) :
    clear_row t y = some (withBuffer t fun i =>
      if place t 0 y ≤ i ∧ i < place t t.width y then 0 else t.buffer i) := by
  obtain ⟨s, hs, rfl⟩ := foldlM_range
    (P := fun n s => s = withBuffer t fun i =>
      if place t 0 y ≤ i ∧ i < place t n y then 0 else t.buffer i)
    (n := t.width) (f := fun s x => s.store (u32 (y * s.width + x)) 0)
    (fun x s hx hs => by
      subst hs
      refine ⟨_, ?_, rfl⟩
      have hplace : u32 (y * t.width + x) = place t x y := h.u32_place hx hy
      refine Eq.trans (congrArg (fun i => (withBuffer t _).store i 0) hplace) ?_
      rw [store_withBuffer _ _ (place_lt hx hy)]
      refine congrArg (fun b => some (withBuffer t b)) ?_
      funext i
      simp only [Function.update_apply, place]
      grind)
    (s := t) (by
      refine congrArg (withBuffer t) ?_
      funext i
      rw [if_neg (by omega)])
  exact hs

/-- The buffer after a scroll: every row is one up, and the last one is empty. -/
def scrolledBuffer (t : terminal_t) : Nat → Nat := fun i =>
  if i < place t 0 (t.height - 1) then t.buffer (i + t.width)
  else if i < t.width * t.height then 0 else t.buffer i

def scrolled (t : terminal_t) : terminal_t := rendered (withBuffer t (scrolledBuffer t))

theorem terminal_scroll_eq (h : Sized t) : terminal_scroll t = some (scrolled t) := by
  have hheight := h.height
  have hlast : sub32 t.height 1 = t.height - 1 :=
    sub32_of_le hheight (h.height_lt.trans (by decide))
  obtain ⟨s, hs, rfl⟩ := foldlM_range' (P := fun y s => s = withBuffer t (shiftedTo t (place t 0 (y - 1))))
    (k := 1) (n := t.height - 1) (f := scroll_row)
    (fun y s h1 hy hs => by
      subst hs
      exact ⟨_, scroll_row_eq h h1 (by omega), by rw [Nat.add_sub_cancel]⟩)
    (s := t) (by
      have hzero : place t 0 (1 - 1) = 0 := by simp [place]
      rw [hzero, shiftedTo_zero]
      rfl)
  unfold terminal_scroll
  rw [hs]
  have hup : 1 + (t.height - 1) - 1 = t.height - 1 := by omega
  rw [hup]
  have hsized : Sized (withBuffer t (shiftedTo t (place t 0 (t.height - 1)))) :=
    ⟨h.width, h.height, h.fits⟩
  have hbuffer : (withBuffer (withBuffer t (shiftedTo t (place t 0 (t.height - 1)))) fun i =>
      if place t 0 (t.height - 1) ≤ i ∧ i < place t t.width (t.height - 1) then 0
      else shiftedTo t (place t 0 (t.height - 1)) i) = withBuffer t (scrolledBuffer t) := by
    have hend : place t t.width (t.height - 1) = t.width * t.height := by
      obtain ⟨k, hk⟩ : ∃ k, t.height = k + 1 := ⟨t.height - 1, by omega⟩
      rw [hk, Nat.add_sub_cancel]
      unfold place
      ring
    rw [withBuffer_withBuffer]
    refine congrArg (withBuffer t) ?_
    funext i
    simp only [shiftedTo, scrolledBuffer, hend]
    grind
  have hclear : clear_row (withBuffer t (shiftedTo t (place t 0 (t.height - 1)))) (t.height - 1) =
      some (withBuffer t (scrolledBuffer t)) :=
    (clear_row_eq hsized (Nat.sub_lt hheight Nat.one_pos)).trans (congrArg some hbuffer)
  have hrender : terminal_render (withBuffer t (scrolledBuffer t)) = some (scrolled t) :=
    terminal_render_eq ⟨h.width, h.height, h.fits⟩
  show (clear_row (withBuffer t _) (sub32 t.height 1)).bind terminal_render = _
  rw [hlast, hclear]
  exact hrender

/-! ## The cursor -/

/-- The screen shows the buffer, but for one cell. -/
def ShowsBut (t : terminal_t) (p : terminal_point_t) : Prop :=
  ∀ x y : Nat, x < t.width → y < t.height → ¬ (p.x = x ∧ p.y = y) →
    t.screen x y = terminal_display_char (t.buffer (place t x y))

/-- The cursor is on the screen, and everywhere else the screen shows the buffer. -/
structure Coherent (t : terminal_t) : Prop where
  sized : Sized t
  cursor : Inside t t.cursor
  shows : ShowsBut t t.cursor

/-- The character at the cursor is shown. -/
def repaired (t : terminal_t) : terminal_t :=
  t.draw (terminal_display_char (t.buffer (place t t.cursor.x.toNat t.cursor.y.toNat)))
    t.cursor.x.toNat t.cursor.y.toNat

/-- The cursor as it is moved to a point. -/
def moved (t : terminal_t) (point : terminal_point_t) : terminal_t :=
  ((repaired t).setCursor point).draw_cursor

theorem move_cursor_eq (h : Sized t) (hc : Inside t t.cursor) (point : terminal_point_t) :
    move_cursor t point = some (moved t point, TERMINAL_RESULT_OK) := by
  have hw := h.width_lt
  have hh := h.height_lt
  have hload : t.load (t.index t.cursor) =
      some (t.buffer (place t t.cursor.x.toNat t.cursor.y.toNat)) := by
    rw [h.index_eq hc]
    exact load_eq hc.place_lt
  obtain ⟨hx0, hx, hy0, hy⟩ := hc
  unfold move_cursor moved repaired
  rw [hload, unsigned_nat hx0 (by omega), unsigned_nat hy0 (by omega)]
  rfl

theorem repaired_shows (h : ShowsBut t t.cursor) {x y : Nat} (hx : x < t.width)
    (hy : y < t.height) :
    (repaired t).screen x y = terminal_display_char (t.buffer (place t x y)) := by
  unfold repaired
  rw [draw_eq]
  simp only [onScreen]
  split
  · rename_i hxy
    rw [hxy.1, hxy.2]
  · rename_i hxy
    exact h x y hx hy (by omega)

theorem moved_screen (h : Sized t) {p : terminal_point_t} (hp : Inside t p) (x y : Nat) :
    (moved t p).screen x y =
      if x = p.x.toNat ∧ y = p.y.toNat then UNDERSCORE else (repaired t).screen x y := by
  have hw := h.width_lt
  have hh := h.height_lt
  obtain ⟨hx0, hx, hy0, hy⟩ := hp
  unfold moved draw_cursor
  rw [draw_eq]
  show (if x = unsigned p.x ∧ y = unsigned p.y then UNDERSCORE else (repaired t).screen x y) = _
  rw [unsigned_nat hx0 (by omega), unsigned_nat hy0 (by omega)]

/-- A cursor that goes to a cell of the screen keeps the terminal coherent. -/
theorem moved_coherent (h : Sized t) (hs : ShowsBut t t.cursor) {p : terminal_point_t}
    (hp : Inside t p) : Coherent (moved t p) := by
  refine ⟨⟨h.width, h.height, h.fits⟩, hp, ?_⟩
  intro x y hx hy hne
  have hne' : ¬ (p.x = x ∧ p.y = y) := hne
  have hx0 := hp.1
  have hy0 := hp.2.2.1
  rw [moved_screen h hp, if_neg (by omega)]
  exact repaired_shows hs hx hy

theorem scrolled_sized (h : Sized t) : Sized (scrolled t) := ⟨h.width, h.height, h.fits⟩

/-- After a scroll the screen shows the whole buffer. -/
theorem scrolled_shows (p : terminal_point_t) : ShowsBut (scrolled t) p := by
  intro x y hx hy _
  have hx' : x < t.width := hx
  have hy' : y < t.height := hy
  simp only [scrolled, rendered, onScreen, renderedTo, withBuffer]
  rw [if_pos (Or.inl ⟨hy', hx'⟩)]
  rfl

/-- The cells after a scroll. -/
theorem scrolled_cell {x y : Nat} (hx : x < t.width) (hy : y < t.height) :
    (scrolled t).buffer (place t x y) =
      if y + 1 < t.height then t.buffer (place t x (y + 1)) else 0 := by
  have hplace := place_lt hx hy
  have hnext : place t x (y + 1) = place t x y + t.width := by
    simp only [place, Nat.succ_mul]
    omega
  have hbuffer : (scrolled t).buffer = scrolledBuffer t := rfl
  rw [hbuffer, hnext]
  unfold scrolledBuffer
  by_cases hrow : y + 1 < t.height
  · have hup : (y + 1) * t.width ≤ (t.height - 1) * t.width :=
      Nat.mul_le_mul_right _ (by omega)
    rw [Nat.succ_mul] at hup
    rw [if_pos hrow, if_pos (by unfold place; omega)]
  · have hlast : y = t.height - 1 := by omega
    rw [if_neg hrow, if_neg (by rw [hlast]; unfold place; omega), if_pos hplace]

/-! ## Characters in the default mode -/

/-- The cursor leaves the last row. -/
def Leaves (t : terminal_t) (character : Nat) : Prop :=
  character ≠ BACKSPACE ∧ t.cursor.y + 1 = t.height ∧
    (character = NEW_LINE ∨ t.cursor.x + 1 = t.width)

instance (t : terminal_t) (character : Nat) : Decidable (Leaves t character) :=
  inferInstanceAs (Decidable (_ ∧ _ ∧ _))

/-- The buffer with the character written, or the one before it erased. -/
def written (t : terminal_t) (character : Nat) : Nat → Nat :=
  if character = BACKSPACE then
    if t.cursor.x = 0 then t.buffer
    else Function.update t.buffer (place t (t.cursor.x - 1).toNat t.cursor.y.toNat) SPACE
  else Function.update t.buffer (place t t.cursor.x.toNat t.cursor.y.toNat) character

/-- What a character does: one cell is written, and when the cursor would leave the last row every
row moves up by one. -/
structure Typed (t t' : terminal_t) (character : Nat) : Prop where
  coherent : Coherent t'
  width : t'.width = t.width
  height : t'.height = t.height
  overflow : t'.overflow = t.overflow
  cells : ∀ x y, x < t.width → y < t.height →
    t'.buffer (place t x y) =
      if Leaves t character then
        if y + 1 < t.height then written t character (place t x (y + 1)) else 0
      else written t character (place t x y)

/-- Where `terminal_set_cursor` leaves the terminal, for a point at most one step off the screen. -/
def landed (t : terminal_t) (p : terminal_point_t) : terminal_t :=
  if Outside t p then
    match t.overflow with
    | TERMINAL_OVERFLOW_NONE => t
    | TERMINAL_OVERFLOW_WRAP => moved t ⟨0, p.y⟩
    | TERMINAL_OVERFLOW_NEW_LINE =>
      if (t.height : Int) ≤ p.y + 1 then moved (scrolled t) ⟨0, t.height - 1⟩
      else moved t ⟨0, p.y + 1⟩
  else moved t p

theorem set_cursor_landed (h : Sized t) (hc : Inside t t.cursor) {p : terminal_point_t}
    (hp : 0 ≤ p.y ∧ p.y ≤ t.height) :
    ∃ r, terminal_set_cursor t p = some (landed t p, r) ∧
      (t.overflow ≠ TERMINAL_OVERFLOW_NONE → r = TERMINAL_RESULT_OK) := by
  have hh := h.height_lt
  have hh0 := h.height
  unfold terminal_set_cursor landed
  by_cases hout : Outside t p
  · simp only [if_pos hout]
    cases hm : t.overflow with
    | TERMINAL_OVERFLOW_NONE => exact ⟨_, rfl, fun hne => absurd rfl hne⟩
    | TERMINAL_OVERFLOW_WRAP => exact ⟨_, move_cursor_eq h hc _, fun _ => rfl⟩
    | TERMINAL_OVERFLOW_NEW_LINE =>
      simp only []
      rw [unsigned_nat (by omega) (by omega)]
      by_cases hlast : (t.height : Int) ≤ p.y + 1
      · have hend : int32 (sub32 t.height 1) = t.height - 1 := by
          rw [sub32_of_le (by omega) (by omega)]
          unfold int32
          rw [if_pos (by omega)]
          omega
        rw [if_pos (by omega), if_pos hlast, terminal_scroll_eq h, ← hend]
        exact ⟨_, move_cursor_eq (scrolled_sized h) hc _, fun _ => rfl⟩
      · rw [if_neg (by omega), if_neg hlast]
        exact ⟨_, move_cursor_eq h hc _, fun _ => rfl⟩
  · rw [if_neg hout, if_neg hout]
    exact ⟨_, move_cursor_eq h hc p, fun _ => rfl⟩

/-- A cursor that leaves the row or the column goes to the next line, which may be a new one. -/
theorem set_cursor_new_line (h : Sized t) (hc : Inside t t.cursor) (hs : ShowsBut t t.cursor)
    (hm : t.overflow = TERMINAL_OVERFLOW_NEW_LINE) {p : terminal_point_t}
    (hp : 0 ≤ p.y ∧ p.y ≤ t.height) :
    ∃ t', terminal_set_cursor t p = some (t', TERMINAL_RESULT_OK) ∧ Coherent t' ∧
      t'.width = t.width ∧ t'.height = t.height ∧ t'.overflow = t.overflow ∧
      ∀ x y, x < t.width → y < t.height → t'.buffer (place t x y) =
        if Outside t p ∧ t.height ≤ p.y + 1 then
          if y + 1 < t.height then t.buffer (place t x (y + 1)) else 0
        else t.buffer (place t x y) := by
  have hw0 := h.width
  have hh0 := h.height
  obtain ⟨r, hset, hr⟩ := set_cursor_landed h hc hp
  rw [hr (by rw [hm]; decide)] at hset
  refine ⟨landed t p, hset, ?_⟩
  unfold landed
  by_cases hout : Outside t p
  · simp only [if_pos hout, hm]
    by_cases hlast : (t.height : Int) ≤ p.y + 1
    · have hin : Inside (scrolled t) ⟨0, t.height - 1⟩ := by
        show (0 : Int) ≤ 0 ∧ (0 : Int) < t.width ∧ (0 : Int) ≤ t.height - 1 ∧
          (t.height : Int) - 1 < t.height
        omega
      rw [if_pos hlast]
      refine ⟨moved_coherent (scrolled_sized h) (scrolled_shows _) hin, rfl, rfl, hm, ?_⟩
      intro x y hx hy
      rw [if_pos ⟨hout, hlast⟩, ← scrolled_cell hx hy]
      rfl
    · have hin : Inside t ⟨0, p.y + 1⟩ := by
        unfold Inside
        simp only
        omega
      rw [if_neg hlast]
      refine ⟨moved_coherent h hs hin, rfl, rfl, hm, ?_⟩
      intro x y hx hy
      rw [if_neg (fun hboth => hlast hboth.2)]
      rfl
  · rw [if_neg hout]
    refine ⟨moved_coherent h hs (not_outside.mp hout), rfl, rfl, rfl, ?_⟩
    intro x y hx hy
    rw [if_neg (fun hboth => hout hboth.1)]
    rfl

/-- A character that goes into the buffer where the screen need not show it. -/
theorem shows_stored {p : terminal_point_t} (h : ShowsBut t p) (hp : Inside t p) (b : Nat) :
    ShowsBut (withBuffer t (Function.update t.buffer (place t p.x.toNat p.y.toNat) b)) p := by
  intro x y hx hy hne
  have hx' : x < t.width := hx
  obtain ⟨hx0, hxw, hy0, -⟩ := hp
  have hcell : ¬ place t x y = place t p.x.toNat p.y.toNat := by
    rw [place_inj hx' (by omega)]
    omega
  have hbuffer : Function.update t.buffer (place t p.x.toNat p.y.toNat) b (place t x y) =
      t.buffer (place t x y) := Function.update_of_ne hcell _ _
  exact (h x y hx hy hne).trans (congrArg terminal_display_char hbuffer.symm)

/-- A character that goes into the buffer and onto the screen. -/
theorem shows_drawn {p q : terminal_point_t} (h : ShowsBut t p) (hq : Inside t q) {b c : Nat}
    (hc : c = terminal_display_char b ∨ q = p) :
    ShowsBut ((withBuffer t (Function.update t.buffer (place t q.x.toNat q.y.toNat) b)).draw c
      q.x.toNat q.y.toNat) p := by
  intro x y hx hy hne
  have hx' : x < t.width := hx
  have hne' : ¬ (p.x = x ∧ p.y = y) := hne
  obtain ⟨hx0, hxw, hy0, -⟩ := hq
  rw [draw_eq]
  show (if x = q.x.toNat ∧ y = q.y.toNat then c else t.screen x y) =
    terminal_display_char (Function.update t.buffer (place t q.x.toNat q.y.toNat) b (place t x y))
  by_cases hcell : place t x y = place t q.x.toNat q.y.toNat
  · have hxy := (place_inj hx' (by omega)).mp hcell
    rw [hcell, Function.update_self, if_pos hxy]
    rcases hc with hc | rfl
    · exact hc
    · omega
  · have hxy : ¬ (x = q.x.toNat ∧ y = q.y.toNat) := fun he =>
      hcell ((place_inj hx' (by omega)).mpr he)
    rw [Function.update_of_ne hcell, if_neg hxy]
    exact h x y hx hy hne'

theorem written_other {c : Nat} (h : c ≠ BACKSPACE) : written t c =
    Function.update t.buffer (place t t.cursor.x.toNat t.cursor.y.toNat) c := if_neg h

theorem written_backspace (h : t.cursor.x ≠ 0) : written t BACKSPACE =
    Function.update t.buffer (place t (t.cursor.x - 1).toNat t.cursor.y.toNat) SPACE := by
  unfold written
  rw [if_pos rfl, if_neg h]

/-- The end of a line, up to the move of the cursor. -/
theorem put_new_line (h : Sized t) (hc : Inside t t.cursor) :
    terminal_put_char t NEW_LINE =
      (terminal_set_cursor (withBuffer t (written t NEW_LINE)) ⟨0, t.cursor.y + 1⟩).map
        fun r => (r.1, TERMINAL_RESULT_OK) := by
  rw [written_other (by decide)]
  unfold terminal_put_char
  rw [if_pos rfl, h.index_eq hc, store_eq NEW_LINE hc.place_lt, Option.map_eq_bind]
  rfl

theorem put_backspace_first (h : t.cursor.x = 0) :
    terminal_put_char t BACKSPACE = some (t, TERMINAL_RESULT_OK) := by
  unfold terminal_put_char
  rw [if_neg (by decide), if_pos rfl, if_pos h]

theorem Inside.before {p : terminal_point_t} (h : Inside t p) (hx : p.x ≠ 0) :
    Inside t ⟨p.x - 1, p.y⟩ := by
  unfold Inside at *
  simp only
  omega

/-- A backspace, up to the move of the cursor. -/
theorem put_backspace (h : Sized t) (hc : Inside t t.cursor) (hx : t.cursor.x ≠ 0) :
    terminal_put_char t BACKSPACE =
      (terminal_set_cursor ((withBuffer t (written t BACKSPACE)).draw SPACE
        (t.cursor.x - 1).toNat t.cursor.y.toNat) ⟨t.cursor.x - 1, t.cursor.y⟩).map
          fun r => (r.1, TERMINAL_RESULT_OK) := by
  have hw := h.width_lt
  have hh := h.height_lt
  have hprevious := hc.before hx
  have hindex : t.index ⟨t.cursor.x - 1, t.cursor.y⟩ =
      place t (t.cursor.x - 1).toNat t.cursor.y.toNat := h.index_eq hprevious
  have hstore : t.store (t.index ⟨t.cursor.x - 1, t.cursor.y⟩) SPACE =
      some (withBuffer t (written t BACKSPACE)) := by
    rw [hindex, written_backspace hx]
    exact store_eq SPACE hprevious.place_lt
  obtain ⟨hx0, hxw, hy0, hy⟩ := hc
  unfold terminal_put_char
  rw [if_neg (by decide), if_pos rfl, if_neg hx]
  simp only [hstore, Option.bind_eq_bind, Option.bind_some, Option.map_eq_bind]
  rw [unsigned_nat (by omega) (by omega), unsigned_nat hy0 (by omega)]
  rfl

/-- Any other character, up to the move of the cursor. -/
theorem put_other (h : Sized t) (hc : Inside t t.cursor) {c : Nat} (hn : c ≠ NEW_LINE)
    (hb : c ≠ BACKSPACE) :
    terminal_put_char t c =
      terminal_set_cursor ((withBuffer t (written t c)).draw c t.cursor.x.toNat t.cursor.y.toNat)
        ⟨t.cursor.x + 1, t.cursor.y⟩ := by
  have hw := h.width_lt
  have hh := h.height_lt
  have hstore : t.store (t.index t.cursor) c = some (withBuffer t (written t c)) := by
    rw [h.index_eq hc, written_other hb]
    exact store_eq c hc.place_lt
  obtain ⟨hx0, hx, hy0, hy⟩ := hc
  unfold terminal_put_char
  rw [if_neg hn, if_neg hb]
  simp only [hstore, Option.bind_eq_bind, Option.bind_some]
  show terminal_set_cursor ((withBuffer t (written t c)).draw c (unsigned t.cursor.x)
    (unsigned t.cursor.y)) ⟨t.cursor.x + 1, t.cursor.y⟩ = _
  rw [unsigned_nat hx0 (by omega), unsigned_nat hy0 (by omega)]

/-- A terminal of the same size. -/
theorem Sized.same {t' : terminal_t} (h : Sized t) (hw : t'.width = t.width)
    (hh : t'.height = t.height) : Sized t' := by
  refine ⟨hw ▸ h.width, hh ▸ h.height, ?_⟩
  rw [hw, hh]
  exact h.fits

/-- One character in the default mode. -/
theorem put_char_typed (h : Coherent t) (hm : t.overflow = TERMINAL_OVERFLOW_NEW_LINE) (c : Nat) :
    ∃ t', terminal_put_char t c = some (t', TERMINAL_RESULT_OK) ∧ Typed t t' c := by
  have hw0 := h.sized.width
  obtain ⟨hx0, hx, hy0, hy⟩ := h.cursor
  by_cases hnl : c = NEW_LINE
  · -- the line ends: the cell is written, and only the cursor is drawn
    subst hnl
    have hp : 0 ≤ t.cursor.y + 1 ∧ t.cursor.y + 1 ≤ t.height := by omega
    have hshows : ShowsBut (withBuffer t (written t NEW_LINE)) t.cursor := by
      rw [written_other (by decide)]
      exact shows_stored h.shows h.cursor NEW_LINE
    obtain ⟨t', hset, hco, hw', hh', ho', hcells⟩ :=
      set_cursor_new_line (t := withBuffer t (written t NEW_LINE)) (h.sized.same rfl rfl) h.cursor
        hshows hm (p := ⟨0, t.cursor.y + 1⟩) hp
    refine ⟨t', ?_, hco, hw', hh', ho', fun x y hx' hy' => ?_⟩
    · rw [put_new_line h.sized h.cursor, hset]
      rfl
    · have hleaves : (Outside (withBuffer t (written t NEW_LINE)) ⟨0, t.cursor.y + 1⟩ ∧
          (t.height : Int) ≤ t.cursor.y + 1 + 1) ↔ Leaves t NEW_LINE := by
        show (((0 : Int) < 0 ∨ (t.width : Int) ≤ 0 ∨ t.cursor.y + 1 < 0 ∨
          (t.height : Int) ≤ t.cursor.y + 1) ∧ (t.height : Int) ≤ t.cursor.y + 1 + 1) ↔
            (NEW_LINE ≠ BACKSPACE ∧ t.cursor.y + 1 = t.height ∧
              (NEW_LINE = NEW_LINE ∨ t.cursor.x + 1 = t.width))
        constructor
        · intro hout
          exact ⟨by decide, by omega, Or.inl rfl⟩
        · rintro ⟨-, hlast, -⟩
          omega
      exact (hcells x y hx' hy').trans (by simp only [← hleaves]; rfl)
  by_cases hbs : c = BACKSPACE
  · subst hbs
    have hstays : ¬ Leaves t BACKSPACE := fun hl => hl.1 rfl
    by_cases hzero : t.cursor.x = 0
    · refine ⟨t, put_backspace_first hzero, h, rfl, rfl, rfl, fun x y _ _ => ?_⟩
      rw [if_neg hstays]
      unfold written
      rw [if_pos rfl, if_pos hzero]
    · -- the cell before the cursor is erased
      have hprevious := h.cursor.before hzero
      have hshows : ShowsBut ((withBuffer t (written t BACKSPACE)).draw SPACE
          (t.cursor.x - 1).toNat t.cursor.y.toNat) t.cursor := by
        rw [written_backspace hzero]
        exact shows_drawn h.shows hprevious (Or.inl rfl)
      obtain ⟨t', hset, hco, hw', hh', ho', hcells⟩ :=
        set_cursor_new_line (t := (withBuffer t (written t BACKSPACE)).draw SPACE
          (t.cursor.x - 1).toNat t.cursor.y.toNat) (h.sized.same rfl rfl) h.cursor hshows hm
          (p := ⟨t.cursor.x - 1, t.cursor.y⟩) ⟨hy0, hy.le⟩
      refine ⟨t', ?_, hco, hw', hh', ho', fun x y hx' hy' => ?_⟩
      · rw [put_backspace h.sized h.cursor hzero, hset]
        rfl
      · refine (hcells x y hx' hy').trans ?_
        rw [if_neg hstays, if_neg fun hout => not_outside.mpr hprevious hout.1]
        rfl
  · -- a character: it is written, drawn and passed
    have hshows : ShowsBut ((withBuffer t (written t c)).draw c t.cursor.x.toNat
        t.cursor.y.toNat) t.cursor := by
      rw [written_other hbs]
      exact shows_drawn h.shows h.cursor (Or.inr rfl)
    obtain ⟨t', hset, hco, hw', hh', ho', hcells⟩ :=
      set_cursor_new_line (t := (withBuffer t (written t c)).draw c t.cursor.x.toNat
        t.cursor.y.toNat) (h.sized.same rfl rfl) h.cursor hshows hm
        (p := ⟨t.cursor.x + 1, t.cursor.y⟩) ⟨hy0, hy.le⟩
    refine ⟨t', ?_, hco, hw', hh', ho', fun x y hx' hy' => ?_⟩
    · rw [put_other h.sized h.cursor hnl hbs, hset]
    · have hleaves : (Outside ((withBuffer t (written t c)).draw c t.cursor.x.toNat
          t.cursor.y.toNat) ⟨t.cursor.x + 1, t.cursor.y⟩ ∧
            (t.height : Int) ≤ t.cursor.y + 1) ↔ Leaves t c := by
        show ((t.cursor.x + 1 < 0 ∨ (t.width : Int) ≤ t.cursor.x + 1 ∨ t.cursor.y < 0 ∨
          (t.height : Int) ≤ t.cursor.y) ∧ (t.height : Int) ≤ t.cursor.y + 1) ↔
            (c ≠ BACKSPACE ∧ t.cursor.y + 1 = t.height ∧
              (c = NEW_LINE ∨ t.cursor.x + 1 = t.width))
        constructor
        · intro hout
          exact ⟨hbs, by omega, Or.inr (by omega)⟩
        · rintro ⟨-, hlast, hend⟩
          have hcol := hend.resolve_left hnl
          omega
      exact (hcells x y hx' hy').trans (by simp only [← hleaves]; rfl)

/-! ## Runs in the default mode -/

/-- Characters one after the other, as `terminal_write` puts them. -/
def type_all (t : terminal_t) (characters : List Nat) : Option terminal_t :=
  characters.foldlM (fun t c => (terminal_put_char t c).map Prod.fst) t

theorem terminal_create_eq {width height : Nat} (hw : 0 < width) (hh : 0 < height)
    (hf : width * height < 0x80000000) (screen : Nat → Nat → Nat) :
    ∃ t, terminal_create width height screen = some t ∧ t.width = width ∧ t.height = height ∧
      t.overflow = TERMINAL_OVERFLOW_NEW_LINE ∧ Coherent t := by
  refine ⟨_, terminal_render_eq ⟨hw, hh, hf⟩, rfl, rfl, rfl, ⟨hw, hh, hf⟩, ?_, ?_⟩
  · show (0 : Int) ≤ 0 ∧ (0 : Int) < width ∧ (0 : Int) ≤ 0 ∧ (0 : Int) < height
    omega
  · intro x y hx hy _
    exact if_pos (Or.inl ⟨hy, hx⟩)

theorem type_all_coherent (h : Coherent t) (hm : t.overflow = TERMINAL_OVERFLOW_NEW_LINE)
    (characters : List Nat) :
    ∃ t', type_all t characters = some t' ∧ t'.width = t.width ∧ t'.height = t.height ∧
      t'.overflow = TERMINAL_OVERFLOW_NEW_LINE ∧ Coherent t' := by
  induction characters generalizing t with
  | nil => exact ⟨t, rfl, rfl, rfl, hm, h⟩
  | cons c rest ih =>
    obtain ⟨t1, hput, htyped⟩ := put_char_typed h hm c
    obtain ⟨t', hrest, hw, hh, hm', hco⟩ := ih htyped.coherent (htyped.overflow.trans hm)
    refine ⟨t', ?_, hw.trans htyped.width, hh.trans htyped.height, hm', hco⟩
    unfold type_all at *
    rw [List.foldlM_cons, hput]
    exact hrest

/-- After any characters, one more writes or erases its cell, scrolls if the cursor would leave the
last row, and leaves the screen as a picture of the buffer with the cursor in it. -/
theorem the_screen_shows_the_buffer {width height : Nat} (hw : 0 < width) (hh : 0 < height)
    (hf : width * height < 0x80000000) (screen : Nat → Nat → Nat) (characters : List Nat) :
    ∃ t, ( terminal_create width height screen).bind (fun t => type_all t characters) = some t ∧
      t.width = width ∧ t.height = height ∧ Coherent t ∧
      ∀ c, ∃ t', terminal_put_char t c = some (t', TERMINAL_RESULT_OK) ∧ Typed t t' c := by
  obtain ⟨t0, hcreate, hw0, hh0, hm0, hco0⟩ := terminal_create_eq hw hh hf screen
  obtain ⟨t, htype, hw', hh', hm, hco⟩ := type_all_coherent hco0 hm0 characters
  refine ⟨t, ?_, hw'.trans hw0, hh'.trans hh0, hco, put_char_typed hco hm⟩
  rw [hcreate]
  exact htype

/-- Three characters on a terminal of two cells: the first one has left the screen. -/
theorem two_cells_show_the_last_characters :
    ∃ t, ( terminal_create 1 2 fun _ _ => 0).bind (fun t => type_all t [65, 66, 67]) = some t ∧
      t.width = 1 ∧ t.height = 2 ∧ Coherent t ∧
      ∀ c, ∃ t', terminal_put_char t c = some (t', TERMINAL_RESULT_OK) ∧ Typed t t' c :=
  the_screen_shows_the_buffer (by decide) (by decide) (by decide) (fun _ _ => 0) [65, 66, 67]

/-! ## Runs in any mode -/

/-- What can happen to a terminal. -/
inductive operation_t where
  | put_char (character : Nat)
  | set_overflow (overflow : terminal_overflow_t)
  deriving DecidableEq, Repr

def operate (t : terminal_t) : operation_t → Option terminal_t
  | .put_char character => (terminal_put_char t character).map Prod.fst
  | .set_overflow overflow => some (terminal_set_overflow t overflow)

/-- A line ends on the last row of a terminal that wraps. -/
def Overruns (t : terminal_t) (o : operation_t) : Prop :=
  t.overflow = TERMINAL_OVERFLOW_WRAP ∧ o = .put_char NEW_LINE ∧ t.cursor.y + 1 = t.height

/-- The cursor lands on the screen, unless it goes below the last row of a terminal that wraps. -/
theorem landed_inside (h : Sized t) (hc : Inside t t.cursor) {p : terminal_point_t}
    (hp : 0 ≤ p.y ∧ p.y ≤ t.height) (hw : t.overflow = TERMINAL_OVERFLOW_WRAP → p.y < t.height) :
    (landed t p).width = t.width ∧ (landed t p).height = t.height ∧
      Inside t (landed t p).cursor := by
  have hw0 := h.width
  have hh0 := h.height
  unfold landed
  by_cases hout : Outside t p
  · rw [if_pos hout]
    cases hm : t.overflow with
    | TERMINAL_OVERFLOW_NONE => exact ⟨rfl, rfl, hc⟩
    | TERMINAL_OVERFLOW_WRAP =>
      have hrow := hw hm
      refine ⟨rfl, rfl, ?_⟩
      show (0 : Int) ≤ 0 ∧ (0 : Int) < t.width ∧ 0 ≤ p.y ∧ p.y < t.height
      omega
    | TERMINAL_OVERFLOW_NEW_LINE =>
      simp only []
      split
      · refine ⟨rfl, rfl, ?_⟩
        show (0 : Int) ≤ 0 ∧ (0 : Int) < t.width ∧ (0 : Int) ≤ t.height - 1 ∧
          (t.height : Int) - 1 < t.height
        omega
      · refine ⟨rfl, rfl, ?_⟩
        show (0 : Int) ≤ 0 ∧ (0 : Int) < t.width ∧ 0 ≤ p.y + 1 ∧ p.y + 1 < t.height
        omega
  · rw [if_neg hout]
    exact ⟨rfl, rfl, not_outside.mp hout⟩

/-- A terminal of a size, with its cursor on the screen. -/
structure OnScreen (width height : Nat) (t : terminal_t) : Prop where
  width : t.width = width
  height : t.height = height
  sized : Sized t
  cursor : Inside t t.cursor

variable {width height : Nat}

/-- A move of the cursor from a terminal with other contents. -/
theorem set_cursor_on_screen {s : terminal_t} (h : OnScreen width height t) (hw : s.width = t.width)
    (hh : s.height = t.height) (hc : s.cursor = t.cursor) (ho : s.overflow = t.overflow)
    {p : terminal_point_t} (hp : 0 ≤ p.y ∧ p.y ≤ t.height)
    (hrow : t.overflow = TERMINAL_OVERFLOW_WRAP → p.y < t.height) :
    ∃ t' r, terminal_set_cursor s p = some (t', r) ∧ OnScreen width height t' := by
  have hsized := h.sized.same hw hh
  have hcursor : Inside s s.cursor := by
    unfold Inside
    rw [hc, hw, hh]
    exact h.cursor
  obtain ⟨r, hset, -⟩ := set_cursor_landed hsized hcursor (p := p) (by rwa [hh])
  obtain ⟨hlw, hlh, hin⟩ := landed_inside hsized hcursor (p := p) (by rwa [hh])
    (by rwa [ho, hh])
  refine ⟨_, r, hset, hlw.trans (hw.trans h.width), hlh.trans (hh.trans h.height),
    hsized.same hlw hlh, ?_⟩
  unfold Inside
  rw [hlw, hlh]
  exact hin

/-- One operation that does not overrun. -/
theorem operate_on_screen (h : OnScreen width height t) {o : operation_t}
    (ho : ¬ Overruns t o) : ∃ t', operate t o = some t' ∧ OnScreen width height t' := by
  obtain ⟨hx0, hx, hy0, hy⟩ := h.cursor
  cases o with
  | set_overflow m =>
    exact ⟨_, rfl, h.width, h.height, h.sized.same rfl rfl, h.cursor⟩
  | put_char c =>
    have hrow : t.overflow = TERMINAL_OVERFLOW_WRAP → c = NEW_LINE → t.cursor.y + 1 < t.height := by
      rintro hm rfl
      by_contra hlast
      exact ho ⟨hm, rfl, by omega⟩
    simp only [operate]
    by_cases hnl : c = NEW_LINE
    · subst hnl
      obtain ⟨t', r, hset, ht'⟩ := set_cursor_on_screen h rfl rfl rfl rfl
        (s := withBuffer t (written t NEW_LINE)) (p := ⟨0, t.cursor.y + 1⟩)
        (by simp only; omega) (fun hm => hrow hm rfl)
      refine ⟨t', ?_, ht'⟩
      rw [put_new_line h.sized h.cursor, hset]
      rfl
    by_cases hbs : c = BACKSPACE
    · subst hbs
      by_cases hzero : t.cursor.x = 0
      · exact ⟨t, by rw [put_backspace_first hzero]; rfl, h⟩
      · obtain ⟨t', r, hset, ht'⟩ := set_cursor_on_screen h rfl rfl rfl rfl
          (s := (withBuffer t (written t BACKSPACE)).draw SPACE (t.cursor.x - 1).toNat
            t.cursor.y.toNat) (p := ⟨t.cursor.x - 1, t.cursor.y⟩)
          (by simp only; omega) (fun _ => hy)
        refine ⟨t', ?_, ht'⟩
        rw [put_backspace h.sized h.cursor hzero, hset]
        rfl
    · obtain ⟨t', r, hset, ht'⟩ := set_cursor_on_screen h rfl rfl rfl rfl
        (s := (withBuffer t (written t c)).draw c t.cursor.x.toNat t.cursor.y.toNat)
        (p := ⟨t.cursor.x + 1, t.cursor.y⟩) (by simp only; omega) (fun _ => hy)
      refine ⟨t', ?_, ht'⟩
      rw [put_other h.sized h.cursor hnl hbs, hset]
      rfl

/-- An operation that overruns leaves the cursor below the screen. -/
theorem overruns_leaves (h : OnScreen width height t) {o : operation_t} (ho : Overruns t o) :
    ∃ t', operate t o = some t' ∧ ¬ Inside t' t'.cursor := by
  obtain ⟨hm, rfl, hlast⟩ := ho
  obtain ⟨hx0, hx, hy0, hy⟩ := h.cursor
  obtain ⟨r, hset, -⟩ := set_cursor_landed (t := withBuffer t (written t NEW_LINE))
    (h.sized.same rfl rfl) h.cursor (p := ⟨0, t.cursor.y + 1⟩) (by
      show 0 ≤ t.cursor.y + 1 ∧ t.cursor.y + 1 ≤ t.height
      omega)
  have hout : Outside (withBuffer t (written t NEW_LINE)) ⟨0, t.cursor.y + 1⟩ :=
    Or.inr (Or.inr (Or.inr hlast.ge))
  have hlanded : landed (withBuffer t (written t NEW_LINE)) ⟨0, t.cursor.y + 1⟩ =
      moved (withBuffer t (written t NEW_LINE)) ⟨0, t.cursor.y + 1⟩ := by
    unfold landed
    rw [if_pos hout]
    show (match t.overflow with
      | TERMINAL_OVERFLOW_NONE => _
      | TERMINAL_OVERFLOW_WRAP => _
      | TERMINAL_OVERFLOW_NEW_LINE => _) = _
    rw [hm]
  rw [hlanded] at hset
  refine ⟨moved (withBuffer t (written t NEW_LINE)) ⟨0, t.cursor.y + 1⟩, ?_, ?_⟩
  · simp only [operate]
    rw [put_new_line h.sized h.cursor, hset]
    rfl
  · intro hin
    have hrow : t.cursor.y + 1 < t.height := hin.2.2.2
    omega

def operate_all (t : terminal_t) (operations : List operation_t) : Option terminal_t :=
  operations.foldlM operate t

/-- The state of a new terminal after some operations. -/
def state_after (width height : Nat) (screen : Nat → Nat → Nat) (operations : List operation_t) :
    Option terminal_t :=
  ( terminal_create width height screen).bind fun t => operate_all t operations

theorem state_after_snoc (width height : Nat) (screen : Nat → Nat → Nat)
    (operations : List operation_t) (o : operation_t) :
    state_after width height screen (operations ++ [o]) =
      (state_after width height screen operations).bind fun t => operate t o := by
  unfold state_after operate_all
  cases terminal_create width height screen with
  | none => rfl
  | some t =>
    simp only [Option.bind_some, List.foldlM_append]
    cases operations.foldlM operate t with
    | none => rfl
    | some t1 => simp

/-- A run that never overruns has a state after each operation, with the cursor on the screen. -/
theorem state_on_screen (hw : 0 < width) (hh : 0 < height) (hf : width * height < 0x80000000)
    (screen : Nat → Nat → Nat) {operations : List operation_t}
    (ho : ∀ before o after, operations = before ++ o :: after →
      ∀ t, state_after width height screen before = some t → ¬ Overruns t o) :
    ∃ t, state_after width height screen operations = some t ∧ OnScreen width height t := by
  induction operations using List.reverseRecOn with
  | nil =>
    obtain ⟨t, hcreate, hw', hh', -, hco⟩ := terminal_create_eq hw hh hf screen
    refine ⟨t, ?_, hw', hh', hco.sized, hco.cursor⟩
    unfold state_after
    rw [hcreate]
    rfl
  | append_singleton operations o ih =>
    obtain ⟨t, hafter, ht⟩ := ih fun before o' after he =>
      ho before o' (after ++ [o]) (by rw [he, List.append_assoc, List.cons_append])
    obtain ⟨t', hstep, ht'⟩ := operate_on_screen ht (ho operations o [] rfl t hafter)
    refine ⟨t', ?_, ht'⟩
    rw [state_after_snoc, hafter]
    exact hstep

/-- In every state of a run the cursor is on the screen and every access was inside the buffer,
exactly if no line ends on the last row while the terminal wraps. -/
theorem the_cursor_stays_on_the_screen (hw : 0 < width) (hh : 0 < height)
    (hf : width * height < 0x80000000) (screen : Nat → Nat → Nat)
    (operations : List operation_t) :
    (∀ before, before <+: operations →
      ∃ t, state_after width height screen before = some t ∧ t.width = width ∧
        t.height = height ∧ Inside t t.cursor) ↔
    ∀ before o after, operations = before ++ o :: after →
      ∀ t, state_after width height screen before = some t → ¬ Overruns t o := by
  constructor
  · rintro hin before o after rfl t hafter hover
    obtain ⟨t1, h1, hw1, hh1, hin1⟩ := hin before (List.prefix_append before _)
    obtain rfl : t1 = t := Option.some.inj (h1.symm.trans hafter)
    have hsized : Sized t1 := ⟨hw1 ▸ hw, hh1 ▸ hh, by rw [hw1, hh1]; exact hf⟩
    obtain ⟨t', hstep, hout⟩ := overruns_leaves ⟨hw1, hh1, hsized, hin1⟩ hover
    obtain ⟨t2, h2, -, -, hin2⟩ := hin (before ++ [o]) ⟨after, by simp⟩
    rw [state_after_snoc, hafter] at h2
    obtain rfl : t' = t2 := Option.some.inj (hstep.symm.trans h2)
    exact hout hin2
  · rintro ho before ⟨after, rfl⟩
    have hbefore : ∀ first o rest, before = first ++ o :: rest →
        ∀ t, state_after width height screen first = some t → ¬ Overruns t o :=
      fun first o rest he => ho first o (rest ++ after) (by
        rw [he, List.append_assoc, List.cons_append])
    obtain ⟨t, hafter, ht⟩ := state_on_screen hw hh hf screen hbefore
    exact ⟨t, hafter, ht.width, ht.height, ht.cursor⟩

/-- A line that ends on a terminal of one cell, in a mode that wraps. -/
theorem a_line_ends_below_the_screen :
    ¬ ∀ before, before <+: [.set_overflow TERMINAL_OVERFLOW_WRAP, .put_char NEW_LINE] →
      ∃ t, state_after 1 1 (fun _ _ => 0) before = some t ∧ t.width = 1 ∧ t.height = 1 ∧
        Inside t t.cursor := by
  intro h
  obtain ⟨t, hafter, -, -, hin⟩ := h _ List.prefix_rfl
  have hrow : (state_after 1 1 (fun _ _ => 0)
      [.set_overflow TERMINAL_OVERFLOW_WRAP, .put_char NEW_LINE]).map
        (fun t => (t.cursor.y, t.height)) = some (1, 1) := by
    decide
  rw [hafter] at hrow
  obtain ⟨hy, hh⟩ := Prod.mk.inj (Option.some.inj hrow)
  have hlt := hin.2.2.2
  omega

/-- A character and a line end on a terminal of one cell, in the default mode. -/
theorem one_cell_keeps_its_cursor :
    (∀ before, before <+: [.put_char 65, .put_char NEW_LINE] →
      ∃ t, state_after 1 1 (fun _ _ => 0) before = some t ∧ t.width = 1 ∧ t.height = 1 ∧
        Inside t t.cursor) ↔
    ∀ before o after, [.put_char 65, .put_char NEW_LINE] = before ++ o :: after →
      ∀ t, state_after 1 1 (fun _ _ => 0) before = some t → ¬ Overruns t o :=
  the_cursor_stays_on_the_screen (by decide) (by decide) (by decide) (fun _ _ => 0)
    [.put_char 65, .put_char NEW_LINE]

end alura_os.terminal
