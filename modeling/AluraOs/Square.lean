-- A program that draws on the framebuffer (`initrd/src/square.c`): it seeks to each row of a
-- rectangle and writes the pixels of the row through the device (`framebuffer_dev_write`).
import AluraOs.Blit
import AluraOs.Loops

namespace alura_os.square

open alura_os.memory alura_os.task_manager alura_os.framebuffer loops

/-! ## The device -/

def memcpy (memory : Nat → Nat) (dst : Nat) (src : Nat → Nat) (n : Nat) : Nat → Nat :=
  (List.range n).foldl (fun memory i => Function.update memory (dst + i) (src i)) memory

/-- `framebuffer->size` -/
def size (fb : framebuffer_t) : Nat := u32 (fb.pitch * fb.height)

/-- `framebuffer_dev_write`: the memory, and the number of bytes written. -/
def framebuffer_dev_write (fb : framebuffer_t) (memory : Nat → Nat) (offset : Nat)
    (buffer : Nat → Nat) (length : Nat) : (Nat → Nat) × Nat :=
  if size fb ≤ offset then (memory, 0)
  else
    let available := sub32 (size fb) offset
    let to_write := if length < available then length else available
    (memcpy memory (u32 (fb.address + offset)) buffer to_write, to_write)

/-- The framebuffer as an open file: the offset of the resource, and the memory behind it. -/
structure file_t where
  offset : Nat
  memory : Nat → Nat

/-- `lseek` from the start, as `syscall_lseek` does it. -/
def lseek (f : file_t) (offset : Int) : file_t :=
  if offset < 0 then f else { f with offset := u32 offset.toNat }

/-- `write`, as `syscall_write` and `vfs_write` do it. -/
def write (fb : framebuffer_t) (f : file_t) (buffer : Nat → Nat) (length : Nat) : file_t :=
  if length = 0 then f
  else
    let (memory, written) := framebuffer_dev_write fb f.memory f.offset buffer length
    ⟨u32 (f.offset + written), memory⟩

/-! ## The program -/

/-- `pack_pixel` -/
def pack_pixel (row : Nat → Nat) (dest color bpp : Nat) : Nat → Nat :=
  (List.range (pixel_bytes bpp)).foldl (fun row k =>
    Function.update row (dest + k) (byte_of color k)) row

/-- An extent along one axis, cut off at the edges of the screen: where it starts, and how long it
is. -/
def cut (x w : Int) (width : Nat) : Int × Int :=
  let w := if x < 0 then w + x else w
  let x := if x < 0 then 0 else x
  (x, if int32 width < x + w then int32 width - x else w)

/-- The loop over the columns: the row of pixels in the memory that `malloc` gave. -/
def pack_row (fb : framebuffer_t) (row : Nat → Nat) (w color : Nat) : Nat → Nat :=
  (List.range w).foldl (fun row col => pack_pixel row (col * (fb.bpp / 8)) color fb.bpp) row

/-- The loop over the lines. -/
def write_rows (fb : framebuffer_t) (f : file_t) (row : Nat → Nat) (x y : Int) (w h : Nat) :
    file_t :=
  (List.range h).foldl (fun f (line : Nat) =>
    write fb (lseek f ((y + line) * fb.pitch + x * ((fb.bpp / 8 : Nat) : Int))) row
      (w * (fb.bpp / 8))) f

/-- `main` after the arguments: the framebuffer that it leaves. `row` is what `malloc` gave. -/
def main (fb : framebuffer_t) (memory : Nat → Nat) (x y w h : Int) (r g b : Nat)
    (row : Option (Nat → Nat)) : Nat → Nat :=
  let (x, w) := cut x w fb.width
  let (y, h) := cut y h fb.height
  if w ≤ 0 ∨ h ≤ 0 then memory
  else
    match row with
    | none => memory
    | some row =>
      let row := pack_row fb row w.toNat (pack fb r g b)
      ( write_rows fb ⟨0, memory⟩ row x y w.toNat h.toNat).memory

/-! ## Copies -/

theorem memcpy_eq (memory : Nat → Nat) (dst : Nat) (src : Nat → Nat) (n a : Nat) :
    memcpy memory dst src n a =
      if dst ≤ a ∧ a < dst + n then src (a - dst) else memory a := by
  have hloop := foldl_range (n := n) (s := memory)
    (f := fun memory i => Function.update memory (dst + i) (src i))
    (P := fun n m => ∀ a, m a = if dst ≤ a ∧ a < dst + n then src (a - dst) else memory a)
    (fun i m _ hm a => by
      rw [Function.update_apply]
      by_cases ha : a = dst + i
      · have hin : dst ≤ a ∧ a < dst + (i + 1) := by omega
        have hi : a - dst = i := by omega
        simp only [if_pos ha, if_pos hin, hi]
      · have hiff : (dst ≤ a ∧ a < dst + (i + 1)) ↔ (dst ≤ a ∧ a < dst + i) := by omega
        simp only [if_neg ha, hiff]
        exact hm a)
    (fun a => by rw [if_neg (by omega)])
  exact hloop a

theorem pack_pixel_eq (row : Nat → Nat) (dest color bpp : Nat) :
    pack_pixel row dest color bpp = memcpy row dest (byte_of color) (pixel_bytes bpp) := rfl

variable {fb : framebuffer_t}

/-- Every pixel of the row has the colour. -/
theorem pack_row_eq (hd : Depth fb) (row : Nat → Nat) {w color col k : Nat} (hcol : col < w)
    (hk : k < fb.bpp / 8) : pack_row fb row w color (col * (fb.bpp / 8) + k) = byte_of color k := by
  have hloop := foldl_range (n := w) (s := row)
    (f := fun row col => pack_pixel row (col * (fb.bpp / 8)) color fb.bpp)
    (P := fun n row => ∀ col < n, ∀ k < fb.bpp / 8, row (col * (fb.bpp / 8) + k) = byte_of color k)
    (fun i row _ hrow col hcol k hk => by
      rw [pack_pixel_eq, memcpy_eq, hd.bytes]
      by_cases hi : col = i
      · subst hi
        rw [if_pos (by omega), Nat.add_sub_cancel_left]
      · have hlt : (col + 1) * (fb.bpp / 8) ≤ i * (fb.bpp / 8) := Nat.mul_le_mul_right _ (by omega)
        rw [Nat.succ_mul] at hlt
        rw [if_neg (by omega)]
        exact hrow col (by omega) k hk)
    (fun col hcol => by omega)
  exact hloop col hcol k hk

/-- A row that lies inside the framebuffer is written as a whole. -/
theorem write_row_eq (hf : fb.address + fb.pitch * fb.height ≤ 0x100000000)
    (hs : fb.pitch * fb.height < 0x80000000) (f : file_t) (row : Nat → Nat) {offset length : Nat}
    (hl : 0 < length) (hin : offset + length ≤ fb.pitch * fb.height) (a : Nat) :
    ( write fb (lseek f offset) row length).memory a =
      if fb.address + offset ≤ a ∧ a < fb.address + offset + length then
        row (a - (fb.address + offset))
      else f.memory a := by
  have hsize : size fb = fb.pitch * fb.height := u32_of_lt (by omega)
  have hseek : lseek f offset = { f with offset := offset } := by
    unfold lseek
    rw [if_neg (by omega), Int.toNat_natCast, u32_of_lt (by omega)]
  have havailable : sub32 (fb.pitch * fb.height) offset = fb.pitch * fb.height - offset :=
    sub32_of_le (by omega) (by omega)
  have haddress : u32 (fb.address + offset) = fb.address + offset := u32_of_lt (by omega)
  have hall : (if length < fb.pitch * fb.height - offset then length
      else fb.pitch * fb.height - offset) = length := by
    split
    · rfl
    · omega
  have hne : ¬ length = 0 := by omega
  have hinside : ¬ fb.pitch * fb.height ≤ offset := by omega
  simp only [write, framebuffer_dev_write, hseek, if_neg hne, hsize, if_neg hinside, havailable,
    haddress, hall]
  exact memcpy_eq ..

/-! ## Rows -/

/-- The byte is of a pixel in the columns from `x` on and in the rows from `y` on, as far as the
rectangle goes. -/
def InBlock (fb : framebuffer_t) (x y w h a : Nat) : Prop :=
  ∃ i j k, i < w ∧ j < h ∧ k < fb.bpp / 8 ∧ a = pixel_address fb (x + i) (y + j) + k

/-- The bytes of one row of the rectangle are next to each other. -/
theorem row_bytes {x y w a : Nat} :
    InBlock fb x y w 1 a ↔ fb.bpp / 8 ≠ 0 ∧ pixel_address fb x y ≤ a ∧
      a < pixel_address fb x y + w * (fb.bpp / 8) := by
  generalize hB : fb.bpp / 8 = B
  unfold InBlock pixel_address
  rw [hB]
  constructor
  · rintro ⟨i, j, k, hi, hj, hk, rfl⟩
    obtain rfl : j = 0 := by omega
    have hrow : (i + 1) * B ≤ w * B := Nat.mul_le_mul_right _ hi
    rw [Nat.succ_mul] at hrow
    rw [Nat.add_zero, Nat.add_mul]
    omega
  · rintro ⟨hne, h1, h2⟩
    obtain ⟨d, rfl⟩ := Nat.exists_eq_add_of_le h1
    refine ⟨d / B, 0, d % B, ?_, by omega, Nat.mod_lt _ (by omega), ?_⟩
    · exact Nat.div_lt_of_lt_mul (by rw [Nat.mul_comm]; omega)
    · have hdiv := Nat.div_add_mod d B
      rw [Nat.add_zero, Nat.add_mul]
      rw [Nat.mul_comm] at hdiv
      omega

/-- The rows that are written hold the colour, and nothing else has changed. -/
structure Drawn (fb : framebuffer_t) (color x y w h : Nat) (memory memory' : Nat → Nat) : Prop where
  inside : ∀ i j k, i < w → j < h → k < fb.bpp / 8 →
    memory' (pixel_address fb (x + i) (y + j) + k) = byte_of color k
  outside : ∀ a, ¬ InBlock fb x y w h a → memory' a = memory a

/-- A row of a rectangle on the screen lies inside the framebuffer. -/
theorem row_inside (hs : Screen fb) {x y w : Nat} (hx : x + w ≤ fb.width) (hy : y < fb.height) :
    y * fb.pitch + x * (fb.bpp / 8) + w * (fb.bpp / 8) ≤ fb.pitch * fb.height := by
  have hcols : (x + w) * (fb.bpp / 8) ≤ fb.width * (fb.bpp / 8) := Nat.mul_le_mul_right _ hx
  have hrows : (y + 1) * fb.pitch ≤ fb.height * fb.pitch := Nat.mul_le_mul_right _ hy
  have hpitch := hs.pitch
  rw [Nat.add_mul] at hcols
  rw [Nat.succ_mul] at hrows
  rw [Nat.mul_comm fb.pitch]
  omega

theorem write_rows_drawn (hs : Screen fb) (hsize : fb.pitch * fb.height < 0x80000000)
    (memory row : Nat → Nat) {color x y w h : Nat} (hw : 0 < w) (hx : x + w ≤ fb.width)
    (hy : y + h ≤ fb.height)
    (hrow : ∀ i k, i < w → k < fb.bpp / 8 → row (i * (fb.bpp / 8) + k) = byte_of color k) :
    Drawn fb color x y w h memory ( write_rows fb ⟨0, memory⟩ row x y w h).memory := by
  have hbytes : 0 < fb.bpp / 8 := by
    rcases hs.depth with hb | hb | hb <;> rw [hb] <;> decide
  unfold write_rows
  refine (foldl_range (P := fun n (f : file_t) => n ≤ h → Drawn fb color x y w n memory f.memory)
    (fun n f hn hf hle => ?_) (fun _ => ?_)) le_rfl
  · have hdrawn := hf (by omega)
    have hoffset : ((y : Int) + n) * fb.pitch + x * ((fb.bpp / 8 : Nat) : Int) =
        (((y + n) * fb.pitch + x * (fb.bpp / 8) : Nat) : Int) := by
      push_cast
      ring
    have hinside := row_inside hs hx (show y + n < fb.height by omega)
    have hwritten := write_row_eq hs.fits hsize f row (Nat.mul_pos hw hbytes) hinside
    have hstart : fb.address + ((y + n) * fb.pitch + x * (fb.bpp / 8)) =
        pixel_address fb x (y + n) := by
      unfold pixel_address
      omega
    rw [hstart] at hwritten
    rw [hoffset]
    constructor
    · intro i j k hi hj hk
      rw [hwritten]
      by_cases hlast : j = n
      · subst hlast
        have hin : InBlock fb x (y + j) w 1 (pixel_address fb (x + i) (y + j) + k) :=
          ⟨i, 0, k, hi, by omega, hk, rfl⟩
        obtain ⟨-, hin⟩ := row_bytes.mp hin
        have hplace : pixel_address fb (x + i) (y + j) + k - pixel_address fb x (y + j) =
            i * (fb.bpp / 8) + k := by
          unfold pixel_address
          rw [Nat.add_mul x i]
          omega
        rw [if_pos hin, hplace]
        exact hrow i k hi hk
      · rw [if_neg]
        · exact hdrawn.inside i j k hi (by omega) hk
        · intro hin
          have hlast : InBlock fb x (y + n) w 1 _ := row_bytes.mpr ⟨hbytes.ne', hin⟩
          obtain ⟨i', j', k', hi', hj', hk', he⟩ := hlast
          have hsame := hs.pixel_unique (by omega) (by omega) hk (by omega) (by omega) hk'
            (congrArg u32 he)
          omega
    · intro a ha
      rw [hwritten, if_neg]
      · refine hdrawn.outside a ?_
        rintro ⟨i, j, k, hi, hj, hk, he⟩
        exact ha ⟨i, j, k, hi, by omega, hk, he⟩
      · intro hin
        have hlast : InBlock fb x (y + n) w 1 _ := row_bytes.mpr ⟨hbytes.ne', hin⟩
        obtain ⟨i, j, k, hi, hj, hk, he⟩ := hlast
        refine ha ⟨i, n, k, hi, by omega, hk, ?_⟩
        obtain rfl : j = 0 := by omega
        exact he
  · exact ⟨fun i j k _ hj => by omega, fun a _ => rfl⟩

/-! ## Both ways of drawing -/

/-- A sprite of one colour. -/
def block (w h r g b : Nat) : framebuffer_sprite_t := ⟨fun _ => r <<< 16 ||| g <<< 8 ||| b, w, h⟩

/-- What is left of an extent is what lies on the screen. -/
theorem cut_spec {x w : Int} {width : Nat} (hw : width < 0x80000000) :
    0 ≤ (cut x w width).1 ∧ ∀ n : Nat,
      ((cut x w width).1 ≤ n ∧ n < (cut x w width).1 + (cut x w width).2) ↔
        n < width ∧ x ≤ n ∧ n < x + w := by
  unfold cut
  rw [int32_small hw]
  refine ⟨?_, fun n => ?_⟩
  · dsimp only
    split
    · rfl
    · omega
  · dsimp only
    split <;> split <;> omega

theorem visible_block {w h : Int} (r g b : Nat) (x y : Int) {i j : Nat} :
    Visible fb (block w.toNat h.toNat r g b) x y i j ↔
      (i < w ∧ 0 ≤ x + i ∧ x + i < fb.width) ∧ j < h ∧ 0 ≤ y + j ∧ y + j < fb.height := by
  show ((i < w.toNat ∧ _) ∧ j < h.toNat ∧ _) ↔ _
  omega

theorem block_color {r g b : Nat} (hr : r < 256) (hg : g < 256) (hb : b < 256) (w h i j : Nat) :
    sprite_color fb (block w h r g b) i j = pack fb r g b :=
  repack_dot hr hg hb

/-- A rectangle that the program writes row by row through the device comes out as the one that the
kernel draws itself. -/
theorem the_program_draws_as_the_kernel_does (hs : Screen fb) (hwidth : fb.width < 0x8000)
    (hheight : fb.height < 0x8000) (hsize : fb.pitch * fb.height < 0x80000000) (x y : Int)
    {w h : Int} (hw : w < 0x8000) (hh : h < 0x8000) {r g b : Nat} (hr : r < 256) (hg : g < 256)
    (hb : b < 256) (memory row : Nat → Nat) :
    main fb memory x y w h r g b (some row) =
      drawn memory (framebuffer_blit fb x y (some (block w.toNat h.toNat r g b))) := by
  have hsmall : Small fb (block w.toNat h.toNat r g b) :=
    ⟨hwidth, hheight, show w.toNat < 0x8000 by omega, show h.toNat < 0x8000 by omega⟩
  obtain ⟨hx, across⟩ := @cut_spec x w _ (Nat.lt_trans hwidth (by decide))
  obtain ⟨hy, down⟩ := @cut_spec y h _ (Nat.lt_trans hheight (by decide))
  unfold main
  generalize cut x w fb.width = cx at *
  generalize cut y h fb.height = cy at *
  obtain ⟨X, W⟩ := cx
  obtain ⟨Y, H⟩ := cy
  dsimp only at *
  split
  · -- nothing is left of the rectangle
    rename_i hnone
    funext a
    refine (hs.drawn_other hsmall memory fun i j k hv _ => ?_).symm
    obtain ⟨hi, hj⟩ := (visible_block r g b x y).mp hv
    have hacross := across (x + i).toNat
    have hdown := down (y + j).toNat
    omega
  · rename_i hsome
    push Not at hsome
    obtain ⟨hW, hH⟩ := hsome
    have hright := (across (X + W - 1).toNat).mp (by omega)
    have hbottom := (down (Y + H - 1).toNat).mp (by omega)
    have hdrawn : Drawn fb (pack fb r g b) X.toNat Y.toNat W.toNat H.toNat memory _ :=
      write_rows_drawn hs hsize memory (pack_row fb row W.toNat (pack fb r g b)) (by omega)
        (by omega) (by omega) fun i k hi hk => pack_row_eq hs.depth row hi hk
    rw [Int.toNat_of_nonneg hx, Int.toNat_of_nonneg hy] at hdrawn
    funext a
    by_cases ha : InBlock fb X.toNat Y.toNat W.toNat H.toNat a
    · obtain ⟨i, j, k, hi, hj, hk, rfl⟩ := ha
      have hcol := (across (X.toNat + i)).mp (by omega)
      have hline := (down (Y.toNat + j)).mp (by omega)
      have hv : Visible fb (block w.toNat h.toNat r g b) x y ((X.toNat + i : Nat) - x).toNat
          ((Y.toNat + j : Nat) - y).toNat := (visible_block r g b x y).mpr (by omega)
      have hkernel := hs.drawn_at hsmall memory hv hk
      have hX : (x + (((X.toNat + i : Nat) - x).toNat : Int)).toNat = X.toNat + i := by omega
      have hY : (y + (((Y.toNat + j : Nat) - y).toNat : Int)).toNat = Y.toNat + j := by omega
      rw [hX, hY, block_color hr hg hb] at hkernel
      rw [hkernel]
      exact hdrawn.inside i j k hi hj hk
    · rw [hdrawn.outside a ha]
      refine (hs.drawn_other hsmall memory fun i j k hv hk he => ?_).symm
      obtain ⟨hi, hj⟩ := (visible_block r g b x y).mp hv
      have hcol := (across (x + i).toNat).mpr (by omega)
      have hline := (down (y + j).toNat).mpr (by omega)
      refine ha ⟨(x + i).toNat - X.toNat, (y + j).toNat - Y.toNat, k, by omega, by omega, hk, ?_⟩
      have hX : X.toNat + ((x + i).toNat - X.toNat) = (x + i).toNat := by omega
      have hY : Y.toNat + ((y + j).toNat - Y.toNat) = (y + j).toNat := by omega
      rw [hX, hY]
      exact he

/-- A rectangle that begins left of the screen. -/
theorem a_rectangle_is_cut :
    main smallScreen (fun _ => 0) (-1) 1 3 2 10 20 30 (some fun _ => 7) =
      drawn (fun _ => 0) (framebuffer_blit smallScreen (-1) 1 (some (block 3 2 10 20 30))) :=
  the_program_draws_as_the_kernel_does ⟨Or.inr (Or.inl rfl), by decide, by decide⟩ (by decide)
    (by decide) (by decide) (-1) 1 (by decide) (by decide) (by decide) (by decide) (by decide) _ _

end alura_os.square
