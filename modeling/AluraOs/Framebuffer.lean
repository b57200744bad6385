-- The framebuffer (`drivers/framebuffer.c`): single pixels and sprites. Both pack a colour by the
-- field positions and the depth of the mode, and a sprite is cut off at the edges of the screen.
import AluraOs.ByteStores
import AluraOs.UserMemory

namespace alura_os.framebuffer

open alura_os.memory alura_os.task_manager byte_stores

/-! ## The records -/

/-- The fields of `framebuffer_t` that say where a pixel is and what its bytes are. -/
structure framebuffer_t where
  address : Nat
  pitch : Nat
  width : Nat
  height : Nat
  bpp : Nat
  red_field_position : Nat
  green_field_position : Nat
  blue_field_position : Nat
  deriving DecidableEq, Repr

/-- `pixels i` is the word `pixels[i]`. -/
structure framebuffer_sprite_t where
  pixels : Nat → Nat
  width : Nat
  height : Nat

/-- What drawing does, in order: it reads a word of the sprite or stores a byte. -/
inductive access_t where
  | load (index : Nat)
  | store (address byte : Nat)
  deriving DecidableEq, Repr

/-! ## Pixels -/

/-- The colour as the mode packs it. A field position is below 32, or the shift has no value in C. -/
def pack (fb : framebuffer_t) (r g b : Nat) : Nat :=
  u32 (r <<< fb.red_field_position ||| g <<< fb.green_field_position |||
    b <<< fb.blue_field_position)

/-- The byte `k` of a word. -/
def byte_of (color k : Nat) : Nat := color / 256 ^ k % 256

/-- The low `n` bytes of the colour, the lowest one first. -/
def store_bytes (pixel color n : Nat) : List access_t :=
  (List.range n).map fun k => .store (u32 (pixel + k)) (byte_of color k)

/-- `*pixel = color` for a depth of 32 is a store of one byte: `pixel` is a `uint8_t*`. -/
def framebuffer_put_pixel (fb : framebuffer_t) (x y r g b : Nat) : List access_t :=
  let pixel := u32 (fb.address + y * fb.pitch + x * (fb.bpp / 8))
  let color := pack fb r g b
  if fb.bpp = 32 then store_bytes pixel color 1
  else if fb.bpp = 24 then store_bytes pixel color 3
  else if fb.bpp = 16 then store_bytes pixel color 2
  else []

/-! ## Sprites -/

/-- What is left of one axis of a sprite: where it starts in the sprite, its extent, and where it
goes on the screen. -/
structure span_t where
  src : Int
  extent : Int
  dest : Int
  deriving DecidableEq, Repr

/-- The tests of `framebuffer_blit` for one axis, on an extent of the sprite and one of the screen. -/
def clip (dest : Int) (size limit : Nat) : span_t :=
  let src := if dest < 0 then -dest else 0
  let extent := if dest < 0 then int32 size + dest else int32 size
  let dest := if dest < 0 then 0 else dest
  ⟨src, if int32 limit < dest + extent then int32 (sub32 limit dest.toNat) else extent, dest⟩

/-- `bpp / 8` bytes of the colour, for the depths that are drawn, and the step to the next pixel. -/
def pixel_bytes (bpp : Nat) : Nat :=
  if bpp = 32 then 4 else if bpp = 24 then 3 else if bpp = 16 then 2 else 0

/-- The colour of a word `0xRRGGBB` of a sprite. -/
def repack (fb : framebuffer_t) (raw_color : Nat) : Nat :=
  pack fb (raw_color / 65536 % 256) (raw_color / 256 % 256) (raw_color % 256)

def blit_pixel (fb : framebuffer_t) (source : framebuffer_sprite_t) (dest_pixel src : Nat) :
    List access_t :=
  .load src :: store_bytes dest_pixel (repack fb (source.pixels src)) (pixel_bytes fb.bpp)

/-- The inner loop, for the pixels that remain. -/
def blit_row (fb : framebuffer_t) (source : framebuffer_sprite_t) :
    Nat → Nat → Nat → List access_t
  | 0, _, _ => []
  | n + 1, dest_pixel, src =>
    blit_pixel fb source dest_pixel src ++
      blit_row fb source n (dest_pixel + pixel_bytes fb.bpp) (src + 1)

/-- The outer loop, for the rows that remain. -/
def blit_rows (fb : framebuffer_t) (source : framebuffer_sprite_t) (src_w : Nat) :
    Nat → Nat → Nat → List access_t
  | 0, _, _ => []
  | n + 1, dest_row, src_row =>
    blit_row fb source src_w dest_row src_row ++
      blit_rows fb source src_w n (dest_row + fb.pitch) (src_row + source.width)

def framebuffer_blit (fb : framebuffer_t) (dest_x dest_y : Int)
    (source : Option framebuffer_sprite_t) : List access_t :=
  match source with
  | none => []
  | some source =>
    if int32 fb.width ≤ dest_x ∨ int32 fb.height ≤ dest_y then []
    else if dest_x + int32 source.width < 0 ∨ dest_y + int32 source.height < 0 then []
    else
      let across := clip dest_x source.width fb.width
      let down := clip dest_y source.height fb.height
      let dest_row := u32 (fb.address + down.dest.toNat * fb.pitch +
        across.dest.toNat * (fb.bpp / 8))
      let src_row := u32 (down.src.toNat * source.width + across.src.toNat)
      blit_rows fb source across.extent.toNat down.extent.toNat dest_row src_row

/-! ## Memory -/

def access_t.stored : access_t → Option (Nat × Nat)
  | .load _ => none
  | .store address byte => some (address, byte)

/-- The memory after the drawing. -/
def drawn (memory : Nat → Nat) (accesses : List access_t) : Nat → Nat :=
  byte_stores.stored memory (accesses.filterMap access_t.stored)

theorem mem_stored {l : List access_t} {address byte : Nat} :
    (address, byte) ∈ l.filterMap access_t.stored ↔ .store address byte ∈ l := by
  rw [List.mem_filterMap]
  constructor
  · rintro ⟨a, ha, he⟩
    cases a with
    | load _ => simp [access_t.stored] at he
    | store _ _ =>
      simp only [access_t.stored, Option.some.injEq, Prod.mk.injEq] at he
      obtain ⟨rfl, rfl⟩ := he
      exact ha
  · intro h
    exact ⟨_, h, rfl⟩

end alura_os.framebuffer
