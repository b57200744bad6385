-- The laws of drawing: a sprite is drawn pixel by pixel, cut off at the edges of the screen, and
-- where a single pixel agrees with a sprite of one.
import AluraOs.Framebuffer

namespace alura_os.framebuffer

open alura_os.memory alura_os.task_manager byte_stores

variable {fb : framebuffer_t} {source : framebuffer_sprite_t}

/-! ## The loops -/

theorem mem_blit_row {n dest_pixel src : Nat} {e : access_t} :
    e ∈ blit_row fb source n dest_pixel src ↔
      ∃ x < n, e ∈ blit_pixel fb source (dest_pixel + x * pixel_bytes fb.bpp) (src + x) := by
  induction n generalizing dest_pixel src with
  | zero => simp [blit_row]
  | succ n ih =>
    rw [blit_row, List.mem_append, ih]
    constructor
    · rintro (h | ⟨x, hx, h⟩)
      · exact ⟨0, by omega, by simpa using h⟩
      · refine ⟨x + 1, by omega, ?_⟩
        rw [Nat.succ_mul, Nat.add_comm (x * _), ← Nat.add_assoc, Nat.add_comm x 1, ← Nat.add_assoc]
        exact h
    · rintro ⟨x, hx, h⟩
      cases x with
      | zero => exact Or.inl (by simpa using h)
      | succ x =>
        refine Or.inr ⟨x, by omega, ?_⟩
        rwa [Nat.succ_mul, Nat.add_comm (x * _), ← Nat.add_assoc, Nat.add_comm x 1,
          ← Nat.add_assoc] at h

theorem mem_blit_rows {w n dest_row src_row : Nat} {e : access_t} :
    e ∈ blit_rows fb source w n dest_row src_row ↔
      ∃ y < n, ∃ x < w, e ∈ blit_pixel fb source
        (dest_row + y * fb.pitch + x * pixel_bytes fb.bpp) (src_row + y * source.width + x) := by
  induction n generalizing dest_row src_row with
  | zero => simp [blit_rows]
  | succ n ih =>
    rw [blit_rows, List.mem_append, ih, mem_blit_row]
    constructor
    · rintro (⟨x, hx, h⟩ | ⟨y, hy, x, hx, h⟩)
      · exact ⟨0, by omega, x, hx, by simpa using h⟩
      · refine ⟨y + 1, by omega, x, hx, ?_⟩
        simpa [Nat.succ_mul, Nat.add_comm, Nat.add_left_comm, Nat.add_assoc] using h
    · rintro ⟨y, hy, x, hx, h⟩
      cases y with
      | zero => exact Or.inl ⟨x, hx, by simpa using h⟩
      | succ y =>
        refine Or.inr ⟨y, by omega, x, hx, ?_⟩
        simpa [Nat.succ_mul, Nat.add_comm, Nat.add_left_comm, Nat.add_assoc] using h

theorem mem_store_bytes {pixel color n : Nat} {e : access_t} :
    e ∈ store_bytes pixel color n ↔ ∃ k < n, e = .store (u32 (pixel + k)) (byte_of color k) := by
  simp only [store_bytes, List.mem_map, List.mem_range, eq_comm]

/-! ## Clipping -/

theorem int32_small {n : Nat} (h : n < 0x80000000) : int32 n = n := by
  unfold int32
  rw [if_pos h]

/-- Along one axis, the pixels of the span are those that lie on the screen. -/
theorem clip_spec {dest : Int} {size limit : Nat} (hs : size < 0x8000) (hl : limit < 0x8000)
    (hd : dest < limit) :
    0 ≤ (clip dest size limit).src ∧ 0 ≤ (clip dest size limit).dest ∧
      (clip dest size limit).dest - (clip dest size limit).src = dest ∧
      ∀ i : Nat, (i < size ∧ 0 ≤ dest + i ∧ dest + i < limit) ↔
        ∃ t < (clip dest size limit).extent.toNat, (clip dest size limit).src.toNat + t = i := by
  have hlimit : int32 limit = limit := int32_small (by omega)
  have hsize : int32 size = size := int32_small (by omega)
  have hcut : 0 ≤ dest → int32 (sub32 limit dest.toNat) = limit - dest := by
    intro h0
    rw [sub32_of_le (by omega) (by omega), int32_small (by omega)]
    omega
  have hcut0 : int32 (sub32 limit 0) = limit := by
    rw [sub32_of_le (by omega) (by omega), int32_small (by omega)]
    omega
  unfold clip
  rw [hlimit, hsize]
  rcases lt_or_ge dest 0 with hneg | hpos
  · simp only [if_pos hneg, Int.toNat_zero, hcut0]
    refine ⟨by omega, by omega, by omega, fun i => ?_⟩
    split
    · refine ⟨fun h => ⟨(dest + i).toNat, by omega, by omega⟩, ?_⟩
      rintro ⟨t, ht, rfl⟩
      omega
    · refine ⟨fun h => ⟨(dest + i).toNat, by omega, by omega⟩, ?_⟩
      rintro ⟨t, ht, rfl⟩
      omega
  · simp only [if_neg (not_lt.mpr hpos), hcut hpos]
    refine ⟨by omega, by omega, by omega, fun i => ?_⟩
    split
    · refine ⟨fun h => ⟨i, by omega, by omega⟩, ?_⟩
      rintro ⟨t, ht, rfl⟩
      omega
    · refine ⟨fun h => ⟨i, by omega, by omega⟩, ?_⟩
      rintro ⟨t, ht, rfl⟩
      omega

/-! ## A sprite -/

/-- The depths that are drawn. -/
def Depth (fb : framebuffer_t) : Prop := fb.bpp = 16 ∨ fb.bpp = 24 ∨ fb.bpp = 32

/-- Where the bytes of the pixel at (x, y) start. -/
def pixel_address (fb : framebuffer_t) (x y : Nat) : Nat :=
  fb.address + y * fb.pitch + x * (fb.bpp / 8)

/-- The pixel (i, j) of the sprite lands on the screen. -/
def Visible (fb : framebuffer_t) (source : framebuffer_sprite_t) (dest_x dest_y : Int)
    (i j : Nat) : Prop :=
  (i < source.width ∧ 0 ≤ dest_x + i ∧ dest_x + i < fb.width) ∧
    j < source.height ∧ 0 ≤ dest_y + j ∧ dest_y + j < fb.height

/-- The sizes of the screen and of the sprite are small enough for the `int`s of the code. -/
structure Small (fb : framebuffer_t) (source : framebuffer_sprite_t) : Prop where
  width : fb.width < 0x8000
  height : fb.height < 0x8000
  sprite_width : source.width < 0x8000
  sprite_height : source.height < 0x8000

theorem Depth.bytes (h : Depth fb) : pixel_bytes fb.bpp = fb.bpp / 8 := by
  rcases h with h | h | h <;> rw [h] <;> rfl

theorem blit_pixel_u32 (a b src : Nat) :
    blit_pixel fb source (u32 a + b) src = blit_pixel fb source (a + b) src := by
  have hu : ∀ k, u32 (u32 a + b + k) = u32 (a + b + k) := by
    intro k
    unfold u32
    omega
  simp only [blit_pixel, store_bytes, hu]

/-- The accesses are those of the visible pixels. -/
theorem mem_blit (hd : Depth fb) (hs : Small fb source) {dest_x dest_y : Int} {e : access_t} :
    e ∈ framebuffer_blit fb dest_x dest_y (some source) ↔
      ∃ i j, Visible fb source dest_x dest_y i j ∧
        e ∈ blit_pixel fb source (pixel_address fb (dest_x + i).toNat (dest_y + j).toNat)
          (j * source.width + i) := by
  have hw : int32 fb.width = fb.width := int32_small (by have := hs.width; omega)
  have hh : int32 fb.height = fb.height := int32_small (by have := hs.height; omega)
  have hsw : int32 source.width = source.width :=
    int32_small (by have := hs.sprite_width; omega)
  have hsh : int32 source.height = source.height :=
    int32_small (by have := hs.sprite_height; omega)
  simp only [framebuffer_blit, hw, hh, hsw, hsh]
  split
  · -- right of the screen or below it
    rename_i hout
    simp only [List.not_mem_nil, false_iff]
    rintro ⟨i, j, ⟨hi, hj⟩, -⟩
    omega
  · rename_i hin
    split
    · -- left of the screen or above it
      rename_i hout
      simp only [List.not_mem_nil, false_iff]
      rintro ⟨i, j, ⟨hi, hj⟩, -⟩
      omega
    · obtain ⟨hsx, hdx, hx, across⟩ :=
        @clip_spec dest_x _ _ hs.sprite_width hs.width (by omega)
      obtain ⟨hsy, hdy, hy, down⟩ :=
        @clip_spec dest_y _ _ hs.sprite_height hs.height (by omega)
      generalize clip dest_x source.width fb.width = cx at *
      generalize clip dest_y source.height fb.height = cy at *
      have hpoint : ∀ x y, x < cx.extent.toNat → y < cy.extent.toNat →
          blit_pixel fb source
            (u32 (fb.address + cy.dest.toNat * fb.pitch + cx.dest.toNat * (fb.bpp / 8)) +
              y * fb.pitch + x * pixel_bytes fb.bpp)
            (u32 (cy.src.toNat * source.width + cx.src.toNat) + y * source.width + x) =
          blit_pixel fb source
            (pixel_address fb (dest_x + ((cx.src.toNat + x : Nat) : Int)).toNat
              (dest_y + ((cy.src.toNat + y : Nat) : Int)).toNat)
            ((cy.src.toNat + y) * source.width + (cx.src.toNat + x)) := by
        intro x y hx' hy'
        have hi := (across (cx.src.toNat + x)).mpr ⟨x, hx', rfl⟩
        have hj := (down (cy.src.toNat + y)).mpr ⟨y, hy', rfl⟩
        have hX : (dest_x + ((cx.src.toNat + x : Nat) : Int)).toNat = cx.dest.toNat + x := by omega
        have hY : (dest_y + ((cy.src.toNat + y : Nat) : Int)).toNat = cy.dest.toNat + y := by omega
        have hindex : cy.src.toNat * source.width + cx.src.toNat < 0x100000000 := by
          have := hs.sprite_width
          have := hs.sprite_height
          have hmul : cy.src.toNat * source.width ≤ 0x8000 * 0x8000 :=
            Nat.mul_le_mul (by omega) (by omega)
          omega
        rw [u32_of_lt hindex, hX, hY, Nat.add_assoc (u32 _), blit_pixel_u32, hd.bytes]
        unfold pixel_address
        congr 1 <;> ring
      rw [mem_blit_rows]
      constructor
      · rintro ⟨y, hy', x, hx', h⟩
        rw [hpoint x y hx' hy'] at h
        exact ⟨_, _, ⟨(across _).mpr ⟨x, hx', rfl⟩, (down _).mpr ⟨y, hy', rfl⟩⟩, h⟩
      · rintro ⟨i, j, ⟨hi, hj⟩, h⟩
        obtain ⟨x, hx', rfl⟩ := (across i).mp hi
        obtain ⟨y, hy', rfl⟩ := (down j).mp hj
        exact ⟨y, hy', x, hx', by rwa [hpoint x y hx' hy']⟩

/-- The framebuffer lies in the address space, and a row of it has room for its pixels. -/
structure Screen (fb : framebuffer_t) : Prop where
  depth : Depth fb
  pitch : fb.width * (fb.bpp / 8) ≤ fb.pitch
  fits : fb.address + fb.pitch * fb.height ≤ 0x100000000

/-- The byte `k` of a pixel on the screen, from the start of the framebuffer. -/
theorem Screen.offset_lt (h : Screen fb) {x y k : Nat} (hx : x < fb.width) (hy : y < fb.height)
    (hk : k < fb.bpp / 8) :
    x * (fb.bpp / 8) + k < fb.pitch ∧ pixel_address fb x y + k < 0x100000000 := by
  have hrow : (x + 1) * (fb.bpp / 8) ≤ fb.width * (fb.bpp / 8) := Nat.mul_le_mul_right _ hx
  have hcol : (y + 1) * fb.pitch ≤ fb.height * fb.pitch := Nat.mul_le_mul_right _ hy
  have hp := h.pitch
  have hf := h.fits
  rw [Nat.succ_mul] at hrow hcol
  rw [Nat.mul_comm fb.pitch] at hf
  unfold pixel_address
  omega

/-- Two bytes of pixels at one address are the same byte of the same pixel. -/
theorem Screen.pixel_unique (h : Screen fb) {x y k x' y' k' : Nat} (hx : x < fb.width)
    (hy : y < fb.height) (hk : k < fb.bpp / 8) (hx' : x' < fb.width) (hy' : y' < fb.height)
    (hk' : k' < fb.bpp / 8)
    (he : u32 (pixel_address fb x y + k) = u32 (pixel_address fb x' y' + k')) :
    x = x' ∧ y = y' ∧ k = k' := by
  obtain ⟨hlt, hin⟩ := h.offset_lt hx hy hk
  obtain ⟨hlt', hin'⟩ := h.offset_lt hx' hy' hk'
  rw [u32_of_lt hin, u32_of_lt hin'] at he
  unfold pixel_address at he
  have hsum : x * (fb.bpp / 8) + k + fb.pitch * y = x' * (fb.bpp / 8) + k' + fb.pitch * y' := by
    rw [Nat.mul_comm fb.pitch, Nat.mul_comm fb.pitch]
    omega
  have hrow : y = y' := by
    have hdiv := congrArg (· / fb.pitch) hsum
    simpa [Nat.add_mul_div_left _ _ (Nat.zero_lt_of_lt hlt), Nat.div_eq_of_lt hlt,
      Nat.div_eq_of_lt hlt'] using hdiv
  subst hrow
  have hcol : k + fb.bpp / 8 * x = k' + fb.bpp / 8 * x' := by
    rw [Nat.mul_comm _ x, Nat.mul_comm _ x']
    omega
  have hpixel : x = x' := by
    have hdiv := congrArg (· / (fb.bpp / 8)) hcol
    simpa [Nat.add_mul_div_left _ _ (Nat.zero_lt_of_lt hk), Nat.div_eq_of_lt hk,
      Nat.div_eq_of_lt hk'] using hdiv
  subst hpixel
  exact ⟨rfl, rfl, by omega⟩

/-- The colour of the pixel (i, j) of a sprite, packed for the screen. -/
def sprite_color (fb : framebuffer_t) (source : framebuffer_sprite_t) (i j : Nat) : Nat :=
  repack fb (source.pixels (j * source.width + i))

/-- A store writes one byte of a visible pixel. -/
theorem store_mem_blit (hd : Depth fb) (hs : Small fb source) {dest_x dest_y : Int}
    {address byte : Nat} :
    .store address byte ∈ framebuffer_blit fb dest_x dest_y (some source) ↔
      ∃ i j k, Visible fb source dest_x dest_y i j ∧ k < fb.bpp / 8 ∧
        address = u32 (pixel_address fb (dest_x + i).toNat (dest_y + j).toNat + k) ∧
        byte = byte_of (sprite_color fb source i j) k := by
  rw [mem_blit hd hs]
  constructor
  · rintro ⟨i, j, hv, h⟩
    simp only [blit_pixel, List.mem_cons, reduceCtorEq, false_or, mem_store_bytes, hd.bytes,
      access_t.store.injEq] at h
    obtain ⟨k, hk, rfl, rfl⟩ := h
    exact ⟨i, j, k, hv, hk, rfl, rfl⟩
  · rintro ⟨i, j, k, hv, hk, rfl, rfl⟩
    refine ⟨i, j, hv, List.mem_cons_of_mem _ (mem_store_bytes.mpr ⟨k, ?_, rfl⟩)⟩
    rwa [hd.bytes]

/-- A load reads a word of the sprite. -/
theorem load_mem_blit (hd : Depth fb) (hs : Small fb source) {dest_x dest_y : Int} {index : Nat}
    (h : .load index ∈ framebuffer_blit fb dest_x dest_y (some source)) :
    index < source.width * source.height := by
  obtain ⟨i, j, ⟨⟨hi, -⟩, ⟨hj, -⟩⟩, he⟩ := (mem_blit hd hs).mp h
  simp only [blit_pixel, List.mem_cons, access_t.load.injEq, mem_store_bytes, reduceCtorEq,
    and_false, exists_false, or_false] at he
  subst he
  have hrow : (j + 1) * source.width ≤ source.height * source.width := Nat.mul_le_mul_right _ hj
  rw [Nat.succ_mul] at hrow
  rw [Nat.mul_comm source.width]
  omega

theorem Screen.agreeing (h : Screen fb) (hs : Small fb source) (dest_x dest_y : Int) :
    Agreeing ((framebuffer_blit fb dest_x dest_y (some source)).filterMap access_t.stored) := by
  intro a b c hb hc
  rw [mem_stored, store_mem_blit h.depth hs] at hb hc
  obtain ⟨i, j, k, ⟨hi, hj⟩, hk, rfl, rfl⟩ := hb
  obtain ⟨i', j', k', ⟨hi', hj'⟩, hk', he, rfl⟩ := hc
  obtain ⟨hx, hy, rfl⟩ := h.pixel_unique (by omega) (by omega) hk (by omega) (by omega) hk' he
  have hii : i = i' := by omega
  have hjj : j = j' := by omega
  rw [hii, hjj]

theorem Screen.visible_address (h : Screen fb) {dest_x dest_y : Int} {i j k : Nat}
    (hv : Visible fb source dest_x dest_y i j) (hk : k < fb.bpp / 8) :
    u32 (pixel_address fb (dest_x + i).toNat (dest_y + j).toNat + k) =
      pixel_address fb (dest_x + i).toNat (dest_y + j).toNat + k := by
  obtain ⟨hi, hj⟩ := hv
  exact u32_of_lt (h.offset_lt (by omega) (by omega) hk).2

theorem Screen.drawn_at (h : Screen fb) (hs : Small fb source) {dest_x dest_y : Int} {i j k : Nat}
    (memory : Nat → Nat) (hv : Visible fb source dest_x dest_y i j) (hk : k < fb.bpp / 8) :
    drawn memory (framebuffer_blit fb dest_x dest_y (some source))
      (pixel_address fb (dest_x + i).toNat (dest_y + j).toNat + k) =
        byte_of (sprite_color fb source i j) k := by
  apply stored_at memory (h.agreeing hs dest_x dest_y)
  rw [mem_stored, store_mem_blit h.depth hs]
  exact ⟨i, j, k, hv, hk, (h.visible_address hv hk).symm, rfl⟩

theorem Screen.drawn_other (h : Screen fb) (hs : Small fb source) {dest_x dest_y : Int} {a : Nat}
    (memory : Nat → Nat) (ha : ∀ i j k, Visible fb source dest_x dest_y i j → k < fb.bpp / 8 →
      a ≠ pixel_address fb (dest_x + i).toNat (dest_y + j).toNat + k) :
    drawn memory (framebuffer_blit fb dest_x dest_y (some source)) a = memory a := by
  apply stored_other
  intro b hb
  rw [mem_stored, store_mem_blit h.depth hs] at hb
  obtain ⟨i, j, k, hv, hk, he, -⟩ := hb
  exact ha i j k hv hk (he.trans (h.visible_address hv hk))

/-- A sprite is drawn pixel by pixel: what is off the screen is cut off, the rest is packed into
the bytes of its pixels, and no other byte is written. -/
theorem a_sprite_is_drawn_pixel_by_pixel (h : Screen fb) (hs : Small fb source)
    (dest_x dest_y : Int) (memory : Nat → Nat) :
    let accesses := framebuffer_blit fb dest_x dest_y (some source)
    (∀ index, .load index ∈ accesses → index < source.width * source.height) ∧
      (∀ address byte, .store address byte ∈ accesses →
        ∃ i j k, Visible fb source dest_x dest_y i j ∧ k < fb.bpp / 8 ∧
          address = pixel_address fb (dest_x + i).toNat (dest_y + j).toNat + k ∧
          byte = byte_of (sprite_color fb source i j) k) ∧
      (∀ i j k, Visible fb source dest_x dest_y i j → k < fb.bpp / 8 →
        drawn memory accesses (pixel_address fb (dest_x + i).toNat (dest_y + j).toNat + k) =
          byte_of (sprite_color fb source i j) k) ∧
      ∀ a, (∀ i j k, Visible fb source dest_x dest_y i j → k < fb.bpp / 8 →
        a ≠ pixel_address fb (dest_x + i).toNat (dest_y + j).toNat + k) →
          drawn memory accesses a = memory a := by
  intro accesses
  have hu : ∀ {i j k}, Visible fb source dest_x dest_y i j → k < fb.bpp / 8 →
      u32 (pixel_address fb (dest_x + i).toNat (dest_y + j).toNat + k) =
        pixel_address fb (dest_x + i).toNat (dest_y + j).toNat + k := by
    rintro i j k ⟨hi, hj⟩ hk
    exact u32_of_lt (h.offset_lt (by omega) (by omega) hk).2
  refine ⟨fun index hl => load_mem_blit h.depth hs hl, ?_, ?_, ?_⟩
  · intro address byte hst
    obtain ⟨i, j, k, hv, hk, ha, hb⟩ := (store_mem_blit h.depth hs).mp hst
    exact ⟨i, j, k, hv, hk, ha.trans (hu hv hk), hb⟩
  · intro i j k hv hk
    apply stored_at memory (h.agreeing hs dest_x dest_y)
    rw [mem_stored, store_mem_blit h.depth hs]
    exact ⟨i, j, k, hv, hk, (hu hv hk).symm, rfl⟩
  · intro a ha
    apply stored_other
    intro b hb
    rw [mem_stored, store_mem_blit h.depth hs] at hb
    obtain ⟨i, j, k, hv, hk, he, -⟩ := hb
    exact ha i j k hv hk (he.trans (hu hv hk))

/-- A screen of 2 by 2 pixels at a depth of 24. -/
def smallScreen : framebuffer_t := ⟨0xF8000000, 8, 2, 2, 24, 16, 8, 0⟩

/-- A sprite of 2 by 2 pixels. -/
def smallSprite : framebuffer_sprite_t := ⟨fun i => 0x102030 + i, 2, 2⟩

/-- The right column of the sprite in the left column of the screen. -/
theorem half_a_sprite_is_drawn :
    Screen smallScreen ∧ Small smallScreen smallSprite ∧
      drawn (fun _ => 0) (framebuffer_blit smallScreen (-1) 0 (some smallSprite)) 0xF8000008 =
        0x33 := by
  have hd : Screen smallScreen := ⟨Or.inr (Or.inl rfl), by decide, by decide⟩
  have hs : Small smallScreen smallSprite := ⟨by decide, by decide, by decide, by decide⟩
  have hv : Visible smallScreen smallSprite (-1) 0 1 1 := by
    unfold Visible smallScreen smallSprite
    decide
  exact ⟨hd, hs, (a_sprite_is_drawn_pixel_by_pixel hd hs (-1) 0 (fun _ => 0)).2.2.1 1 1 0 hv
    (by decide)⟩

/-! ## One pixel -/

/-- A sprite of one pixel. -/
def dot (r g b : Nat) : framebuffer_sprite_t := ⟨fun _ => r <<< 16 ||| g <<< 8 ||| b, 1, 1⟩

theorem repack_dot {r g b : Nat} (hr : r < 256) (hg : g < 256) (hb : b < 256) :
    repack fb ((dot r g b).pixels 0) = pack fb r g b := by
  have hword : (dot r g b).pixels 0 = r * 65536 + (g * 256 + b) := by
    simp only [dot]
    rw [Nat.or_assoc, ← Nat.shiftLeft_add_eq_or_of_lt (show b < 2 ^ 8 from hb),
      ← Nat.shiftLeft_add_eq_or_of_lt (by rw [Nat.shiftLeft_eq]; omega), Nat.shiftLeft_eq,
      Nat.shiftLeft_eq]
  unfold repack
  rw [hword]
  congr 1 <;> omega

/-- A dot on the screen is not cut off. -/
theorem blit_dot {x y : Nat} (hw : fb.width < 0x80000000) (hh : fb.height < 0x80000000)
    (hx : x < fb.width) (hy : y < fb.height) (r g b : Nat) :
    framebuffer_blit fb x y (some (dot r g b)) =
      blit_pixel fb (dot r g b) (u32 (pixel_address fb x y)) 0 := by
  have hone : int32 1 = 1 := by decide
  have hspan : ∀ {d limit : Nat}, d < limit → limit < 0x80000000 →
      clip d 1 limit = ⟨0, 1, d⟩ := by
    intro d limit hd hl
    have hneg : ¬ (d : Int) < 0 := by omega
    have hin : ¬ (limit : Int) < d + 1 := by omega
    simp only [clip, int32_small hl, hone, if_neg hneg, if_neg hin]
  have hin : ¬ ((fb.width : Int) ≤ x ∨ (fb.height : Int) ≤ y) := by omega
  have hon : ¬ ((x : Int) + 1 < 0 ∨ (y : Int) + 1 < 0) := by omega
  simp only [framebuffer_blit, int32_small hw, int32_small hh, if_neg hin,
    show (dot r g b).width = 1 from rfl, show (dot r g b).height = 1 from rfl, hone, if_neg hon,
    hspan hx hw, hspan hy hh]
  simp [blit_rows, blit_row, pixel_address, u32]

theorem drawn_blit_pixel (memory : Nat → Nat) (dest_pixel src : Nat) :
    drawn memory (blit_pixel fb source dest_pixel src) =
      drawn memory (store_bytes dest_pixel (repack fb (source.pixels src))
        (pixel_bytes fb.bpp)) := rfl

theorem drawn_store_bytes_at (memory : Nat → Nat) (pixel color : Nat) {n k : Nat} (hk : k < n)
    (hn : n ≤ 4) : drawn memory (store_bytes pixel color n) (u32 (pixel + k)) = byte_of color k := by
  apply stored_at
  · intro a b c hb hc
    rw [mem_stored, mem_store_bytes] at hb hc
    obtain ⟨i, hi, he⟩ := hb
    obtain ⟨j, hj, hf⟩ := hc
    rw [access_t.store.injEq] at he hf
    have hij : i = j := by
      have hsame := he.1.symm.trans hf.1
      unfold u32 at hsame
      omega
    rw [he.2, hf.2, hij]
  · rw [mem_stored, mem_store_bytes]
    exact ⟨k, hk, rfl⟩

theorem drawn_store_bytes_other (memory : Nat → Nat) (pixel color : Nat) {n a : Nat}
    (ha : ∀ k < n, a ≠ u32 (pixel + k)) :
    drawn memory (store_bytes pixel color n) a = memory a := by
  apply stored_other
  intro b hb
  rw [mem_stored, mem_store_bytes] at hb
  obtain ⟨k, hk, he⟩ := hb
  rw [access_t.store.injEq] at he
  exact ha k hk he.1

/-- One byte stored is as good as four exactly if the other three are there already. -/
theorem one_byte_of_four (memory : Nat → Nat) (pixel color : Nat) :
    drawn memory (store_bytes pixel color 1) = drawn memory (store_bytes pixel color 4) ↔
      ∀ k, 1 ≤ k → k < 4 → memory (u32 (pixel + k)) = byte_of color k := by
  constructor
  · intro h k h1 h4
    have hk := congrFun h (u32 (pixel + k))
    rw [drawn_store_bytes_at memory pixel color h4 le_rfl, drawn_store_bytes_other] at hk
    · exact hk
    · intro j hj
      unfold u32
      omega
  · intro h
    funext a
    by_cases ha : ∃ k < 4, a = u32 (pixel + k)
    · obtain ⟨k, hk, rfl⟩ := ha
      rw [drawn_store_bytes_at memory pixel color hk le_rfl]
      cases k with
      | zero => exact drawn_store_bytes_at memory pixel color (by omega) (by omega)
      | succ k =>
        rw [drawn_store_bytes_other]
        · exact h (k + 1) (by omega) hk
        · intro j hj
          unfold u32
          omega
    · push Not at ha
      rw [drawn_store_bytes_other memory pixel color ha,
        drawn_store_bytes_other memory pixel color fun k hk => ha k (by omega)]

/-- A pixel on its own is drawn as a sprite of one pixel is, except that at a depth of 32 only its
lowest byte is stored: then the three others have to be there already. -/
theorem a_pixel_is_drawn_as_a_dot (hd : Depth fb) (hw : fb.width < 0x80000000)
    (hh : fb.height < 0x80000000) {x y : Nat} (hx : x < fb.width) (hy : y < fb.height)
    {r g b : Nat} (hr : r < 256) (hg : g < 256) (hb : b < 256) (memory : Nat → Nat) :
    drawn memory (framebuffer_put_pixel fb x y r g b) =
        drawn memory (framebuffer_blit fb x y (some (dot r g b))) ↔
      (fb.bpp = 32 → ∀ k, 1 ≤ k → k < 4 →
        memory (u32 (pixel_address fb x y + k)) = byte_of (pack fb r g b) k) := by
  have hu : ∀ k, u32 (u32 (pixel_address fb x y) + k) = u32 (pixel_address fb x y + k) := by
    intro k
    unfold u32
    omega
  rw [blit_dot hw hh hx hy, drawn_blit_pixel, repack_dot hr hg hb]
  unfold framebuffer_put_pixel
  rcases hd with h | h | h
  · simp [h, pixel_bytes, pixel_address]
  · simp [h, pixel_bytes, pixel_address]
  · have hone := one_byte_of_four memory (u32 (pixel_address fb x y)) (pack fb r g b)
    simp only [hu] at hone
    simpa [h, pixel_bytes, pixel_address] using hone

/-- A screen of one pixel at a depth of 32. -/
def onePixel : framebuffer_t := ⟨0xF8000000, 4, 1, 1, 32, 16, 8, 0⟩

/-- White on black: one path draws a blue pixel. -/
theorem a_white_pixel_comes_out_blue :
    ¬ drawn (fun _ => 0) (framebuffer_put_pixel onePixel 0 0 255 255 255) =
      drawn (fun _ => 0) (framebuffer_blit onePixel 0 0 (some (dot 255 255 255))) := by
  intro h
  have hbyte := congrFun h 0xF8000001
  have hput : drawn (fun _ => 0) (framebuffer_put_pixel onePixel 0 0 255 255 255) 0xF8000001 = 0 := by
    decide
  have hblit : drawn (fun _ => 0) (framebuffer_blit onePixel 0 0 (some (dot 255 255 255)))
      0xF8000001 = 255 := by
    decide
  rw [hput, hblit] at hbyte
  omega

/-- A dot at a depth of 24. -/
theorem a_dot_at_24 :
    drawn (fun _ => 0) (framebuffer_put_pixel smallScreen 1 1 10 20 30) =
        drawn (fun _ => 0) (framebuffer_blit smallScreen (1 : Nat) (1 : Nat) (some (dot 10 20 30))) ↔
      (smallScreen.bpp = 32 → ∀ k, 1 ≤ k → k < 4 →
        0 = byte_of (pack smallScreen 10 20 30) k) :=
  a_pixel_is_drawn_as_a_dot (Or.inr (Or.inl rfl)) (by decide) (by decide) (by decide) (by decide)
    (by decide) (by decide) (by decide) (fun _ => 0)

end alura_os.framebuffer
