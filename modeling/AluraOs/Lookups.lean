-- Bytes behind a window, and the lookup of a page in any directory
-- (`memory_paging_virtual_to_physical`). A page that is there is found and
-- nothing else happens; for a page that is not there, the lookup returns with
-- the slot that it looked through still open.
import AluraOs.AddressSpaces

namespace alura_os.memory_paging

open alura_os.memory alura_os.memory_bitmap Machine memory_paging_result_t

/-! ## The bytes of a frame -/

/-- Byte `k` of a frame with the words `w`. -/
def byteAt (w : Nat → Nat) (k : Nat) : Nat := byteOf (w (k / 4)) (k % 4)

def putByte (w : Nat → Nat) (k b : Nat) : Nat → Nat :=
  Function.update w (k / 4) (setByte (w (k / 4)) (k % 4) b)

/-- The words of a frame with the bytes from `k` on replaced. -/
def putBytes (w : Nat → Nat) (k : Nat) : List Nat → Nat → Nat
  | [] => w
  | b :: bs => putBytes (putByte w k b) (k + 1) bs

theorem byteOf_setByte (w b : Nat) {k j : Nat} (hk : k < 4) (hj : j < 4) :
    byteOf (setByte w k b) j = if j = k then b % 256 else byteOf w j := by
  unfold setByte byteOf
  interval_cases k <;> interval_cases j <;> simp <;> omega

theorem byteAt_putByte (w : Nat → Nat) (k b j : Nat) :
    byteAt (putByte w k b) j = if j = k then b % 256 else byteAt w j := by
  unfold byteAt putByte
  by_cases hw : j / 4 = k / 4
  · rw [hw, Function.update_self, byteOf_setByte _ _ (by omega) (by omega)]
    by_cases hj : j = k
    · simp [hj]
    · rw [if_neg (by omega), if_neg hj]
  · rw [Function.update_of_ne hw, if_neg (by rintro rfl; exact hw rfl)]

/-- The bytes that were put there read back, the others stay. -/
theorem byteAt_putBytes (w : Nat → Nat) (bytes : List Nat) (k j : Nat) :
    byteAt (putBytes w k bytes) j =
      if k ≤ j ∧ j < k + bytes.length then bytes.getD (j - k) 0 % 256 else byteAt w j := by
  induction bytes generalizing w k with
  | nil =>
    unfold putBytes
    rw [if_neg (by simp)]
  | cons b bs ih =>
    unfold putBytes
    rw [ih, byteAt_putByte, List.length_cons]
    rcases Nat.lt_trichotomy j k with hlt | rfl | hgt
    · rw [if_neg (by omega), if_neg (by omega), if_neg (by omega)]
    · simp
    · obtain ⟨d, rfl⟩ : ∃ d, j = k + 1 + d := ⟨j - (k + 1), by omega⟩
      rw [show k + 1 + d - (k + 1) = d by omega, show k + 1 + d - k = d + 1 by omega,
        List.getD_cons_succ, if_neg (by omega : ¬ k + 1 + d = k)]
      by_cases hd : d < bs.length
      · rw [if_pos (by omega), if_pos (by omega)]
      · rw [if_neg (by omega), if_neg (by omega)]

theorem byte_walk {v k : Nat} (hv : v % 4096 = 0) (hk : k < 4096) :
    page_directory_index (v + k) = page_directory_index v ∧
      page_table_index (v + k) = page_table_index v ∧ (v + k) % 4096 / 4 = k / 4 ∧
      (v + k) % 4 = k % 4 := by
  unfold page_directory_index page_table_index
  omega

theorem translate_byte {m : Machine} {v t f k : Nat} (h : Via m v t f) (hv : v % 4096 = 0)
    (hk : k < 4096) : m.translate (v + k) = some f := by
  obtain ⟨hd, ht, -, -⟩ := byte_walk hv hk
  unfold Machine.translate
  simp only [hd, ht, h.table, h.frame, h.pde_present, h.pte_present, and_self, if_true]

theorem store8_via {m : Machine} {v t f k : Nat} (b : Nat) (h : Via m v t f) (hv : v % 4096 = 0)
    (hk : k < 4096) : m.store8 (v + k) b = some (m.setFrame f (putByte (m.frames f) k b)) := by
  obtain ⟨-, -, hi, hb⟩ := byte_walk hv hk
  unfold store8
  rw [translate_byte h hv hk, Option.map_some, hi, hb]
  rfl

theorem load8_via {m : Machine} {v t f k : Nat} (h : Via m v t f) (hv : v % 4096 = 0)
    (hk : k < 4096) : m.load8 (v + k) = some (byteAt (m.frames f) k) := by
  obtain ⟨-, -, hi, hb⟩ := byte_walk hv hk
  unfold load8
  rw [translate_byte h hv hk, Option.map_some, hi, hb]
  rfl

/-- A copy to one page changes the bytes of its frame. -/
theorem memcpy_to_via {m : Machine} {v t f : Nat} (h : Via m v t f) (hv : v % 4096 = 0)
    (hlt : v + 4096 < 0x100000000) (hd : f ≠ m.dir) (ht : f ≠ t) (bytes : List Nat) (k : Nat)
    (hk : k + bytes.length ≤ 4096) :
    memcpy_to m (v + k) bytes = some (m.setFrame f (putBytes (m.frames f) k bytes)) := by
  induction bytes generalizing m k with
  | nil =>
    unfold memcpy_to putBytes
    rw [setFrame_self]
  | cons b bs ih =>
    rw [List.length_cons] at hk
    have hnext : u32 (v + k + 1) = v + (k + 1) := by
      rw [u32_of_lt (by omega)]
      omega
    have hrest := ih (via_setFrame h (w := putByte (m.frames f) k b) hd ht) hd (k + 1) (by omega)
    rw [setFrame_setFrame, setFrame_apply, if_pos rfl] at hrest
    unfold memcpy_to putBytes
    rw [store8_via b h hv (by omega), hnext]
    exact hrest

theorem memcpy_from_via {m : Machine} {v t f : Nat} (h : Via m v t f) (hv : v % 4096 = 0)
    (hlt : v + 4096 < 0x100000000) (n k : Nat) (hk : k + n ≤ 4096) :
    memcpy_from m (v + k) n = some ((List.range' k n).map (byteAt (m.frames f))) := by
  induction n generalizing k with
  | zero => rfl
  | succ n ih =>
    have hnext : u32 (v + k + 1) = v + (k + 1) := by
      rw [u32_of_lt (by omega)]
      omega
    unfold memcpy_from
    rw [load8_via h hv (by omega), hnext, ih (k + 1) (by omega)]
    rfl

/-! ## Bytes through a slot -/

theorem slotAddr_lt {i : Nat} (hi : i < 16) : slotAddr i + 4096 < 0x100000000 := by
  unfold slotAddr KERNEL_BOUNCE_PAGE_START PAGE_SIZE
  omega

theorem u32_slot {i k : Nat} (hi : i < 16) (hk : k < 4096) : u32 (slotAddr i + k) = slotAddr i + k :=
  u32_of_lt (by have := slotAddr_lt hi; omega)

/-- Opening a slot on a frame, copying bytes there and closing it changes the frame. -/
theorem bytes_through_slot {m : Machine} (h : Windows m) {i : Nat}
    (hi : bounce_free_slot m = some i) {g k : Nat} (bytes : List Nat)
    (hk : k < 4096) (hlen : k + bytes.length ≤ 4096) (hg : g ≠ m.bounceTable) (hgd : g ≠ m.dir) :
    ∃ m1, memcpy_to (m.openSlot i g) (u32 (slotAddr i + k)) bytes = some m1 ∧
      bounce_free m1 (slotAddr i) = some (m.setFrame g (putBytes (m.frames g) k bytes)) := by
  obtain ⟨hi16, hu⟩ := free_slot_spec hi
  obtain ⟨hal, -⟩ := slotAddr_facts hi16
  rw [u32_slot hi16 hk]
  refine ⟨_, memcpy_to_via (via_slot h hi16 g) hal (slotAddr_lt hi16) hgd hg bytes k hlen, ?_⟩
  rw [free_after_write h hi _ hg hgd, openSlot_frames_ne hg]

/-- Reading bytes through a slot leaves nothing behind. -/
theorem read_through_slot {m : Machine} (h : Windows m) {i : Nat}
    (hi : bounce_free_slot m = some i) {g k n : Nat} (hk : k < 4096) (hlen : k + n ≤ 4096) :
    ∃ bytes, memcpy_from (m.openSlot i g) (u32 (slotAddr i + k)) n = some bytes ∧
      bytes.length = n ∧
      (g ≠ m.bounceTable → bytes = (List.range' k n).map (byteAt (m.frames g))) ∧
      bounce_free (m.openSlot i g) (slotAddr i) = some m := by
  obtain ⟨hi16, hu⟩ := free_slot_spec hi
  obtain ⟨hal, -⟩ := slotAddr_facts hi16
  rw [u32_slot hi16 hk]
  refine ⟨_, memcpy_from_via (via_slot h hi16 g) hal (slotAddr_lt hi16) n k hlen, ?_, ?_, ?_⟩
  · simp
  · intro hg
    rw [openSlot_frames_ne hg]
  · rw [bounce_free_spec (windows_openSlot h i g) hi16, close_open h hi16 hu g]

/-! ## The lookup of a page -/

/-- A present word of any frame looks the same with one more slot open. -/
theorem openSlot_present {m : Machine} (h : Windows m) {i : Nat}
    (hi : bounce_free_slot m = some i) (f : Nat) {g j : Nat} (hp : present (m.frames g j) = true) :
    (m.openSlot i f).frames g j = m.frames g j := by
  obtain ⟨hi16, hu⟩ := free_slot_spec hi
  unfold openSlot
  rw [setBounce_frames, setWord_apply]
  split
  · rename_i hc
    rw [hc.1, hc.2, h.closed i hi16 hu] at hp
    cases hp
  · rfl

theorem load_slot {m : Machine} (h : Windows m) {i : Nat} (hi : i < 16) (f : Nat) {j : Nat}
    (hj : j < 1024) :
    (m.openSlot i f).load32 (at32 (slotAddr i) j) = some ((m.openSlot i f).frames f j) :=
  load_via (via_slot h hi f) (slotAddr_facts hi).1 (slotAddr_facts hi).2.1 hj

theorem frameOf_align (a : Nat) : frameOf (ALIGN_DOWN a) = frameOf a := by
  rw [align_frame]
  unfold frameOf
  omega

/-- A page that is there is found, and the lookup leaves nothing behind. -/
theorem virtual_to_physical_found {m : Machine} (h : Windows m)
    (hs : 0 < (freeSlots m).card) {phys v x : Nat} (hx : m.entry (frameOf phys) v = some x) :
    memory_paging_virtual_to_physical m phys v = some (m, ALIGN_DOWN x + v % 4096) := by
  obtain ⟨i, hi⟩ := free_slot_of_card hs
  obtain ⟨hi16, hu⟩ := free_slot_spec hi
  obtain ⟨hpde, hpte, hval⟩ := entry_eq_some.mp hx
  have hpd : page_directory_index v < 1024 := Nat.mod_lt _ (by decide)
  have hpt : page_table_index v < 1024 := Nat.mod_lt _ (by decide)
  have hfree : ∀ f, bounce_free (m.openSlot i f) (slotAddr i) = some m := by
    intro f
    rw [bounce_free_spec (windows_openSlot h i f) hi16, close_open h hi16 hu f]
  have hpx : present x = true := hval ▸ hpte
  unfold memory_paging_virtual_to_physical
  simp only [Option.bind_eq_bind, Option.bind_some, bounce_alloc_spec h hi, load_slot h hi16 _ hpd,
    load_slot h hi16 _ hpt, openSlot_present h hi _ hpde, hpde, frameOf_align,
    openSlot_present h hi _ hpte, hpx, hval, hfree]
  rfl

/-- For a page that is not there the lookup returns 0, with a slot open. The directory is no
bounce table, and the address is no bounce page. -/
theorem virtual_to_physical_absent {m : Machine} (h : Windows m) {i : Nat}
    (hi : bounce_free_slot m = some i) {phys v : Nat} (hx : m.entry (frameOf phys) v = none)
    (hP : frameOf phys ≠ m.bounceTable)
    (hT : frameOf (m.frames (frameOf phys) (page_directory_index v)) = m.bounceTable →
      page_table_index v < 768 ∨ 784 ≤ page_table_index v) :
    ∃ f, memory_paging_virtual_to_physical m phys v = some (m.openSlot i f, 0) := by
  obtain ⟨hi16, hu⟩ := free_slot_spec hi
  have hpd : page_directory_index v < 1024 := Nat.mod_lt _ (by decide)
  have hpt : page_table_index v < 1024 := Nat.mod_lt _ (by decide)
  have hfree : ∀ f, bounce_free (m.openSlot i f) (slotAddr i) = some m := by
    intro f
    rw [bounce_free_spec (windows_openSlot h i f) hi16, close_open h hi16 hu f]
  unfold memory_paging_virtual_to_physical
  simp only [Option.bind_eq_bind, Option.bind_some, bounce_alloc_spec h hi, load_slot h hi16 _ hpd]
  rw [openSlot_frames_ne hP]
  cases hpde : present (m.frames (frameOf phys) (page_directory_index v)) with
  | false => exact ⟨frameOf phys, rfl⟩
  | true =>
    have hpte : present (m.frames (frameOf (m.frames (frameOf phys) (page_directory_index v)))
        (page_table_index v)) = false := by
      cases hc : present (m.frames (frameOf (m.frames (frameOf phys) (page_directory_index v)))
          (page_table_index v)) with
      | false => rfl
      | true =>
        rw [entry_eq_some.mpr ⟨hpde, hc, rfl⟩] at hx
        cases hx
    refine ⟨frameOf (m.frames (frameOf phys) (page_directory_index v)), ?_⟩
    simp only [Bool.not_true, Bool.false_eq_true, if_false, hfree, Option.bind_some,
      bounce_alloc_spec h hi, frameOf_align, load_slot h hi16 _ hpt]
    have hsame : (m.openSlot i (frameOf (m.frames (frameOf phys) (page_directory_index v)))).frames
        (frameOf (m.frames (frameOf phys) (page_directory_index v))) (page_table_index v) =
        m.frames (frameOf (m.frames (frameOf phys) (page_directory_index v)))
          (page_table_index v) := by
      unfold openSlot
      rw [setBounce_frames, setWord_apply, if_neg]
      rintro ⟨ht, hslot⟩
      rcases hT ht with hlt | hge
      · omega
      · omega
    rw [hsame, hpte]
    rfl

/-- So a lookup returns every slot if and only if the page is there. -/
theorem virtual_to_physical_balanced {m : Machine} (h : Windows m) (hs : 0 < (freeSlots m).card)
    {phys v : Nat} (hP : frameOf phys ≠ m.bounceTable)
    (hT : frameOf (m.frames (frameOf phys) (page_directory_index v)) = m.bounceTable →
      page_table_index v < 768 ∨ 784 ≤ page_table_index v) :
    ∃ m' physical, memory_paging_virtual_to_physical m phys v = some (m', physical) ∧
      (m'.bounce_pages_used = m.bounce_pages_used ↔ (m.entry (frameOf phys) v).isSome) := by
  cases hx : m.entry (frameOf phys) v with
  | some x =>
    refine ⟨_, _, virtual_to_physical_found h hs hx, ?_⟩
    simp
  | none =>
    obtain ⟨i, hi⟩ := free_slot_of_card hs
    obtain ⟨f, hf⟩ := virtual_to_physical_absent h hi hx hP hT
    refine ⟨_, _, hf, ?_⟩
    have hne : (m.openSlot i f).bounce_pages_used ≠ m.bounce_pages_used := by
      intro he
      have := congrFun he i
      rw [openSlot_used, Function.update_self, (free_slot_spec hi).2] at this
      cases this
    simp [hne]

end alura_os.memory_paging
