-- What a write through a window does. While the recursive entry and the bounce
-- table of the current directory are in order, opening a window, writing
-- through it and closing it leaves no trace but the write itself, so that every
-- operation on page tables comes down to an operation on frames.
import AluraOs.MemoryPaging

namespace alura_os.memory_paging

open alura_os.memory alura_os.memory_bitmap Machine memory_paging_result_t

/-! ## Page entries -/

theorem present_eq (e : Nat) : present e = e.testBit 0 := by
  unfold present PAGE_PRESENT
  rw [Nat.and_one_is_mod, Nat.testBit_zero]
  rcases Nat.mod_two_eq_zero_or_one e with h | h <;> simp [h]

@[simp] theorem present_or (a b : Nat) : present (a ||| b) = (present a || present b) := by
  simp only [present_eq, Nat.testBit_or]

@[simp] theorem present_zero : present 0 = false := rfl

@[simp] theorem present_one : present 1 = true := rfl

theorem frameOf_or (a : Nat) {b : Nat} (hb : b < 4096) : frameOf (a ||| b) = frameOf a := by
  have h : b / 4096 = 0 := by omega
  unfold frameOf
  have := Nat.shiftRight_or_distrib (a := a) (b := b) (i := 12)
  simp only [Nat.shiftRight_eq_div_pow] at this
  norm_num at this
  rw [this, h, Nat.or_zero]

/-- The entry that shows frame `f` with some flags. -/
theorem frameOf_entry (f : Nat) {flags : Nat} (h : flags < 4096) :
    frameOf (f * 4096 ||| flags ||| PAGE_PRESENT) = f := by
  rw [frameOf_or _ (by decide), frameOf_or _ h]
  unfold frameOf
  omega

@[simp] theorem present_entry (a flags : Nat) : present (a ||| flags ||| PAGE_PRESENT) = true := by
  simp [PAGE_PRESENT]

theorem align_frame (a : Nat) : ALIGN_DOWN a = frameOf a * 4096 := rfl

/-! ## Reads of a changed machine -/

section fields

variable (m : Machine) (f : Nat) (g : Nat → Nat) (b : memory_bitmap_t) (i : Nat) (u : Bool)

@[simp] theorem setFrame_frames : (m.setFrame f g).frames = Function.update m.frames f g := rfl
@[simp] theorem setFrame_cr3 : (m.setFrame f g).cr3 = m.cr3 := rfl
@[simp] theorem setFrame_dir : (m.setFrame f g).dir = m.dir := rfl
@[simp] theorem setFrame_bitmap : (m.setFrame f g).memory_bitmap = m.memory_bitmap := rfl
@[simp] theorem setFrame_used : (m.setFrame f g).bounce_pages_used = m.bounce_pages_used := rfl
@[simp] theorem setFrame_kernel :
    (m.setFrame f g).kernel_page_directory_phys = m.kernel_page_directory_phys := rfl

@[simp] theorem setBitmap_frames : (m.setBitmap b).frames = m.frames := rfl
@[simp] theorem setBitmap_cr3 : (m.setBitmap b).cr3 = m.cr3 := rfl
@[simp] theorem setBitmap_dir : (m.setBitmap b).dir = m.dir := rfl
@[simp] theorem setBitmap_bitmap : (m.setBitmap b).memory_bitmap = b := rfl
@[simp] theorem setBitmap_used : (m.setBitmap b).bounce_pages_used = m.bounce_pages_used := rfl
@[simp] theorem setBitmap_kernel :
    (m.setBitmap b).kernel_page_directory_phys = m.kernel_page_directory_phys := rfl

@[simp] theorem setBounce_frames : (m.setBounce i u).frames = m.frames := rfl
@[simp] theorem setBounce_cr3 : (m.setBounce i u).cr3 = m.cr3 := rfl
@[simp] theorem setBounce_dir : (m.setBounce i u).dir = m.dir := rfl
@[simp] theorem setBounce_bitmap : (m.setBounce i u).memory_bitmap = m.memory_bitmap := rfl
@[simp] theorem setBounce_used :
    (m.setBounce i u).bounce_pages_used = Function.update m.bounce_pages_used i u := rfl
@[simp] theorem setBounce_kernel :
    (m.setBounce i u).kernel_page_directory_phys = m.kernel_page_directory_phys := rfl

end fields

theorem setFrame_apply (m : Machine) (f g : Nat) (w : Nat → Nat) :
    (m.setFrame f w).frames g = if g = f then w else m.frames g := by
  simp [Function.update_apply]

theorem setWord_apply (m : Machine) (f i x g j : Nat) :
    (m.setWord f i x).frames g j = if g = f ∧ j = i then x else m.frames g j := by
  unfold setWord
  by_cases hg : g = f
  · subst hg
    by_cases hj : j = i
    · subst hj; simp
    · simp [hj]
  · simp [hg]

/-! ## Walks -/

/-- The walk from `v` reads the table frame `t` and ends at the frame `f`. -/
structure Via (m : Machine) (v t f : Nat) : Prop where
  pde_present : present (m.frames m.dir (page_directory_index v)) = true
  table : frameOf (m.frames m.dir (page_directory_index v)) = t
  pte_present : present (m.frames t (page_table_index v)) = true
  frame : frameOf (m.frames t (page_table_index v)) = f

theorem at32_walk {v i : Nat} (hv : v % 4096 = 0) (hlt : v < 0x100000000) (hi : i < 1024) :
    at32 v i = v + 4 * i ∧ page_directory_index (v + 4 * i) = page_directory_index v ∧
      page_table_index (v + 4 * i) = page_table_index v ∧ (v + 4 * i) % 4096 / 4 = i := by
  have h : v + 4 * i < 0x100000000 := by omega
  refine ⟨u32_of_lt h, ?_, ?_, ?_⟩
  · unfold page_directory_index; omega
  · unfold page_table_index; omega
  · omega

theorem translate_via {m : Machine} {v t f i : Nat} (h : Via m v t f) (hv : v % 4096 = 0)
    (hlt : v < 0x100000000) (hi : i < 1024) : m.translate (at32 v i) = some f := by
  obtain ⟨ha, hd, ht, -⟩ := at32_walk hv hlt hi
  unfold Machine.translate
  simp only [ha, hd, ht, h.table, h.frame, h.pde_present, h.pte_present, and_self, if_true]

theorem load_via {m : Machine} {v t f i : Nat} (h : Via m v t f) (hv : v % 4096 = 0)
    (hlt : v < 0x100000000) (hi : i < 1024) : m.load32 (at32 v i) = some (m.frames f i) := by
  unfold load32
  rw [translate_via h hv hlt hi, (at32_walk hv hlt hi).1, Option.map_some,
    (at32_walk hv hlt hi).2.2.2]

theorem store_via {m : Machine} {v t f i : Nat} (x : Nat) (h : Via m v t f) (hv : v % 4096 = 0)
    (hlt : v < 0x100000000) (hi : i < 1024) : m.store32 (at32 v i) x = some (m.setWord f i x) := by
  unfold store32
  rw [translate_via h hv hlt hi, (at32_walk hv hlt hi).1, Option.map_some,
    (at32_walk hv hlt hi).2.2.2]

/-- A walk outlasts a change of frames that it does not read. -/
theorem via_setFrame {m : Machine} {v t f g : Nat} {w : Nat → Nat} (h : Via m v t f)
    (hd : g ≠ m.dir) (ht : g ≠ t) : Via (m.setFrame g w) v t f := by
  obtain ⟨h1, h2, h3, h4⟩ := h
  constructor <;> simp [setFrame_dir, setFrame_apply, hd.symm, ht.symm, h1, h2, h3, h4]

/-- A walk outlasts a change of one entry that keeps what the walk reads of it. -/
theorem via_setWord {m : Machine} {v t f g i x : Nat} (h : Via m v t f)
    (hd : g = m.dir → i = page_directory_index v → present x = true ∧ frameOf x = t)
    (ht : g = t → i = page_table_index v → present x = true ∧ frameOf x = f) :
    Via (m.setWord g i x) v t f := by
  obtain ⟨h1, h2, h3, h4⟩ := h
  have hdir : (m.setWord g i x).dir = m.dir := rfl
  have hpde : present ((m.setWord g i x).frames m.dir (page_directory_index v)) = true ∧
      frameOf ((m.setWord g i x).frames m.dir (page_directory_index v)) = t := by
    rw [setWord_apply]
    split
    · rename_i hc; exact hd hc.1.symm hc.2.symm
    · exact ⟨h1, h2⟩
  have hpte : present ((m.setWord g i x).frames t (page_table_index v)) = true ∧
      frameOf ((m.setWord g i x).frames t (page_table_index v)) = f := by
    rw [setWord_apply]
    split
    · rename_i hc; exact ht hc.1.symm hc.2.symm
    · exact ⟨h3, h4⟩
  exact ⟨by rw [hdir]; exact hpde.1, by rw [hdir]; exact hpde.2, hpte.1, hpte.2⟩

theorem via_setBitmap {m : Machine} {v t f : Nat} (b : memory_bitmap_t) (h : Via m v t f) :
    Via (m.setBitmap b) v t f := ⟨h.1, h.2, h.3, h.4⟩

theorem via_setBounce {m : Machine} {v t f : Nat} (i : Nat) (u : Bool) (h : Via m v t f) :
    Via (m.setBounce i u) v t f := ⟨h.1, h.2, h.3, h.4⟩

/-! ## Loops over the words of one frame -/

theorem setFrame_setFrame (m : Machine) (f : Nat) (g w : Nat → Nat) :
    (m.setFrame f g).setFrame f w = m.setFrame f w := by
  unfold setFrame
  simp

theorem setFrame_self (m : Machine) (f : Nat) : m.setFrame f (m.frames f) = m := by
  unfold setFrame
  simp

/-- A loop whose turn `i` writes `x i` to word `i` of frame `f`. -/
theorem fold_words {m : Machine} {body : Machine → Nat → Option Machine} {f : Nat} {x : Nat → Nat}
    (hbody : ∀ g i, i < 1024 →
      body (m.setFrame f g) i = some ((m.setFrame f g).setWord f i (x i)))
    (k n : Nat) (hn : k + n ≤ 1024) (g : Nat → Nat) :
    (List.range' k n).foldlM body (m.setFrame f g) =
      some (m.setFrame f fun i => if k ≤ i ∧ i < k + n then x i else g i) := by
  induction n generalizing k g with
  | zero =>
    simp only [List.range'_zero, List.foldlM_nil, Option.pure_def, Nat.add_zero, Option.some.injEq]
    congr 1
    funext i
    rw [if_neg (by omega)]
  | succ n ih =>
    simp only [List.range'_succ, List.foldlM_cons, hbody g k (by omega), setWord,
      setFrame_setFrame, Option.bind_eq_bind, Option.bind_some]
    rw [ih (k + 1) (by omega)]
    congr 2
    funext i
    by_cases hi : i = k
    · subst hi
      simp
    · simp only [setFrame_apply, if_true, Function.update_of_ne hi]
      by_cases h : k ≤ i ∧ i < k + (n + 1)
      · rw [if_pos h, if_pos (by omega)]
      · rw [if_neg h, if_neg (by omega)]

/-- The words of a page replaced by `x`. -/
def page (x g : Nat → Nat) : Nat → Nat := fun i => if i < 1024 then x i else g i

theorem fold_page {m : Machine} {body : Machine → Nat → Option Machine} {f : Nat} {x : Nat → Nat}
    (hbody : ∀ g i, i < 1024 →
      body (m.setFrame f g) i = some ((m.setFrame f g).setWord f i (x i))) :
    (List.range 1024).foldlM body m = some (m.setFrame f (page x (m.frames f))) := by
  have h := fold_words hbody 0 1024 (by omega) (m.frames f)
  rw [setFrame_self] at h
  rw [List.range_eq_range', h]
  unfold page
  simp

theorem reset_entry_via {m : Machine} {v t f : Nat} (h : Via m v t f) (hv : v % 4096 = 0)
    (hlt : v < 0x100000000) (hd : f ≠ m.dir) (ht : f ≠ t) :
    memory_paging_reset_entry m v = some (m.setFrame f (page (fun _ => 0) (m.frames f))) := by
  have hbody : ∀ g i, i < 1024 → (m.setFrame f g).store32 (at32 v i) 0 =
      some ((m.setFrame f g).setWord f i 0) := by
    intro g i hi
    exact store_via 0 (via_setFrame h hd ht) hv hlt hi
  exact fold_page hbody

theorem memcpy_page_via {m : Machine} {dst td fd src ts fs : Nat} (hdst : Via m dst td fd)
    (hsrc : Via m src ts fs) (hd0 : dst % 4096 = 0) (hd1 : dst < 0x100000000)
    (hs0 : src % 4096 = 0) (hs1 : src < 0x100000000) (hfd : fd ≠ m.dir) (hft : fd ≠ td)
    (hfs : fd ≠ ts) (hne : fd ≠ fs) :
    memcpy_page m dst src = some (m.setFrame fd (page (m.frames fs) (m.frames fd))) := by
  have hbody : ∀ g i, i < 1024 →
      (do (m.setFrame fd g).store32 (at32 dst i) (← (m.setFrame fd g).load32 (at32 src i))) =
        some ((m.setFrame fd g).setWord fd i (m.frames fs i)) := by
    intro g i hi
    rw [load_via (via_setFrame hsrc hfd hfs) hs0 hs1 hi]
    simp only [setFrame_apply, hne.symm, if_false]
    exact store_via _ (via_setFrame hdst hfd hft) hd0 hd1 hi
  exact fold_page hbody

/-! ## The windows of the current directory -/

namespace Machine

/-- The table of the bounce pages, as the current directory has it. -/
def bounceTable (m : Machine) : Nat := frameOf (m.frames m.dir 1022)

/-- Slot `i` shows the frame `f`. -/
def openSlot (m : Machine) (i f : Nat) : Machine :=
  (m.setWord m.bounceTable (768 + i) (f * 4096 ||| PAGE_READ_WRITE ||| PAGE_PRESENT)).setBounce
    i true

def closeSlot (m : Machine) (i : Nat) : Machine :=
  (m.setWord m.bounceTable (768 + i) 0).setBounce i false

end Machine

/-- The address of bounce page `i`. -/
def slotAddr (i : Nat) : Nat := KERNEL_BOUNCE_PAGE_START + i * PAGE_SIZE

/-- The windows are in order: entry 1023 shows the directory itself, entry 1022 is
the table of the bounce pages, and a slot that is not used shows nothing. -/
structure Windows (m : Machine) : Prop where
  self_present : present (m.frames m.dir 1023) = true
  self : frameOf (m.frames m.dir 1023) = m.dir
  bounce_present : present (m.frames m.dir 1022) = true
  apart : m.bounceTable ≠ m.dir
  closed : ∀ i, i < 16 → m.bounce_pages_used i = false → m.frames m.bounceTable (768 + i) = 0

theorem via_directory {m : Machine} (h : Windows m) : Via m PAGE_DIRECTORY_VADDR m.dir m.dir :=
  ⟨h.self_present, h.self, h.self_present, h.self⟩

theorem via_table {m : Machine} (h : Windows m) (pd : Nat) (hpd : pd < 1024)
    (hp : present (m.frames m.dir pd) = true) :
    Via m (PAGE_TABLE_VADDR pd) m.dir (frameOf (m.frames m.dir pd)) := by
  have h1 : page_directory_index (PAGE_TABLE_VADDR pd) = 1023 := by
    unfold page_directory_index PAGE_TABLE_VADDR; omega
  have h2 : page_table_index (PAGE_TABLE_VADDR pd) = pd := by
    unfold page_table_index PAGE_TABLE_VADDR; omega
  constructor
  · rw [h1]; exact h.self_present
  · rw [h1]; exact h.self
  · rw [h2]; exact hp
  · rw [h2]

theorem slotAddr_facts {i : Nat} (hi : i < 16) :
    slotAddr i % 4096 = 0 ∧ slotAddr i < 0x100000000 ∧ page_directory_index (slotAddr i) = 1022 ∧
      page_table_index (slotAddr i) = 768 + i ∧ 0 < slotAddr i := by
  unfold slotAddr KERNEL_BOUNCE_PAGE_START PAGE_SIZE page_directory_index page_table_index
  omega

theorem free_slot_spec {m : Machine} {i : Nat} (h : bounce_free_slot m = some i) :
    i < 16 ∧ m.bounce_pages_used i = false := by
  unfold bounce_free_slot KERNEL_BOUNCE_PAGE_SIZE at h
  have h1 := List.find?_some h
  have h2 := List.mem_of_find?_eq_some h
  simp only [List.mem_range] at h2
  exact ⟨h2, by simpa using h1⟩

/-- The slots that a `bounce_alloc` can still give. -/
def freeSlots (m : Machine) : Finset Nat :=
  (Finset.range 16).filter fun i => m.bounce_pages_used i = false

theorem mem_freeSlots {m : Machine} {i : Nat} :
    i ∈ freeSlots m ↔ i < 16 ∧ m.bounce_pages_used i = false := by
  simp [freeSlots]

theorem openSlot_used (m : Machine) (i f : Nat) :
    (m.openSlot i f).bounce_pages_used = Function.update m.bounce_pages_used i true := rfl

theorem free_slot_of_card {m : Machine} (h : 0 < (freeSlots m).card) :
    ∃ i, bounce_free_slot m = some i := by
  obtain ⟨i, hi⟩ := Finset.card_pos.mp h
  rw [mem_freeSlots] at hi
  cases hf : bounce_free_slot m with
  | some j => exact ⟨j, rfl⟩
  | none =>
    unfold bounce_free_slot KERNEL_BOUNCE_PAGE_SIZE at hf
    have := List.find?_eq_none.mp hf i (List.mem_range.mpr hi.1)
    simp [hi.2] at this

theorem freeSlots_openSlot {m : Machine} {i : Nat} (hi : bounce_free_slot m = some i) (f : Nat) :
    (freeSlots (m.openSlot i f)).card + 1 = (freeSlots m).card := by
  obtain ⟨hlt, hu⟩ := free_slot_spec hi
  have hmem : i ∈ freeSlots m := mem_freeSlots.mpr ⟨hlt, hu⟩
  have hset : freeSlots (m.openSlot i f) = (freeSlots m).erase i := by
    ext j
    simp only [Finset.mem_erase, mem_freeSlots, openSlot_used]
    by_cases hj : j = i
    · subst hj; simp
    · simp [hj]
  rw [hset]
  exact Finset.card_erase_add_one hmem

theorem table_page_facts {pd : Nat} (hpd : pd < 1024) :
    PAGE_TABLE_VADDR pd % 4096 = 0 ∧ PAGE_TABLE_VADDR pd < 0x100000000 := by
  unfold PAGE_TABLE_VADDR
  omega

theorem map_current_slot {m : Machine} (h : Windows m) {i : Nat} (hi : i < 16) (phys : Nat) :
    memory_paging_map_current m phys (slotAddr i) PAGE_READ_WRITE =
      some (m.setWord m.bounceTable (768 + i)
        (frameOf phys * 4096 ||| PAGE_READ_WRITE ||| PAGE_PRESENT), MEMORY_PAGING_RESULT_OK) := by
  obtain ⟨-, -, hpd, hpt, -⟩ := slotAddr_facts hi
  have hload : m.load32 (at32 PAGE_DIRECTORY_VADDR 1022) = some (m.frames m.dir 1022) :=
    load_via (via_directory h) (by decide) (by decide) (by decide)
  have hstore := store_via (frameOf phys * 4096 ||| PAGE_READ_WRITE ||| PAGE_PRESENT)
    (via_table h 1022 (by decide) h.bounce_present) (by decide) (by decide)
    (show 768 + i < 1024 by omega)
  have huser : memory_paging_set_user m (at32 PAGE_DIRECTORY_VADDR 1022) PAGE_READ_WRITE =
      some m := if_neg (by decide)
  unfold memory_paging_map_current memory_paging_map_current_entry
  simp only [hpd, hpt, hload, huser, h.bounce_present, align_frame, Option.bind_eq_bind,
    Option.bind_some, if_true]
  rw [hstore]
  rfl

theorem bounce_alloc_spec {m : Machine} (h : Windows m) {i : Nat}
    (hi : bounce_free_slot m = some i) (phys : Nat) :
    bounce_alloc m phys = some (m.openSlot i (frameOf phys), slotAddr i) := by
  unfold bounce_alloc
  rw [hi]
  have := map_current_slot h (free_slot_spec hi).1 phys
  unfold slotAddr at this
  simp only [this, Option.bind_eq_bind, Option.bind_some, if_true]
  rfl

theorem bounce_free_spec {m : Machine} (h : Windows m) {i : Nat} (hi : i < 16) :
    bounce_free m (slotAddr i) = some (m.closeSlot i) := by
  obtain ⟨-, -, hpd, hpt, -⟩ := slotAddr_facts hi
  have hidx : (slotAddr i - KERNEL_BOUNCE_PAGE_START) / PAGE_SIZE = i := by
    unfold slotAddr PAGE_SIZE; omega
  have hlt : ¬ slotAddr i < KERNEL_BOUNCE_PAGE_START := by unfold slotAddr; omega
  have hsize : ¬ KERNEL_BOUNCE_PAGE_SIZE ≤ i := by unfold KERNEL_BOUNCE_PAGE_SIZE; omega
  have hload : m.load32 (at32 PAGE_DIRECTORY_VADDR 1022) = some (m.frames m.dir 1022) :=
    load_via (via_directory h) (by decide) (by decide) (by decide)
  have hstore := store_via 0 (via_table h 1022 (by decide) h.bounce_present) (by decide)
    (by decide) (show 768 + i < 1024 by omega)
  unfold bounce_free memory_paging_unmap_current
  simp only [hidx, hlt, hsize, hpd, hpt, hload, h.bounce_present, Option.bind_eq_bind,
    Option.bind_some, if_false, if_true]
  rw [hstore]
  rfl

/-! ## Opening and closing -/

theorem openSlot_dir (m : Machine) (i f : Nat) : (m.openSlot i f).dir = m.dir := rfl

theorem openSlot_frames_ne {m : Machine} {i f g : Nat} (hg : g ≠ m.bounceTable) :
    (m.openSlot i f).frames g = m.frames g := by
  unfold openSlot setWord
  simp [hg]

theorem openSlot_bounceTable {m : Machine} (h : Windows m) (i f : Nat) :
    (m.openSlot i f).bounceTable = m.bounceTable := by
  unfold bounceTable
  rw [openSlot_dir, openSlot_frames_ne h.apart.symm]

theorem windows_openSlot {m : Machine} (h : Windows m) (i f : Nat) :
    Windows (m.openSlot i f) := by
  have hd := openSlot_frames_ne (m := m) (i := i) (f := f) h.apart.symm
  constructor
  · rw [openSlot_dir, hd]; exact h.self_present
  · rw [openSlot_dir, hd]; exact h.self
  · rw [openSlot_dir, hd]; exact h.bounce_present
  · rw [openSlot_bounceTable h, openSlot_dir]; exact h.apart
  · intro j hj hu
    have hji : j ≠ i := by
      rintro rfl
      simp [openSlot] at hu
    rw [openSlot_bounceTable h]
    unfold openSlot
    rw [setBounce_frames, setWord_apply, if_neg (by omega)]
    apply h.closed j hj
    simpa [openSlot, setWord, hji] using hu

theorem via_slot {m : Machine} (h : Windows m) {i : Nat} (hi : i < 16) (f : Nat) :
    Via (m.openSlot i f) (slotAddr i) m.bounceTable f := by
  obtain ⟨-, -, hpd, hpt, -⟩ := slotAddr_facts hi
  have hpte : (m.openSlot i f).frames m.bounceTable (768 + i) =
      (f * 4096 ||| PAGE_READ_WRITE ||| PAGE_PRESENT) := by
    unfold openSlot
    rw [setBounce_frames, setWord_apply, if_pos ⟨rfl, rfl⟩]
  constructor
  · rw [hpd]; exact (windows_openSlot h i f).bounce_present
  · rw [hpd]; exact openSlot_bounceTable h i f
  · rw [hpt, hpte]; exact present_entry _ _
  · rw [hpt, hpte]; exact frameOf_entry f (by decide)

/-- A walk that does not go through the slot outlasts its opening. -/
theorem via_openSlot {m : Machine} (h : Windows m) {v t f i : Nat} (g : Nat) (hv : Via m v t f)
    (ht : t = m.bounceTable → page_table_index v ≠ 768 + i) : Via (m.openSlot i g) v t f := by
  apply via_setBounce
  apply via_setWord hv
  · intro he
    exact absurd he h.apart
  · intro he hp
    exact absurd hp.symm (ht he.symm)

/-- Closing a slot that was opened restores the bounce table, whatever was written
to another frame in between. -/
theorem close_open_setFrame {m : Machine} (h : Windows m) {i : Nat} (hi : i < 16)
    (hu : m.bounce_pages_used i = false) (f : Nat) {g : Nat} (w : Nat → Nat)
    (hg : g ≠ m.bounceTable) (hgd : g ≠ m.dir) :
    ((m.openSlot i f).setFrame g w).closeSlot i = m.setFrame g w := by
  have hB : ((m.openSlot i f).setFrame g w).bounceTable = m.bounceTable := by
    rw [← openSlot_bounceTable h i f]
    unfold bounceTable
    rw [setFrame_dir, openSlot_dir, setFrame_apply, if_neg hgd.symm]
  have hz := h.closed i hi hu
  apply Machine.ext_fields
  · funext x j
    unfold closeSlot
    rw [hB, setBounce_frames, setWord_apply, setFrame_apply, setFrame_apply]
    by_cases hx : x = m.bounceTable
    · subst hx
      rw [if_neg hg.symm, if_neg hg.symm]
      split
      · rename_i hc
        rw [hc.2, hz]
      · rename_i hc
        unfold openSlot
        rw [setBounce_frames, setWord_apply, if_neg hc]
    · rw [if_neg (fun hc => hx hc.1), openSlot_frames_ne hx]
  · rfl
  · rfl
  · funext j
    unfold closeSlot openSlot setWord
    by_cases hj : j = i
    · subst hj; simp [hu]
    · simp [hj]
  · rfl

theorem close_open {m : Machine} (h : Windows m) {i : Nat} (hi : i < 16)
    (hu : m.bounce_pages_used i = false) (f : Nat) : (m.openSlot i f).closeSlot i = m := by
  have hB := openSlot_bounceTable h i f
  have hz := h.closed i hi hu
  apply Machine.ext_fields
  · funext x j
    unfold closeSlot
    rw [hB, setBounce_frames, setWord_apply]
    split
    · rename_i hc
      rw [hc.1, hc.2, hz]
    · rename_i hc
      unfold openSlot
      rw [setBounce_frames, setWord_apply, if_neg hc]
  · rfl
  · rfl
  · funext j
    unfold closeSlot openSlot setWord
    by_cases hj : j = i
    · subst hj; simp [hu]
    · simp [hj]
  · rfl

end alura_os.memory_paging
