-- Fork (`task_manager_task_copy`): the child gets a directory, a kernel stack and
-- a copy of every user page of the task that runs.
import AluraOs.AddressSpaces
import AluraOs.Task

namespace alura_os.task_manager

open alura_os.memory alura_os.memory_bitmap alura_os.memory_paging Machine
open memory_paging_result_t task_state_t

/-! ## The code -/

/-- The fields that `task_manager_task_copy` sets in the record from `kernel_heap_calloc`. -/
def child_record (parent : task_t) (task_id task_cr3 esp_offset : Nat) : task_t :=
  { task_t.zeroed with
    task_id := task_id
    task_state := TASK_STATE_READY
    task_time_slice := TASK_MANAGER_DEFAULT_TIME_SLICE
    task_is_user := parent.task_is_user
    task_init_eip := parent.task_init_eip
    heap_start := parent.heap_start
    heap_break := parent.heap_break
    signal_handlers := parent.signal_handlers
    task_cr3 := task_cr3
    stack_base := KERNEL_STACK_TOP - PAGE_SIZE
    stack_top := KERNEL_STACK_TOP
    task_esp := u32 (KERNEL_STACK_TOP - PAGE_SIZE + esp_offset)
    resources := fun i => if i < TASK_MAX_RESOURCES then parent.resources i else 0 }

/-- `task_manager_task_copy`, up to the queue that the child enters. The record comes from
`kernel_heap_calloc`, which grows the heap by `growth` pages at `heap_break`; a `NULL` from it
is written through at once. The resources that the child shares count one more owner each. -/
def task_manager_task_copy (m : Machine) (growth heap_break task_id : Nat) (parent : task_t) :
    Option (Machine × task_t) := do
  let (m, served) ← kernel_heap_grow growth heap_break m
  if !served then none
  let (m, _, task_cr3) ← memory_paging_create_page_directory m
  let (m, task_page_directory) ← bounce_alloc m task_cr3
  let (bitmap, kernel_stack_phys) := memory_bitmap_allocate m.memory_bitmap
  let (m, _) ← memory_paging_map (m.setBitmap bitmap) task_page_directory kernel_stack_phys
    (KERNEL_STACK_TOP - PAGE_SIZE) PAGE_READ_WRITE
  let (m, _) ← memory_paging_copy_mapped_memory m task_page_directory
  let (m, kernel_stack) ← bounce_alloc m kernel_stack_phys
  let m ← memcpy_page m kernel_stack parent.stack_base
  let esp_offset := sub32 parent.task_esp parent.stack_base
  let m ← m.store32 (u32 (kernel_stack + esp_offset + 4 * REGISTER_EAX)) 0
  let m ← bounce_free m kernel_stack
  let m ← bounce_free m task_page_directory
  return (m, child_record parent task_id task_cr3 esp_offset)

/-! ## One page -/

/-- `memory_paging_copy_page` on frames, into the directory frame `d`. -/
def copyPage (m : Machine) (d pdi pti : Nat) : Machine :=
  let pte := m.frames (frameOf (m.frames m.dir pdi)) pti
  let (bitmap, a) := memory_bitmap_allocate m.memory_bitmap
  (((m.setBitmap bitmap).setFrame (frameOf a)
    (page (m.frames (frameOf pte)) (m.frames (frameOf a)))).mapPage d a
      (pdi * 0x400000 + pti * 4096) (pte % 4096)).1

/-- A page of the current directory that is there and that a copy can read. -/
structure Readable (m : Machine) (pdi pti : Nat) : Prop where
  pde_present : present (m.frames m.dir pdi) = true
  pte_present : present (m.frames (frameOf (m.frames m.dir pdi)) pti) = true
  table_taken : Taken m.memory_bitmap (frameOf (m.frames m.dir pdi))
  table_ne : frameOf (m.frames m.dir pdi) ≠ m.bounceTable
  frame_taken : Taken m.memory_bitmap (frameOf (m.frames (frameOf (m.frames m.dir pdi)) pti))
  frame_ne : frameOf (m.frames (frameOf (m.frames m.dir pdi)) pti) ≠ m.bounceTable

theorem page_address {pdi pti : Nat} (hpd : pdi < 768) (hpt : pti < 1024) :
    page_directory_index (pdi * 0x400000 + pti * 4096) = pdi ∧
      page_table_index (pdi * 0x400000 + pti * 4096) = pti ∧
      (pdi * 0x400000 + pti * 4096) % 4096 = 0 ∧
      pdi * 0x400000 + pti * 4096 < 0x100000000 := by
  unfold page_directory_index page_table_index
  omega

/-- The frame `n` is no frame that the copy of a page reads or goes through. -/
structure Apart (m : Machine) (t d pdi pti n : Nat) : Prop where
  dir : n ≠ m.dir
  bounce : n ≠ m.bounceTable
  target : n ≠ d
  pointer : n ≠ t
  table : n ≠ frameOf (m.frames m.dir pdi)
  frame : n ≠ frameOf (m.frames (frameOf (m.frames m.dir pdi)) pti)

/-- The copy after the allocation: fill the frame `n` through one slot, and map it
through another while the first is open. -/
theorem copy_through_slots {m : Machine} (hw : Windows m) {v t d pdi pti n : Nat}
    (hv : Shows m v t d) (hdD : d ≠ m.dir) (htt : Taken m.memory_bitmap t)
    (hDt : Taken m.memory_bitmap m.dir) (hBt : Taken m.memory_bitmap m.bounceTable)
    (hdt : Taken m.memory_bitmap d) (hz : Used m.memory_bitmap 0)
    {i : Nat} (hi : bounce_free_slot m = some i) (hs : 2 ≤ (freeSlots m).card)
    (hf : present (m.frames d pdi) = true ∨ 0 < (freeFrames m.memory_bitmap).card)
    (hpd : pdi < 768) (hpt : pti < 1024) (hr : Readable m pdi pti) (hn : Apart m t d pdi pti n)
    (hT : present (m.frames d pdi) = true →
      frameOf (m.frames d pdi) ≠ m.bounceTable ∧ frameOf (m.frames d pdi) ≠ m.dir ∧
      frameOf (m.frames d pdi) ≠ d) :
    ∃ m1 m2, memcpy_page (m.openSlot i n) (slotAddr i) (pdi * 0x400000 + pti * 4096) = some m1 ∧
      m1.load32 (at32 (PAGE_TABLE_VADDR pdi) pti) =
        some (m.frames (frameOf (m.frames m.dir pdi)) pti) ∧
      memory_paging_map m1 v (n * 4096) (pdi * 0x400000 + pti * 4096)
        (m.frames (frameOf (m.frames m.dir pdi)) pti % 4096) = some m2 ∧
      bounce_free m2.1 (slotAddr i) =
        some ((m.setFrame n (page (m.frames (frameOf (m.frames (frameOf (m.frames m.dir pdi)) pti)))
          (m.frames n))).mapPage d (n * 4096) (pdi * 0x400000 + pti * 4096)
          (m.frames (frameOf (m.frames m.dir pdi)) pti % 4096)).1 := by
  obtain ⟨hap, hat, hal, hlt⟩ := page_address hpd hpt
  obtain ⟨hi16, hiu⟩ := free_slot_spec hi
  obtain ⟨hsal, hslt, -⟩ := slotAddr_facts hi16
  generalize hvirt : pdi * 0x400000 + pti * 4096 = virt at *
  generalize hpte : m.frames (frameOf (m.frames m.dir pdi)) pti = pte at *
  have hfn : frameOf pte ≠ m.bounceTable := hpte ▸ hr.frame_ne
  -- The walk to the page that is read.
  have hsrc : Via m virt (frameOf (m.frames m.dir pdi)) (frameOf pte) := by
    constructor
    · rw [hap]; exact hr.pde_present
    · rw [hap]
    · rw [hat, hpte]; exact hpte ▸ hr.pte_present
    · rw [hat, hpte]
  have hsrc' := via_openSlot hw (i := i) n hsrc (fun he => absurd he hr.table_ne)
  have hcopy := memcpy_page_via (via_slot hw hi16 n) hsrc' hsal hslt hal hlt hn.dir hn.bounce
    hn.table (hpte ▸ hn.frame)
  rw [openSlot_frames_ne hfn, openSlot_frames_ne hn.bounce,
    openSlot_setFrame _ hn.bounce hn.dir] at hcopy
  -- From here on the window stands over a machine whose frame is filled.
  generalize hm1 : m.setFrame n (page (m.frames (frameOf pte)) (m.frames n)) = m1 at *
  have hw1 : Windows m1 := hm1 ▸ windows_setFrame hw _ hn.dir hn.bounce
  have hB1 : m1.bounceTable = m.bounceTable := hm1 ▸ bounceTable_setFrame _ hn.dir
  have hdir1 : m1.dir = m.dir := hm1 ▸ rfl
  have hb1 : m1.memory_bitmap = m.memory_bitmap := hm1 ▸ rfl
  have hfr1 : ∀ g, g ≠ n → m1.frames g = m.frames g := by
    intro g hg
    rw [← hm1, setFrame_apply, if_neg hg]
  have hi1 : bounce_free_slot m1 = some i := hm1 ▸ hi
  have hu1 : m1.bounce_pages_used i = false := (free_slot_spec hi1).2
  have hv1 : Shows m1 v t d := hm1 ▸ hv.setFrame _ hn.dir hn.pointer
  have hwo := windows_openSlot hw1 i n
  have hpde1 : (m1.openSlot i n).frames (m1.openSlot i n).dir pdi = m.frames m.dir pdi := by
    rw [openSlot_dir, hdir1, openSlot_frames_ne (by rw [hB1]; exact hw.apart.symm),
      hfr1 _ hn.dir.symm]
  have hload := load_via (via_table hwo pdi (by omega) (by rw [hpde1]; exact hr.pde_present))
    (table_page_facts (by omega)).1 (table_page_facts (by omega)).2 hpt
  rw [hpde1, openSlot_frames_ne (by rw [hB1]; exact hr.table_ne), hfr1 _ hn.table.symm,
    hpte] at hload
  have hslots : freeSlots m1 = freeSlots m := by rw [← hm1]; rfl
  have hs1 := freeSlots_openSlot hi1 n
  rw [hslots] at hs1
  obtain ⟨i2, hi2⟩ := free_slot_of_card (m := m1.openSlot i n) (by omega)
  have hd1 : m1.frames d = m.frames d := hfr1 d hn.target.symm
  have hdo : (m1.openSlot i n).frames d = m.frames d := by
    rw [openSlot_frames_ne hv1.ne_bounce, hd1]
  have hT1 : present (m1.frames d (page_directory_index virt)) = true →
      frameOf (m1.frames d (page_directory_index virt)) ≠ m1.bounceTable ∧
      frameOf (m1.frames d (page_directory_index virt)) ≠ m1.dir := by
    rw [hap, hd1, hB1, hdir1]
    exact fun hp => ⟨(hT hp).1, (hT hp).2.1⟩
  have hTo : present ((m1.openSlot i n).frames d (page_directory_index virt)) = true →
      frameOf ((m1.openSlot i n).frames d (page_directory_index virt)) ≠
        (m1.openSlot i n).bounceTable ∧
      frameOf ((m1.openSlot i n).frames d (page_directory_index virt)) ≠
        (m1.openSlot i n).dir := by
    rw [openSlot_frames_ne hv1.ne_bounce, openSlot_bounceTable hw1, openSlot_dir]
    exact hT1
  have hD1 : Taken m1.memory_bitmap m1.dir := by rw [hb1, hdir1]; exact hDt
  have hBk1 : Taken m1.memory_bitmap m1.bounceTable := by rw [hb1, hB1]; exact hBt
  have hmap := map_spec hwo hi2 (hv1.openSlot hw1 hu1 n) (n * 4096) (pte % 4096) hTo hD1
    (by rw [openSlot_bounceTable hw1]; exact hBk1)
    (by show Taken m1.memory_bitmap t; rw [hb1]; exact htt)
  rw [openSlot_mapPage (n * 4096) (pte % 4096) hv1.ne_bounce (by rw [hdir1]; exact hdD) hT1 hD1
    hBk1] at hmap
  -- Closing the first window.
  obtain ⟨-, T, hM⟩ := mapPage_mapped (m := m1) (d := d) (n * 4096) (pte % 4096)
    (by rw [hb1]; exact hz) (by rw [hb1]; exact hdt) (by rw [hap, hd1, hb1]; exact hf)
    (by rw [hap, hd1]; exact fun hp => (hT hp).2.2)
  have hTB := hM.table_ne hBk1 (fun hp => (hT1 hp).1)
  have hTD := hM.table_ne hD1 (fun hp => (hT1 hp).2)
  obtain ⟨hw2, -⟩ := hM.windows hw1 hv1.ne_bounce (by rw [hdir1]; exact hdD) hTB hTD
  have hu2 : (m1.mapPage d (n * 4096) virt (pte % 4096)).1.bounce_pages_used i = false := by
    rw [hM.slots]; exact hu1
  refine ⟨_, _, hcopy, hload, hmap, ?_⟩
  rw [bounce_free_spec (windows_openSlot hw2 i n) hi16, close_open hw2 hi16 hu2]

theorem copy_page_spec {m : Machine} (hw : Windows m) {v t d pdi pti : Nat}
    (hv : Shows m v t d) (hdD : d ≠ m.dir) (htt : Taken m.memory_bitmap t)
    (hDt : Taken m.memory_bitmap m.dir) (hBt : Taken m.memory_bitmap m.bounceTable)
    (hdt : Taken m.memory_bitmap d) (hz : Used m.memory_bitmap 0) (hs : 2 ≤ (freeSlots m).card)
    (hf : (if present (m.frames d pdi) = true then 1 else 2) ≤ (freeFrames m.memory_bitmap).card)
    (hpd : pdi < 768) (hpt : pti < 1024) (hr : Readable m pdi pti)
    (hT : present (m.frames d pdi) = true →
      frameOf (m.frames d pdi) ≠ m.bounceTable ∧ frameOf (m.frames d pdi) ≠ m.dir ∧
      frameOf (m.frames d pdi) ≠ d) :
    memory_paging_copy_page v pdi m pti = some (copyPage m d pdi pti) := by
  have hpos : 0 < (freeFrames m.memory_bitmap).card := by split at hf <;> omega
  obtain ⟨hne, hcard⟩ := allocate_spec hz hpos
  obtain ⟨n, hn, hn0, hnlt, hnu, hj, hpages⟩ := allocate_fresh hne
  have hfr : frameOf (n * 4096) = n := by unfold frameOf; omega
  have hap : Apart m t d pdi pti n := ⟨hDt.ne hnlt hnu, hBt.ne hnlt hnu, hdt.ne hnlt hnu,
    htt.ne hnlt hnu, hr.table_taken.ne hnlt hnu, hr.frame_taken.ne hnlt hnu⟩
  obtain ⟨i, hi⟩ := free_slot_of_card (m := m) (by omega)
  have hload := load_via (via_table hw pdi (by omega) hr.pde_present)
    (table_page_facts (by omega)).1 (table_page_facts (by omega)).2 hpt
  have hw0 := windows_setBitmap hw (memory_bitmap_allocate m.memory_bitmap).1
  obtain ⟨m1, m2, hcopy, hload1, hmap, hfree⟩ := copy_through_slots hw0
    (hv.setBitmap (memory_bitmap_allocate m.memory_bitmap).1) hdD htt.allocate hDt.allocate
    hBt.allocate hdt.allocate ((hj 0).mpr (Or.inr hz)) hi hs
    (by
      by_cases hp : present (m.frames d pdi) = true
      · exact Or.inl hp
      · rw [if_neg hp] at hf
        exact Or.inr (by rw [setBitmap_bitmap]; omega))
    hpd hpt ⟨hr.1, hr.2, hr.3.allocate, hr.4, hr.5.allocate, hr.6⟩ ⟨hap.1, hap.2, hap.3, hap.4,
    hap.5, hap.6⟩ hT
  unfold memory_paging_copy_page copyPage
  simp only [setBitmap_frames, setBitmap_dir] at hcopy hload1 hmap hfree
  simp only [hload, hr.pte_present, Bool.not_true, Bool.false_eq_true, if_false,
    Option.bind_eq_bind, Option.bind_some, bounce_alloc_spec hw0 hi, hn, hfr, hcopy, hload1, hmap]
  exact hfree

/-! ## The loop -/

/-- The entry of a user page in the current directory. -/
def userEntry (m : Machine) (pdi pti : Nat) : Nat := m.frames (frameOf (m.frames m.dir pdi)) pti

/-- The current directory maps the user page. -/
def UserPage (m : Machine) (pdi pti : Nat) : Prop :=
  present (m.frames m.dir pdi) = true ∧ present (userEntry m pdi pti) = true

instance (m : Machine) (pdi pti : Nat) : Decidable (UserPage m pdi pti) :=
  inferInstanceAs (Decidable (_ ∧ _))

/-- The directory frame `d` has a copy of the page that the machine `mb` had: the same flags
and words, in a frame that was free and that is no page table. -/
structure Copied (mb m : Machine) (d pdi pti f : Nat) : Prop where
  pde : present (m.frames d pdi) = true
  entry : m.frames (frameOf (m.frames d pdi)) pti =
    (f * 4096 ||| userEntry mb pdi pti % 4096 ||| PAGE_PRESENT)
  lt : f < mb.memory_bitmap.pages
  fresh : ¬ Used mb.memory_bitmap f
  used : Used m.memory_bitmap f
  no_table : ∀ i, i < 768 → present (m.frames d i) = true → frameOf (m.frames d i) ≠ f
  words : ∀ i, i < 1024 → m.frames f i = mb.frames (frameOf (userEntry mb pdi pti)) i

/-- The copy began in `mb`, and is through with the pages in `done`. -/
structure CopyInv (mb m : Machine) (d : Nat) (done : Nat → Nat → Prop) : Prop where
  cr3 : m.cr3 = mb.cr3
  kernel : m.kernel_page_directory_phys = mb.kernel_page_directory_phys
  slots : m.bounce_pages_used = mb.bounce_pages_used
  pages : m.memory_bitmap.pages = mb.memory_bitmap.pages
  used : ∀ f, Used mb.memory_bitmap f → Used m.memory_bitmap f
  kept : ∀ f, Taken mb.memory_bitmap f → f ≠ d → m.frames f = mb.frames f
  upper : ∀ j, 768 ≤ j → m.frames d j = mb.frames d j
  table : ∀ i, i < 768 → present (m.frames d i) = true →
    frameOf (m.frames d i) < mb.memory_bitmap.pages ∧
    ¬ Used mb.memory_bitmap (frameOf (m.frames d i)) ∧
    Used m.memory_bitmap (frameOf (m.frames d i))
  tables : ∀ i j, i < 768 → j < 768 → present (m.frames d i) = true →
    present (m.frames d j) = true → frameOf (m.frames d i) = frameOf (m.frames d j) → i = j
  copied : ∀ i j, i < 768 → j < 1024 → done i j → UserPage mb i j → ∃ f, Copied mb m d i j f
  empty : ∀ i j, i < 768 → j < 1024 → present (m.frames d i) = true →
    ¬ (done i j ∧ UserPage mb i j) → m.frames (frameOf (m.frames d i)) j = 0

theorem CopyInv.taken {mb m : Machine} {d : Nat} {done : Nat → Nat → Prop}
    (h : CopyInv mb m d done) {f : Nat} (hf : Taken mb.memory_bitmap f) :
    Taken m.memory_bitmap f := by
  intro hlt
  rw [h.pages] at hlt
  exact h.used f (hf hlt)

/-- A table of the copy is none of the frames in use when it began. -/
theorem CopyInv.table_ne {mb m : Machine} {d : Nat} {done : Nat → Nat → Prop}
    (h : CopyInv mb m d done) {f i : Nat} (hf : Taken mb.memory_bitmap f) (hi : i < 768)
    (hp : present (m.frames d i) = true) : frameOf (m.frames d i) ≠ f := by
  obtain ⟨hlt, hu, -⟩ := h.table i hi hp
  exact hf.ne hlt hu

section step

variable {mb m m' : Machine} {d p q n T : Nat} {w : Nat → Nat} {done : Nat → Nat → Prop}

theorem CopyInv.table_old (h : CopyInv mb m d done) (hp : p < 768)
    (ha : PageAdded m m' d (p * 0x400000 + q * 4096) n T
      (n * 4096 ||| userEntry mb p q % 4096 ||| PAGE_PRESENT) w) (hq : q < 1024)
    {i : Nat} (hi : i < 768) (hip : i ≠ p) (hpi : present (m.frames d i) = true) :
    frameOf (m.frames d i) ≠ T ∧ frameOf (m.frames d i) ≠ n := by
  obtain ⟨hpd, hpt, -⟩ := page_address hp hq
  obtain ⟨-, -, hiu⟩ := h.table i hi hpi
  constructor
  · intro he
    cases hpp : present (m.frames d p) with
    | true =>
      have := (ha.table_old (by rw [hpd]; exact hpp)).1
      rw [hpd] at this
      exact hip (h.tables i p hi hp hpi hpp (he.trans this))
    | false =>
      obtain ⟨-, hu, -⟩ := ha.table_new (by rw [hpd]; exact hpp)
      exact hu (he ▸ hiu)
  · intro he
    exact ha.fresh (he ▸ hiu)

/-- The table where the page went is fresh to the copy. -/
theorem CopyInv.added_table (h : CopyInv mb m d done) (hp : p < 768) (hq : q < 1024)
    (ha : PageAdded m m' d (p * 0x400000 + q * 4096) n T
      (n * 4096 ||| userEntry mb p q % 4096 ||| PAGE_PRESENT) w) :
    T < mb.memory_bitmap.pages ∧ ¬ Used mb.memory_bitmap T ∧ Used m'.memory_bitmap T := by
  obtain ⟨hpd, hpt, -⟩ := page_address hp hq
  cases hpp : present (m.frames d p) with
  | true =>
    have hT := (ha.table_old (by rw [hpd]; exact hpp)).1
    rw [hpd] at hT
    obtain ⟨h1, h2, h3⟩ := h.table p hp hpp
    rw [hT]
    exact ⟨h1, h2, (ha.used _).mpr (Or.inl h3)⟩
  | false =>
    obtain ⟨h1, h2, -⟩ := ha.table_new (by rw [hpd]; exact hpp)
    exact ⟨h.pages ▸ h1, fun hc => h2 (h.used T hc),
      (ha.used T).mpr (Or.inr (Or.inr ⟨by rw [hpd]; exact hpp, rfl⟩))⟩

/-- A page that was copied before stays. -/
theorem Copied.step (h : CopyInv mb m d done) (hp : p < 768) (hq : q < 1024)
    (ha : PageAdded m m' d (p * 0x400000 + q * 4096) n T
      (n * 4096 ||| userEntry mb p q % 4096 ||| PAGE_PRESENT) w)
    (hd : Taken mb.memory_bitmap d) {i j f : Nat} (hi : i < 768) (hne : ¬ (i = p ∧ j = q))
    (hc : Copied mb m d i j f) : Copied mb m' d i j f := by
  obtain ⟨hpd, hpt, -⟩ := page_address hp hq
  have hfn : f ≠ n := fun he => ha.fresh (he ▸ hc.used)
  have hfd : f ≠ d := hd.ne hc.lt hc.fresh
  have hfT : f ≠ T := by
    cases hpp : present (m.frames d p) with
    | true =>
      have hT := (ha.table_old (by rw [hpd]; exact hpp)).1
      rw [hpd] at hT
      rw [hT]
      exact (hc.no_table p hp hpp).symm
    | false =>
      obtain ⟨-, hu, -⟩ := ha.table_new (by rw [hpd]; exact hpp)
      exact fun he => hu (he ▸ hc.used)
  have hpde := ha.pde_present
  have hpdf := ha.pde_frame
  have hpt' := ha.pde_other
  rw [hpd] at hpde hpdf hpt'
  refine ⟨?_, ?_, hc.lt, hc.fresh, (ha.used f).mpr (Or.inl hc.used), ?_, ?_⟩
  · by_cases hip : i = p
    · rw [hip]; exact hpde
    · rw [hpt' i hip]; exact hc.pde
  · by_cases hip : i = p
    · subst hip
      obtain ⟨hT, hold⟩ := ha.table_old (by rw [hpd]; exact hc.pde)
      rw [hpd] at hT
      rw [hpdf, hold j (by rw [hpt]; exact fun hjq => hne ⟨rfl, hjq⟩), hT]
      exact hc.entry
    · obtain ⟨h1, h2⟩ := h.table_old hp ha hq hi hip hc.pde
      rw [hpt' i hip, ha.others _ (h.table_ne hd hi hc.pde) h1 h2]
      exact hc.entry
  · intro k hk hpk
    by_cases hkp : k = p
    · rw [hkp, hpdf]; exact hfT.symm
    · rw [hpt' k hkp] at hpk ⊢
      exact hc.no_table k hk hpk
  · intro k hk
    rw [ha.others f hfd hfT hfn]
    exact hc.words k hk

/-- The page that was just added is a copy. -/
theorem CopyInv.added (h : CopyInv mb m d done) (hp : p < 768) (hq : q < 1024)
    (ha : PageAdded m m' d (p * 0x400000 + q * 4096) n T
      (n * 4096 ||| userEntry mb p q % 4096 ||| PAGE_PRESENT) w)
    (hw : ∀ i, i < 1024 → w i = mb.frames (frameOf (userEntry mb p q)) i) :
    Copied mb m' d p q n := by
  obtain ⟨hpd, hpt, -⟩ := page_address hp hq
  have hpde := ha.pde_present
  have hpdf := ha.pde_frame
  have hpt' := ha.pde_other
  have hent := ha.entry
  rw [hpd] at hpde hpdf hpt'
  rw [hpt] at hent
  refine ⟨hpde, by rw [hpdf]; exact hent, h.pages ▸ ha.fresh_lt,
    fun hc => ha.fresh (h.used n hc), (ha.used n).mpr (Or.inr (Or.inl rfl)), ?_, ?_⟩
  · intro k hk hpk
    by_cases hkp : k = p
    · rw [hkp, hpdf]; exact ha.table_ne_page
    · rw [hpt' k hkp] at hpk ⊢
      exact (h.table_old hp ha hq hk hkp hpk).2
  · intro i hi
    rw [ha.words]
    exact hw i hi

theorem CopyInv.step (h : CopyInv mb m d done) (hp : p < 768) (hq : q < 1024)
    (ha : PageAdded m m' d (p * 0x400000 + q * 4096) n T
      (n * 4096 ||| userEntry mb p q % 4096 ||| PAGE_PRESENT) w)
    (hd : Taken mb.memory_bitmap d) (hnd : ¬ done p q) (hup : UserPage mb p q)
    (hw : ∀ i, i < 1024 → w i = mb.frames (frameOf (userEntry mb p q)) i) :
    CopyInv mb m' d (fun i j => done i j ∨ (i = p ∧ j = q)) := by
  obtain ⟨hpd, hpt, -⟩ := page_address hp hq
  obtain ⟨hT1, hT2, hT3⟩ := h.added_table hp hq ha
  have hpde := ha.pde_present
  have hpdf := ha.pde_frame
  have hpo := ha.pde_other
  rw [hpd] at hpde hpdf hpo
  have hnmb : ¬ Used mb.memory_bitmap n := fun hc => ha.fresh (h.used n hc)
  have hnlt : n < mb.memory_bitmap.pages := h.pages ▸ ha.fresh_lt
  constructor
  · exact ha.cr3.trans h.cr3
  · exact ha.kernel.trans h.kernel
  · exact ha.slots.trans h.slots
  · exact ha.pages.trans h.pages
  · exact fun f hf => (ha.used f).mpr (Or.inl (h.used f hf))
  · intro f hf hfd
    rw [ha.others f hfd (hf.ne hT1 hT2).symm (hf.ne hnlt hnmb).symm]
    exact h.kept f hf hfd
  · intro j hj
    rw [hpo j (by omega)]
    exact h.upper j hj
  · intro i hi hpi
    by_cases hip : i = p
    · rw [hip, hpdf]
      exact ⟨hT1, hT2, hT3⟩
    · rw [hpo i hip] at hpi ⊢
      obtain ⟨h1, h2, h3⟩ := h.table i hi hpi
      exact ⟨h1, h2, (ha.used _).mpr (Or.inl h3)⟩
  · intro i j hi hj hpi hpj he
    by_cases hip : i = p <;> by_cases hjp : j = p
    · rw [hip, hjp]
    · rw [hpo j hjp] at hpj he
      rw [hip, hpdf] at he
      exact absurd he.symm (h.table_old hp ha hq hj hjp hpj).1
    · rw [hpo i hip] at hpi he
      rw [hjp, hpdf] at he
      exact absurd he (h.table_old hp ha hq hi hip hpi).1
    · rw [hpo i hip] at hpi he
      rw [hpo j hjp] at hpj he
      exact h.tables i j hi hj hpi hpj he
  · intro i j hi hj hdone hupi
    by_cases hne : i = p ∧ j = q
    · obtain ⟨rfl, rfl⟩ := hne
      exact ⟨n, h.added hp hq ha hw⟩
    · obtain ⟨f, hc⟩ := h.copied i j hi hj (hdone.resolve_right hne) hupi
      exact ⟨f, hc.step h hp hq ha hd hi hne⟩
  · intro i j hi hj hpi hnot
    have hne : ¬ (i = p ∧ j = q) := by
      rintro ⟨rfl, rfl⟩
      exact hnot ⟨Or.inr ⟨rfl, rfl⟩, hup⟩
    have hnot' : ¬ (done i j ∧ UserPage mb i j) := fun hc => hnot ⟨Or.inl hc.1, hc.2⟩
    by_cases hip : i = p
    · subst hip
      have hjq : j ≠ q := fun hjq => hne ⟨rfl, hjq⟩
      rw [hpdf]
      cases hpp : present (m.frames d i) with
      | true =>
        obtain ⟨hTe, hold⟩ := ha.table_old (by rw [hpd]; exact hpp)
        rw [hpd] at hTe
        rw [hold j (by rw [hpt]; exact hjq), hTe]
        exact h.empty i j hi hj hpp hnot'
      | false =>
        exact (ha.table_new (by rw [hpd]; exact hpp)).2.2 j hj (by rw [hpt]; exact hjq)
    · rw [hpo i hip] at hpi ⊢
      obtain ⟨h1, h2⟩ := h.table_old hp ha hq hi hip hpi
      rw [ha.others _ (h.table_ne hd hi hpi) h1 h2]
      exact h.empty i j hi hj hpi hnot'

theorem CopyInv.congr {done' : Nat → Nat → Prop} (h : CopyInv mb m d done)
    (hd : ∀ i j, i < 768 → j < 1024 → UserPage mb i j → (done i j ↔ done' i j)) :
    CopyInv mb m d done' where
  cr3 := h.cr3
  kernel := h.kernel
  slots := h.slots
  pages := h.pages
  used := h.used
  kept := h.kept
  upper := h.upper
  table := h.table
  tables := h.tables
  copied := fun i j hi hj hdone hup => h.copied i j hi hj ((hd i j hi hj hup).mpr hdone) hup
  empty := fun i j hi hj hp hnot =>
    h.empty i j hi hj hp (fun hc => hnot ⟨(hd i j hi hj hc.2).mp hc.1, hc.2⟩)

end step

/-- Where the copy begins: a window on the empty child directory `d` is open, and the user
pages of the current directory are frames in use that no window goes through. -/
structure CopyBase (mb : Machine) (v d : Nat) : Prop where
  windows : Windows mb
  shows : Shows mb v mb.bounceTable d
  zero : Used mb.memory_bitmap 0
  dir_taken : Taken mb.memory_bitmap mb.dir
  bounce_taken : Taken mb.memory_bitmap mb.bounceTable
  target_taken : Taken mb.memory_bitmap d
  target_ne : d ≠ mb.dir
  target_empty : ∀ i, i < 768 → mb.frames d i = 0
  readable : ∀ i j, i < 768 → j < 1024 → UserPage mb i j → Readable mb i j
  table_taken : ∀ i, i < 768 → present (mb.frames mb.dir i) = true →
    Taken mb.memory_bitmap (frameOf (mb.frames mb.dir i)) ∧ frameOf (mb.frames mb.dir i) ≠ d
  frame_ne : ∀ i j, i < 768 → j < 1024 → UserPage mb i j → frameOf (userEntry mb i j) ≠ d
  slots : 2 ≤ (freeSlots mb).card

section loops

variable {mb m : Machine} {v d : Nat} {done : Nat → Nat → Prop}

theorem CopyInv.start (hb : CopyBase mb v d) : CopyInv mb mb d (fun _ _ => False) where
  cr3 := rfl
  kernel := rfl
  slots := rfl
  pages := rfl
  used := fun _ h => h
  kept := fun _ _ _ => rfl
  upper := fun _ _ => rfl
  table := fun i hi hp => by rw [hb.target_empty i hi] at hp; cases hp
  tables := fun i j hi _ hp => by rw [hb.target_empty i hi] at hp; cases hp
  copied := fun _ _ _ _ hf => hf.elim
  empty := fun i j hi _ hp => by rw [hb.target_empty i hi] at hp; cases hp

/-- What the loop reads is as it was when the copy began. -/
theorem CopyInv.machine (h : CopyInv mb m d done) (hb : CopyBase mb v d) :
    Windows m ∧ m.bounceTable = mb.bounceTable ∧ m.dir = mb.dir ∧ Shows m v mb.bounceTable d ∧
      m.frames m.dir = mb.frames mb.dir := by
  have hD := h.kept _ hb.dir_taken hb.target_ne.symm
  have hB := h.kept _ hb.bounce_taken hb.shows.ne_bounce.symm
  obtain ⟨hw, hbt⟩ := hb.windows.of_same h.cr3 h.slots hD hB
  have hdir : m.dir = mb.dir := by unfold Machine.dir; rw [h.cr3]
  exact ⟨hw, hbt, hdir, hb.shows.of_same h.cr3 h.slots hD hB, by rw [hdir, hD]⟩

theorem CopyInv.userEntry_eq (h : CopyInv mb m d done) (hb : CopyBase mb v d) {p : Nat} (q : Nat)
    (hp : p < 768) (hpp : present (mb.frames mb.dir p) = true) :
    userEntry m p q = userEntry mb p q := by
  obtain ⟨-, -, -, -, hD⟩ := h.machine hb
  obtain ⟨ht, hne⟩ := hb.table_taken p hp hpp
  unfold userEntry
  rw [hD, h.kept _ ht hne]

/-- One page: it is skipped, or a fresh frame takes its copy. -/
theorem copy_page_step (hb : CopyBase mb v d) (h : CopyInv mb m d done) {p q : Nat}
    (hp : p < 768) (hq : q < 1024) (hnd : ¬ done p q)
    (hpp : present (mb.frames mb.dir p) = true)
    (hf : (if UserPage mb p q then if present (m.frames d p) = true then 1 else 2 else 0) ≤
      (freeFrames m.memory_bitmap).card) :
    ∃ m', memory_paging_copy_page v p m q = some m' ∧
      CopyInv mb m' d (fun i j => done i j ∨ (i = p ∧ j = q)) ∧
      (freeFrames m.memory_bitmap).card + (if present (m'.frames d p) = true then 0 else 1) ≤
        (freeFrames m'.memory_bitmap).card + (if present (m.frames d p) = true then 0 else 1) +
          (if UserPage mb p q then 1 else 0) := by
  obtain ⟨hw, hbt, hdir, hv, hD⟩ := h.machine hb
  have hue := h.userEntry_eq hb q hp hpp
  by_cases hup : UserPage mb p q
  · rw [if_pos hup] at hf
    have hr := hb.readable p q hp hq hup
    have hr' : Readable m p q := by
      unfold userEntry at hue
      constructor
      · rw [hD]; exact hr.pde_present
      · rw [hue]; exact hr.pte_present
      · rw [hD]; exact h.taken hr.table_taken
      · rw [hD, hbt]; exact hr.table_ne
      · rw [hue]; exact h.taken hr.frame_taken
      · rw [hue, hbt]; exact hr.frame_ne
    have hT : present (m.frames d p) = true →
        frameOf (m.frames d p) ≠ m.bounceTable ∧ frameOf (m.frames d p) ≠ m.dir ∧
        frameOf (m.frames d p) ≠ d := by
      intro hpd
      rw [hbt, hdir]
      exact ⟨h.table_ne hb.bounce_taken hp hpd, h.table_ne hb.dir_taken hp hpd,
        h.table_ne hb.target_taken hp hpd⟩
    have hspec := copy_page_spec hw hv (by rw [hdir]; exact hb.target_ne)
      (h.taken hb.bounce_taken) (by rw [hdir]; exact h.taken hb.dir_taken)
      (by rw [hbt]; exact h.taken hb.bounce_taken) (h.taken hb.target_taken)
      (h.used 0 hb.zero) (by unfold freeSlots; rw [h.slots]; exact hb.slots) hf hp hq hr' hT
    obtain ⟨hap, hat, -, -⟩ := page_address hp hq
    obtain ⟨n, T, hn, -, -, hA⟩ := page_added (m := m) (d := d) (userEntry m p q % 4096)
      (fun n => page (m.frames (frameOf (userEntry m p q))) (m.frames n)) (h.used 0 hb.zero)
      (h.taken hb.target_taken) (by rw [hap]; exact hf)
      (by
        rw [hap]
        intro hpd
        exact ⟨(hT hpd).2.2, fun _ => (h.table p hp hpd).2.2⟩)
    have hfr : frameOf (n * 4096) = n := by unfold frameOf; omega
    have hcopy : copyPage m d p q =
        (((m.setBitmap (memory_bitmap_allocate m.memory_bitmap).1).setFrame n
          (page (m.frames (frameOf (userEntry m p q))) (m.frames n))).mapPage d (n * 4096)
          (p * 0x400000 + q * 4096) (userEntry m p q % 4096)).1 := by
      unfold copyPage
      simp only [hn, hfr]
      rfl
    rw [hue] at hA hcopy
    rw [hspec, hcopy]
    have hstep := h.step hp hq hA hb.target_taken hnd hup (by
      intro i hi
      show page _ _ i = _
      unfold page
      rw [if_pos hi]
      exact congrFun (h.kept _ hr.frame_taken (hb.frame_ne p q hp hq hup)) i)
    refine ⟨_, rfl, hstep, ?_⟩
    have hfree := hA.free
    have hpde := hA.pde_present
    rw [hap] at hfree hpde
    rw [hpde, if_pos rfl, if_pos hup]
    split at hfree <;> rename_i hc <;> simp only [hc, if_true] <;> simp <;> omega
  · have hnp : present (userEntry mb p q) = false := by
      simpa [UserPage, hpp] using hup
    have hload := load_via (via_table hw p (by omega) (by rw [hD]; exact hpp))
      (table_page_facts (by omega)).1 (table_page_facts (by omega)).2 hq
    have hval : m.frames (frameOf (m.frames m.dir p)) q = userEntry mb p q := hue
    rw [hval] at hload
    refine ⟨m, ?_, h.congr ?_, ?_⟩
    · unfold memory_paging_copy_page
      simp only [hload, Option.bind_eq_bind, Option.bind_some, hnp, Bool.not_false, if_true]
      rfl
    · intro i j _ _ hupi
      have hne : ¬ (i = p ∧ j = q) := by
        rintro ⟨rfl, rfl⟩
        exact hup hupi
      simp [hne]
    · rw [if_neg hup]
      exact le_refl _

/-- The pages before entry `q` of table `p`, in the order of the loops. -/
def UpTo (p q i j : Nat) : Prop := i < p ∨ (i = p ∧ j < q)

/-- The frames that the copy of one table takes at most: one for each page and one for the
table. -/
def tableNeed (mb : Machine) (p : Nat) : Nat :=
  if present (mb.frames mb.dir p) = true then
    1 + ∑ q ∈ Finset.Ico 0 1024, (if UserPage mb p q then 1 else 0)
  else 0

/-- The frames that a copy of the user space takes at most. -/
def copyNeed (mb : Machine) : Nat := ∑ p ∈ Finset.Ico 0 768, tableNeed mb p

theorem copyNeed_congr {m m1 : Machine} (hD : m1.frames m1.dir = m.frames m.dir)
    (he : ∀ p q, p < 768 → present (m.frames m.dir p) = true →
      userEntry m1 p q = userEntry m p q) : copyNeed m1 = copyNeed m := by
  unfold copyNeed
  apply Finset.sum_congr rfl
  intro p hp
  have hp' := (Finset.mem_Ico.mp hp).2
  unfold tableNeed
  rw [hD]
  split
  · rename_i hpp
    have hup : ∀ q, UserPage m1 p q ↔ UserPage m p q := by
      intro q
      unfold UserPage
      rw [hD, he p q hp' hpp]
    simp only [hup]
  · rfl

theorem copy_pages (hb : CopyBase mb v d) {p : Nat} (hp : p < 768) (rest : Nat)
    (h : CopyInv mb m d (UpTo p 0)) (hpp : present (mb.frames mb.dir p) = true)
    (hf : tableNeed mb p + rest ≤ (freeFrames m.memory_bitmap).card) :
    ∃ m', (List.range KERNEL_PDE_ENTRIES).foldlM (memory_paging_copy_page v p) m = some m' ∧
      CopyInv mb m' d (UpTo (p + 1) 0) ∧ rest ≤ (freeFrames m'.memory_bitmap).card := by
  -- The budget of the pages that remain rides along with the invariant.
  have hloop := loops.foldlM_range (n := KERNEL_PDE_ENTRIES) (f := memory_paging_copy_page v p)
    (P := fun q m => CopyInv mb m d (UpTo p q) ∧
      (if present (m.frames d p) = true then 0 else 1) +
        ∑ j ∈ Finset.Ico q 1024, (if UserPage mb p j then 1 else 0) + rest ≤
          (freeFrames m.memory_bitmap).card)
    (by
      rintro q m hq ⟨hinv, hbud⟩
      have hq' : q < 1024 := hq
      rw [Finset.sum_eq_sum_Ico_succ_bot hq'] at hbud
      obtain ⟨m', hm', hinv', hfree⟩ := copy_page_step hb hinv hp hq'
        (by unfold UpTo; omega) hpp (by split_ifs at hbud ⊢ <;> omega)
      refine ⟨m', hm', hinv'.congr ?_, by omega⟩
      intro i j _ _ _
      unfold UpTo
      omega)
    (s := m)
    ⟨h, by
      unfold tableNeed at hf
      rw [if_pos hpp] at hf
      split_ifs <;> omega⟩
  obtain ⟨m', hm', hinv, hbud⟩ := hloop
  refine ⟨m', hm', hinv.congr ?_, by omega⟩
  intro i j _ hj _
  unfold UpTo KERNEL_PDE_ENTRIES
  omega

theorem copy_table_step (hb : CopyBase mb v d) {p : Nat} (hp : p < 768) (rest : Nat)
    (h : CopyInv mb m d (UpTo p 0))
    (hf : tableNeed mb p + rest ≤ (freeFrames m.memory_bitmap).card) :
    ∃ m', memory_paging_copy_table v m p = some m' ∧
      CopyInv mb m' d (UpTo (p + 1) 0) ∧ rest ≤ (freeFrames m'.memory_bitmap).card := by
  obtain ⟨hw, -, -, -, hD⟩ := h.machine hb
  have hload := load_via (via_directory hw) (by decide) (by decide) (show p < 1024 by omega)
  unfold memory_paging_copy_table
  rw [hD] at hload
  simp only [hload, Option.bind_eq_bind, Option.bind_some]
  cases hpp : present (mb.frames mb.dir p) with
  | true =>
    simp only [Bool.not_true, Bool.false_eq_true, if_false]
    exact copy_pages hb hp rest h hpp hf
  | false =>
    refine ⟨m, by simp, h.congr ?_, by omega⟩
    rintro i j _ _ ⟨hup, -⟩
    have hip : i ≠ p := by
      rintro rfl
      rw [hpp] at hup
      cases hup
    unfold UpTo
    omega

/-- `memory_paging_copy_mapped_memory` copies every user page. -/
theorem copy_mapped_memory_spec (hb : CopyBase mb v d) (hv0 : v ≠ 0)
    (hv : v ≠ PAGE_DIRECTORY_VADDR) (hf : copyNeed mb ≤ (freeFrames mb.memory_bitmap).card) :
    ∃ m', memory_paging_copy_mapped_memory mb v = some (m', MEMORY_PAGING_RESULT_OK) ∧
      CopyInv mb m' d (fun _ _ => True) ∧
      (freeFrames mb.memory_bitmap).card ≤ (freeFrames m'.memory_bitmap).card + copyNeed mb := by
  have hloop := loops.foldlM_range (n := KERNEL_PDE_START) (f := memory_paging_copy_table v)
    (P := fun p m => CopyInv mb m d (UpTo p 0) ∧
      ∑ i ∈ Finset.Ico p 768, tableNeed mb i +
        ((freeFrames mb.memory_bitmap).card - copyNeed mb) ≤ (freeFrames m.memory_bitmap).card)
    (by
      rintro p m hp ⟨hinv, hbud⟩
      have hp' : p < 768 := hp
      rw [Finset.sum_eq_sum_Ico_succ_bot hp', Nat.add_assoc] at hbud
      exact copy_table_step hb hp' _ hinv hbud)
    (s := mb)
    ⟨(CopyInv.start hb).congr (fun i j _ _ _ => by simp [UpTo]), by
      unfold copyNeed at hf ⊢
      omega⟩
  obtain ⟨m', hm', hinv, hbud⟩ := hloop
  refine ⟨m', ?_, hinv.congr ?_, ?_⟩
  · unfold memory_paging_copy_mapped_memory
    rw [if_neg hv, if_neg hv0]
    simp only [hm', Option.bind_eq_bind, Option.bind_some]
    rfl
  · intro i j hi _ _
    unfold UpTo KERNEL_PDE_START
    simp only [hi, true_or]
  · simp only [KERNEL_PDE_START, Finset.Ico_self, Finset.sum_empty] at hbud
    omega

end loops

/-! ## The child's directory -/

/-- The user pages of the current directory and their tables are frames in use that hold
no table of the kernel. -/
structure UserSpace (m : Machine) : Prop where
  table_taken : ∀ i, i < 768 → present (m.frames m.dir i) = true →
    Taken m.memory_bitmap (frameOf (m.frames m.dir i)) ∧
    ¬ m.KernelFrame (frameOf (m.frames m.dir i))
  frame_taken : ∀ i j, i < 768 → j < 1024 → UserPage m i j →
    Taken m.memory_bitmap (frameOf (userEntry m i j)) ∧
    ¬ m.KernelFrame (frameOf (userEntry m i j))

/-- The kernel stack of the current task: one page in a table of its own. -/
structure KernelStack (m : Machine) : Prop where
  pde_present : present (m.frames m.dir 831) = true
  pte_present : present (userEntry m 831 1023) = true
  table_taken : Taken m.memory_bitmap (frameOf (m.frames m.dir 831))
  table_apart : ¬ m.KernelFrame (frameOf (m.frames m.dir 831))
  frame_taken : Taken m.memory_bitmap (frameOf (userEntry m 831 1023))
  frame_apart : ¬ m.KernelFrame (frameOf (userEntry m 831 1023))

theorem directory_grown {m m1 : Machine} (hg : Grown m m1) (hk : KernelSpace m) :
    m1.frames m1.dir = m.frames m.dir := by
  rw [hg.dir]
  exact (hg.kept _ hk.dir_taken hk.dir_apart).1

theorem userEntry_grown {m m1 : Machine} (hg : Grown m m1) (hk : KernelSpace m) {i : Nat} (j : Nat)
    (ht : Taken m.memory_bitmap (frameOf (m.frames m.dir i)))
    (hn : ¬ m.KernelFrame (frameOf (m.frames m.dir i))) :
    userEntry m1 i j = userEntry m i j := by
  unfold userEntry
  rw [directory_grown hg hk, (hg.kept _ ht hn).1]

theorem UserSpace.grown {m m1 : Machine} (h : UserSpace m) (hk : KernelSpace m)
    (hg : Grown m m1) : UserSpace m1 := by
  have hD := directory_grown hg hk
  constructor
  · intro i hi hp
    rw [hD] at hp ⊢
    obtain ⟨ht, hn⟩ := h.table_taken i hi hp
    exact ⟨hg.taken ht, (hg.kept _ ht hn).2⟩
  · rintro i j hi hj ⟨hp1, hp2⟩
    rw [hD] at hp1
    obtain ⟨ht, hn⟩ := h.table_taken i hi hp1
    have he := userEntry_grown hg hk j ht hn
    rw [he] at hp2 ⊢
    obtain ⟨ht2, hn2⟩ := h.frame_taken i j hi hj ⟨hp1, hp2⟩
    exact ⟨hg.taken ht2, (hg.kept _ ht2 hn2).2⟩

theorem KernelStack.grown {m m1 : Machine} (h : KernelStack m) (hk : KernelSpace m)
    (hg : Grown m m1) : KernelStack m1 := by
  have hD := directory_grown hg hk
  have he := userEntry_grown hg hk 1023 h.table_taken h.table_apart
  constructor
  · rw [hD]; exact h.pde_present
  · rw [he]; exact h.pte_present
  · rw [hD]; exact hg.taken h.table_taken
  · rw [hD]; exact (hg.kept _ h.table_taken h.table_apart).2
  · rw [he]; exact hg.taken h.frame_taken
  · rw [he]; exact (hg.kept _ h.frame_taken h.frame_apart).2

/-- The machine `m'` came from `m` by taking free frames only; of the frames in use, at most
the bounce table changed. -/
structure Kept (m m' : Machine) : Prop where
  cr3 : m'.cr3 = m.cr3
  kernel : m'.kernel_page_directory_phys = m.kernel_page_directory_phys
  pages : m'.memory_bitmap.pages = m.memory_bitmap.pages
  used : ∀ f, Used m.memory_bitmap f → Used m'.memory_bitmap f
  kept : ∀ f, Taken m.memory_bitmap f → f ≠ m.bounceTable → m'.frames f = m.frames f

theorem Kept.taken {m m' : Machine} (h : Kept m m') {f : Nat} (hf : Taken m.memory_bitmap f) :
    Taken m'.memory_bitmap f := by
  intro hlt
  rw [h.pages] at hlt
  exact h.used f (hf hlt)

theorem Kept.dir {m m' : Machine} (h : Kept m m') : m'.dir = m.dir := by
  unfold Machine.dir
  rw [h.cr3]

theorem Kept.directory {m m' : Machine} (h : Kept m m') (hk : KernelSpace m) :
    m'.frames m'.dir = m.frames m.dir := by
  rw [h.dir]
  exact h.kept _ hk.dir_taken hk.windows.apart.symm

theorem Kept.userEntry {m m' : Machine} (h : Kept m m') (hk : KernelSpace m) {i : Nat} (j : Nat)
    (ht : Taken m.memory_bitmap (frameOf (m.frames m.dir i)))
    (hn : ¬ m.KernelFrame (frameOf (m.frames m.dir i))) :
    userEntry m' i j = userEntry m i j := by
  unfold task_manager.userEntry
  rw [h.directory hk, h.kept _ ht (fun he => hn (he ▸ hk.kernelFrame_bounce))]

/-- The machine with a new directory in the free frame `n`. -/
def withDirectory (m : Machine) (n : Nat) : Machine :=
  (m.setBitmap (memory_bitmap_allocate m.memory_bitmap).1).setFrame n (newDirectory m (n * 4096))

/-- A new directory takes one free frame and leaves the kernel in order. -/
theorem withDirectory_spec {m : Machine} (hk : KernelSpace m)
    (hs : 0 < (freeSlots m).card) (hf : 0 < (freeFrames m.memory_bitmap).card) :
    ∃ n, memory_paging_create_page_directory m =
        some (withDirectory m n, MEMORY_PAGING_RESULT_OK, n * 4096) ∧
      n < m.memory_bitmap.pages ∧ ¬ Used m.memory_bitmap n ∧
      KernelSpace (withDirectory m n) ∧ Kept m (withDirectory m n) ∧
      Used (withDirectory m n).memory_bitmap n ∧
      (freeFrames (withDirectory m n).memory_bitmap).card + 1 =
        (freeFrames m.memory_bitmap).card := by
  obtain ⟨hne, hcard⟩ := allocate_spec hk.zero hf
  obtain ⟨n, hn, -, hlt, hu, hj, hpages⟩ := allocate_fresh hne
  obtain ⟨i, hi⟩ := free_slot_of_card hs
  have hcreate := create_page_directory_spec hk hi hne
  have hfr : frameOf (n * 4096) = n := by unfold frameOf; omega
  rw [hn, hfr] at hcreate
  obtain ⟨hnD, hnk⟩ := hk.fresh hlt hu
  have hnB : n ≠ m.bounceTable := fun he => hnk (he ▸ hk.kernelFrame_bounce)
  obtain ⟨hk0, hg0⟩ := hk.allocate
  refine ⟨n, hcreate, hlt, hu, ?_, ⟨rfl, rfl, hpages, hg0.used, ?_⟩, (hj n).mpr (Or.inl rfl), hcard⟩
  · exact hk0.setFrame _ hnD (fun he => hnk (Or.inl he)) hnB
      (fun j hj1 hj2 hjp he => hnk (Or.inr ⟨j, hj1, by omega, hjp, he.symm⟩))
  · intro f hf' _
    unfold withDirectory
    rw [setFrame_apply, if_neg (hf'.ne hlt hu).symm]
    rfl

theorem withDirectory_words (m : Machine) (n : Nat) :
    (withDirectory m n).frames n = newDirectory m (n * 4096) := by
  unfold withDirectory
  rw [setFrame_apply, if_pos rfl]

/-- The page of the kernel stack. -/
theorem stack_page :
    page_directory_index (KERNEL_STACK_TOP - PAGE_SIZE) = 831 ∧
      page_table_index (KERNEL_STACK_TOP - PAGE_SIZE) = 1023 := by
  decide

/-- Mapping the kernel stack `s` of the child through the window on its directory `n`. -/
theorem map_stack_spec {m : Machine} (hk : KernelSpace m) {n i : Nat} (hnt : Taken m.memory_bitmap n)
    (hnD : n ≠ m.dir) (hnk : ¬ m.KernelFrame n) (h831 : present (m.frames n 831) = false)
    (hi : bounce_free_slot m = some i) (hs : 2 ≤ (freeSlots m).card)
    (hf : 2 ≤ (freeFrames m.memory_bitmap).card) :
    ∃ m3 s T,
      (memory_bitmap_allocate m.memory_bitmap).2 = s * 4096 ∧ 0 < s ∧
      memory_paging_map ((m.openSlot i n).setBitmap (memory_bitmap_allocate m.memory_bitmap).1)
        (slotAddr i) (s * 4096) (KERNEL_STACK_TOP - PAGE_SIZE) PAGE_READ_WRITE =
          some (m3.openSlot i n, MEMORY_PAGING_RESULT_OK) ∧
      PageAdded m m3 n (KERNEL_STACK_TOP - PAGE_SIZE) s T
        (s * 4096 ||| PAGE_READ_WRITE ||| PAGE_PRESENT) (m.frames s) ∧
      Windows m3 ∧ m3.bounceTable = m.bounceTable := by
  obtain ⟨hpd, -⟩ := stack_page
  have hnB : n ≠ m.bounceTable := fun he => hnk (he ▸ hk.kernelFrame_bounce)
  obtain ⟨hi16, hiu⟩ := free_slot_spec hi
  obtain ⟨hal, hlt, -, -, -⟩ := slotAddr_facts hi16
  obtain ⟨s, T, hs1, hs0, hok, hA⟩ := page_added (m := m) (d := n) PAGE_READ_WRITE m.frames hk.zero
    hnt (by rw [hpd, h831, if_neg (by decide)]; exact hf)
    (by rw [hpd, h831]; intro hc; cases hc)
  have hid : (m.setBitmap (memory_bitmap_allocate m.memory_bitmap).1).setFrame s (m.frames s) =
      m.setBitmap (memory_bitmap_allocate m.memory_bitmap).1 := setFrame_self _ s
  rw [hid] at hok hA
  generalize hm0 : m.setBitmap (memory_bitmap_allocate m.memory_bitmap).1 = m0 at *
  obtain ⟨hk0, hg0⟩ := hk.allocate
  rw [hm0] at hk0 hg0
  have hB0 : m0.bounceTable = m.bounceTable := by rw [← hm0]; rfl
  have hfr0 : m0.frames = m.frames := by rw [← hm0]; rfl
  have hdir0 : m0.dir = m.dir := by rw [← hm0]; rfl
  have hi0 : bounce_free_slot m0 = some i := by rw [← hm0]; exact hi
  have hslots0 : freeSlots m0 = freeSlots m := hg0.freeSlots_eq
  have habs : present (m0.frames n (page_directory_index (KERNEL_STACK_TOP - PAGE_SIZE))) =
      false := by rw [hpd, hfr0]; exact h831
  have hmap := map_through_slot hk0.windows hi0 (by rw [hslots0]; exact hs) (s * 4096)
    (KERNEL_STACK_TOP - PAGE_SIZE) PAGE_READ_WRITE (by rw [hB0]; exact hnB)
    (by rw [hdir0]; exact hnD) (by rw [habs]; intro hc; cases hc) hk0.dir_taken hk0.bounce_taken
  rw [hok] at hmap
  have hcomm : (m.openSlot i n).setBitmap (memory_bitmap_allocate m.memory_bitmap).1 =
      m0.openSlot i n := by rw [← hm0]; rfl
  have hTB : m.bounceTable ≠ T := by
    obtain ⟨h1, h2, -⟩ := hA.table_new (by rw [hpd]; exact h831)
    exact (hk.bounce_taken.ne h1 h2).symm
  have hTD : m.dir ≠ T := by
    obtain ⟨h1, h2, -⟩ := hA.table_new (by rw [hpd]; exact h831)
    exact (hk.dir_taken.ne h1 h2).symm
  obtain ⟨hw3, hB3⟩ := hk.windows.of_same hA.cr3 hA.slots
    (hA.others _ hnD.symm hTD (hk.dir_taken.ne hA.fresh_lt hA.fresh).symm)
    (hA.others _ hnB.symm hTB (hk.bounce_taken.ne hA.fresh_lt hA.fresh).symm)
  exact ⟨_, s, T, hs1, hs0, by rw [hcomm]; exact hmap, hA, hw3, hB3⟩

theorem newDirectory_low (m : Machine) (a : Nat) {i : Nat} (hi : i < 768) :
    newDirectory m a i = 0 := by
  unfold newDirectory
  rw [if_pos hi]

theorem newDirectory_kernel (m : Machine) (a : Nat) {i : Nat} (h1 : 768 ≤ i) (h2 : i < 1023) :
    newDirectory m a i = m.frames m.kdir i := by
  unfold newDirectory
  rw [if_neg (by omega), if_pos h2]

section child

variable {m m3 : Machine} {n i s T : Nat}

/-- Of the frames in use before, the child's directory and stack took none. -/
theorem Kept.child (hn1 : n < m.memory_bitmap.pages) (hn2 : ¬ Used m.memory_bitmap n)
    (hkept : Kept m (withDirectory m n))
    (hA : PageAdded (withDirectory m n) m3 n (KERNEL_STACK_TOP - PAGE_SIZE) s T
      (s * 4096 ||| PAGE_READ_WRITE ||| PAGE_PRESENT) ((withDirectory m n).frames s))
    (h831 : present ((withDirectory m n).frames n 831) = false)
    (hB3 : m3.bounceTable = m.bounceTable) : Kept m (m3.openSlot i n) := by
  refine ⟨hA.cr3, hA.kernel, hA.pages.trans hkept.pages,
    fun f hf => (hA.used f).mpr (Or.inl (hkept.used f hf)), ?_⟩
  intro f hf hfB
  obtain ⟨hT1, hT2, -⟩ := hA.table_new (by rw [stack_page.1]; exact h831)
  have hf2 := hkept.taken hf
  rw [openSlot_frames_ne (by rw [hB3]; exact hfB),
    hA.others f (hf.ne hn1 hn2).symm (hf2.ne hT1 hT2).symm (hf2.ne hA.fresh_lt hA.fresh).symm]
  exact hkept.kept f hf hfB

/-- With the window on the child's directory open, the copy can begin. -/
theorem CopyBase.child (hk : KernelSpace m) (hu : UserSpace m)
    (hn1 : n < m.memory_bitmap.pages) (hn2 : ¬ Used m.memory_bitmap n)
    (hn3 : Used (withDirectory m n).memory_bitmap n)
    (hA : PageAdded (withDirectory m n) m3 n (KERNEL_STACK_TOP - PAGE_SIZE) s T
      (s * 4096 ||| PAGE_READ_WRITE ||| PAGE_PRESENT) ((withDirectory m n).frames s))
    (hkept : Kept m (m3.openSlot i n)) (hi : i < 16) (hw3 : Windows m3)
    (hB3 : m3.bounceTable = m.bounceTable) (hs : 2 ≤ (freeSlots (m3.openSlot i n)).card) :
    CopyBase (m3.openSlot i n) (slotAddr i) n := by
  obtain ⟨hnD, hnk⟩ := hk.fresh hn1 hn2
  have hnB : n ≠ m.bounceTable := fun he => hnk (he ▸ hk.kernelFrame_bounce)
  have hB := openSlot_bounceTable hw3 i n
  have hw := windows_openSlot hw3 i n
  have hD := hkept.directory hk
  obtain ⟨hal, hlt, -, -, -⟩ := slotAddr_facts hi
  have hne : ∀ f, ¬ m.KernelFrame f → f ≠ (m3.openSlot i n).bounceTable := by
    rintro f hf rfl
    rw [hB, hB3] at hf
    exact hf hk.kernelFrame_bounce
  constructor
  · exact hw
  · refine ⟨hal, hlt, ?_, ?_, ?_, fun _ => ⟨i, hi, ?_, rfl⟩⟩
    · rw [hB]
      exact via_slot hw3 hi n
    · rw [hB, hB3]; exact hnB
    · rw [hB, hB3]; exact hnB
    · rw [openSlot_used, Function.update_self]
  · exact hkept.used 0 hk.zero
  · rw [hkept.dir]; exact hkept.taken hk.dir_taken
  · rw [hB, hB3]; exact hkept.taken hk.bounce_taken
  · exact fun _ => (hA.used n).mpr (Or.inl hn3)
  · rw [hkept.dir]; exact hnD
  · intro j hj
    rw [openSlot_frames_ne (by rw [hB3]; exact hnB),
      hA.pde_other j (by rw [stack_page.1]; omega), withDirectory_words]
    exact newDirectory_low m _ hj
  · rintro a b ha hb ⟨hp1, hp2⟩
    rw [hD] at hp1
    obtain ⟨ht, hn⟩ := hu.table_taken a ha hp1
    have he := hkept.userEntry hk b ht hn
    rw [he] at hp2
    obtain ⟨ht2, hn2⟩ := hu.frame_taken a b ha hb ⟨hp1, hp2⟩
    unfold userEntry at he hp2 ht2 hn2
    constructor
    · rw [hD]; exact hp1
    · rw [he]; exact hp2
    · rw [hD]; exact hkept.taken ht
    · rw [hD]; exact hne _ hn
    · rw [he]; exact hkept.taken ht2
    · rw [he]; exact hne _ hn2
  · intro a ha hp
    rw [hD] at hp ⊢
    obtain ⟨ht, -⟩ := hu.table_taken a ha hp
    exact ⟨hkept.taken ht, (ht.ne hn1 hn2).symm⟩
  · rintro a b ha hb ⟨hp1, hp2⟩
    rw [hD] at hp1
    obtain ⟨ht, hn⟩ := hu.table_taken a ha hp1
    have he := hkept.userEntry hk b ht hn
    rw [he] at hp2 ⊢
    exact ((hu.frame_taken a b ha hb ⟨hp1, hp2⟩).1.ne hn1 hn2).symm
  · exact hs

end child

/-! ## The child's kernel stack -/

/-- The words of the child's kernel stack: those of the parent, with `eax` of the frame 0. -/
def childStack (parent old : Nat → Nat) : Nat → Nat :=
  Function.update (page parent old) (1006 + REGISTER_EAX) 0

theorem stack_through_slot {m : Machine} (h : Windows m) {i s ts fs : Nat}
    (hi : bounce_free_slot m = some i) (hsrc : Via m (KERNEL_STACK_TOP - PAGE_SIZE) ts fs)
    (hts : ts ≠ m.bounceTable) (hfs : fs ≠ m.bounceTable) (hsD : s ≠ m.dir)
    (hsB : s ≠ m.bounceTable) (hst : s ≠ ts) (hsf : s ≠ fs) :
    ∃ m1 m2, memcpy_page (m.openSlot i s) (slotAddr i) (KERNEL_STACK_TOP - PAGE_SIZE) = some m1 ∧
      m1.store32 (at32 (slotAddr i) (1006 + REGISTER_EAX)) 0 = some m2 ∧
      bounce_free m2 (slotAddr i) = some (m.setFrame s (childStack (m.frames fs) (m.frames s))) := by
  obtain ⟨hi16, hu⟩ := free_slot_spec hi
  obtain ⟨hal, hlt, -, -, -⟩ := slotAddr_facts hi16
  have hslot := via_slot h hi16 s
  have hsrc' := via_openSlot h (i := i) s hsrc (fun he => absurd he hts)
  have hcopy := memcpy_page_via hslot hsrc' hal hlt
    (by unfold KERNEL_STACK_TOP PAGE_SIZE; omega) (by unfold KERNEL_STACK_TOP PAGE_SIZE; omega)
    hsD hsB hst hsf
  rw [openSlot_frames_ne hfs, openSlot_frames_ne hsB] at hcopy
  refine ⟨_, _, hcopy, store_via 0 (via_setFrame hslot hsD hsB) hal hlt
    (by unfold REGISTER_EAX; omega), ?_⟩
  have hB := openSlot_bounceTable h i s
  have hw := windows_setFrame (windows_openSlot h i s) (childStack (m.frames fs) (m.frames s)) hsD
    (by rw [hB]; exact hsB)
  have heq : ((m.openSlot i s).setFrame s (page (m.frames fs) (m.frames s))).setWord s
      (1006 + REGISTER_EAX) 0 =
      (m.openSlot i s).setFrame s (childStack (m.frames fs) (m.frames s)) := by
    unfold Machine.setWord childStack
    rw [setFrame_setFrame, setFrame_apply, if_pos rfl]
  rw [heq, bounce_free_spec hw hi16, close_open_setFrame h hi16 hu s _ hsB hsD]

/-! ## The whole fork -/

/-- What a fork leaves: `n` is the child's directory and `s` its kernel stack, `mb` the
machine when the copy began and `m4` the one when it ended. -/
structure Forked (m m1 mb m3 m4 m' : Machine) (n s T : Nat) : Prop where
  grown : Grown m m1
  space : KernelSpace m1
  dir_lt : n < m1.memory_bitmap.pages
  dir_fresh : ¬ Used m1.memory_bitmap n
  dir_kept : Kept m1 (withDirectory m1 n)
  stack : PageAdded (withDirectory m1 n) m3 n (KERNEL_STACK_TOP - PAGE_SIZE) s T
    (s * 4096 ||| PAGE_READ_WRITE ||| PAGE_PRESENT) ((withDirectory m1 n).frames s)
  begun : Kept m1 mb
  bitmap : mb.memory_bitmap = m3.memory_bitmap
  window : ∀ f, f ≠ m1.bounceTable → mb.frames f = m3.frames f
  copied : CopyInv mb m4 n (fun _ _ => True)
  cr3 : m'.cr3 = m4.cr3
  kernel : m'.kernel_page_directory_phys = m4.kernel_page_directory_phys
  bitmap' : m'.memory_bitmap = m4.memory_bitmap
  slots : m'.bounce_pages_used = m.bounce_pages_used
  bounce : m'.frames m1.bounceTable = m1.frames m1.bounceTable
  stack_words : m'.frames s =
    childStack (m.frames (frameOf (userEntry m 831 1023))) (m4.frames s)
  frames : ∀ f, f ≠ m1.bounceTable → f ≠ s → m'.frames f = m4.frames f

theorem task_copy_spec {m : Machine} {parent : task_t} {growth heap_break : Nat} (task_id : Nat)
    (hk : KernelSpace m) (hu : UserSpace m) (hst : KernelStack m)
    (hbase : parent.stack_base = KERNEL_STACK_TOP - PAGE_SIZE)
    (hesp : parent.task_esp = KERNEL_STACK_TOP - REGISTER_FRAME_SIZE)
    (hal : heap_break % 4096 = 0) (hlo : KERNEL_HEAP_VIRTUAL_START ≤ heap_break)
    (hhi : heap_break + growth * 4096 ≤ KERNEL_HEAP_VIRTUAL_END + 1)
    (hs : 3 ≤ (freeSlots m).card)
    (hf : 2 * growth + 3 + copyNeed m ≤ (freeFrames m.memory_bitmap).card) :
    ∃ m1 mb m3 m4 m' n s T, task_manager_task_copy m growth heap_break task_id parent =
        some (m', child_record parent task_id (n * 4096) 4024) ∧
      Forked m m1 mb m3 m4 m' n s T := by
  -- The heap grows.
  obtain ⟨m1, hgrow, hk1, hg, hc1⟩ := grow_spec hk growth (by omega) hal hlo hhi (by omega)
  have hu1 := hu.grown hk hg
  have hst1 := hst.grown hk hg
  have hneed : copyNeed m1 = copyNeed m := by
    apply copyNeed_congr (directory_grown hg hk)
    intro p q hp hpp
    obtain ⟨ht, hn⟩ := hu.table_taken p hp hpp
    exact userEntry_grown hg hk q ht hn
  -- The child gets its directory, seen through slot `i`, and its kernel stack.
  obtain ⟨n, hcreate, hn1, hn2, hk2, hkept2, hn3, hc2⟩ := withDirectory_spec hk1
    (by rw [hg.freeSlots_eq]; omega) (by omega)
  have hslots2 : freeSlots (withDirectory m1 n) = freeSlots m := hg.freeSlots_eq
  obtain ⟨i, hi⟩ := free_slot_of_card (m := withDirectory m1 n) (by rw [hslots2]; omega)
  obtain ⟨hi16, hiu⟩ := free_slot_spec hi
  obtain ⟨hnD, hnk⟩ := hk1.fresh hn1 hn2
  have hnK : n ≠ m1.kdir := fun he => hnk (Or.inl he)
  have h831 : present ((withDirectory m1 n).frames n 831) = false := by
    rw [withDirectory_words, newDirectory_kernel m1 _ (by omega) (by omega)]
    exact hk1.stack
  obtain ⟨m3, s, T, hs1, hs0, hmap, hA, hw3, hB3⟩ := map_stack_spec hk2 (fun _ => hn3) hnD
    (fun hc => hnk ((kernelFrame_setFrame _ hnK n).mp hc)) h831 hi (by rw [hslots2]; omega)
    (by omega)
  have hB2 : (withDirectory m1 n).bounceTable = m1.bounceTable := bounceTable_setFrame _ hnD
  rw [hB2] at hB3
  have hkeptb : Kept m1 (m3.openSlot i n) := Kept.child hn1 hn2 hkept2 hA h831 hB3
  have hslots3 : freeSlots m3 = freeSlots m := by
    rw [← hslots2]
    unfold freeSlots
    rw [hA.slots]
  have hi3 : bounce_free_slot m3 = some i := by
    unfold bounce_free_slot at hi ⊢
    rw [hA.slots]
    exact hi
  have hslotsb := freeSlots_openSlot hi3 n
  have hbase' := CopyBase.child hk1 hu1 hn1 hn2 hn3 hA hkeptb hi16 hw3 hB3
    (by rw [hslots3] at hslotsb; omega)
  -- The user pages.
  have hneedb : copyNeed (m3.openSlot i n) = copyNeed m1 := by
    apply copyNeed_congr (hkeptb.directory hk1)
    intro p q hp hpp
    obtain ⟨ht, hn⟩ := hu1.table_taken p hp hpp
    exact hkeptb.userEntry hk1 q ht hn
  have hc3 := hA.free
  rw [stack_page.1, h831, if_neg (by decide)] at hc3
  obtain ⟨-, -, -, -, hpos⟩ := slotAddr_facts hi16
  obtain ⟨m4, hcopy, hinv, hc4⟩ := copy_mapped_memory_spec hbase' (by omega)
    (by unfold slotAddr KERNEL_BOUNCE_PAGE_START PAGE_SIZE PAGE_DIRECTORY_VADDR; omega)
    (by rw [hneedb, hneed]; show _ ≤ (freeFrames m3.memory_bitmap).card; omega)
  -- The stack, through a second slot.
  obtain ⟨hw4, hB4, hdir4, -, hD4⟩ := hinv.machine hbase'
  have hBb : (m3.openSlot i n).bounceTable = m1.bounceTable :=
    (openSlot_bounceTable hw3 i n).trans hB3
  rw [hBb] at hB4
  have hslots4 : freeSlots m4 = freeSlots (m3.openSlot i n) := by
    unfold freeSlots
    rw [hinv.slots]
  obtain ⟨i2, hi2⟩ := free_slot_of_card (m := m4) (by rw [hslots4]; rw [hslots3] at hslotsb; omega)
  have hDb := hkeptb.directory hk1
  have hsfresh : ∀ f, Taken m1.memory_bitmap f → s ≠ f := fun f hf =>
    (hkept2.taken hf).ne hA.fresh_lt hA.fresh
  have hts := hkeptb.taken hst1.table_taken
  have hfs := hkeptb.taken hst1.frame_taken
  have heb := hkeptb.userEntry hk1 1023 hst1.table_taken hst1.table_apart
  have hn_ne : ∀ f, Taken m1.memory_bitmap f → f ≠ n := fun f hf => (hf.ne hn1 hn2).symm
  have he4 : m4.frames (frameOf (m1.frames m1.dir 831)) 1023 = userEntry m1 831 1023 := by
    rw [hinv.kept _ hts (hn_ne _ hst1.table_taken), ← heb]
    unfold userEntry
    rw [hDb]
  have hvia : Via m4 (KERNEL_STACK_TOP - PAGE_SIZE) (frameOf (m1.frames m1.dir 831))
      (frameOf (userEntry m1 831 1023)) := by
    constructor
    · rw [stack_page.1, hD4, hDb]; exact hst1.pde_present
    · rw [stack_page.1, hD4, hDb]
    · rw [stack_page.2, he4]; exact hst1.pte_present
    · rw [stack_page.2, he4]
  have hBne : ∀ f, ¬ m1.KernelFrame f → f ≠ m4.bounceTable := by
    rintro f hf rfl
    rw [hB4] at hf
    exact hf hk1.kernelFrame_bounce
  have hsB : s ≠ m4.bounceTable := by rw [hB4]; exact hsfresh _ hk1.bounce_taken
  have hsD : s ≠ m4.dir := by rw [hdir4, hkeptb.dir]; exact hsfresh _ hk1.dir_taken
  obtain ⟨m5, m6, hmemcpy, heax, hfree⟩ := stack_through_slot hw4 hi2 hvia
    (hBne _ hst1.table_apart) (hBne _ hst1.frame_apart) hsD hsB (hsfresh _ hst1.table_taken)
    (hsfresh _ hst1.frame_taken)
  -- The window on the directory closes.
  have hw7 := windows_setFrame hw4 (childStack (m4.frames (frameOf (userEntry m1 831 1023)))
    (m4.frames s)) hsD hsB
  have hclose := bounce_free_spec hw7 hi16
  have hB7 := bounceTable_setFrame (childStack (m4.frames (frameOf (userEntry m1 831 1023)))
    (m4.frames s)) hsD
  have hfr4 : m4.frames (frameOf (userEntry m1 831 1023)) =
      m.frames (frameOf (userEntry m 831 1023)) := by
    have heq := userEntry_grown hg hk 1023 hst.table_taken hst.table_apart
    rw [hinv.kept _ hfs (hn_ne _ hst1.frame_taken),
      hkeptb.kept _ hst1.frame_taken
        (fun he => hst1.frame_apart (he ▸ hk1.kernelFrame_bounce)), heq]
    exact (hg.kept _ hst.frame_taken hst.frame_apart).1
  have hoff : sub32 parent.task_esp (KERNEL_STACK_TOP - PAGE_SIZE) = 4024 := by
    rw [hesp]
    decide
  have haddr : u32 (slotAddr i2 + 4024 + 4 * REGISTER_EAX) =
      at32 (slotAddr i2) (1006 + REGISTER_EAX) := by
    unfold at32 REGISTER_EAX
    congr 1
  have hfrn : frameOf (n * 4096) = n := by unfold frameOf; omega
  have hfrs : frameOf (s * 4096) = s := by unfold frameOf; omega
  have hbm : ((withDirectory m1 n).openSlot i n).memory_bitmap = (withDirectory m1 n).memory_bitmap :=
    rfl
  have hend : task_manager_task_copy m growth heap_break task_id parent =
      some ((m4.setFrame s (childStack (m4.frames (frameOf (userEntry m1 831 1023)))
        (m4.frames s))).closeSlot i, child_record parent task_id (n * 4096) 4024) := by
    unfold task_manager_task_copy
    simp only [hgrow, Bool.not_true, Bool.false_eq_true, if_false, hcreate, bounce_alloc_spec hk2.windows hi, hfrn, hbm, hs1, hmap, hcopy,
      bounce_alloc_spec hw4 hi2, hfrs, hoff, hbase, hmemcpy, haddr, heax, hfree, hclose,
      Option.bind_eq_bind, Option.bind_some]
    rfl
  -- What is left of the windows: nothing.
  have hBmb : m3.frames m1.bounceTable = m1.frames m1.bounceTable := by
    obtain ⟨hT1, hT2, -⟩ := hA.table_new (by rw [stack_page.1]; exact h831)
    have hB' := hkept2.taken hk1.bounce_taken
    rw [hA.others _ (hn_ne _ hk1.bounce_taken) (hB'.ne hT1 hT2).symm
      (hB'.ne hA.fresh_lt hA.fresh).symm]
    unfold withDirectory
    rw [setFrame_apply, if_neg (hn_ne _ hk1.bounce_taken)]
    rfl
  refine ⟨m1, m3.openSlot i n, m3, m4, _, n, s, T, hend, hg, hk1, hn1, hn2, hkept2, hA,
    hkeptb, rfl, ?_, hinv, rfl, rfl, rfl, ?_, ?_, ?_, ?_⟩
  · intro f hfB
    exact openSlot_frames_ne (by rw [hB3]; exact hfB)
  · have h4 : m4.bounce_pages_used = Function.update m.bounce_pages_used i true := by
      rw [hinv.slots, openSlot_used, hA.slots, ← hg.slots]
      rfl
    have hmi : m.bounce_pages_used i = false := by rw [← hg.slots]; exact hiu
    show Function.update m4.bounce_pages_used i false = m.bounce_pages_used
    rw [h4, Function.update_idem, ← hmi, Function.update_eq_self]
  · have hmb : m4.frames m1.bounceTable = (m3.openSlot i n).frames m1.bounceTable :=
      hinv.kept _ (hkeptb.taken hk1.bounce_taken) (hn_ne _ hk1.bounce_taken)
    have hz := hw3.closed i hi16 (free_slot_spec hi3).2
    funext j
    unfold closeSlot
    rw [hB7, hB4, setBounce_frames, setWord_apply, setFrame_apply,
      if_neg (hsfresh _ hk1.bounce_taken).symm, hmb]
    split
    · rename_i hc
      rw [hc.2, ← hBmb, ← hB3, hz]
    · rename_i hc
      unfold openSlot
      rw [setBounce_frames, setWord_apply, if_neg (by rw [hB3]; exact hc), hBmb]
  · funext j
    unfold closeSlot
    rw [setBounce_frames, setWord_apply, hB7, if_neg (fun hc => hsB hc.1), setFrame_apply,
      if_pos rfl, hfr4]
  · intro f hfB hfs'
    funext j
    unfold closeSlot
    rw [setBounce_frames, setWord_apply, hB7, hB4, if_neg (fun hc => hfB hc.1), setFrame_apply,
      if_neg hfs']

end alura_os.task_manager
