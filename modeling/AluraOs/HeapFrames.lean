-- The pages of the kernel heap: what one turn of the page loop takes from the
-- frames, and what a whole growth maps, keeps and loses.
import AluraOs.HeapCalls
import AluraOs.LoadImage

namespace alura_os.kernel_heap

open alura_os.memory alura_os.memory_bitmap alura_os.memory_paging alura_os.elf_executable
open alura_os.task_manager Machine

/-- One turn of the page loop on the machine; `none` is a page fault. -/
def heap_page (m : Option Machine) (address : Nat) : Option Machine × Bool :=
  match m with
  | none => (none, false)
  | some m =>
    match kernel_heap_grow 1 address m with
    | none => (none, false)
    | some (m1, served) => (some m1, served)

theorem heap_page_some {m m' : Machine} {address : Nat} {served : Bool}
    (h : kernel_heap_grow 1 address m = some (m', served)) :
    heap_page (some m) address = (some m', served) := by
  unfold heap_page
  simp only [h]

/-! ## One page -/

/-- The page loop takes a frame and maps it, whether or not there is a frame for its table. -/
theorem grow_one {m : Machine} (h : KernelSpace m) (hs : 0 < (freeSlots m).card) {address : Nat}
    (h1 : 960 ≤ page_directory_index address) (h2 : page_directory_index address < 992) :
    kernel_heap_grow 1 address m =
      if (memory_bitmap_allocate m.memory_bitmap).2 = 0 then
        some (m.setBitmap (memory_bitmap_allocate m.memory_bitmap).1, false)
      else some (((m.setBitmap (memory_bitmap_allocate m.memory_bitmap).1).mapPage m.kdir
        (memory_bitmap_allocate m.memory_bitmap).2 address PAGE_READ_WRITE).1, true) := by
  obtain ⟨h0, -⟩ := h.allocate
  obtain ⟨i, hi⟩ := free_slot_of_card hs
  obtain ⟨j, hj1, hj2, hjp, hlow⟩ := h0.low
  have hmap := map_spec h0.windows hi hlow (memory_bitmap_allocate m.memory_bitmap).2
    PAGE_READ_WRITE (h0.heap_table h1 h2) h0.dir_taken h0.bounce_taken
    (h0.kernel_taken _ (Or.inr ⟨j, hj1, by omega, hjp, rfl⟩))
  have hptr : (m.setBitmap (memory_bitmap_allocate m.memory_bitmap).1).kernel_page_directory =
      m.kernel_page_directory := rfl
  have hkd : (m.setBitmap (memory_bitmap_allocate m.memory_bitmap).1).kdir = m.kdir := rfl
  rw [hptr, hkd] at hmap
  by_cases hne : (memory_bitmap_allocate m.memory_bitmap).2 = 0
  · rw [if_pos hne]
    unfold kernel_heap_grow
    simp only [hne, if_true]
    rfl
  · rw [if_neg hne]
    unfold kernel_heap_grow
    simp only [hne, if_false, hmap, Option.bind_eq_bind, Option.bind_some]
    rfl

/-- A map in the heap window, whether or not there is a frame for its table. -/
theorem KernelSpace.mapPage_any {m : Machine} (h : KernelSpace m) (phys : Nat) {virt : Nat}
    (h1 : 960 ≤ page_directory_index virt) (h2 : page_directory_index virt < 992) :
    KernelSpace (m.mapPage m.kdir phys virt PAGE_READ_WRITE).1 ∧
      Grown m (m.mapPage m.kdir phys virt PAGE_READ_WRITE).1 := by
  by_cases hf : 0 < (freeFrames m.memory_bitmap).card
  · obtain ⟨hk, hg, -⟩ := h.mapPage phys h1 h2 hf
    exact ⟨hk, hg⟩
  · cases hp : present (m.frames m.kdir (page_directory_index virt)) with
    | true =>
      rcases mapPage_cases m m.kdir phys virt PAGE_READ_WRITE (Or.inl hp) with
        ⟨-, he⟩ | ⟨n, -, -, -, hp', -⟩
      · rw [he]
        exact h.mapEntry phys h1 h2 hp
      · rw [hp] at hp'
        cases hp'
    | false =>
      rcases mapPage_or (m := m) (d := m.kdir) phys PAGE_READ_WRITE h.zero
        (h.kernel_taken _ (Or.inl rfl))
        (h.no_loop (page_directory_index virt) (by omega) (by omega)) with
        ⟨-, he⟩ | ⟨T, -, hM⟩
      · rw [he]
        exact ⟨h, Grown.refl m⟩
      · obtain ⟨hlt, hu, -⟩ := hM.table_new hp
        exact absurd (Finset.card_pos.mpr ⟨T, mem_freeFrames.mpr ⟨hlt, hu⟩⟩) hf

/-- A page of the kernel that is there stays there. -/
theorem Mapped.keeps_present {m m' : Machine} (h : KernelSpace m) {virt x T v : Nat}
    (hM : Mapped m m' m.kdir virt x T) (hx : present x = true)
    (h1 : 768 ≤ page_directory_index virt) (h2 : page_directory_index virt < 1023)
    (h3 : 768 ≤ page_directory_index v) (h4 : page_directory_index v < 1023)
    (hv : m.entry m.kdir v ≠ none) : m'.entry m.kdir v ≠ none := by
  obtain ⟨y, hy⟩ := Option.ne_none_iff_exists'.mp hv
  obtain ⟨hp1, hp2, hy⟩ := entry_eq_some.mp hy
  rw [Option.ne_none_iff_exists']
  by_cases hd : page_directory_index v = page_directory_index virt
  · rw [hd] at hp1 hp2
    obtain ⟨hT, hold⟩ := hM.table_old hp1
    refine ⟨_, entry_eq_some.mpr ⟨by rw [hd]; exact hM.pde_present, ?_, rfl⟩⟩
    rw [hd, hM.pde_frame]
    by_cases ht : page_table_index v = page_table_index virt
    · rw [ht, hM.entry]
      exact hx
    · rw [hold _ ht, hT]
      exact hp2
  · have hT : frameOf (m.frames m.kdir (page_directory_index v)) ≠ T := by
      cases hp : present (m.frames m.kdir (page_directory_index virt)) with
      | true =>
        rw [(hM.table_old hp).1]
        exact fun hc => hd (h.tables _ _ h3 h4 h1 h2 hp1 hp hc)
      | false =>
        obtain ⟨hlt, hu, -⟩ := hM.table_new hp
        exact ((h.kernel_taken _ (Or.inr ⟨_, h3, h4, hp1, rfl⟩)).ne hlt hu).symm
    refine ⟨_, entry_eq_some.mpr ⟨by rw [hM.pde_other _ hd]; exact hp1, ?_, rfl⟩⟩
    rw [hM.pde_other _ hd, hM.others _ (h.no_loop _ h3 h4 hp1) hT]
    exact hp2

/-- An address in the window of the kernel heap. -/
def InHeapWindow (v : Nat) : Prop := KERNEL_HEAP_VIRTUAL_START ≤ v ∧ v ≤ KERNEL_HEAP_VIRTUAL_END

theorem InHeapWindow.directory {v : Nat} (h : InHeapWindow v) :
    960 ≤ page_directory_index v ∧ page_directory_index v < 992 := by
  unfold InHeapWindow KERNEL_HEAP_VIRTUAL_START KERNEL_HEAP_VIRTUAL_END at h
  unfold page_directory_index
  omega

/-- The heap pages of `m` that are there are there in `m'`. -/
def PagesStay (m m' : Machine) : Prop :=
  ∀ v, InHeapWindow v → m.entry m.kdir v ≠ none → m'.entry m'.kdir v ≠ none

theorem PagesStay.trans {m m1 m2 : Machine} (h1 : PagesStay m m1) (h2 : PagesStay m1 m2) :
    PagesStay m m2 := fun v hv hm => h2 v hv (h1 v hv hm)

/-- A frame that was free and is in use, but not as a table of the kernel. -/
def TookFrame (m m' : Machine) : Prop :=
  ∃ f, ¬ Used m.memory_bitmap f ∧ Used m'.memory_bitmap f ∧ ¬ m'.KernelFrame f

theorem TookFrame.after {m m1 m2 : Machine} (h : TookFrame m m1) (hg : Grown m1 m2) :
    TookFrame m m2 := by
  obtain ⟨f, hfree, hused, hk⟩ := h
  exact ⟨f, hfree, hg.used f hused, (hg.kept f (fun _ => hused) hk).2⟩

/-- The page at `address` is mapped, for one frame and one more if its table was not there. -/
structure PageTurn (m m' : Machine) (address : Nat) : Prop where
  frames : freeCount m' + (1 + if tablesOf m m.kdir (page_directory_index address) then 0 else 1) =
    freeCount m
  page : m'.entry m'.kdir address ≠ none
  tables : tablesOf m' m'.kdir = withTable (tablesOf m m.kdir) address

/-- One turn of the page loop: there is no frame, or a frame is taken. Then the page is mapped, or
the frame was the last one and the page has no table. -/
theorem page_turn {m : Machine} (h : KernelSpace m) (hs : 0 < (freeSlots m).card) {address : Nat}
    (hw : InHeapWindow address) :
    (freeCount m = 0 ∧ kernel_heap_grow 1 address m = some (m, false)) ∨
    ∃ m', kernel_heap_grow 1 address m = some (m', true) ∧ KernelSpace m' ∧ Grown m m' ∧
      TookFrame m m' ∧ PagesStay m m' ∧
      ((freeCount m = 1 ∧ tablesOf m m.kdir (page_directory_index address) = false ∧
        freeCount m' = 0) ∨ PageTurn m m' address) := by
  obtain ⟨hd1, hd2⟩ := hw.directory
  have hgrow := grow_one h hs hd1 hd2
  by_cases hne : (memory_bitmap_allocate m.memory_bitmap).2 = 0
  · left
    rw [if_pos hne, allocate_zero h.zero hne] at hgrow
    refine ⟨?_, hgrow⟩
    by_contra hfree
    exact (allocate_spec h.zero (Nat.pos_of_ne_zero hfree)).1 hne
  · right
    rw [if_neg hne] at hgrow
    obtain ⟨f, hf, -, hlt, hu, hj, -⟩ := allocate_fresh hne
    have hcard : freeCount (m.setBitmap (memory_bitmap_allocate m.memory_bitmap).1) + 1 =
        freeCount m :=
      (allocate_spec h.zero (Finset.card_pos.mpr ⟨f, mem_freeFrames.mpr ⟨hlt, hu⟩⟩)).2
    obtain ⟨h0, hg0⟩ := h.allocate
    have hkd : (m.setBitmap (memory_bitmap_allocate m.memory_bitmap).1).kdir = m.kdir := rfl
    have hframes : (m.setBitmap (memory_bitmap_allocate m.memory_bitmap).1).frames = m.frames := rfl
    have hused : Used (m.setBitmap (memory_bitmap_allocate m.memory_bitmap).1).memory_bitmap f :=
      (hj f).mpr (Or.inl rfl)
    have hnk : ¬ (m.setBitmap (memory_bitmap_allocate m.memory_bitmap).1).KernelFrame f :=
      (h.fresh hlt hu).2
    obtain ⟨h1, hg1⟩ := KernelSpace.mapPage_any h0 (memory_bitmap_allocate m.memory_bitmap).2
      hd1 hd2
    rw [hkd] at h1 hg1
    have htook : TookFrame m ((m.setBitmap (memory_bitmap_allocate m.memory_bitmap).1).mapPage m.kdir
        (memory_bitmap_allocate m.memory_bitmap).2 address PAGE_READ_WRITE).1 :=
      ⟨f, hu, hg1.used f hused, (hg1.kept f (fun _ => hused) hnk).2⟩
    refine ⟨_, hgrow, h1, hg0.trans hg1, htook, ?_⟩
    have hkd1 := (hg0.trans hg1).kdir
    have htab : ∀ j, tablesOf m m.kdir j = present (m.frames m.kdir j) := fun _ => rfl
    by_cases hroom : present (m.frames m.kdir (page_directory_index address)) = true ∨
        0 < freeCount (m.setBitmap (memory_bitmap_allocate m.memory_bitmap).1)
    · obtain ⟨-, T, hM⟩ := mapPage_mapped
        (m := m.setBitmap (memory_bitmap_allocate m.memory_bitmap).1)
        (memory_bitmap_allocate m.memory_bitmap).2 PAGE_READ_WRITE h0.zero
        (h0.kernel_taken m.kdir (Or.inl rfl)) hroom
        (h0.no_loop (page_directory_index address) (by omega) (by omega))
      generalize ((m.setBitmap (memory_bitmap_allocate m.memory_bitmap).1).mapPage m.kdir
        (memory_bitmap_allocate m.memory_bitmap).2 address PAGE_READ_WRITE).1 = m2 at *
      have hx : present ((memory_bitmap_allocate m.memory_bitmap).2 ||| PAGE_READ_WRITE |||
          PAGE_PRESENT) = true := present_entry _ _
      refine ⟨fun v hv hm => ?_, Or.inr ⟨?_, ?_, ?_⟩⟩
      · obtain ⟨h3, h4⟩ := hv.directory
        rw [hkd1]
        exact Mapped.keeps_present h0 hM hx (by omega) (by omega) (by omega) (by omega) hm
      · have := elf_executable.Mapped.free_eq hM
        rw [htab]
        rw [hframes] at this
        omega
      · rw [hkd1, Option.ne_none_iff_exists']
        exact ⟨_, entry_eq_some.mpr ⟨hM.pde_present, by rw [hM.pde_frame, hM.entry]; exact hx, rfl⟩⟩
      · rw [hkd1]
        funext j
        unfold tablesOf withTable
        by_cases hji : j = page_directory_index address
        · rw [hji, hM.pde_present]
          simp
        · rw [hM.pde_other j hji]
          simp [hji]
    · have hp : present (m.frames m.kdir (page_directory_index address)) = false := by
        simpa using fun hc => hroom (Or.inl hc)
      rcases mapPage_or (m := m.setBitmap (memory_bitmap_allocate m.memory_bitmap).1) (d := m.kdir)
        (memory_bitmap_allocate m.memory_bitmap).2 PAGE_READ_WRITE h0.zero
        (h0.kernel_taken m.kdir (Or.inl rfl))
        (h0.no_loop (page_directory_index address) (by omega) (by omega)) with
        ⟨-, he⟩ | ⟨T, -, hM⟩
      · rw [he]
        have hnone : freeCount (m.setBitmap (memory_bitmap_allocate m.memory_bitmap).1) = 0 := by
          omega
        exact ⟨fun v _ hm => hm, Or.inl ⟨by omega, hp, hnone⟩⟩
      · obtain ⟨hlt', hu', -⟩ := hM.table_new hp
        exact absurd (Or.inr (Finset.card_pos.mpr ⟨T, mem_freeFrames.mpr ⟨hlt', hu'⟩⟩)) hroom

/-! ## The page loop -/

/-- What the page loop does for `n` pages from `address` on. -/
structure Turns (m m' : Machine) (n address : Nat) (served : Bool) : Prop where
  space : KernelSpace m'
  grown : Grown m m'
  stay : PagesStay m m'
  /-- With frames for all pages and their tables, all of them are mapped. -/
  full : page_need (tablesOf m m.kdir) n address ≤ freeCount m → served = true ∧
    freeCount m' + page_need (tablesOf m m.kdir) n address = freeCount m ∧
    tablesOf m' m'.kdir = page_tables (tablesOf m m.kdir) n address ∧
    ∀ v, address ≤ v → v < address + n * 4096 → m'.entry m'.kdir v ≠ none
  /-- The loop that ends well had frames for all pages but the last, and one more. -/
  last : served = true → n = 0 ∨ page_need (tablesOf m m.kdir) (n - 1) address < freeCount m
  took : served = false → 0 < freeCount m → TookFrame m m'
  stuck : freeCount m = 0 → 0 < n → m' = m ∧ served = false

theorem entry_same_page_ne {m : Machine} {d v w : Nat} (h : v / 4096 = w / 4096)
    (hw : m.entry d w ≠ none) : m.entry d v ≠ none := by
  rwa [entry_same_page m d h]

theorem map_pages_turns {m : Machine} (h : KernelSpace m) (hs : 0 < (freeSlots m).card) (n : Nat)
    {address : Nat} (hal : address % 4096 = 0) (hlo : KERNEL_HEAP_VIRTUAL_START ≤ address)
    (hhi : address + n * 4096 ≤ KERNEL_HEAP_VIRTUAL_END + 1) :
    ∃ m' served, kernel_heap_map_pages heap_page n address (some m) = (some m', served) ∧
      Turns m m' n address served := by
  induction n generalizing m address with
  | zero =>
    refine ⟨m, true, rfl, h, Grown.refl m, fun _ _ hm => hm, fun _ => ⟨rfl, rfl, rfl, ?_⟩,
      fun _ => Or.inl rfl, nofun, fun _ hc => absurd hc (lt_irrefl 0)⟩
    intro v h1 h2
    omega
  | succ n ih =>
    have hw : InHeapWindow address := by
      unfold InHeapWindow KERNEL_HEAP_VIRTUAL_END at *
      omega
    have hnext : u32 (address + PAGE_SIZE) = address + PAGE_SIZE := by
      unfold InHeapWindow KERNEL_HEAP_VIRTUAL_END at hw
      unfold PAGE_SIZE
      exact u32_of_lt (by omega)
    rcases page_turn h hs hw with ⟨hfree, hgrow⟩ | ⟨m1, hgrow, h1, hg1, htook, hstay, hturn⟩
    · refine ⟨m, false, ?_, h, Grown.refl m, fun _ _ hm => hm, fun hneed => ?_, nofun,
        fun _ hc => absurd hfree (Nat.ne_of_gt hc), fun _ _ => ⟨rfl, rfl⟩⟩
      · rw [kernel_heap_map_pages, heap_page_some hgrow]
      · unfold page_need at hneed
        omega
    · have hloop : ∀ m2 served, kernel_heap_map_pages heap_page n (address + PAGE_SIZE) (some m1) =
          (some m2, served) → kernel_heap_map_pages heap_page (n + 1) address (some m) =
          (some m2, served) := by
        intro m2 served hrest
        rw [kernel_heap_map_pages, heap_page_some hgrow]
        simp only [hnext, hrest]
      obtain ⟨m2, served, hrest, ht⟩ := ih h1 (by rw [hg1.freeSlots_eq]; exact hs)
        (show (address + PAGE_SIZE) % 4096 = 0 by unfold PAGE_SIZE; omega)
        (by unfold PAGE_SIZE; omega) (by unfold PAGE_SIZE; omega)
      refine ⟨m2, served, hloop m2 served hrest, ht.space, hg1.trans ht.grown,
        hstay.trans ht.stay, ?_, ?_, fun _ _ => htook.after ht.grown, ?_⟩
      · intro hneed
        unfold page_need at hneed ⊢
        rcases hturn with ⟨hone, hnotable, -⟩ | hpage
        · rw [hnotable] at hneed
          simp only [Bool.false_eq_true, if_false] at hneed
          omega
        · have hframes := hpage.frames
          rw [← hpage.tables] at hneed ⊢
          obtain ⟨hserved, hcount, htables, hall⟩ := ht.full (by omega)
          refine ⟨hserved, by omega, ?_, fun v hv1 hv2 => ?_⟩
          · rw [htables, hpage.tables]
            rfl
          · by_cases hv : v < address + 4096
            · refine ht.stay v ?_ (entry_same_page_ne (w := address) (by omega) hpage.page)
              unfold InHeapWindow KERNEL_HEAP_VIRTUAL_END at hw ⊢
              omega
            · exact hall v (by unfold PAGE_SIZE; omega) (by unfold PAGE_SIZE; omega)
      · intro hserved
        right
        simp only [Nat.add_sub_cancel]
        rcases hturn with ⟨hone, hnotable, hzero⟩ | hpage
        · -- The last frame is gone, so the loop must have been at its last page.
          rcases ht.last hserved with rfl | hlast
          · unfold page_need
            omega
          · omega
        · have hframes := hpage.frames
          rcases ht.last hserved with rfl | hlast
          · unfold page_need
            omega
          · cases n with
            | zero =>
              unfold page_need
              omega
            | succ n =>
              unfold page_need
              rw [hpage.tables] at hlast
              simp only [Nat.add_sub_cancel] at hlast
              omega
      · intro hzero _
        rcases hturn with ⟨hone, -⟩ | hpage
        · omega
        · have := hpage.frames
          omega

theorem growth_mod (n : Nat) : growth n % 4096 = 0 := by
  unfold growth
  omega

theorem growth_pos (n : Nat) : 8192 ≤ growth n := by
  unfold growth
  omega

/-- A growth inside the window is the page loop for its pages. -/
theorem grow_pages_turns {m : Machine} (h : KernelSpace m) (hs : 0 < (freeSlots m).card) {n b : Nat}
    (hal : b % 4096 = 0) (hlo : KERNEL_HEAP_VIRTUAL_START ≤ b)
    (hroom : b + growth n ≤ 0xF7FFF000) :
    ∃ m' served, grow_pages heap_page n (some m, b) =
        ((some m', if served then b + growth n else b), served) ∧
      Turns m m' (growth n / 4096) b served := by
  have hmod := growth_mod n
  obtain ⟨m', served, hloop, ht⟩ := map_pages_turns h hs (growth n / 4096) hal hlo
    (by unfold KERNEL_HEAP_VIRTUAL_END; omega)
  refine ⟨m', served, ?_, ht⟩
  unfold grow_pages
  rw [if_neg (by simp only; omega), hloop]
  cases served <;> rfl

/-! ## A failed call -/

/-- `NULL` came from the page loop: the growth asks for pages, and the window has room for them. -/
structure RanOut (k : kernel_heap_t (Option Machine)) (n : Nat) : Prop where
  pages : 0 < ALIGN_UP (kernel_heap_growth_bytes n) / PAGE_SIZE
  room : u32 (k.heap_break + ALIGN_UP (kernel_heap_growth_bytes n)) ≤ k.heap_end

/-- The break, the free list and, page tables apart, the frames in use are the same. -/
structure KeepsMemory (k k' : kernel_heap_t (Option Machine)) : Prop where
  heap_break : k'.heap_break = k.heap_break
  head : k'.free_headers_head = k.free_headers_head
  list : k'.memory = k.memory
  frames : ∀ m m', k.pages = some m → k'.pages = some m' →
    ∀ f, ¬ m'.KernelFrame f → (Used m'.memory_bitmap f ↔ Used m.memory_bitmap f)

theorem KeepsMemory.refl (k : kernel_heap_t (Option Machine)) : KeepsMemory k k := by
  refine ⟨rfl, rfl, rfl, fun m m' hm hm' f _ => ?_⟩
  rw [hm] at hm'
  cases hm'
  exact Iff.rfl

theorem KeepsMemory.not_took {k k' : kernel_heap_t (Option Machine)} {m m' : Machine}
    (h : KeepsMemory k k') (hm : k.pages = some m) (hm' : k'.pages = some m') :
    ¬ TookFrame m m' := by
  rintro ⟨f, hfree, hused, hk⟩
  exact hfree ((h.frames m m' hm hm' f hk).mp hused)

/-- Without a free frame no growth gives memory, and nothing changes. -/
theorem more_headers_full {k : kernel_heap_t (Option Machine)} {m : Machine} {free live : List Nat}
    {n : Nat} (h : Inv k free live) (hm : k.pages = some m) (hk : KernelSpace m)
    (hs : 0 < (freeSlots m).card) (hfull : freeCount m = 0)
    (hpages : 0 < ALIGN_UP (kernel_heap_growth_bytes n) / PAGE_SIZE) (fuel : Nat) :
    kernel_heap_allocate_more_headers heap_page fuel k n = some (k, 0) := by
  have hlow := h.window.break_low
  have hhigh := h.window.break_high
  have hw : InHeapWindow k.heap_break := by
    unfold InHeapWindow KERNEL_HEAP_VIRTUAL_START KERNEL_HEAP_VIRTUAL_END
    omega
  have hnone : ∀ count, 0 < count →
      kernel_heap_map_pages heap_page count k.heap_break k.pages = (k.pages, false) := by
    intro count hc
    obtain ⟨c, rfl⟩ : ∃ c, count = c + 1 := ⟨count - 1, by omega⟩
    rcases page_turn hk hs hw with ⟨-, hgrow⟩ | ⟨m1, hgrow, -, -, -, -, hturn⟩
    · rw [hm, kernel_heap_map_pages, heap_page_some hgrow]
    · rcases hturn with ⟨hone, -⟩ | hpage
      · omega
      · have := hpage.frames
        omega
  have hphys : kernel_heap_allocate_physical_memory heap_page k (kernel_heap_growth_bytes n) =
      (k, 0) := by
    unfold kernel_heap_allocate_physical_memory
    dsimp only
    split
    · rfl
    · rw [hnone _ hpages]
  unfold kernel_heap_allocate_more_headers
  simp [hphys]

/-- When growth gives nothing and changes nothing, malloc gives a block or changes nothing. -/
theorem malloc_walk_full {σ : Type} {map_page : σ → Nat → σ × Bool} {k : kernel_heap_t σ}
    {free live : List Nat} {n : Nat} (h : Inv k free live) (hn : 0 < n)
    (hnone : ∀ fuel, kernel_heap_allocate_more_headers map_page fuel k n = some (k, 0))
    {fuel previous : Nat} {res : kernel_heap_t σ × Nat} (hp : previous ∈ k.base :: free)
    (hres : kernel_heap_malloc_walk map_page n fuel k previous (k.next previous) = some res) :
    res.2 ≠ 0 ∨ res.1 = k := by
  induction fuel generalizing previous with
  | zero => cases hres
  | succ fuel ih =>
    have hc := loop_next_mem h.ring hp
    rw [kernel_heap_malloc_walk] at hres
    split at hres
    · rename_i hfit
      cases hres
      exact Or.inl (gives_take h hn hp hc rfl hfit).1.ne_zero
    · split at hres
      · rw [hnone fuel] at hres
        simp only [if_true, Option.some.injEq] at hres
        exact Or.inr (congrArg Prod.fst hres).symm
      · exact ih hc hres

/-- A growth of the second round starts above the old break. -/
theorem grow_pages_moves {σ : Type} {map_page : σ → Nat → σ × Bool} {n : Nat} {s : σ × Nat}
    (h : (grow_pages map_page n s).2 = true) : (grow_pages map_page n s).1.2 = s.2 + growth n := by
  rw [grow_pages_break, if_pos h]

/-- A request that ends in `NULL` for want of frames leaves the memory as it was if no frame was
free before; and it does so only then, as long as the break plus the request fits 32 bits. -/
theorem failed_malloc_keeps_memory {k : kernel_heap_t (Option Machine)} {m : Machine}
    {free live : List Nat} (h : Inv k free live) (hm : k.pages = some m) (hk : KernelSpace m)
    (hs : 0 < (freeSlots m).card) {size : Nat} (h1 : 1 ≤ size) :
    (freeCount m = 0 → ∀ fuel res, kernel_heap_malloc heap_page fuel k size = some res →
      res.2 = 0 → RanOut res.1 (kernel_heap_headers_for size) → KeepsMemory k res.1) ∧
    (k.heap_break + growth (kernel_heap_headers_for size) < 0x100000000 →
      ∃ res, chains.Ends (fun fuel => kernel_heap_malloc heap_page fuel k size) res ∧
        (res.2 = 0 → RanOut res.1 (kernel_heap_headers_for size) →
          (KeepsMemory k res.1 ↔ freeCount m = 0))) := by
  have hlow := h.window.break_low
  constructor
  · intro hfull fuel res hres hnull hran
    unfold kernel_heap_malloc at hres
    rw [if_neg (by omega)] at hres
    rcases malloc_walk_full h (headers_for_pos size)
      (more_headers_full h hm hk hs hfull hran.pages) h.head_mem hres with hne | hsame
    · exact absurd hnull hne
    · rw [hsame]
      exact KeepsMemory.refl k
  · intro hwrap
    obtain ⟨res, log, hres, hcase⟩ := kernel_heap_malloc_spec heap_page h h1
      fun _ => hwrap
    refine ⟨res, ends_of_log hres, fun hnull hran => ?_⟩
    generalize kernel_heap_headers_for size = n at *
    have hpos := growth_pos n
    have hmod := growth_mod n
    obtain ⟨-, -, -, hup⟩ := growth_bytes_spec (show growth n < 0x10000000 by omega)
    have hroom := hran.room
    rw [hup] at hroom
    have hextent : k.extent = (some m, k.heap_break) := Prod.ext hm rfl
    cases hcase with
    | fits b on_ring fit no_log gives extent => exact absurd hnull gives.ne_zero
    | once small grows one again extent reach gives => exact absurd hnull gives.ne_zero
    | refused small grows one result refuses =>
      rw [result] at hroom ⊢
      simp only [h.window.end_eq, u32_of_lt hwrap] at hroom
      obtain ⟨m', served, hgrow, ht⟩ := grow_pages_turns hk hs (n := n) h.window.break_mod hlow hroom
      rw [← hextent] at hgrow
      rw [hgrow] at grows ⊢
      simp only at grows
      subst grows
      constructor
      · intro hkeeps
        by_contra hfree
        exact hkeeps.not_took hm rfl (ht.took rfl (Nat.pos_of_ne_zero hfree))
      · intro hfull
        obtain ⟨rfl, -⟩ := ht.stuck hfull (by omega)
        have hsame : ({ k with pages := some m' } : kernel_heap_t (Option Machine)) = k := by
          rw [← hm]
        simp only [hsame]
        exact KeepsMemory.refl k
    | twice small grows again two extent gives refuses =>
      have hfirst := grow_pages_room grows
      obtain ⟨m', served, hgrow, ht⟩ := grow_pages_turns hk hs (n := n) h.window.break_mod hlow
        (by rw [hextent] at hfirst; exact hfirst)
      constructor
      · intro hkeeps
        have hmoved : res.1.heap_break = _ := congrArg Prod.snd extent
        rw [hkeeps.heap_break, grow_pages_break, grow_pages_moves grows] at hmoved
        rw [show k.extent.2 = k.heap_break from rfl] at hmoved
        split at hmoved <;> omega
      · intro hfull
        obtain ⟨-, hserved⟩ := ht.stuck hfull (by omega)
        rw [hextent, hgrow, hserved] at grows
        cases grows

/-- The heap of the small machine before its first request. -/
def smallHeap : kernel_heap_t (Option Machine) :=
  kernel_heap_module_init (fun _ => ⟨0, 0⟩) 0xC0100000 (some smallMachine)

theorem smallHeap_inv : Inv smallHeap [] [] := inv_init _ _ (by decide) (by decide)

theorem small_slots : 0 < (freeSlots smallMachine).card := by
  rw [Finset.card_pos]
  exact ⟨0, mem_freeSlots.mpr (by decide)⟩

theorem page_need_ge (tables : Nat → Bool) (count address : Nat) :
    count ≤ page_need tables count address := by
  induction count generalizing tables address with
  | zero => exact Nat.zero_le _
  | succ count ih =>
    have := ih (withTable tables address) (address + PAGE_SIZE)
    unfold page_need
    omega

/-- The frames of the small machine run out on the 49 pages of a request. -/
theorem small_request_refused : ∃ res m',
    chains.Ends (fun fuel => kernel_heap_malloc heap_page fuel smallHeap 200000) res ∧
    res.2 = 0 ∧ RanOut res.1 (kernel_heap_headers_for 200000) ∧
    res.1.pages = some m' ∧ TookFrame smallMachine m' := by
  have hgrowth : growth (kernel_heap_headers_for 200000) = 49 * 4096 := by decide
  have hcount : freeCount smallMachine = 23 := by decide +kernel
  obtain ⟨m', served, hgrow, ht⟩ := grow_pages_turns small_kernelSpace small_slots
    (n := kernel_heap_headers_for 200000) (b := 0xF0000000) (by decide) (by decide) (by decide)
  rw [hgrowth] at ht
  have hserved : served = false := by
    cases served with
    | false => rfl
    | true =>
      have hge := page_need_ge (tablesOf smallMachine smallMachine.kdir) 48 0xF0000000
      rcases ht.last rfl with hzero | hlast
      · omega
      · rw [hcount, show 49 * 4096 / 4096 - 1 = 48 from rfl] at hlast
        omega
  subst hserved
  have hextent : smallHeap.extent = (some smallMachine, 0xF0000000) := by
    refine Prod.ext rfl ?_
    decide
  obtain ⟨res, log, hres, hcase⟩ := kernel_heap_malloc_spec heap_page smallHeap_inv
    (show 1 ≤ 200000 by decide) fun _ => growth_no_wrap smallHeap_inv (by decide)
  rw [← hextent] at hgrow
  cases hcase with
  | fits b on_ring fit no_log gives extent =>
    have hb := List.mem_singleton.mp (smallHeap_inv.onRing.mp on_ring)
    rw [hb] at fit
    exact absurd fit (by decide)
  | refused small grows one result refuses =>
    rw [hgrow] at result
    refine ⟨res, m', ends_of_log hres, by rw [result], ?_, by rw [result], ht.took rfl ?_⟩
    · rw [result]
      refine ⟨by decide, ?_⟩
      show u32 (smallHeap.heap_break + _) ≤ smallHeap.heap_end
      decide
    · rw [hcount]
      decide
  | once small grows one again extent reach gives =>
    rw [hgrow] at grows
    cases grows
  | twice small grows again two extent gives refuses =>
    rw [hgrow] at grows
    cases grows

/-- The frames that the failed request took are lost. -/
theorem a_failed_request_loses_frames : ∃ res,
    chains.Ends (fun fuel => kernel_heap_malloc heap_page fuel smallHeap 200000) res ∧
    res.2 = 0 ∧ RanOut res.1 (kernel_heap_headers_for 200000) ∧ ¬ KeepsMemory smallHeap res.1 := by
  obtain ⟨res, m', hres, hnull, hran, hm', htook⟩ := small_request_refused
  exact ⟨res, hres, hnull, hran, fun hkeeps => hkeeps.not_took rfl hm' htook⟩

/-- The small machine has frames, so a request that runs out of them does not keep the memory. -/
theorem small_machine_keeps_no_memory : ∃ res,
    chains.Ends (fun fuel => kernel_heap_malloc heap_page fuel smallHeap 200000) res ∧
    (res.2 = 0 → RanOut res.1 (kernel_heap_headers_for 200000) →
      (KeepsMemory smallHeap res.1 ↔ freeCount smallMachine = 0)) :=
  (failed_malloc_keeps_memory smallHeap_inv rfl small_kernelSpace small_slots (by decide)).2
    (growth_no_wrap smallHeap_inv (by decide))

end alura_os.kernel_heap
