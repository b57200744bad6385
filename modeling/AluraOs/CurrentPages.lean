-- The pages of the running task: mapping and unmapping through the windows of
-- the current directory, as operations on frames, and what they keep of the
-- task's own tables and of the kernel.
import AluraOs.ExecLaws
import AluraOs.KernelGrowth
import AluraOs.Lookups
import AluraOs.UserMemory

namespace alura_os.memory_paging

open alura_os.memory alura_os.memory_bitmap alura_os.elf_executable Machine
open memory_paging_result_t

/-! ## The functions on frames -/

theorem setWord_setFrame_comm (m : Machine) {d n : Nat} (i x : Nat) (w : Nat → Nat) (h : n ≠ d) :
    (m.setWord d i x).setFrame n w = (m.setFrame n w).setWord d i x := by
  apply Machine.ext_fields
  · funext g j
    rw [setFrame_apply, setWord_apply, setFrame_apply]
    by_cases hg : g = n
    · simp [hg, h]
    · simp [hg, setWord_apply]
  · rfl
  · rfl
  · rfl
  · rfl

/-- A write of a user bit through the window on the directory, or none. -/
theorem set_user_window {m : Machine} (h : Windows m) (flags : Nat) {pd : Nat} (hpd : pd < 1024) :
    memory_paging_set_user m (at32 PAGE_DIRECTORY_VADDR pd) flags =
      some (m.setWord m.dir pd (userBit flags (m.frames m.dir pd))) := by
  unfold memory_paging_set_user userBit
  split
  · rw [load_via (via_directory h) (by decide) (by decide) hpd]
    exact store_via _ (via_directory h) (by decide) (by decide) hpd
  · unfold Machine.setWord
    rw [Function.update_eq_self, setFrame_self]

/-- A walk to a table of the current directory, by the entry that leads to it. -/
theorem map_current_entry_eq {m : Machine} (h : Windows m) {n virt : Nat} (flags : Nat)
    (hv : page_directory_index virt < 1022)
    (hp : present (m.frames m.dir (page_directory_index virt)) = true) :
    memory_paging_map_current_entry m (n * 4096) virt flags =
      some (m.mapEntry m.dir (n * 4096) virt flags, MEMORY_PAGING_RESULT_OK) := by
  have hpd : page_directory_index virt < 1024 := by omega
  have hpt : page_table_index virt < 1024 := Nat.mod_lt _ (by decide)
  have hload : m.load32 (at32 PAGE_DIRECTORY_VADDR (page_directory_index virt)) =
      some (m.frames m.dir (page_directory_index virt)) :=
    load_via (via_directory h) (by decide) (by decide) hpd
  have huser := set_user_window h flags hpd
  -- The directory still shows its tables after the user bit.
  have hvia : Via (m.setWord m.dir (page_directory_index virt)
      (userBit flags (m.frames m.dir (page_directory_index virt))))
      (PAGE_TABLE_VADDR (page_directory_index virt)) m.dir
      (frameOf (m.frames m.dir (page_directory_index virt))) := by
    have h1 : page_directory_index (PAGE_TABLE_VADDR (page_directory_index virt)) = 1023 := by
      unfold PAGE_TABLE_VADDR
      unfold page_directory_index at hpd ⊢
      omega
    apply via_setWord (via_table h _ hpd hp)
    · intro _ hc
      rw [h1] at hc
      omega
    · intro _ _
      exact ⟨by rw [present_userBit]; exact hp, frameOf_userBit _ _⟩
  have halign : ALIGN_DOWN (n * 4096) = n * 4096 := by
    rw [align_frame]
    unfold frameOf
    omega
  unfold memory_paging_map_current_entry
  simp only [Option.bind_eq_bind, Option.bind_some, huser, halign]
  rw [store_via _ hvia (table_page_facts hpd).1 (table_page_facts hpd).2 hpt]
  rfl

/-- A table that is hung in first and cleared through its own window is an empty table. -/
theorem current_table_added {m : Machine} (h : Windows m) {pd t : Nat} (hpd : pd < 1022)
    (htD : t ≠ m.dir) :
    ∃ m1, m.store32 (at32 PAGE_DIRECTORY_VADDR pd) (t * 4096 ||| PAGE_READ_WRITE ||| PAGE_PRESENT) =
        some m1 ∧
      memory_paging_reset_entry m1 (PAGE_TABLE_VADDR pd) = some (m.addTable m.dir pd (t * 4096)) := by
  have hpd' : pd < 1024 := by omega
  have hfr : frameOf (t * 4096) = t := by unfold frameOf; omega
  refine ⟨_, store_via _ (via_directory h) (by decide) (by decide) hpd', ?_⟩
  have hw : Windows (m.setWord m.dir pd (t * 4096 ||| PAGE_READ_WRITE ||| PAGE_PRESENT)) := by
    apply windows_setWord h h.apart.symm
    intro _ hc
    omega
  have hentry : (m.setWord m.dir pd (t * 4096 ||| PAGE_READ_WRITE ||| PAGE_PRESENT)).frames m.dir pd =
      (t * 4096 ||| PAGE_READ_WRITE ||| PAGE_PRESENT) := by
    rw [setWord_apply, if_pos ⟨rfl, rfl⟩]
  have hdir : (m.setWord m.dir pd (t * 4096 ||| PAGE_READ_WRITE ||| PAGE_PRESENT)).dir = m.dir := rfl
  have hvia := via_table hw pd hpd' (by
    rw [hdir, hentry]
    exact present_entry _ _)
  rw [hdir, hentry, frameOf_entry t (by decide)] at hvia
  rw [reset_entry_via hvia (table_page_facts hpd').1 (table_page_facts hpd').2
    (by rw [hdir]; exact htD) htD]
  unfold addTable
  have hsame : (m.setWord m.dir pd (t * 4096 ||| PAGE_READ_WRITE ||| PAGE_PRESENT)).frames t =
      m.frames t := by
    funext j
    rw [setWord_apply, if_neg (fun hc => htD hc.1)]
  rw [hsame, hfr, setWord_setFrame_comm m _ _ _ htD]

theorem bounceTable_addTable {m : Machine} {pd t : Nat} (hpd : pd < 1022) (htD : t ≠ m.dir) :
    (m.addTable m.dir pd (t * 4096)).bounceTable = m.bounceTable := by
  unfold bounceTable
  rw [show (m.addTable m.dir pd (t * 4096)).dir = m.dir from rfl, addTable_apply, if_neg (by omega),
    if_neg (fun hc => htD hc.1.symm)]

theorem windows_addTable {m : Machine} (h : Windows m) {pd t : Nat} (hpd : pd < 1022)
    (htD : t ≠ m.dir) (htB : t ≠ m.bounceTable) : Windows (m.addTable m.dir pd (t * 4096)) := by
  have hfr : frameOf (t * 4096) = t := by unfold frameOf; omega
  unfold addTable
  rw [hfr]
  apply windows_setWord (windows_setFrame h _ htD htB)
  · rw [bounceTable_setFrame _ htD]
    exact h.apart.symm
  · intro _ hc
    omega

/-- `memory_paging_map_current` below the bounce pages is `mapPage` on the current directory. -/
theorem map_current_eq {m : Machine} (h : Windows m) {n virt : Nat} (flags : Nat)
    (hv : page_directory_index virt < 1022) (hD : Taken m.memory_bitmap m.dir)
    (hB : Taken m.memory_bitmap m.bounceTable) :
    memory_paging_map_current m (n * 4096) virt flags =
      some (m.mapPage m.dir (n * 4096) virt flags) := by
  have hload : m.load32 (at32 PAGE_DIRECTORY_VADDR (page_directory_index virt)) =
      some (m.frames m.dir (page_directory_index virt)) :=
    load_via (via_directory h) (by decide) (by decide) (by omega)
  unfold memory_paging_map_current mapPage
  simp only [Option.bind_eq_bind, Option.bind_some, hload]
  cases hp : present (m.frames m.dir (page_directory_index virt)) with
  | true =>
    simp only [if_true]
    exact map_current_entry_eq h flags hv hp
  | false =>
    simp only [Bool.false_eq_true, if_false]
    by_cases ha : (memory_bitmap_allocate m.memory_bitmap).2 = 0
    · simp only [ha, if_true]
      rfl
    · obtain ⟨t, ht, -, hlt, hu, -, -⟩ := allocate_fresh ha
      have htD := hD.ne hlt hu
      have hm0 := windows_setBitmap h (memory_bitmap_allocate m.memory_bitmap).1
      obtain ⟨m1, hstore, hreset⟩ := current_table_added hm0 hv htD
      have hpde : ((m.setBitmap (memory_bitmap_allocate m.memory_bitmap).1).addTable m.dir
          (page_directory_index virt) (t * 4096)).frames m.dir (page_directory_index virt) =
          (t * 4096 ||| PAGE_READ_WRITE ||| PAGE_PRESENT) := by
        rw [addTable_apply, if_pos ⟨rfl, rfl⟩]
      have hlast := map_current_entry_eq (n := n) (windows_addTable hm0 hv htD (hB.ne hlt hu)) flags hv
        (by
          show present (((m.setBitmap (memory_bitmap_allocate m.memory_bitmap).1).addTable m.dir
            (page_directory_index virt) (t * 4096)).frames m.dir (page_directory_index virt)) = true
          rw [hpde]
          exact present_entry _ _)
      rw [ht] at ha ⊢
      simp only [ha, if_false, hstore, Option.bind_some, hreset]
      exact hlast

/-- `memory_paging_unmap_current` clears the entry of the page, when there is a table. -/
theorem unmap_current_eq {m : Machine} (h : Windows m) {virt : Nat}
    (hv : page_directory_index virt < 1022) :
    memory_paging_unmap_current m virt =
      some (if present (m.frames m.dir (page_directory_index virt)) then
        m.setWord (frameOf (m.frames m.dir (page_directory_index virt))) (page_table_index virt) 0
      else m) := by
  have hpd : page_directory_index virt < 1024 := by omega
  have hpt : page_table_index virt < 1024 := Nat.mod_lt _ (by decide)
  have hload : m.load32 (at32 PAGE_DIRECTORY_VADDR (page_directory_index virt)) =
      some (m.frames m.dir (page_directory_index virt)) :=
    load_via (via_directory h) (by decide) (by decide) hpd
  unfold memory_paging_unmap_current
  simp only [Option.bind_eq_bind, Option.bind_some, hload]
  cases hp : present (m.frames m.dir (page_directory_index virt)) with
  | true =>
    simp only [if_true]
    exact store_via 0 (via_table h _ hpd hp) (table_page_facts hpd).1 (table_page_facts hpd).2 hpt
  | false => simp

/-! ## The kernel's tables under a change of a task's own -/

/-- What a change leaves alone for the kernel to stay in order. -/
theorem KernelSpace.carry {m m' : Machine} (h : KernelSpace m) (hc : m'.cr3 = m.cr3)
    (hk : m'.kernel_page_directory_phys = m.kernel_page_directory_phys)
    (hs : m'.bounce_pages_used = m.bounce_pages_used) (hz : Used m'.memory_bitmap 0)
    (ht : ∀ f, f = m.dir ∨ m.KernelFrame f → Taken m'.memory_bitmap f)
    (hw : ∀ f, m.KernelFrame f → m'.frames f = m.frames f)
    (hd : ∀ j, present (m.frames m.dir j) = true →
      768 ≤ j ∨ m.KernelFrame (frameOf (m.frames m.dir j)) →
      m'.frames m.dir j = m.frames m.dir j) : KernelSpace m' := by
  have hdir : m'.dir = m.dir := by unfold Machine.dir; rw [hc]
  have hkd : m'.kdir = m.kdir := by unfold Machine.kdir; rw [hk]
  have hkw : m'.frames m.kdir = m.frames m.kdir := hw _ (Or.inl rfl)
  have hframe : ∀ f, m'.KernelFrame f ↔ m.KernelFrame f := by
    intro f
    unfold KernelFrame
    rw [hkd, hkw]
  have h22 := hd 1022 h.windows.bounce_present (Or.inl (by omega))
  have h23 := hd 1023 h.windows.self_present (Or.inl (by omega))
  have hB : m'.bounceTable = m.bounceTable := by
    unfold bounceTable
    rw [hdir, h22]
  have hptr : m'.kernel_page_directory = m.kernel_page_directory := by
    unfold Machine.kernel_page_directory
    rw [hk]
  constructor
  · constructor
    · rw [hdir, h23]; exact h.windows.self_present
    · rw [hdir, h23]; exact h.windows.self
    · rw [hdir, h22]; exact h.windows.bounce_present
    · rw [hB, hdir]; exact h.windows.apart
    · rw [hB, hs, hw _ h.kernelFrame_bounce]; exact h.windows.closed
  · exact hz
  · rw [hdir]; exact ht _ (Or.inl rfl)
  · intro f hf
    exact ht f (Or.inr ((hframe f).mp hf))
  · rw [hdir, hframe]; exact h.dir_apart
  · rw [hkd, hkw]; exact h.bounce_present
  · rw [hkd, hkw, hB]; exact h.bounce
  · obtain ⟨j, hj1, hj2, hjp, hlow⟩ := h.low
    rw [hptr, hkd, hkw]
    refine ⟨j, hj1, hj2, hjp, hlow.aligned, hlow.lt, ⟨?_, ?_, ?_, ?_⟩, hlow.ne_table, ?_, ?_⟩
    all_goals have hpde := hd _ hlow.via.pde_present (Or.inr (by
      rw [hlow.via.table]
      exact Or.inr ⟨j, hj1, by omega, hjp, rfl⟩))
    all_goals have htable := hw _ (Or.inr ⟨j, hj1, by omega, hjp, rfl⟩)
    · rw [hdir, hpde]; exact hlow.via.pde_present
    · rw [hdir, hpde]; exact hlow.via.table
    · rw [htable]; exact hlow.via.pte_present
    · rw [htable]; exact hlow.via.frame
    · rw [hB]; exact hlow.ne_bounce
    · rw [hB, hs]; exact hlow.slot
  · rw [hkd, hkw]; exact h.tables
  · rw [hkd, hkw]; exact h.no_loop
  · rw [hkd, hkw]; exact h.stack

/-! ## The pages of a task -/

/-- A frame that a user page may lie in: in use, and neither the directory, nor one of its
tables, nor the kernel's. -/
structure PageOf (m : Machine) (d f : Nat) : Prop where
  pos : f ≠ 0
  lt : f < m.memory_bitmap.pages
  used : Used m.memory_bitmap f
  ne_dir : f ≠ d
  foreign : ¬ m.KernelFrame f
  ne_table : ∀ j, j < 1024 → present (m.frames d j) = true → f ≠ frameOf (m.frames d j)

/-- The directory `d` of a task. Its tables are frames in use, a user table hangs at one entry
only and is none of the kernel's, and each user page lies in a frame of its own. -/
structure OwnSpace (m : Machine) (d : Nat) : Prop where
  taken : ∀ j, j < 1024 → present (m.frames d j) = true →
    Taken m.memory_bitmap (frameOf (m.frames d j))
  apart : ∀ i j, i < 768 → j < 1024 → present (m.frames d i) = true →
    present (m.frames d j) = true → frameOf (m.frames d i) = frameOf (m.frames d j) → i = j
  loops : ∀ j, j < 1023 → present (m.frames d j) = true → frameOf (m.frames d j) ≠ d
  foreign : ∀ j, j < 768 → present (m.frames d j) = true → ¬ m.KernelFrame (frameOf (m.frames d j))
  writable : ∀ j, j < 768 → present (m.frames d j) = true → m.frames d j &&& PAGE_READ_WRITE ≠ 0
  pages : ∀ v x, v < KERNEL_VIRTUAL_SPACE_START → m.entry d v = some x → PageOf m d (frameOf x)
  pages_apart : ∀ v w x y, v < KERNEL_VIRTUAL_SPACE_START → w < KERNEL_VIRTUAL_SPACE_START →
    m.entry d v = some x → m.entry d w = some y → frameOf x = frameOf y → v / 4096 = w / 4096

/-- The frame is a table of the user's part of the directory. -/
def UserTable (m : Machine) (d f : Nat) : Prop :=
  ∃ j, j < 768 ∧ present (m.frames d j) = true ∧ frameOf (m.frames d j) = f

/-- A page that the program may write to. -/
def UserWritable (m : Machine) (d v : Nat) : Prop :=
  ∃ x, m.entry d v = some x ∧ x &&& PAGE_USER ≠ 0 ∧ x &&& PAGE_READ_WRITE ≠ 0 ∧
    m.frames d (page_directory_index v) &&& PAGE_USER ≠ 0 ∧
    m.frames d (page_directory_index v) &&& PAGE_READ_WRITE ≠ 0

/-- Where the window on the page tables begins. -/
def PAGE_TABLES_START : Nat := PAGE_TABLE_VADDR 0

theorem user_directory_index {v : Nat} (hv : v < KERNEL_VIRTUAL_SPACE_START) :
    page_directory_index v < 768 := by
  unfold KERNEL_VIRTUAL_SPACE_START at hv
  unfold page_directory_index
  omega

theorem user_below_bounce {v : Nat} (hv : v < KERNEL_VIRTUAL_SPACE_START) :
    page_directory_index v < 1022 := by
  have := user_directory_index hv
  omega

theorem directory_index_lt {v : Nat} (hv : v < PAGE_TABLES_START) :
    page_directory_index v < 1023 := by
  unfold PAGE_TABLES_START PAGE_TABLE_VADDR at hv
  unfold page_directory_index
  omega

theorem user_below_tables {v : Nat} (hv : v < KERNEL_VIRTUAL_SPACE_START) : v < PAGE_TABLES_START :=
  hv.trans (by decide)

theorem same_page {v w : Nat} (hv : v < 0x100000000) (hw : w < 0x100000000)
    (hd : page_directory_index v = page_directory_index w)
    (ht : page_table_index v = page_table_index w) : v / 4096 = w / 4096 := by
  unfold page_directory_index at hd
  unfold page_table_index at ht
  omega

/-- What a step on the pages of the running task keeps. -/
structure Steps (m m' : Machine) : Prop where
  cr3 : m'.cr3 = m.cr3
  kernel : m'.kernel_page_directory_phys = m.kernel_page_directory_phys
  slots : m'.bounce_pages_used = m.bounce_pages_used
  frames : m'.memory_bitmap.pages = m.memory_bitmap.pages
  space : KernelSpace m'
  own : OwnSpace m' m.dir
  /-- A directory entry that is there stays, but may get the user bit. -/
  directory : ∀ j, present (m.frames m.dir j) = true →
    m'.frames m.dir j = m.frames m.dir j ∨ m'.frames m.dir j = m.frames m.dir j ||| PAGE_USER

namespace Steps

variable {base m m' : Machine}

theorem dir (h : Steps base m) : m.dir = base.dir := by
  unfold Machine.dir
  rw [h.cr3]

theorem trans (h : Steps base m) (h' : Steps m m') : Steps base m' := by
  have hdir := h.dir
  refine ⟨h'.cr3.trans h.cr3, h'.kernel.trans h.kernel, h'.slots.trans h.slots,
    h'.frames.trans h.frames, h'.space, hdir ▸ h'.own, ?_⟩
  intro j hp
  have hp' : present (m.frames m.dir j) = true := by
    rw [hdir]
    rcases h.directory j hp with he | he <;> rw [he] <;> simp [hp]
  have hstep := h'.directory j hp'
  rw [hdir] at hstep
  rcases h.directory j hp with he | he <;> rw [he] at hstep
  · exact hstep
  · right
    rcases hstep with hs | hs
    · exact hs
    · rw [hs, Nat.or_assoc, Nat.or_self]

/-- A directory entry that is there leads to the same table. -/
theorem table (h : Steps base m) {j : Nat} (hp : present (base.frames base.dir j) = true) :
    present (m.frames base.dir j) = true ∧
      frameOf (m.frames base.dir j) = frameOf (base.frames base.dir j) := by
  rcases h.directory j hp with he | he
  · rw [he]
    exact ⟨hp, rfl⟩
  · rw [he]
    exact ⟨by simp [hp], frameOf_or _ (by decide)⟩

theorem userTable (h : Steps base m) {g : Nat} (hg : UserTable base base.dir g) :
    UserTable m base.dir g := by
  obtain ⟨j, hj, hp, hf⟩ := hg
  obtain ⟨hp', hf'⟩ := h.table hp
  exact ⟨j, hj, hp', hf'.trans hf⟩

/-- A page that the program may write to stays so while its entry stays. -/
theorem userWritable (h : Steps base m) {v : Nat} (hv : UserWritable base base.dir v)
    (he : m.entry base.dir v = base.entry base.dir v) : UserWritable m base.dir v := by
  obtain ⟨x, hx, h1, h2, h3, h4⟩ := hv
  refine ⟨x, he.trans hx, h1, h2, ?_⟩
  rcases h.directory _ (entry_eq_some.mp hx).1 with hd | hd <;> rw [hd]
  · exact ⟨h3, h4⟩
  · rw [Nat.and_or_distrib_right, Nat.and_or_distrib_right]
    refine ⟨by simp [PAGE_USER], ?_⟩
    simpa [PAGE_USER, PAGE_READ_WRITE] using h4

end Steps

/-- The page at `a` was mapped in a free frame. -/
structure PageGained (m m' : Machine) (a : Nat) : Prop extends Steps m m' where
  entry : ∃ f, ¬ Used m.memory_bitmap f ∧ m'.entry m.dir a = some (f * 4096 ||| 7)
  others : ∀ v, v < PAGE_TABLES_START → v / 4096 ≠ a / 4096 → m'.entry m.dir v = m.entry m.dir v
  user : m'.frames m.dir (page_directory_index a) &&& PAGE_USER ≠ 0
  tables : tablesOf m' m.dir = withTable (tablesOf m m.dir) a
  used : ∀ g, Used m'.memory_bitmap g ↔ Used m.memory_bitmap g ∨
    (∃ x, m'.entry m.dir a = some x ∧ frameOf x = g) ∨
    UserTable m' m.dir g ∧ ¬ UserTable m m.dir g
  count : freeCount m' + (1 + if tablesOf m m.dir (page_directory_index a) then 0 else 1) =
    freeCount m

/-- The page at `a` was unmapped and its frame freed. -/
structure PageLost (m m' : Machine) (a : Nat) : Prop extends Steps m m' where
  entry : m'.entry m.dir a = none
  others : ∀ v, v < PAGE_TABLES_START → v / 4096 ≠ a / 4096 → m'.entry m.dir v = m.entry m.dir v
  same : ∀ j, m'.frames m.dir j = m.frames m.dir j
  used : ∀ g, Used m'.memory_bitmap g ↔ Used m.memory_bitmap g ∧
    ¬ ∃ x, m.entry m.dir a = some x ∧ frameOf x = g
  count : freeCount m' = freeCount m + 1

/-! ## A page is gained -/

/-- A page that is added takes its frame, and one more exactly for a table that was not there. -/
theorem PageAdded.free_eq {m m' : Machine} {d virt n T x : Nat} {w : Nat → Nat}
    (h : PageAdded m m' d virt n T x w) :
    freeCount m' + (1 + if tablesOf m d (page_directory_index virt) then 0 else 1) =
      freeCount m := by
  unfold freeCount tablesOf
  have hn : n ∈ freeFrames m.memory_bitmap := mem_freeFrames.mpr ⟨h.fresh_lt, h.fresh⟩
  cases hp : present (m.frames d (page_directory_index virt)) with
  | true =>
    have hset : freeFrames m'.memory_bitmap = (freeFrames m.memory_bitmap).erase n := by
      ext j
      simp only [mem_freeFrames, Finset.mem_erase, h.pages, h.used, hp]
      tauto
    have hpos := Finset.card_pos.mpr ⟨n, hn⟩
    rw [hset, Finset.card_erase_of_mem hn]
    simp only [if_true]
    omega
  | false =>
    obtain ⟨hlt, hu, -⟩ := h.table_new hp
    have hset : freeFrames m'.memory_bitmap = ((freeFrames m.memory_bitmap).erase n).erase T := by
      ext j
      simp only [mem_freeFrames, Finset.mem_erase, h.pages, h.used, hp]
      tauto
    have hT : T ∈ (freeFrames m.memory_bitmap).erase n :=
      Finset.mem_erase.mpr ⟨h.table_ne_page, mem_freeFrames.mpr ⟨hlt, hu⟩⟩
    have hpos := Finset.card_pos.mpr ⟨T, hT⟩
    rw [Finset.card_erase_of_mem hn] at hpos
    rw [hset, Finset.card_erase_of_mem hT, Finset.card_erase_of_mem hn]
    simp only [Bool.false_eq_true, if_false]
    omega

section gained

variable {m m' : Machine} {d a n T x : Nat} {w : Nat → Nat}

/-- The table of a page that is added is none of the frames in use that hang elsewhere. -/
theorem PageAdded.table_ne (h : PageAdded m m' d a n T x w) {f : Nat} (hf : Taken m.memory_bitmap f)
    (hold : present (m.frames d (page_directory_index a)) = true →
      frameOf (m.frames d (page_directory_index a)) ≠ f) : T ≠ f := by
  cases hp : present (m.frames d (page_directory_index a)) with
  | true =>
    rw [(h.table_old hp).1]
    exact hold hp
  | false =>
    obtain ⟨hlt, hu, -⟩ := h.table_new hp
    exact hf.ne hlt hu

theorem PageAdded.other_table_ne (h : PageAdded m m' d a n T x w) (ho : OwnSpace m d)
    (ha : a < KERNEL_VIRTUAL_SPACE_START) {j : Nat} (hj : j < 1024)
    (hp : present (m.frames d j) = true) (hne : j ≠ page_directory_index a) :
    frameOf (m.frames d j) ≠ T := by
  apply Ne.symm
  apply h.table_ne (ho.taken j hj hp)
  intro hpa hc
  exact hne (ho.apart _ _ (user_directory_index ha) hj hpa hp hc).symm

/-- No other page changes. -/
theorem PageAdded.entry_other (h : PageAdded m m' d a n T x w) (ho : OwnSpace m d)
    (ha : a < KERNEL_VIRTUAL_SPACE_START) {v : Nat} (hv : v < PAGE_TABLES_START)
    (hne : v / 4096 ≠ a / 4096) : m'.entry d v = m.entry d v := by
  have hpd := directory_index_lt hv
  have hpt : page_directory_index v = page_directory_index a →
      page_table_index v ≠ page_table_index a := by
    intro hd ht
    unfold PAGE_TABLES_START PAGE_TABLE_VADDR at hv
    unfold KERNEL_VIRTUAL_SPACE_START at ha
    exact hne (same_page (by omega) (by omega) hd ht)
  cases hp : present (m.frames d (page_directory_index v)) with
  | true =>
    have hpde : present (m'.frames d (page_directory_index v)) = true ∧
        frameOf (m'.frames d (page_directory_index v)) =
          frameOf (m.frames d (page_directory_index v)) ∧
        m'.frames (frameOf (m.frames d (page_directory_index v))) (page_table_index v) =
          m.frames (frameOf (m.frames d (page_directory_index v))) (page_table_index v) := by
      by_cases hd : page_directory_index v = page_directory_index a
      · have hpt := hpt hd
        rw [hd] at hp ⊢
        obtain ⟨hT, hold⟩ := h.table_old hp
        rw [← hT]
        exact ⟨h.pde_present, h.pde_frame, hold _ hpt⟩
      · rw [h.pde_other _ hd]
        refine ⟨hp, rfl, ?_⟩
        rw [h.others]
        · exact ho.loops _ hpd hp
        · exact h.other_table_ne ho ha (by omega) hp hd
        · exact ((ho.taken _ (by omega) hp).ne h.fresh_lt h.fresh).symm
    unfold Machine.entry
    simp only [hpde.1, hpde.2.1, hpde.2.2, hp]
  | false =>
    have hnone : m.entry d v = none := by
      unfold Machine.entry
      simp [hp]
    rw [hnone]
    unfold Machine.entry
    by_cases hd : page_directory_index v = page_directory_index a
    · have hpt := hpt hd
      rw [hd] at hp ⊢
      have hz := (h.table_new hp).2.2 (page_table_index v) (page_table_index_lt v) hpt
      simp [h.pde_frame, hz]
    · simp [h.pde_other _ hd, hp]

/-- The kernel's frames are as before. -/
theorem PageAdded.kernelFrame (h : PageAdded m m' d a n T x w) (hk : KernelSpace m)
    (ho : OwnSpace m d) (ha : a < KERNEL_VIRTUAL_SPACE_START) (hd : ¬ m.KernelFrame d) :
    (∀ f, m.KernelFrame f → m'.frames f = m.frames f) ∧
      ∀ f, m'.KernelFrame f ↔ m.KernelFrame f := by
  have hwords : ∀ f, m.KernelFrame f → m'.frames f = m.frames f := by
    intro f hf
    apply h.others
    · rintro rfl
      exact hd hf
    · apply Ne.symm
      apply h.table_ne (hk.kernel_taken f hf)
      rintro hp rfl
      exact ho.foreign _ (user_directory_index ha) hp hf
    · exact ((hk.kernel_taken f hf).ne h.fresh_lt h.fresh).symm
  refine ⟨hwords, fun f => ?_⟩
  have hkd : m'.kdir = m.kdir := by
    unfold Machine.kdir
    rw [h.kernel]
  unfold KernelFrame
  rw [hkd, hwords _ (Or.inl rfl)]

theorem PageAdded.taken (h : PageAdded m m' d a n T x w) {f : Nat} (hf : Taken m.memory_bitmap f) :
    Taken m'.memory_bitmap f := by
  intro hlt
  rw [h.pages] at hlt
  exact (h.used f).mpr (Or.inl (hf hlt))

theorem PageAdded.table_used (h : PageAdded m m' d a n T x w) (ho : OwnSpace m d)
    (ha : a < KERNEL_VIRTUAL_SPACE_START) : Taken m'.memory_bitmap T := by
  intro hlt
  cases hp : present (m.frames d (page_directory_index a)) with
  | true =>
    have hT := (h.table_old hp).1
    rw [h.pages] at hlt
    have := ho.taken _ (by have := user_directory_index ha; omega) hp
    exact (h.used T).mpr (Or.inl (by rw [hT] at hlt ⊢; exact this hlt))
  | false => exact (h.used T).mpr (Or.inr (Or.inr ⟨hp, rfl⟩))

/-- The entries of the directory: the one of the page, and the others as before. -/
theorem PageAdded.tables_cases (h : PageAdded m m' d a n T x w) {j : Nat}
    (hp : present (m'.frames d j) = true) :
    (j = page_directory_index a ∧ frameOf (m'.frames d j) = T) ∨
      (j ≠ page_directory_index a ∧ present (m.frames d j) = true ∧
        m'.frames d j = m.frames d j) := by
  by_cases hj : j = page_directory_index a
  · left
    rw [hj]
    exact ⟨rfl, h.pde_frame⟩
  · right
    have := h.pde_other j hj
    exact ⟨hj, this ▸ hp, this⟩

theorem PageAdded.entry_at (h : PageAdded m m' d a n T (x ||| PAGE_PRESENT) w) :
    m'.entry d a = some (x ||| PAGE_PRESENT) := by
  refine entry_eq_some.mpr ⟨h.pde_present, ?_, ?_⟩
  · rw [h.pde_frame, h.entry]
    simp [PAGE_PRESENT]
  · rw [h.pde_frame, h.entry]

/-- The frame of an old page is still one that a page may lie in. -/
theorem PageAdded.page (h : PageAdded m m' d a n T x w) (hk : KernelSpace m) (ho : OwnSpace m d)
    (ha : a < KERNEL_VIRTUAL_SPACE_START) (hd : ¬ m.KernelFrame d) {f : Nat} (hf : PageOf m d f) :
    PageOf m' d f := by
  refine ⟨hf.pos, by rw [h.pages]; exact hf.lt, (h.used f).mpr (Or.inl hf.used), hf.ne_dir, ?_, ?_⟩
  · rw [(h.kernelFrame hk ho ha hd).2]
    exact hf.foreign
  · intro j hj hp
    rcases h.tables_cases hp with ⟨-, hT⟩ | ⟨-, hp', he⟩
    · rw [hT]
      apply Ne.symm
      apply h.table_ne (fun _ => hf.used)
      intro hpa hc
      have := user_directory_index ha
      exact hf.ne_table (page_directory_index a) (by omega) hpa hc.symm
    · rw [he]
      exact hf.ne_table j hj hp'

/-- The frame of the new page is one that a page may lie in. -/
theorem PageAdded.new_page (h : PageAdded m m' d a n T x w) (hk : KernelSpace m) (ho : OwnSpace m d)
    (ha : a < KERNEL_VIRTUAL_SPACE_START) (hd : ¬ m.KernelFrame d) : PageOf m' d n := by
  refine ⟨?_, by rw [h.pages]; exact h.fresh_lt, (h.used n).mpr (Or.inr (Or.inl rfl)), h.page_ne_dir,
    ?_, ?_⟩
  · rintro rfl
    exact h.fresh hk.zero
  · rw [(h.kernelFrame hk ho ha hd).2]
    exact fun hc => h.fresh (hk.kernel_taken n hc h.fresh_lt)
  · intro j hj hp
    rcases h.tables_cases hp with ⟨-, hT⟩ | ⟨-, hp', he⟩
    · rw [hT]
      exact h.table_ne_page.symm
    · rw [he]
      exact ((ho.taken j hj hp').ne h.fresh_lt h.fresh)

/-- The task's own space is in order after its directory got a page. -/
theorem PageAdded.own {flags : Nat} (h : PageAdded m m' d a n T (n * 4096 ||| flags ||| PAGE_PRESENT) w)
    (hfl : flags < 4096) (hk : KernelSpace m) (ho : OwnSpace m d)
    (ha : a < KERNEL_VIRTUAL_SPACE_START) (hd : ¬ m.KernelFrame d)
    (hrw : m'.frames d (page_directory_index a) &&& PAGE_READ_WRITE ≠ 0) : OwnSpace m' d := by
  have hda := user_directory_index ha
  have hself := h.entry_at
  have hother : ∀ v, v < KERNEL_VIRTUAL_SPACE_START → v / 4096 ≠ a / 4096 →
      m'.entry d v = m.entry d v := by
    intro v hv hne
    exact h.entry_other ho ha (user_below_tables hv) hne
  -- An entry of the new machine is the new one, or an old one in another frame.
  have hcases : ∀ v y, v < KERNEL_VIRTUAL_SPACE_START → m'.entry d v = some y →
      (v / 4096 = a / 4096 ∧ frameOf y = n) ∨
        (v / 4096 ≠ a / 4096 ∧ m.entry d v = some y ∧ frameOf y ≠ n) := by
    intro v y hv hy
    by_cases hsame : v / 4096 = a / 4096
    · left
      rw [entry_same_page m' d hsame, hself] at hy
      rw [← Option.some.inj hy, frameOf_entry n hfl]
      exact ⟨hsame, rfl⟩
    · right
      rw [hother v hv hsame] at hy
      refine ⟨hsame, hy, fun hc => h.fresh ?_⟩
      rw [← hc]
      exact (ho.pages v y hv hy).used
  constructor
  · intro j hj hp
    rcases h.tables_cases hp with ⟨-, hT⟩ | ⟨-, hp', he⟩
    · rw [hT]
      exact h.table_used ho ha
    · rw [he]
      exact h.taken (ho.taken j hj hp')
  · intro i j hi hj hpi hpj heq
    rcases h.tables_cases hpi with ⟨hia, hTi⟩ | ⟨hia, hpi', hei⟩ <;>
      rcases h.tables_cases hpj with ⟨hja, hTj⟩ | ⟨hja, hpj', hej⟩
    · rw [hia, hja]
    · rw [hTi, hej] at heq
      exact absurd heq.symm (h.other_table_ne ho ha hj hpj' hja)
    · rw [hei, hTj] at heq
      exact absurd heq (h.other_table_ne ho ha (by omega) hpi' hia)
    · rw [hei, hej] at heq
      exact ho.apart i j hi hj hpi' hpj' heq
  · intro j hj hp
    rcases h.tables_cases hp with ⟨-, hT⟩ | ⟨-, hp', he⟩
    · rw [hT]
      exact h.table_ne_dir
    · rw [he]
      exact ho.loops j hj hp'
  · intro j hj hp
    rw [(h.kernelFrame hk ho ha hd).2]
    rcases h.tables_cases hp with ⟨-, hT⟩ | ⟨-, hp', he⟩
    · rw [hT]
      intro hc
      refine h.table_ne (hk.kernel_taken T hc) ?_ rfl
      rintro hpa hT'
      exact ho.foreign _ hda hpa (hT' ▸ hc)
    · rw [he]
      exact ho.foreign j hj hp'
  · intro j hj hp
    rcases h.tables_cases hp with ⟨hja, -⟩ | ⟨-, hp', he⟩
    · rw [hja]
      exact hrw
    · rw [he]
      exact ho.writable j hj hp'
  · intro v y hv hy
    rcases hcases v y hv hy with ⟨-, hn⟩ | ⟨-, hy', -⟩
    · rw [hn]
      exact h.new_page hk ho ha hd
    · exact h.page hk ho ha hd (ho.pages v y hv hy')
  · intro v u y z hv hu hy hz heq
    rcases hcases v y hv hy with ⟨hva, hn⟩ | ⟨-, hy', hny⟩ <;>
      rcases hcases u z hu hz with ⟨hua, hn'⟩ | ⟨-, hz', hnz⟩
    · rw [hva, hua]
    · exact absurd (heq.symm.trans hn) hnz
    · exact absurd (heq.trans hn') hny
    · exact ho.pages_apart v u y z hv hu hy' hz' heq

end gained

/-- The user tables that a page adds. -/
theorem PageAdded.new_table {m m' : Machine} {d a n T x : Nat} {w : Nat → Nat}
    (h : PageAdded m m' d a n T x w) (ho : OwnSpace m d) (ha : a < KERNEL_VIRTUAL_SPACE_START)
    (g : Nat) :
    (UserTable m' d g ∧ ¬ UserTable m d g) ↔
      present (m.frames d (page_directory_index a)) = false ∧ g = T := by
  have hda := user_directory_index ha
  constructor
  · rintro ⟨⟨j, hj, hp, hg⟩, hno⟩
    rcases h.tables_cases hp with ⟨hja, hT⟩ | ⟨-, hp', he⟩
    · rw [hT] at hg
      cases hpa : present (m.frames d (page_directory_index a)) with
      | true => exact absurd ⟨_, hda, hpa, (h.table_old hpa).1.symm.trans hg⟩ hno
      | false => exact ⟨rfl, hg.symm⟩
    · exact absurd ⟨j, hj, hp', he ▸ hg⟩ hno
  · rintro ⟨hpa, rfl⟩
    obtain ⟨hlt, hu, -⟩ := h.table_new hpa
    refine ⟨⟨_, hda, h.pde_present, h.pde_frame⟩, ?_⟩
    rintro ⟨j, hj, hp, hT⟩
    exact (ho.taken j (by omega) hp).ne hlt hu hT.symm

theorem user_bit (e : Nat) : userBit (PAGE_PRESENT ||| PAGE_USER ||| PAGE_READ_WRITE) e &&& PAGE_USER ≠ 0 := by
  have hflags : (PAGE_PRESENT ||| PAGE_USER ||| PAGE_READ_WRITE) &&& PAGE_USER ≠ 0 := by decide
  unfold userBit
  rw [if_pos hflags, Nat.and_or_distrib_right]
  simp [PAGE_USER]

/-- Mapping a page of the running task, with frames enough. -/
theorem page_gained {m : Machine} (hk : KernelSpace m) (ho : OwnSpace m m.dir) {a : Nat}
    (ha : a < KERNEL_VIRTUAL_SPACE_START)
    (hroom : (1 + if tablesOf m m.dir (page_directory_index a) then 0 else 1) ≤ freeCount m) :
    (memory_bitmap_allocate m.memory_bitmap).2 ≠ 0 ∧
      ∃ m', memory_paging_map_current (m.setBitmap (memory_bitmap_allocate m.memory_bitmap).1)
          (memory_bitmap_allocate m.memory_bitmap).2 a (PAGE_PRESENT ||| PAGE_USER ||| PAGE_READ_WRITE) =
            some (m', MEMORY_PAGING_RESULT_OK) ∧ PageGained m m' a := by
  have hda := user_directory_index ha
  have hloop := ho.loops (page_directory_index a) (by omega)
  have hfree : (if present (m.frames m.dir (page_directory_index a)) = true then 1 else 2) ≤
      (freeFrames m.memory_bitmap).card := by
    unfold freeCount tablesOf at hroom
    split at hroom <;> rename_i hp
    · rw [if_pos hp]
      omega
    · rw [if_neg hp]
      omega
  obtain ⟨n, T, hn, hn0, hok, hM⟩ := page_added (PAGE_PRESENT ||| PAGE_USER ||| PAGE_READ_WRITE)
    m.frames hk.zero hk.dir_taken hfree (fun hp => ⟨hloop hp, ho.taken _ (by omega) hp⟩)
  have hne : (memory_bitmap_allocate m.memory_bitmap).2 ≠ 0 := by omega
  obtain ⟨hk0, -⟩ := hk.allocate
  have hmap := map_current_eq (n := n) hk0.windows (PAGE_PRESENT ||| PAGE_USER ||| PAGE_READ_WRITE)
    (user_below_bounce ha) hk0.dir_taken hk0.bounce_taken
  have hself : (m.setBitmap (memory_bitmap_allocate m.memory_bitmap).1).setFrame n (m.frames n) =
      m.setBitmap (memory_bitmap_allocate m.memory_bitmap).1 := setFrame_self _ n
  have hdir : (m.setBitmap (memory_bitmap_allocate m.memory_bitmap).1).dir = m.dir := rfl
  have hwords : (m.setBitmap (memory_bitmap_allocate m.memory_bitmap).1).frames = m.frames := rfl
  rw [hself] at hok hM
  rw [hdir] at hmap
  -- The allocation of the table, as the map sees it.
  have halloc : present (m.frames m.dir (page_directory_index a)) = true ∨
      (memory_bitmap_allocate (m.setBitmap (memory_bitmap_allocate m.memory_bitmap).1).memory_bitmap).2 ≠
        0 := by
    by_cases hp : present (m.frames m.dir (page_directory_index a)) = true
    · exact Or.inl hp
    · right
      rw [if_neg hp] at hfree
      refine (allocate_spec hk0.zero ?_).1
      have := (allocate_spec hk.zero (by omega)).2
      show 0 < (freeFrames (memory_bitmap_allocate m.memory_bitmap).1).card
      omega
  obtain ⟨e, he, hold, hnew⟩ := mapPage_pde (m := m.setBitmap (memory_bitmap_allocate m.memory_bitmap).1)
    (d := m.dir) (n * 4096) (PAGE_PRESENT ||| PAGE_USER ||| PAGE_READ_WRITE)
    hk0.dir_taken halloc hloop
  rw [hwords] at hold hnew
  have hrw : e &&& PAGE_READ_WRITE ≠ 0 := by
    cases hp : present (m.frames m.dir (page_directory_index a)) with
    | true =>
      rw [hold hp]
      exact ho.writable _ hda hp
    | false =>
      obtain ⟨t, rfl⟩ := hnew hp
      exact kernel_entry_writable t
  refine ⟨hne, ((m.setBitmap (memory_bitmap_allocate m.memory_bitmap).1).mapPage m.dir (n * 4096) a
    (PAGE_PRESENT ||| PAGE_USER ||| PAGE_READ_WRITE)).1, ?_, ?_⟩
  · rw [hn, hmap, ← hok]
  · clear hmap hok
    generalize ((m.setBitmap (memory_bitmap_allocate m.memory_bitmap).1).mapPage m.dir (n * 4096) a
      (PAGE_PRESENT ||| PAGE_USER ||| PAGE_READ_WRITE)).1 = m' at *
    have hown := hM.own (by decide) hk ho ha hk.dir_apart (by rw [he]; exact userBit_writable hrw _)
    obtain ⟨hkf, -⟩ := hM.kernelFrame hk ho ha hk.dir_apart
    have hat : m'.entry m.dir a = some (n * 4096 ||| 7) := by
      rw [hM.entry_at, Nat.or_assoc]
      rfl
    refine ⟨⟨hM.cr3, hM.kernel, hM.slots, hM.pages, ?_, hown, ?_⟩, ?_, ?_, ?_, ?_, ?_, ?_⟩
    · apply hk.carry hM.cr3 hM.kernel hM.slots ((hM.used 0).mpr (Or.inl hk.zero)) _ hkf
      · intro j hp hj
        apply hM.pde_other
        rintro rfl
        rcases hj with hj | hj
        · omega
        · exact ho.foreign _ hda hp hj
      · rintro f (rfl | hf)
        · exact hM.taken hk.dir_taken
        · exact hM.taken (hk.kernel_taken f hf)
    · intro j hp
      by_cases hj : j = page_directory_index a
      · right
        rw [hj] at hp ⊢
        rw [he, hold hp]
        rfl
      · exact Or.inl (hM.pde_other j hj)
    · exact ⟨n, hM.fresh, hat⟩
    · intro v hv hv'
      exact hM.entry_other ho ha hv hv'
    · rw [he]
      exact user_bit e
    · funext j
      unfold tablesOf withTable
      by_cases hj : j = page_directory_index a
      · rw [hj, hM.pde_present]
        simp
      · rw [hM.pde_other j hj]
        simp [hj]
    · intro g
      rw [hM.used, hM.new_table ho ha g]
      have hentry : (∃ x, m'.entry m.dir a = some x ∧ frameOf x = g) ↔ g = n := by
        rw [hat]
        constructor
        · rintro ⟨x, hx, rfl⟩
          rw [← Option.some.inj hx, frameOf_or _ (by decide)]
          unfold frameOf
          omega
        · rintro rfl
          refine ⟨_, rfl, ?_⟩
          rw [frameOf_or _ (by decide)]
          unfold frameOf
          omega
      rw [hentry]
    · exact hM.free_eq

/-! ## A page is lost -/

namespace Machine

/-- The machine without the page at `a`, whose entry is `x`. -/
def dropPage (m : Machine) (a x : Nat) : Machine :=
  (m.setWord (frameOf (m.frames m.dir (page_directory_index a))) (page_table_index a) 0).setBitmap
    (memory_bitmap_free m.memory_bitmap (ALIGN_DOWN x + a % 4096))

end Machine

section lost

variable {m : Machine} {a x : Nat}

theorem dropPage_words (m : Machine) (a x g j : Nat) :
    (m.dropPage a x).frames g j =
      if g = frameOf (m.frames m.dir (page_directory_index a)) ∧ j = page_table_index a then 0
      else m.frames g j := by
  unfold dropPage
  rw [setBitmap_frames, setWord_apply]

theorem dropPage_used (m : Machine) (a x g : Nat) :
    Used (m.dropPage a x).memory_bitmap g ↔ g ≠ frameOf x ∧ Used m.memory_bitmap g := by
  have hframe : (ALIGN_DOWN x + a % 4096) / 4096 = frameOf x := by
    rw [align_frame]
    omega
  unfold dropPage
  rw [setBitmap_bitmap, used_free, hframe]

/-- The frames other than the table of the page keep their words. -/
theorem dropPage_frame {g : Nat}
    (hg : g ≠ frameOf (m.frames m.dir (page_directory_index a))) :
    (m.dropPage a x).frames g = m.frames g := by
  funext j
  rw [dropPage_words, if_neg (fun hc => hg hc.1)]

/-- A frame in use, other than the page's own, stays in use. -/
theorem dropPage_taken {f : Nat} (hf : Taken m.memory_bitmap f) (hne : f ≠ frameOf x) :
    Taken (m.dropPage a x).memory_bitmap f := by
  intro hlt
  apply (dropPage_used m a x f).mpr
  refine ⟨hne, hf ?_⟩
  unfold dropPage at hlt
  rwa [setBitmap_bitmap, pages_free] at hlt

variable (ho : OwnSpace m m.dir) (ha : a < KERNEL_VIRTUAL_SPACE_START) (hx : m.entry m.dir a = some x)

include ho ha hx

theorem dropPage_directory : (m.dropPage a x).frames m.dir = m.frames m.dir := by
  apply dropPage_frame
  have hp := (entry_eq_some.mp hx).1
  exact (ho.loops _ (by have := user_directory_index ha; omega) hp).symm

theorem dropPage_kernel {f : Nat} (hf : m.KernelFrame f) : (m.dropPage a x).frames f = m.frames f := by
  apply dropPage_frame
  rintro rfl
  exact ho.foreign _ (user_directory_index ha) (entry_eq_some.mp hx).1 hf

theorem dropPage_entry_other {v : Nat} (hv : v < PAGE_TABLES_START) (hne : v / 4096 ≠ a / 4096) :
    (m.dropPage a x).entry m.dir v = m.entry m.dir v := by
  have hp := (entry_eq_some.mp hx).1
  cases hpv : present (m.frames m.dir (page_directory_index v)) with
  | false =>
    unfold Machine.entry
    simp [dropPage_directory ho ha hx, hpv]
  | true =>
    have hword : (m.dropPage a x).frames (frameOf (m.frames m.dir (page_directory_index v)))
        (page_table_index v) =
        m.frames (frameOf (m.frames m.dir (page_directory_index v))) (page_table_index v) := by
      rw [dropPage_words, if_neg]
      rintro ⟨hT, ht⟩
      have hd := ho.apart _ _ (user_directory_index ha)
        (by have := directory_index_lt hv; omega) hp hpv hT.symm
      unfold PAGE_TABLES_START PAGE_TABLE_VADDR at hv
      unfold KERNEL_VIRTUAL_SPACE_START at ha
      exact hne (same_page (by omega) (by omega) hd.symm ht)
    unfold Machine.entry
    simp only [dropPage_directory ho ha hx, hword]

theorem dropPage_entry_at : (m.dropPage a x).entry m.dir a = none := by
  have hword : (m.dropPage a x).frames (frameOf (m.frames m.dir (page_directory_index a)))
      (page_table_index a) = 0 := by
    rw [dropPage_words, if_pos ⟨rfl, rfl⟩]
  unfold Machine.entry
  simp [dropPage_directory ho ha hx, hword]

theorem dropPage_own : OwnSpace (m.dropPage a x) m.dir := by
  have hpage := ho.pages a x ha hx
  have hdir := dropPage_directory ho ha hx
  have hkd : (m.dropPage a x).kdir = m.kdir := rfl
  have hkf : ∀ f, (m.dropPage a x).KernelFrame f ↔ m.KernelFrame f := by
    intro f
    unfold KernelFrame
    rw [hkd, dropPage_kernel ho ha hx (Or.inl rfl)]
  -- An entry that is still there is an old one of another page.
  have hold : ∀ v y, v < KERNEL_VIRTUAL_SPACE_START → (m.dropPage a x).entry m.dir v = some y →
      m.entry m.dir v = some y ∧ frameOf y ≠ frameOf x := by
    intro v y hv hy
    by_cases hsame : v / 4096 = a / 4096
    · rw [entry_same_page _ _ hsame, dropPage_entry_at ho ha hx] at hy
      cases hy
    · rw [dropPage_entry_other ho ha hx (user_below_tables hv) hsame] at hy
      exact ⟨hy, fun hc => hsame (ho.pages_apart v a y x hv ha hy hx hc)⟩
  constructor
  · intro j hj hp
    rw [hdir] at hp ⊢
    exact dropPage_taken (ho.taken j hj hp) (hpage.ne_table j hj hp).symm
  · rw [hdir]
    exact ho.apart
  · rw [hdir]
    exact ho.loops
  · intro j hj hp
    rw [hdir] at hp ⊢
    rw [hkf]
    exact ho.foreign j hj hp
  · rw [hdir]
    exact ho.writable
  · intro v y hv hy
    obtain ⟨hy', hne⟩ := hold v y hv hy
    have hf := ho.pages v y hv hy'
    refine ⟨hf.pos, ?_, (dropPage_used m a x _).mpr ⟨hne, hf.used⟩, hf.ne_dir, ?_, ?_⟩
    · unfold dropPage
      rw [setBitmap_bitmap, pages_free]
      exact hf.lt
    · rw [hkf]
      exact hf.foreign
    · rw [hdir]
      exact hf.ne_table
  · intro v w y z hv hw hy hz heq
    exact ho.pages_apart v w y z hv hw (hold v y hv hy).1 (hold w z hw hz).1 heq

/-- Unmapping a page of the running task and freeing its frame. -/
theorem page_lost (hk : KernelSpace m) (hs : 0 < (freeSlots m).card) :
    task_manager.sbrk_free_page m a = some (m.dropPage a x) ∧ PageLost m (m.dropPage a x) a := by
  have hpage := ho.pages a x ha hx
  have hp := (entry_eq_some.mp hx).1
  constructor
  · have hlook : memory_paging_virtual_to_physical m m.cr3 a = some (m, ALIGN_DOWN x + a % 4096) :=
      virtual_to_physical_found hk.windows hs hx
    have hne : ALIGN_DOWN x + a % 4096 ≠ 0 := by
      have := hpage.pos
      rw [align_frame]
      omega
    unfold task_manager.sbrk_free_page
    simp only [Option.bind_eq_bind, Option.bind_some, hlook,
      unmap_current_eq hk.windows (user_below_bounce ha), hp, if_true]
    rw [if_pos hne]
    rfl
  · have hused := dropPage_used m a x
    have hdir := dropPage_directory ho ha hx
    refine ⟨⟨rfl, rfl, rfl, pages_free _ _, ?_, dropPage_own ho ha hx, ?_⟩,
      dropPage_entry_at ho ha hx, fun v hv hne => dropPage_entry_other ho ha hx hv hne, ?_, ?_, ?_⟩
    · refine hk.carry rfl rfl rfl ((hused 0).mpr ⟨hpage.pos.symm, hk.zero⟩) ?_
        (fun f hf => dropPage_kernel ho ha hx hf) (fun j _ _ => congrFun hdir j)
      rintro f (rfl | hf)
      · exact dropPage_taken hk.dir_taken hpage.ne_dir.symm
      · refine dropPage_taken (hk.kernel_taken f hf) ?_
        rintro rfl
        exact hpage.foreign hf
    · exact fun j _ => Or.inl (congrFun hdir j)
    · exact congrFun hdir
    · intro g
      rw [hused, hx]
      constructor
      · rintro ⟨hne, hu⟩
        refine ⟨hu, ?_⟩
        rintro ⟨y, hy, rfl⟩
        rw [Option.some.inj hy] at hne
        exact hne rfl
      · rintro ⟨hu, hno⟩
        exact ⟨fun hc => hno ⟨x, rfl, hc.symm⟩, hu⟩
    · unfold freeCount
      have hset : freeFrames (m.dropPage a x).memory_bitmap =
          insert (frameOf x) (freeFrames m.memory_bitmap) := by
        have hpages : (m.dropPage a x).memory_bitmap.pages = m.memory_bitmap.pages := pages_free _ _
        ext g
        simp only [mem_freeFrames, Finset.mem_insert, hused, hpages]
        constructor
        · rintro ⟨hlt, hno⟩
          by_cases hg : g = frameOf x
          · exact Or.inl hg
          · exact Or.inr ⟨hlt, fun hu => hno ⟨hg, hu⟩⟩
        · rintro (rfl | ⟨hlt, hno⟩)
          · exact ⟨hpage.lt, fun hc => hc.1 rfl⟩
          · exact ⟨hlt, fun hc => hno hc.2⟩
      rw [hset, Finset.card_insert_of_notMem]
      rw [mem_freeFrames]
      exact fun hc => hc.2 hpage.used

end lost

/-! ## Frames run out -/

theorem OwnSpace.setBitmap {m : Machine} {d : Nat} (ho : OwnSpace m d) {b : memory_bitmap_t}
    (hp : b.pages = m.memory_bitmap.pages) (hu : ∀ f, Used m.memory_bitmap f → Used b f) :
    OwnSpace (m.setBitmap b) d := by
  refine ⟨fun j hj hpj hlt => ?_, ho.apart, ho.loops, ho.foreign, ho.writable,
    fun v x hv hx => ?_, ho.pages_apart⟩
  · exact hu _ (ho.taken j hj hpj (hp ▸ hlt))
  · have hf := ho.pages v x hv hx
    exact ⟨hf.pos, hp ▸ hf.lt, hu _ hf.used, hf.ne_dir, hf.foreign, hf.ne_table⟩

/-- With one frame left, a page whose table is not there takes it and is not mapped. -/
theorem page_stuck {m : Machine} (hk : KernelSpace m) (ho : OwnSpace m m.dir) {a : Nat}
    (ha : a < KERNEL_VIRTUAL_SPACE_START) (hfree : freeCount m = 1)
    (htable : tablesOf m m.dir (page_directory_index a) = false) :
    (memory_bitmap_allocate m.memory_bitmap).2 ≠ 0 ∧
      ∃ m', memory_paging_map_current (m.setBitmap (memory_bitmap_allocate m.memory_bitmap).1)
          (memory_bitmap_allocate m.memory_bitmap).2 a (PAGE_PRESENT ||| PAGE_USER ||| PAGE_READ_WRITE) =
            some (m', MEMORY_PAGING_RESULT_ALLOCATION_ERROR) ∧
        Steps m m' ∧ m'.frames = m.frames ∧ freeCount m' = 0 := by
  obtain ⟨hne, hcard⟩ := allocate_spec (b := m.memory_bitmap) hk.zero (by unfold freeCount at hfree; omega)
  obtain ⟨n, hn, -, -, -, hj, hpages⟩ := allocate_fresh hne
  obtain ⟨hk0, hg0⟩ := hk.allocate
  have hnone : (memory_bitmap_allocate (memory_bitmap_allocate m.memory_bitmap).1).2 = 0 := by
    by_contra hc
    obtain ⟨f, -, -, hlt, hu, -, -⟩ := allocate_fresh hc
    have := Finset.card_pos.mpr ⟨f, mem_freeFrames.mpr ⟨hlt, hu⟩⟩
    unfold freeCount at hfree
    omega
  have hmap := map_current_eq (n := n) hk0.windows (PAGE_PRESENT ||| PAGE_USER ||| PAGE_READ_WRITE)
    (user_below_bounce ha) hk0.dir_taken hk0.bounce_taken
  refine ⟨hne, m.setBitmap (memory_bitmap_allocate m.memory_bitmap).1, ?_, ?_, rfl, ?_⟩
  · rw [hn, hmap]
    have hp : present (m.frames m.dir (page_directory_index a)) = false := htable
    have hfull : (m.setBitmap (memory_bitmap_allocate m.memory_bitmap).1).setBitmap
        (memory_bitmap_allocate (memory_bitmap_allocate m.memory_bitmap).1).1 =
        m.setBitmap (memory_bitmap_allocate m.memory_bitmap).1 := by
      have hsame := allocate_zero (b := (memory_bitmap_allocate m.memory_bitmap).1) hk0.zero hnone
      rw [hsame]
      rfl
    unfold mapPage
    simp only [setBitmap_frames, setBitmap_dir, setBitmap_bitmap, hp, Bool.false_eq_true, if_false,
      hnone, if_true, hfull]
  · exact ⟨rfl, rfl, rfl, hpages, hk0,
      ho.setBitmap hpages (fun f hf => (hj f).mpr (Or.inr hf)), fun _ _ => Or.inl rfl⟩
  · unfold freeCount at hfree ⊢
    show (freeFrames (memory_bitmap_allocate m.memory_bitmap).1).card = 0
    omega

/-- Without a table the lookup of the unwind loop leaves a slot open, and nothing is unmapped. -/
theorem absent_page_kept {m : Machine} (hk : KernelSpace m) (hs : 0 < (freeSlots m).card) {a : Nat}
    (ha : a < KERNEL_VIRTUAL_SPACE_START)
    (hp : present (m.frames m.dir (page_directory_index a)) = false) :
    ∃ m', task_manager.sbrk_free_page m a = some m' ∧
      m'.bounce_pages_used ≠ m.bounce_pages_used := by
  obtain ⟨i, hi⟩ := free_slot_of_card hs
  obtain ⟨hi16, hu⟩ := free_slot_spec hi
  have hpd : page_directory_index a < 1024 := by
    have := user_directory_index ha
    omega
  have hdir : (m.openSlot i m.dir).frames m.dir = m.frames m.dir :=
    openSlot_frames_ne hk.windows.apart.symm
  have hlook : memory_paging_virtual_to_physical m m.cr3 a = some (m.openSlot i m.dir, 0) := by
    have hload := load_slot hk.windows hi16 m.dir hpd
    rw [hdir] at hload
    have hcr3 : frameOf m.cr3 = m.dir := rfl
    unfold memory_paging_virtual_to_physical
    simp only [Option.bind_eq_bind, Option.bind_some, bounce_alloc_spec hk.windows hi, hcr3, hload, hp]
    rfl
  refine ⟨m.openSlot i m.dir, ?_, ?_⟩
  · have hunmap := unmap_current_eq (windows_openSlot hk.windows i m.dir) (user_below_bounce ha)
    rw [openSlot_dir, hdir, hp] at hunmap
    unfold task_manager.sbrk_free_page
    simp only [Option.bind_eq_bind, Option.bind_some, hlook, hunmap]
    rfl
  · intro he
    have := congrFun he i
    rw [openSlot_used, Function.update_self, hu] at this
    cases this

end alura_os.memory_paging
