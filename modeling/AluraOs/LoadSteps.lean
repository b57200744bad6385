-- One program being loaded: the new directory `n`, its tables and its pages are
-- frames that were free, and everything in use before is left alone.
import AluraOs.ElfExecutable
import AluraOs.KernelGrowth
import AluraOs.Lookups
import AluraOs.TaskCopy

namespace alura_os.elf_executable

open alura_os.memory alura_os.memory_bitmap alura_os.memory_paging alura_os.task_manager Machine
open memory_paging_result_t

/-! ## The invariant -/

/-- The frame was free in `mb` and is in use in `m`. -/
structure Owned (mb m : Machine) (f : Nat) : Prop where
  lt : f < mb.memory_bitmap.pages
  fresh : ¬ Used mb.memory_bitmap f
  used : Used m.memory_bitmap f

/-- The directory entries that a program has for itself: the user's and the kernel stack's. -/
def Private (j : Nat) : Prop := j < 768 ∨ j = 831

/-- A frame for a page of the directory `n`: its own, and neither the directory nor a table. -/
structure PageFrame (mb m : Machine) (n f : Nat) : Prop where
  owned : Owned mb m f
  ne_dir : f ≠ n
  ne_table : ∀ j, Private j → present (m.frames n j) = true → f ≠ frameOf (m.frames n j)

/-- The load began in `mb` and reached `m`, seen without the slot on the directory `n`. -/
structure Loading (mb m : Machine) (n : Nat) : Prop where
  cr3 : m.cr3 = mb.cr3
  kernel : m.kernel_page_directory_phys = mb.kernel_page_directory_phys
  slots : m.bounce_pages_used = mb.bounce_pages_used
  pages : m.memory_bitmap.pages = mb.memory_bitmap.pages
  used : ∀ f, Used mb.memory_bitmap f → Used m.memory_bitmap f
  dir_owned : Owned mb m n
  kept : ∀ f, f ≠ 0 → Taken mb.memory_bitmap f → m.frames f = mb.frames f
  kernel_entries : ∀ j, 768 ≤ j → j < 1023 → j ≠ 831 → m.frames n j = mb.frames mb.kdir j
  self : m.frames n 1023 &&& PAGE_USER = 0
  shown : present (m.frames n 1023) = true ∧ frameOf (m.frames n 1023) = n
  stack : present (m.frames n 831) = true → m.frames n 831 &&& PAGE_USER = 0
  read_write : ∀ j, j < 768 → present (m.frames n j) = true → m.frames n j &&& PAGE_READ_WRITE ≠ 0
  tables : ∀ j, Private j → present (m.frames n j) = true →
    Owned mb m (frameOf (m.frames n j)) ∧ frameOf (m.frames n j) ≠ n
  stack_apart : ∀ j, j < 768 → present (m.frames n j) = true → present (m.frames n 831) = true →
    frameOf (m.frames n j) ≠ frameOf (m.frames n 831)
  frames : ∀ j k, j < 768 → k < 1024 → present (m.frames n j) = true →
    present (m.frames (frameOf (m.frames n j)) k) = true →
    PageFrame mb m n (frameOf (m.frames (frameOf (m.frames n j)) k))

/-- What a load relies on: the kernel's tables and the current directory are in order, frame
0 is none of them, and three slots are free. -/
structure LoadBase (mb : Machine) : Prop where
  space : KernelSpace mb
  zero_apart : ¬ mb.KernelFrame 0
  zero_dir : mb.dir ≠ 0
  slots : 3 ≤ (freeSlots mb).card

/-! ## What the invariant keeps -/

section keeps

variable {mb m : Machine} {n : Nat}

theorem Loading.kdir (h : Loading mb m n) : m.kdir = mb.kdir := by
  unfold Machine.kdir
  rw [h.kernel]

theorem Loading.dir (h : Loading mb m n) : m.dir = mb.dir := by
  unfold Machine.dir
  rw [h.cr3]

theorem Loading.taken (h : Loading mb m n) {f : Nat} (hf : Taken mb.memory_bitmap f) :
    Taken m.memory_bitmap f := by
  intro hp
  rw [h.pages] at hp
  exact h.used f (hf hp)

theorem Owned.ne {f g : Nat} (h : Owned mb m f) (hg : Taken mb.memory_bitmap g) : f ≠ g :=
  hg.ne h.lt h.fresh

theorem Loading.kernel_words (h : Loading mb m n) (hb : LoadBase mb) {f : Nat}
    (hf : mb.KernelFrame f) : m.frames f = mb.frames f := by
  apply h.kept f
  · rintro rfl
    exact hb.zero_apart hf
  · exact hb.space.kernel_taken f hf

theorem Loading.kernelFrame (h : Loading mb m n) (hb : LoadBase mb) (f : Nat) :
    m.KernelFrame f ↔ mb.KernelFrame f := by
  unfold KernelFrame
  rw [h.kdir, h.kernel_words hb (Or.inl rfl)]

theorem Loading.dir_words (h : Loading mb m n) (hb : LoadBase mb) :
    m.frames mb.dir = mb.frames mb.dir :=
  h.kept _ hb.zero_dir hb.space.dir_taken

theorem Loading.bounceTable (h : Loading mb m n) (hb : LoadBase mb) :
    m.bounceTable = mb.bounceTable := by
  unfold Machine.bounceTable
  rw [h.dir, h.dir_words hb]

/-- The kernel stays in order all along. -/
theorem Loading.space (h : Loading mb m n) (hb : LoadBase mb) : KernelSpace m := by
  have hK := h.kernel_words hb (f := mb.kdir) (Or.inl rfl)
  obtain ⟨hw, -⟩ := hb.space.windows.of_same h.cr3 h.slots (h.dir_words hb)
    (h.kernel_words hb hb.space.kernelFrame_bounce)
  constructor
  · exact hw
  · exact h.used 0 hb.space.zero
  · rw [h.dir]; exact h.taken hb.space.dir_taken
  · intro f hf
    exact h.taken (hb.space.kernel_taken f ((h.kernelFrame hb f).mp hf))
  · rw [h.dir, h.kernelFrame hb]; exact hb.space.dir_apart
  · rw [h.kdir, hK]; exact hb.space.bounce_present
  · rw [h.kdir, hK, h.bounceTable hb]; exact hb.space.bounce
  · obtain ⟨j, hj1, hj2, hjp, hlow⟩ := hb.space.low
    refine ⟨j, hj1, hj2, by rw [h.kdir, hK]; exact hjp, ?_⟩
    have hptr : m.kernel_page_directory = mb.kernel_page_directory := by
      unfold Machine.kernel_page_directory
      rw [h.kernel]
    rw [hptr, h.kdir, hK]
    exact hlow.of_same h.cr3 h.slots (h.dir_words hb)
      (h.kernel_words hb (Or.inr ⟨j, hj1, by omega, hjp, rfl⟩))
  · rw [h.kdir, hK]; exact hb.space.tables
  · rw [h.kdir, hK]; exact hb.space.no_loop
  · rw [h.kdir, hK]; exact hb.space.stack

theorem Loading.freeSlots_eq (h : Loading mb m n) : freeSlots m = freeSlots mb := by
  unfold freeSlots
  rw [h.slots]

theorem Loading.free_slot (h : Loading mb m n) : bounce_free_slot m = bounce_free_slot mb := by
  unfold bounce_free_slot
  rw [h.slots]

/-- The load seen as an extension of the machine that it began in. -/
theorem Loading.extension (h : Loading mb m n) (hb : LoadBase mb) : Extends mb m where
  kernel := h.kernel
  pages := h.pages
  used := h.used
  kernel_frames := fun f _ _ hk => (h.kernelFrame hb f).mp hk
  words := fun f j h0 hf => Or.inl (by rw [h.kept f h0 hf])

/-! ## Steps -/

theorem Owned.mono {m' : Machine} {f : Nat} (h : Owned mb m f)
    (hu : ∀ f, Used m.memory_bitmap f → Used m'.memory_bitmap f) : Owned mb m' f :=
  ⟨h.lt, h.fresh, hu f h.used⟩

theorem Loading.setBitmap (h : Loading mb m n) {b : memory_bitmap_t}
    (hp : b.pages = m.memory_bitmap.pages) (hu : ∀ f, Used m.memory_bitmap f → Used b f) :
    Loading mb (m.setBitmap b) n where
  cr3 := h.cr3
  kernel := h.kernel
  slots := h.slots
  pages := hp.trans h.pages
  used := fun f hf => hu f (h.used f hf)
  dir_owned := h.dir_owned.mono hu
  kept := h.kept
  kernel_entries := h.kernel_entries
  self := h.self
  shown := h.shown
  stack := h.stack
  read_write := h.read_write
  tables := fun j hj hp => ⟨(h.tables j hj hp).1.mono hu, (h.tables j hj hp).2⟩
  stack_apart := h.stack_apart
  frames := fun j k hj hk hp hq =>
    let hf := h.frames j k hj hk hp hq
    ⟨hf.owned.mono hu, hf.ne_dir, hf.ne_table⟩

/-- A frame from the allocator can be a page of the program. -/
theorem Loading.allocate (h : Loading mb m n) :
    Loading mb (m.setBitmap (memory_bitmap_allocate m.memory_bitmap).1) n ∧
    ((memory_bitmap_allocate m.memory_bitmap).2 ≠ 0 →
      ∃ f, (memory_bitmap_allocate m.memory_bitmap).2 = f * 4096 ∧ ¬ Used m.memory_bitmap f ∧
        PageFrame mb (m.setBitmap (memory_bitmap_allocate m.memory_bitmap).1) n f) := by
  rcases allocate_cases m.memory_bitmap with ⟨he, -⟩ | ⟨i, hi, hu, ha, hj, hp⟩
  · rw [he]
    exact ⟨h, fun hc => absurd rfl hc⟩
  · refine ⟨h.setBitmap hp (fun f hf => (hj f).mpr (Or.inr hf)), fun _ => ⟨i, ha, hu, ?_⟩⟩
    refine ⟨⟨h.pages ▸ hi, fun hc => hu (h.used i hc), (hj i).mpr (Or.inl rfl)⟩, ?_, ?_⟩
    · rintro rfl
      exact hu h.dir_owned.used
    · rintro j hj' hpj rfl
      exact hu (h.tables j hj' hpj).1.used

/-- A frame that the load may write to: a page of the program, or frame 0. -/
theorem Loading.writable (h : Loading mb m n) (hb : LoadBase mb) {f : Nat}
    (hf : f = 0 ∨ PageFrame mb m n f) :
    f ≠ n ∧ (∀ j, Private j → present (m.frames n j) = true → f ≠ frameOf (m.frames n j)) ∧
      ∀ g, g ≠ 0 → Taken mb.memory_bitmap g → f ≠ g := by
  have hzero : Taken mb.memory_bitmap 0 := fun _ => hb.space.zero
  rcases hf with rfl | hf
  · refine ⟨(h.dir_owned.ne hzero).symm, fun j hj hp => ?_, fun g hg _ => hg.symm⟩
    exact ((h.tables j hj hp).1.ne hzero).symm
  · exact ⟨hf.ne_dir, hf.ne_table, fun g _ hg => hf.owned.ne hg⟩

theorem Loading.setFrame (h : Loading mb m n) (hb : LoadBase mb) {f : Nat} (w : Nat → Nat)
    (hf : f = 0 ∨ PageFrame mb m n f) : Loading mb (m.setFrame f w) n := by
  obtain ⟨hn, hT, hold⟩ := h.writable hb hf
  have hnw : (m.setFrame f w).frames n = m.frames n := by
    rw [setFrame_apply, if_neg hn.symm]
  have hmono : ∀ {g}, Owned mb m g → Owned mb (m.setFrame f w) g := fun hg => hg.mono fun _ hu => hu
  refine ⟨h.cr3, h.kernel, h.slots, h.pages, h.used, hmono h.dir_owned, ?_, ?_, ?_, ?_, ?_, ?_, ?_,
    ?_, ?_⟩
  · intro g h0 hg
    rw [setFrame_apply, if_neg (hold g h0 hg).symm]
    exact h.kept g h0 hg
  · rw [hnw]; exact h.kernel_entries
  · rw [hnw]; exact h.self
  · rw [hnw]; exact h.shown
  · rw [hnw]; exact h.stack
  · rw [hnw]; exact h.read_write
  · rw [hnw]
    intro j hj hp
    exact ⟨hmono (h.tables j hj hp).1, (h.tables j hj hp).2⟩
  · rw [hnw]; exact h.stack_apart
  · rw [hnw]
    intro j k hj hk hp hq
    rw [setFrame_apply, if_neg (hT j (Or.inl hj) hp).symm] at hq ⊢
    obtain ⟨h1, h2, h3⟩ := h.frames j k hj hk hp hq
    exact ⟨hmono h1, h2, by rw [hnw]; exact h3⟩

theorem user_page {v : Nat} (hv : v < KERNEL_VIRTUAL_SPACE_START) :
    page_directory_index v < 768 ∧ page_table_index v < 1024 := by
  unfold KERNEL_VIRTUAL_SPACE_START at hv
  unfold page_directory_index page_table_index
  omega

/-- A page that is mapped below the kernel is a page of the program. -/
theorem Loading.pageFrame (h : Loading mb m n) {v x : Nat} (hv : v < KERNEL_VIRTUAL_SPACE_START)
    (hx : m.entry n v = some x) : PageFrame mb m n (frameOf x) := by
  obtain ⟨hp, hq, he⟩ := entry_eq_some.mp hx
  rw [← he]
  exact h.frames _ _ (user_page hv).1 (user_page hv).2 hp hq

/-- The directory entry of a page that was mapped. -/
theorem mapPage_pde {d virt : Nat} (phys flags : Nat) (hd : Taken m.memory_bitmap d)
    (h : present (m.frames d (page_directory_index virt)) = true ∨
      (memory_bitmap_allocate m.memory_bitmap).2 ≠ 0)
    (hT : present (m.frames d (page_directory_index virt)) = true →
      frameOf (m.frames d (page_directory_index virt)) ≠ d) :
    ∃ e, (m.mapPage d phys virt flags).1.frames d (page_directory_index virt) = userBit flags e ∧
      (present (m.frames d (page_directory_index virt)) = true →
        e = m.frames d (page_directory_index virt)) ∧
      (present (m.frames d (page_directory_index virt)) = false →
        ∃ t, e = (t * 4096 ||| PAGE_READ_WRITE ||| PAGE_PRESENT)) := by
  rcases mapPage_cases m d phys virt flags h with ⟨hp, he⟩ | ⟨t, -, hlt, hu, hp, ha, he⟩
  · refine ⟨m.frames d (page_directory_index virt), ?_, fun _ => rfl, fun hc => ?_⟩
    · rw [he, mapEntry_apply, if_neg (fun hc => hT hp hc.1.symm), if_pos ⟨rfl, rfl⟩]
    · rw [hp] at hc
      cases hc
  · have htd : t ≠ d := hd.ne hlt hu
    refine ⟨t * 4096 ||| PAGE_READ_WRITE ||| PAGE_PRESENT, ?_, fun hc => ?_, fun _ => ⟨t, rfl⟩⟩
    · have hpde : ((m.setBitmap (memory_bitmap_allocate m.memory_bitmap).1).addTable d
          (page_directory_index virt) (t * 4096)).frames d (page_directory_index virt) =
          (t * 4096 ||| PAGE_READ_WRITE ||| PAGE_PRESENT) := by
        rw [addTable_apply, if_pos ⟨rfl, rfl⟩]
      rw [he, mapEntry_apply, hpde, frameOf_entry t (by decide), if_neg (fun hc => htd hc.1.symm),
        if_pos ⟨rfl, rfl⟩]
    · rw [hp] at hc
      cases hc

/-- Without a table and without a frame for one, the entry stays absent. -/
theorem mapPage_room {d phys virt flags : Nat}
    (h : present ((m.mapPage d phys virt flags).1.frames d (page_directory_index virt)) = true) :
    present (m.frames d (page_directory_index virt)) = true ∨
      (memory_bitmap_allocate m.memory_bitmap).2 ≠ 0 := by
  by_contra hno
  obtain ⟨hp, ha⟩ := not_or.mp hno
  replace hp : present (m.frames d (page_directory_index virt)) = false := by simpa using hp
  have he : (m.mapPage d phys virt flags).1.frames = m.frames := by
    unfold Machine.mapPage
    simp only [hp, Bool.false_eq_true, if_false, not_not.mp ha, if_true]
    rfl
  rw [he, hp] at h
  cases h

/-- The entry below which a map without `PAGE_USER` went does not get that flag. -/
theorem mapPage_user {d phys virt flags : Nat} (hd : Taken m.memory_bitmap d)
    (hT : present (m.frames d (page_directory_index virt)) = true →
      frameOf (m.frames d (page_directory_index virt)) ≠ d)
    (hfl : flags &&& PAGE_USER = 0)
    (hold : present (m.frames d (page_directory_index virt)) = true →
      m.frames d (page_directory_index virt) &&& PAGE_USER = 0)
    (hnew : present ((m.mapPage d phys virt flags).1.frames d (page_directory_index virt)) = true) :
    (m.mapPage d phys virt flags).1.frames d (page_directory_index virt) &&& PAGE_USER = 0 := by
  obtain ⟨e, he, hkept, hadded⟩ := mapPage_pde phys flags hd (mapPage_room hnew) hT
  have hbit : userBit flags e = e := if_neg fun hc => hc hfl
  rw [he, hbit]
  cases hp : present (m.frames d (page_directory_index virt)) with
  | true =>
    rw [hkept hp]
    exact hold hp
  | false =>
    obtain ⟨t, rfl⟩ := hadded hp
    exact kernel_entry_user t

theorem kernel_entry_writable (t : Nat) :
    (t * 4096 ||| PAGE_READ_WRITE ||| PAGE_PRESENT) &&& PAGE_READ_WRITE ≠ 0 := by
  rw [Nat.or_assoc, Nat.or_comm, Nat.and_or_distrib_right]
  simp [PAGE_READ_WRITE, PAGE_PRESENT]

theorem userBit_writable {e : Nat} (h : e &&& PAGE_READ_WRITE ≠ 0) (flags : Nat) :
    userBit flags e &&& PAGE_READ_WRITE ≠ 0 := by
  unfold userBit
  split
  · rw [Nat.and_or_distrib_right]
    simpa [PAGE_USER, PAGE_READ_WRITE] using h
  · exact h

/-- The entry below which a map went allows writes, if it did before. -/
theorem mapPage_read_write {d phys virt flags : Nat} (hd : Taken m.memory_bitmap d)
    (hT : present (m.frames d (page_directory_index virt)) = true →
      frameOf (m.frames d (page_directory_index virt)) ≠ d)
    (hold : present (m.frames d (page_directory_index virt)) = true →
      m.frames d (page_directory_index virt) &&& PAGE_READ_WRITE ≠ 0)
    (hnew : present ((m.mapPage d phys virt flags).1.frames d (page_directory_index virt)) = true) :
    (m.mapPage d phys virt flags).1.frames d (page_directory_index virt) &&& PAGE_READ_WRITE ≠ 0 := by
  obtain ⟨e, he, hkept, hadded⟩ := mapPage_pde phys flags hd (mapPage_room hnew) hT
  rw [he]
  apply userBit_writable
  cases hp : present (m.frames d (page_directory_index virt)) with
  | true =>
    rw [hkept hp]
    exact hold hp
  | false =>
    obtain ⟨t, rfl⟩ := hadded hp
    exact kernel_entry_writable t

/-! ## One map -/

/-- The table of a map is a frame of the program. -/
theorem Loading.table_owned (h : Loading mb m n) {m' : Machine} {virt x T : Nat}
    (hM : Mapped m m' n virt x T) (hpr : Private (page_directory_index virt)) :
    Owned mb m' T := by
  cases hp : present (m.frames n (page_directory_index virt)) with
  | true =>
    rw [(hM.table_old hp).1]
    exact (h.tables _ hpr hp).1.mono fun f hf => (hM.used f).mpr (Or.inl hf)
  | false =>
    obtain ⟨hlt, hu, -⟩ := hM.table_new hp
    exact ⟨h.pages ▸ hlt, fun hc => hu (h.used T hc), (hM.used T).mpr (Or.inr ⟨hp, rfl⟩)⟩

/-- A page of the program is none of its tables after a map either. -/
theorem PageFrame.mapped {m' : Machine} {virt x T f : Nat} (hf : PageFrame mb m n f)
    (hM : Mapped m m' n virt x T) (hpr : Private (page_directory_index virt)) :
    PageFrame mb m' n f := by
  refine ⟨hf.owned.mono fun g hg => (hM.used g).mpr (Or.inl hg), hf.ne_dir, fun j hj hp => ?_⟩
  by_cases hv : j = page_directory_index virt
  · subst hv
    rw [hM.pde_frame]
    cases hpo : present (m.frames n (page_directory_index virt)) with
    | true =>
      rw [(hM.table_old hpo).1]
      exact hf.ne_table _ hpr hpo
    | false =>
      rintro rfl
      exact (hM.table_new hpo).2.1 hf.owned.used
  · rw [hM.pde_other j hv] at hp ⊢
    exact hf.ne_table j hj hp

/-- A table that was there has its old words after a map, but for the new entry. -/
theorem Loading.table_word (h : Loading mb m n) {m' : Machine} {virt x T : Nat}
    (hM : Mapped m m' n virt x T) {j : Nat} (hj : Private j)
    (hp : present (m.frames n j) = true) (k : Nat) :
    m'.frames (frameOf (m.frames n j)) k = m.frames (frameOf (m.frames n j)) k ∨
      (frameOf (m.frames n j) = T ∧ k = page_table_index virt ∧
        m'.frames (frameOf (m.frames n j)) k = x) := by
  obtain ⟨hown, hne⟩ := h.tables j hj hp
  by_cases hT : frameOf (m.frames n j) = T
  · by_cases hk : k = page_table_index virt
    · exact Or.inr ⟨hT, hk, by rw [hT, hk]; exact hM.entry⟩
    · left
      cases hpo : present (m.frames n (page_directory_index virt)) with
      | true =>
        rw [hT]
        exact (hM.table_old hpo).2 k hk
      | false => exact absurd (hT ▸ hown.used) (hM.table_new hpo).2.1
  · exact Or.inl (by rw [hM.others _ hne hT])

/-- What a map of a page of the program, or of the kernel stack, needs. -/
def Mappable (mb m : Machine) (n f virt flags : Nat) : Prop :=
  (virt < KERNEL_VIRTUAL_SPACE_START ∧ PageFrame mb m n f) ∨
    (page_directory_index virt = 831 ∧ flags &&& PAGE_USER = 0)

theorem Mappable.private {f virt flags : Nat} (hv : Mappable mb m n f virt flags) :
    Private (page_directory_index virt) := by
  rcases hv with ⟨hv, -⟩ | ⟨hv, -⟩
  · exact Or.inl (user_page hv).1
  · exact Or.inr hv

theorem Loading.mapped_frames (h : Loading mb m n) {f virt flags T : Nat} {m' : Machine}
    (hfl : flags < 4096) (hv : Mappable mb m n f virt flags)
    (hM : Mapped m m' n virt (f * 4096 ||| flags ||| PAGE_PRESENT) T) {j k : Nat} (hj : j < 768)
    (hk : k < 1024) (hp : present (m'.frames n j) = true)
    (hq : present (m'.frames (frameOf (m'.frames n j)) k) = true) :
    PageFrame mb m' n (frameOf (m'.frames (frameOf (m'.frames n j)) k)) := by
  have hpr := hv.private
  by_cases hpo : present (m.frames n j) = true
  · have hfr : frameOf (m'.frames n j) = frameOf (m.frames n j) := by
      by_cases hjv : j = page_directory_index virt
      · subst hjv
        rw [hM.pde_frame]
        exact (hM.table_old hpo).1
      · rw [hM.pde_other j hjv]
    rw [hfr] at hq ⊢
    rcases h.table_word hM (Or.inl hj) hpo k with hw | ⟨hT, hkv, hw⟩
    · rw [hw] at hq ⊢
      exact (h.frames j k hj hk hpo hq).mapped hM hpr
    · rcases hv with ⟨hlt, hf⟩ | ⟨hpd, -⟩
      · rw [hw, frameOf_entry f hfl]
        exact hf.mapped hM hpr
      · -- The table of the kernel stack is no user table.
        exfalso
        cases hps : present (m.frames n (page_directory_index virt)) with
        | true =>
          rw [(hM.table_old hps).1, hpd] at hT
          rw [hpd] at hps
          exact h.stack_apart j hj hpo hps hT
        | false => exact (hM.table_new hps).2.1 (hT ▸ (h.tables j (Or.inl hj) hpo).1.used)
  · have hjv : j = page_directory_index virt := by
      by_contra hne
      rw [hM.pde_other j hne] at hp
      exact hpo hp
    subst hjv
    have hpo' : present (m.frames n (page_directory_index virt)) = false := by simpa using hpo
    rw [hM.pde_frame] at hq ⊢
    by_cases hkv : k = page_table_index virt
    · rcases hv with ⟨hlt, hf⟩ | ⟨hpd, -⟩
      · rw [hkv, hM.entry, frameOf_entry f hfl]
        exact hf.mapped hM hpr
      · omega
    · rw [(hM.table_new hpo').2.2 k hk hkv] at hq
      cases hq

theorem Loading.map (h : Loading mb m n) {f virt flags T : Nat} (hfl : flags < 4096)
    (hv : Mappable mb m n f virt flags)
    (hM : Mapped m (m.mapPage n (f * 4096) virt flags).1 n virt
      (f * 4096 ||| flags ||| PAGE_PRESENT) T) :
    Loading mb (m.mapPage n (f * 4096) virt flags).1 n := by
  have hpr := hv.private
  have hown := h.table_owned hM hpr
  have hdt : Taken m.memory_bitmap n := fun _ => h.dir_owned.used
  have huser : page_directory_index virt = 831 →
      present ((m.mapPage n (f * 4096) virt flags).1.frames n (page_directory_index virt)) = true →
      (m.mapPage n (f * 4096) virt flags).1.frames n (page_directory_index virt) &&& PAGE_USER =
        0 := by
    intro hpd
    have hflu : flags &&& PAGE_USER = 0 := by
      rcases hv with ⟨hlt, -⟩ | ⟨-, hx⟩
      · have := (user_page hlt).1
        omega
      · exact hx
    exact mapPage_user hdt (fun hp => (h.tables _ hpr hp).2) hflu (by rw [hpd]; exact h.stack)
  have hwritable : page_directory_index virt < 768 →
      (m.mapPage n (f * 4096) virt flags).1.frames n (page_directory_index virt) &&&
        PAGE_READ_WRITE ≠ 0 :=
    fun hlow => mapPage_read_write hdt (fun hp => (h.tables _ hpr hp).2) (h.read_write _ hlow)
      hM.pde_present
  have hframes := fun j k => h.mapped_frames hfl hv hM (j := j) (k := k)
  generalize (m.mapPage n (f * 4096) virt flags).1 = m' at *
  have hmono : ∀ g, Used m.memory_bitmap g → Used m'.memory_bitmap g :=
    fun g hg => (hM.used g).mpr (Or.inl hg)
  refine ⟨hM.cr3.trans h.cr3, hM.kernel.trans h.kernel, hM.slots.trans h.slots,
    hM.pages.trans h.pages, fun g hg => hmono g (h.used g hg), h.dir_owned.mono hmono, ?_, ?_, ?_,
    ?_, ?_, ?_, ?_, ?_, hframes⟩
  · intro g h0 hg
    rw [hM.others g (h.dir_owned.ne hg).symm (hown.ne hg).symm]
    exact h.kept g h0 hg
  · intro j hj1 hj2 hj3
    rw [hM.pde_other j (by rcases hpr with hc | hc <;> omega)]
    exact h.kernel_entries j hj1 hj2 hj3
  · rw [hM.pde_other 1023 (by rcases hpr with hc | hc <;> omega)]
    exact h.self
  · rw [hM.pde_other 1023 (by rcases hpr with hc | hc <;> omega)]
    exact h.shown
  · by_cases hpd : page_directory_index virt = 831
    · rw [← hpd]
      exact huser hpd
    · rw [hM.pde_other 831 (fun hc => hpd hc.symm)]
      exact h.stack
  · intro j hj hp
    by_cases hjv : j = page_directory_index virt
    · rw [hjv] at hj ⊢
      exact hwritable hj
    · rw [hM.pde_other j hjv] at hp ⊢
      exact h.read_write j hj hp
  · intro j hj hp
    by_cases hjv : j = page_directory_index virt
    · rw [hjv, hM.pde_frame]
      exact ⟨hown, hM.ne_dir⟩
    · rw [hM.pde_other j hjv] at hp ⊢
      exact ⟨(h.tables j hj hp).1.mono hmono, (h.tables j hj hp).2⟩
  · intro j hj hp hps
    -- A table that came in is not the other one, which was in use.
    have hnew : present (m.frames n (page_directory_index virt)) = false →
        ∀ i, Private i → present (m.frames n i) = true → frameOf (m.frames n i) ≠ T := by
      rintro hpo i hi hpi rfl
      exact (hM.table_new hpo).2.1 (h.tables i hi hpi).1.used
    by_cases hjv : j = page_directory_index virt <;>
      by_cases hsv : 831 = page_directory_index virt
    · omega
    · rw [hM.pde_other 831 hsv] at hps ⊢
      rw [hjv, hM.pde_frame]
      cases hpo : present (m.frames n (page_directory_index virt)) with
      | true =>
        rw [(hM.table_old hpo).1, ← hjv]
        exact h.stack_apart j hj (by rw [hjv]; exact hpo) hps
      | false => exact (hnew hpo 831 (Or.inr rfl) hps).symm
    · rw [hM.pde_other j hjv] at hp ⊢
      rw [hsv, hM.pde_frame]
      cases hpo : present (m.frames n (page_directory_index virt)) with
      | true =>
        rw [(hM.table_old hpo).1, ← hsv]
        exact h.stack_apart j hj hp (by rw [hsv]; exact hpo)
      | false => exact hnew hpo j (Or.inl hj) hp
    · rw [hM.pde_other j hjv] at hp ⊢
      rw [hM.pde_other 831 hsv] at hps ⊢
      exact h.stack_apart j hj hp hps

end keeps

/-! ## Stacks through a slot -/

/-- The words of a frame after pushes from word `k` down. -/
def pushWords (w : Nat → Nat) : Nat → List Nat → Nat → Nat
  | _, [] => w
  | k, x :: xs => pushWords (Function.update w (k - 1) x) (k - 1) xs

theorem push_words_via {m : Machine} {v t f : Nat} (h : Via m v t f) (hv : v % 4096 = 0)
    (hlt : v + 4096 < 0x100000000) (hd : f ≠ m.dir) (ht : f ≠ t) (ws : List Nat) (k : Nat)
    (hk : k ≤ 1024) (hws : ws.length ≤ k) :
    push_words m (v + 4 * k) ws =
      some (m.setFrame f (pushWords (m.frames f) k ws), v + 4 * (k - ws.length)) := by
  induction ws generalizing m k with
  | nil =>
    unfold push_words pushWords
    rw [setFrame_self]
    rfl
  | cons x xs ih =>
    rw [List.length_cons] at hws
    have hcur : sub32 (v + 4 * k) 4 = v + 4 * (k - 1) := by
      rw [sub32_of_le (by omega) (by omega)]
      omega
    have hat : at32 v (k - 1) = v + 4 * (k - 1) := (at32_walk hv (by omega) (by omega)).1
    have hstore := store_via x h hv (by omega) (show k - 1 < 1024 by omega)
    rw [hat] at hstore
    have hrest := ih (via_setFrame h (w := Function.update (m.frames f) (k - 1) x) hd ht) hd (k - 1)
      (by omega) (by omega)
    rw [setFrame_setFrame, setFrame_apply, if_pos rfl] at hrest
    unfold push_words pushWords
    rw [hcur, hstore]
    rw [List.length_cons, show k - (xs.length + 1) = k - 1 - xs.length by omega]
    exact hrest

/-- The bytes that the strings of `argv` take, with their ends. -/
def stringBytes (argv : List (List Nat)) : Nat := (argv.map fun s => s.length + 1).sum

theorem stringBytes_reverse (argv : List (List Nat)) :
    stringBytes argv.reverse = stringBytes argv := by
  unfold stringBytes
  rw [List.map_reverse, List.sum_reverse]

/-! ## Steps with the directory open -/

section steps

variable {mb m m' : Machine} {n i : Nat}

/-- The directory is neither the current one nor a table of the kernel. -/
theorem Loading.dir_apart (h : Loading mb m n) (hb : LoadBase mb) :
    n ≠ m.bounceTable ∧ n ≠ m.dir := by
  rw [h.bounceTable hb, h.dir]
  exact ⟨h.dir_owned.ne hb.space.bounce_taken, h.dir_owned.ne hb.space.dir_taken⟩

theorem Loading.table_apart (h : Loading mb m n) (hb : LoadBase mb) {j : Nat} (hj : Private j)
    (hp : present (m.frames n j) = true) :
    frameOf (m.frames n j) ≠ m.bounceTable ∧ frameOf (m.frames n j) ≠ m.dir := by
  rw [h.bounceTable hb, h.dir]
  have hown := (h.tables j hj hp).1
  exact ⟨hown.ne hb.space.bounce_taken, hown.ne hb.space.dir_taken⟩

theorem Loading.writable_apart (h : Loading mb m n) (hb : LoadBase mb) {f : Nat}
    (hf : f = 0 ∨ PageFrame mb m n f) : f ≠ m.bounceTable ∧ f ≠ m.dir := by
  obtain ⟨-, -, hold⟩ := h.writable hb hf
  rw [h.bounceTable hb, h.dir]
  constructor
  · apply hold _ _ hb.space.bounce_taken
    intro hc
    exact hb.zero_apart (hc ▸ hb.space.kernelFrame_bounce)
  · exact hold _ hb.zero_dir hb.space.dir_taken

/-- The windows with the directory open, and the next free slot. -/
theorem Loading.open_windows (h : Loading mb m n) (hb : LoadBase mb)
    (hi : bounce_free_slot mb = some i) :
    Windows (m.openSlot i n) ∧ 2 ≤ (freeSlots (m.openSlot i n)).card ∧
      (m.openSlot i n).bounceTable = m.bounceTable := by
  have hk := h.space hb
  have hcard := freeSlots_openSlot (m := m) (by rw [h.free_slot]; exact hi) n
  rw [h.freeSlots_eq] at hcard
  have := hb.slots
  exact ⟨windows_openSlot hk.windows i n, by omega, openSlot_bounceTable hk.windows i n⟩

/-- New words for a frame of the program, under the open directory. -/
theorem Loading.open_setFrame (h : Loading mb m n) (hb : LoadBase mb) {f : Nat} (w : Nat → Nat)
    (hf : f = 0 ∨ PageFrame mb m n f) :
    (m.openSlot i n).setFrame f w = (m.setFrame f w).openSlot i n := by
  obtain ⟨hB, hD⟩ := h.writable_apart hb hf
  exact openSlot_setFrame w hB hD

/-! ## The stacks -/

/-- Words pushed from the top of a frame of the program, through a slot of their own. -/
theorem Loading.push_through (h : Loading mb m n) (hb : LoadBase mb)
    (hi : bounce_free_slot mb = some i) {f : Nat} (hf : f = 0 ∨ PageFrame mb m n f)
    (ws : List Nat) (hws : ws.length ≤ 1024) :
    ∃ base m1, bounce_alloc (m.openSlot i n) (f * 4096) = some (m1, base) ∧
      base + 4096 < 0x100000000 ∧
      ∃ m2, push_words m1 (base + 4096) ws = some (m2, base + 4 * (1024 - ws.length)) ∧
        bounce_free m2 base =
          some ((m.setFrame f (pushWords (m.frames f) 1024 ws)).openSlot i n) := by
  obtain ⟨hw, hs, hBo⟩ := h.open_windows hb hi
  obtain ⟨hB, hD⟩ := h.writable_apart hb hf
  obtain ⟨j, hj⟩ := free_slot_of_card (m := m.openSlot i n) (by omega)
  obtain ⟨hj16, -⟩ := free_slot_spec hj
  have hfr : frameOf (f * 4096) = f := by unfold frameOf; omega
  have hBf : f ≠ (m.openSlot i n).bounceTable := by rw [hBo]; exact hB
  have halloc := bounce_alloc_spec hw hj (f * 4096)
  rw [hfr] at halloc
  have hpush := push_words_via (via_slot hw hj16 f) (slotAddr_facts hj16).1 (slotAddr_lt hj16) hD
    hBf ws 1024 (le_refl _) hws
  refine ⟨_, _, halloc, slotAddr_lt hj16, _, hpush, ?_⟩
  rw [openSlot_frames_ne hBf, openSlot_frames_ne hB, free_after_write hw hj _ hBf hD,
    h.open_setFrame hb _ hf]

theorem first_frame_length (task_is_user : Bool) (eip user_esp : Nat) :
    (first_frame task_is_user eip user_esp).length = if task_is_user then 18 else 16 := by
  cases task_is_user <;> rfl

/-- The kernel stack of the program, once its frame is taken and the map was tried. -/
theorem Loading.prepare_stack (h : Loading mb m' n) (hb : LoadBase mb)
    (hi : bounce_free_slot mb = some i) (task_is_user : Bool) (eip user_esp : Nat) {f : Nat}
    {b : memory_bitmap_t} {result : memory_paging_result_t}
    (ha : memory_bitmap_allocate m.memory_bitmap = (b, f * 4096))
    (hmap : memory_paging_map ((m.setBitmap b).openSlot i n) (slotAddr i) (f * 4096)
      (KERNEL_STACK_TOP - PAGE_SIZE) PAGE_READ_WRITE = some (m'.openSlot i n, result))
    (hf : f = 0 ∨ PageFrame mb m' n f) :
    task_manager_prepare_new_stack (m.openSlot i n) (slotAddr i) task_is_user eip user_esp =
      some ((m'.setFrame f (pushWords (m'.frames f) 1024
        (first_frame task_is_user eip user_esp))).openSlot i n,
        KERNEL_STACK_TOP - if task_is_user then 72 else 64) := by
  have hlen := first_frame_length task_is_user eip user_esp
  obtain ⟨base, m2, halloc, hbase, m3, hpush, hfree⟩ := h.push_through hb hi hf
    (first_frame task_is_user eip user_esp) (by rw [hlen]; split <;> omega)
  have hbm : (m.openSlot i n).memory_bitmap = m.memory_bitmap := rfl
  have hcomm : (m.openSlot i n).setBitmap b = (m.setBitmap b).openSlot i n := rfl
  have htop : u32 (base + PAGE_SIZE) = base + 4096 := u32_of_lt (by exact hbase)
  have hesp : sub32 KERNEL_STACK_TOP (sub32 (base + PAGE_SIZE)
      (base + 4 * (1024 - (first_frame task_is_user eip user_esp).length))) =
      KERNEL_STACK_TOP - if task_is_user then 72 else 64 := by
    have hin : sub32 (base + PAGE_SIZE)
        (base + 4 * (1024 - (first_frame task_is_user eip user_esp).length)) =
        if task_is_user then 72 else 64 := by
      unfold PAGE_SIZE
      rw [hlen]
      cases task_is_user
      · rw [sub32_of_le (by simp) (by omega)]
        simp only [Bool.false_eq_true, if_false]
        omega
      · rw [sub32_of_le (by simp) (by omega)]
        simp only [if_true]
        omega
    rw [hin]
    cases task_is_user <;> rfl
  unfold task_manager_prepare_new_stack
  simp only [hbm, ha, hcomm, Option.bind_eq_bind, hmap, Option.bind_some, halloc, htop, hpush,
    hfree, hesp]
  rfl

/-! ## The loops of a segment -/

theorem Loading.entry_open (h : Loading mb m n) (hb : LoadBase mb) {v : Nat}
    (hv : v < KERNEL_VIRTUAL_SPACE_START) : (m.openSlot i n).entry n v = m.entry n v := by
  unfold Machine.entry
  simp only
  rw [openSlot_frames_ne (h.dir_apart hb).1]
  by_cases hp : present (m.frames n (page_directory_index v)) = true
  · rw [openSlot_frames_ne (h.table_apart hb (Or.inl (user_page hv).1) hp).1]
  · simp [hp]

/-- Bytes for a mapped page: the lookup, the slot, the copy and the slot's end. -/
theorem Loading.chunk (h : Loading mb m n) (hb : LoadBase mb) (hi : bounce_free_slot mb = some i)
    {v x : Nat} (hv : v < KERNEL_VIRTUAL_SPACE_START) (hx : m.entry n v = some x)
    (bytes : List Nat) (hlen : v % 4096 + bytes.length ≤ 4096) :
    ∃ phys kaddr m1 m2,
      memory_paging_virtual_to_physical (m.openSlot i n) (n * 4096) v =
        some (m.openSlot i n, phys) ∧
      bounce_alloc (m.openSlot i n) phys = some (m1, kaddr) ∧ kaddr ≠ 0 ∧
      u32 (kaddr + v % 4096) ≠ 0 ∧
      memcpy_to m1 (u32 (kaddr + v % 4096)) bytes = some m2 ∧
      bounce_free m2 kaddr = some ((m.setFrame (frameOf x)
        (putBytes (m.frames (frameOf x)) (v % 4096) bytes)).openSlot i n) := by
  obtain ⟨hw, hs, hBo⟩ := h.open_windows hb hi
  have hpage := h.pageFrame hv hx
  obtain ⟨hB, hD⟩ := h.writable_apart hb (Or.inr hpage)
  obtain ⟨j, hj⟩ := free_slot_of_card (m := m.openSlot i n) (by omega)
  obtain ⟨hj16, -⟩ := free_slot_spec hj
  have hfr : frameOf (n * 4096) = n := by unfold frameOf; omega
  have hentry : (m.openSlot i n).entry (frameOf (n * 4096)) v = some x := by
    rw [hfr, h.entry_open hb hv]
    exact hx
  have hv2p := virtual_to_physical_found hw (by omega) hentry
  have hfx : frameOf (ALIGN_DOWN x + v % 4096) = frameOf x := by
    rw [align_frame]
    unfold frameOf
    omega
  have halloc := bounce_alloc_spec hw hj (ALIGN_DOWN x + v % 4096)
  rw [hfx] at halloc
  have hBf : frameOf x ≠ (m.openSlot i n).bounceTable := by rw [hBo]; exact hB
  obtain ⟨m2, hcopy, hfree⟩ := bytes_through_slot hw hj bytes (g := frameOf x) (k := v % 4096)
    (Nat.mod_lt _ (by decide)) hlen hBf hD
  rw [openSlot_frames_ne hB, h.open_setFrame hb _ (Or.inr hpage)] at hfree
  have hpos := (slotAddr_facts hj16).2.2.2.2
  refine ⟨_, slotAddr j, _, m2, hv2p, halloc, by omega, ?_, hcopy, hfree⟩
  rw [u32_slot hj16 (Nat.mod_lt _ (by decide))]
  omega

end steps

end alura_os.elf_executable
