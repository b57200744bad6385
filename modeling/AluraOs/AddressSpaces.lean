-- Address spaces: what the kernel's own page tables keep in order, and what
-- growing the kernel heap and creating a directory do to physical memory.
import AluraOs.Loops
import AluraOs.PagingMaps

namespace alura_os.memory_paging

open alura_os.memory alura_os.memory_bitmap Machine memory_paging_result_t

/-! ## The kernel's tables -/

namespace Machine

/-- The frame of the kernel's page directory. -/
def kdir (m : Machine) : Nat := frameOf m.kernel_page_directory_phys

/-- The frame is the kernel's directory or one of its page tables. -/
def KernelFrame (m : Machine) (f : Nat) : Prop :=
  f = m.kdir ∨ ∃ j, 768 ≤ j ∧ j < 1023 ∧ present (m.frames m.kdir j) = true ∧
    frameOf (m.frames m.kdir j) = f

/-- The entry of a virtual page in the directory frame `d`, when it is mapped. -/
def entry (m : Machine) (d v : Nat) : Option Nat :=
  let pde := m.frames d (page_directory_index v)
  let pte := m.frames (frameOf pde) (page_table_index v)
  if present pde = true ∧ present pte = true then some pte else none

end Machine

theorem entry_eq_some {m : Machine} {d v pte : Nat} :
    m.entry d v = some pte ↔
      present (m.frames d (page_directory_index v)) = true ∧
      present (m.frames (frameOf (m.frames d (page_directory_index v))) (page_table_index v)) =
        true ∧
      m.frames (frameOf (m.frames d (page_directory_index v))) (page_table_index v) = pte := by
  unfold Machine.entry
  simp only
  split
  · rename_i h
    simp [h.1, h.2]
  · rename_i h
    constructor
    · intro hc; cases hc
    · rintro ⟨h1, h2, -⟩
      exact absurd ⟨h1, h2⟩ h

/-- What holds whenever kernel code runs in the directory of a task: the windows are in
order, the low window shows the kernel's directory, and the kernel's tables are
frames of their own that the allocator will not give out. The entry of the kernel
stacks, 831, is for each task to fill. -/
structure KernelSpace (m : Machine) : Prop where
  windows : Windows m
  zero : Used m.memory_bitmap 0
  dir_taken : Taken m.memory_bitmap m.dir
  kernel_taken : ∀ f, m.KernelFrame f → Taken m.memory_bitmap f
  dir_apart : ¬ m.KernelFrame m.dir
  bounce_present : present (m.frames m.kdir 1022) = true
  bounce : frameOf (m.frames m.kdir 1022) = m.bounceTable
  low : ∃ j, 768 ≤ j ∧ j < 784 ∧ present (m.frames m.kdir j) = true ∧
    Shows m m.kernel_page_directory (frameOf (m.frames m.kdir j)) m.kdir
  tables : ∀ i j, 768 ≤ i → i < 1023 → 768 ≤ j → j < 1023 →
    present (m.frames m.kdir i) = true → present (m.frames m.kdir j) = true →
    frameOf (m.frames m.kdir i) = frameOf (m.frames m.kdir j) → i = j
  no_loop : ∀ j, 768 ≤ j → j < 1023 → present (m.frames m.kdir j) = true →
    frameOf (m.frames m.kdir j) ≠ m.kdir
  stack : present (m.frames m.kdir 831) = false

namespace KernelSpace

variable {m : Machine}

theorem kernelFrame_bounce (h : KernelSpace m) : m.KernelFrame m.bounceTable :=
  Or.inr ⟨1022, by omega, by omega, h.bounce_present, h.bounce⟩

theorem kdir_ne_dir (h : KernelSpace m) : m.kdir ≠ m.dir := by
  intro he
  exact h.dir_apart (Or.inl he.symm)

theorem kdir_ne_bounce (h : KernelSpace m) : m.kdir ≠ m.bounceTable := by
  rw [← h.bounce]
  exact (h.no_loop 1022 (by omega) (by omega) h.bounce_present).symm

theorem bounce_taken (h : KernelSpace m) : Taken m.memory_bitmap m.bounceTable :=
  h.kernel_taken _ h.kernelFrame_bounce

end KernelSpace

/-! ## Growth of the kernel -/

/-- The machine `m'` came from `m` by work of the kernel that took only free frames and
changed, of the frames in use, only the kernel's own tables. -/
structure Grown (m m' : Machine) : Prop where
  cr3 : m'.cr3 = m.cr3
  kernel : m'.kernel_page_directory_phys = m.kernel_page_directory_phys
  slots : m'.bounce_pages_used = m.bounce_pages_used
  pages : m'.memory_bitmap.pages = m.memory_bitmap.pages
  used : ∀ f, Used m.memory_bitmap f → Used m'.memory_bitmap f
  entries : ∀ j, present (m.frames m.kdir j) = true → m'.frames m.kdir j = m.frames m.kdir j
  kept : ∀ f, Taken m.memory_bitmap f → ¬ m.KernelFrame f →
    m'.frames f = m.frames f ∧ ¬ m'.KernelFrame f

namespace Grown

variable {m m1 m2 : Machine}

theorem refl (m : Machine) : Grown m m :=
  ⟨rfl, rfl, rfl, rfl, fun _ h => h, fun _ _ => rfl, fun _ _ h => ⟨rfl, h⟩⟩

theorem kdir (h : Grown m m1) : m1.kdir = m.kdir := by
  unfold Machine.kdir
  rw [h.kernel]

theorem dir (h : Grown m m1) : m1.dir = m.dir := by
  unfold Machine.dir
  rw [h.cr3]

theorem taken (h : Grown m m1) {f : Nat} (hf : Taken m.memory_bitmap f) :
    Taken m1.memory_bitmap f := by
  intro hp
  rw [h.pages] at hp
  exact h.used f (hf hp)

theorem freeSlots_eq (h : Grown m m1) : freeSlots m1 = freeSlots m := by
  unfold freeSlots
  rw [h.slots]

theorem trans (h1 : Grown m m1) (h2 : Grown m1 m2) : Grown m m2 where
  cr3 := h2.cr3.trans h1.cr3
  kernel := h2.kernel.trans h1.kernel
  slots := h2.slots.trans h1.slots
  pages := h2.pages.trans h1.pages
  used := fun f hf => h2.used f (h1.used f hf)
  entries := fun j hj => by
    have he := h1.entries j hj
    have := h2.entries j (by rw [h1.kdir, he]; exact hj)
    rw [h1.kdir] at this
    rw [this, he]
  kept := fun f hf hk => by
    obtain ⟨he1, hk1⟩ := h1.kept f hf hk
    obtain ⟨he2, hk2⟩ := h2.kept f (h1.taken hf) hk1
    exact ⟨he2.trans he1, hk2⟩

end Grown

theorem kernelFrame_setFrame {m : Machine} {g : Nat} (w : Nat → Nat) (hK : g ≠ m.kdir) (f : Nat) :
    (m.setFrame g w).KernelFrame f ↔ m.KernelFrame f := by
  have hk : (m.setFrame g w).kdir = m.kdir := rfl
  unfold KernelFrame
  rw [hk, setFrame_apply, if_neg hK.symm]

/-- Frames that hold neither a directory nor a table that a window goes through may
change. -/
theorem KernelSpace.setFrame {m : Machine} (h : KernelSpace m) {g : Nat} (w : Nat → Nat)
    (hD : g ≠ m.dir) (hK : g ≠ m.kdir) (hB : g ≠ m.bounceTable)
    (hL : ∀ j, 768 ≤ j → j < 784 → present (m.frames m.kdir j) = true →
      g ≠ frameOf (m.frames m.kdir j)) : KernelSpace (m.setFrame g w) := by
  have hk : (m.setFrame g w).kdir = m.kdir := rfl
  have hKw : (m.setFrame g w).frames m.kdir = m.frames m.kdir := by
    rw [setFrame_apply, if_neg hK.symm]
  have hB' := bounceTable_setFrame w hD
  constructor
  · exact windows_setFrame h.windows w hD hB
  · exact h.zero
  · exact h.dir_taken
  · intro f hf
    exact h.kernel_taken f ((kernelFrame_setFrame w hK f).mp hf)
  · intro hf
    exact h.dir_apart ((kernelFrame_setFrame w hK _).mp hf)
  · rw [hk, hKw]; exact h.bounce_present
  · rw [hk, hKw, hB']; exact h.bounce
  · obtain ⟨j, hj1, hj2, hjp, hlow⟩ := h.low
    refine ⟨j, hj1, hj2, ?_, ?_⟩
    · rw [hk, hKw]; exact hjp
    · rw [hk, hKw]
      exact hlow.setFrame w hD (hL j hj1 hj2 hjp)
  · rw [hk, hKw]; exact h.tables
  · rw [hk, hKw]; exact h.no_loop
  · rw [hk, hKw]; exact h.stack

theorem KernelSpace.setBitmap {m : Machine} (h : KernelSpace m) {b : memory_bitmap_t}
    (hp : b.pages = m.memory_bitmap.pages) (hu : ∀ f, Used m.memory_bitmap f → Used b f) :
    KernelSpace (m.setBitmap b) := by
  have ht : ∀ f, Taken m.memory_bitmap f → Taken b f := by
    intro f hf hlt
    exact hu f (hf (hp ▸ hlt))
  obtain ⟨j, hj1, hj2, hjp, hlow⟩ := h.low
  exact ⟨windows_setBitmap h.windows b, hu 0 h.zero, ht _ h.dir_taken,
    fun f hf => ht f (h.kernel_taken f hf), h.dir_apart, h.bounce_present, h.bounce,
    ⟨j, hj1, hj2, hjp, hlow.setBitmap b⟩, h.tables, h.no_loop, h.stack⟩

/-- Taking a frame from the allocator. -/
theorem KernelSpace.allocate {m : Machine} (h : KernelSpace m) :
    KernelSpace (m.setBitmap (memory_bitmap_allocate m.memory_bitmap).1) ∧
      Grown m (m.setBitmap (memory_bitmap_allocate m.memory_bitmap).1) := by
  have hp : (memory_bitmap_allocate m.memory_bitmap).1.pages = m.memory_bitmap.pages := by
    rcases allocate_cases m.memory_bitmap with ⟨he, -⟩ | ⟨n, -, -, -, -, hp⟩
    · rw [he]
    · exact hp
  have hu : ∀ f, Used m.memory_bitmap f → Used (memory_bitmap_allocate m.memory_bitmap).1 f := by
    intro f hf
    rcases allocate_cases m.memory_bitmap with ⟨he, -⟩ | ⟨n, -, -, -, hj, -⟩
    · rw [he]; exact hf
    · exact (hj f).mpr (Or.inr hf)
  exact ⟨h.setBitmap hp hu,
    ⟨rfl, rfl, rfl, hp, hu, fun _ _ => rfl, fun _ _ hk => ⟨rfl, hk⟩⟩⟩

/-- The kernel's directory gets a table at an entry that was absent. -/
theorem KernelSpace.setKernelEntry {m : Machine} (h : KernelSpace m) {i n x : Nat}
    (hi1 : 832 ≤ i) (hi2 : i < 1022) (hn : frameOf x = n) (hnD : n ≠ m.dir) (hnk : ¬ m.KernelFrame n)
    (hnt : Taken m.memory_bitmap n) : KernelSpace (m.setWord m.kdir i x) := by
  have hk : (m.setWord m.kdir i x).kdir = m.kdir := rfl
  have hd : (m.setWord m.kdir i x).dir = m.dir := rfl
  have hsame : ∀ j, j ≠ i → (m.setWord m.kdir i x).frames m.kdir j = m.frames m.kdir j := by
    intro j hj
    rw [setWord_apply, if_neg (fun hc => hj hc.2)]
  have hself : (m.setWord m.kdir i x).frames m.kdir i = x := by
    rw [setWord_apply, if_pos ⟨rfl, rfl⟩]
  have hB : (m.setWord m.kdir i x).bounceTable = m.bounceTable :=
    bounceTable_setWord (fun he => absurd he h.kdir_ne_dir)
  have hframe : ∀ f, (m.setWord m.kdir i x).KernelFrame f → m.KernelFrame f ∨ f = n := by
    rintro f (hf | ⟨j, hj1, hj2, hjp, hjf⟩)
    · exact Or.inl (Or.inl hf)
    · rw [hk] at hjp hjf
      by_cases hji : j = i
      · subst hji
        rw [hself] at hjf
        exact Or.inr (hjf.symm.trans hn)
      · rw [hsame j hji] at hjp hjf
        exact Or.inl (Or.inr ⟨j, hj1, hj2, hjp, hjf⟩)
  constructor
  · exact windows_setWord h.windows h.kdir_ne_bounce (fun he => absurd he h.kdir_ne_dir)
  · exact h.zero
  · exact h.dir_taken
  · intro f hf
    rcases hframe f hf with hf | rfl
    · exact h.kernel_taken f hf
    · exact hnt
  · intro hf
    rcases hframe _ hf with hf | hf
    · exact h.dir_apart hf
    · exact hnD hf.symm
  · rw [hk, hsame 1022 (by omega)]; exact h.bounce_present
  · rw [hk, hsame 1022 (by omega), hB]; exact h.bounce
  · obtain ⟨j, hj1, hj2, hjp, hlow⟩ := h.low
    refine ⟨j, hj1, hj2, ?_, ?_⟩
    · rw [hk, hsame j (by omega)]; exact hjp
    · rw [hk, hsame j (by omega)]
      apply hlow.setWord _ _ hB
      · intro he
        exact absurd he h.kdir_ne_dir
      · intro he
        exact absurd he hlow.ne_table
  · intro a b ha1 ha2 hb1 hb2 hap hbp hab
    rw [hk] at hap hbp hab
    by_cases hai : a = i <;> by_cases hbi : b = i
    · rw [hai, hbi]
    · subst hai
      rw [hself, hsame b hbi, hn] at hab
      rw [hsame b hbi] at hbp
      exact absurd (Or.inr ⟨b, hb1, hb2, hbp, hab.symm⟩) hnk
    · subst hbi
      rw [hself, hsame a hai, hn] at hab
      rw [hsame a hai] at hap
      exact absurd (Or.inr ⟨a, ha1, ha2, hap, hab⟩) hnk
    · rw [hsame a hai] at hap hab
      rw [hsame b hbi] at hbp hab
      exact h.tables a b ha1 ha2 hb1 hb2 hap hbp hab
  · intro j hj1 hj2 hjp
    rw [hk] at hjp ⊢
    by_cases hji : j = i
    · subst hji
      rw [hself, hn]
      intro he
      exact hnk (Or.inl he)
    · rw [hsame j hji] at hjp ⊢
      exact h.no_loop j hj1 hj2 hjp
  · rw [hk, hsame 831 (by omega)]; exact h.stack

theorem mapEntry_kernel (m : Machine) (d phys virt : Nat) :
    m.mapEntry d phys virt PAGE_READ_WRITE =
      m.setWord (frameOf (m.frames d (page_directory_index virt))) (page_table_index virt)
        (phys ||| PAGE_READ_WRITE ||| PAGE_PRESENT) := by
  have hbit : ∀ pde, userBit PAGE_READ_WRITE pde = pde := fun pde => if_neg (by decide)
  have hself : m.setWord d (page_directory_index virt) (m.frames d (page_directory_index virt)) =
      m := by
    unfold Machine.setWord
    rw [Function.update_eq_self, setFrame_self]
  unfold mapEntry
  simp only [hbit, hself]

/-- Setting an entry in a heap table of the kernel. -/
theorem KernelSpace.mapEntry {m : Machine} (h : KernelSpace m) (phys : Nat) {virt : Nat}
    (h1 : 960 ≤ page_directory_index virt) (h2 : page_directory_index virt < 992)
    (hp : present (m.frames m.kdir (page_directory_index virt)) = true) :
    KernelSpace (m.mapEntry m.kdir phys virt PAGE_READ_WRITE) ∧
      Grown m (m.mapEntry m.kdir phys virt PAGE_READ_WRITE) := by
  have hkf : m.KernelFrame (frameOf (m.frames m.kdir (page_directory_index virt))) :=
    Or.inr ⟨_, by omega, by omega, hp, rfl⟩
  have hK := h.no_loop _ (by omega) (by omega) hp
  rw [mapEntry_kernel]
  refine ⟨?_, rfl, rfl, rfl, rfl, fun _ hf => hf, ?_, ?_⟩
  · apply h.setFrame
    · intro he
      exact h.dir_apart (he ▸ hkf)
    · exact hK
    · rw [← h.bounce]
      intro he
      have := h.tables _ _ (by omega) (by omega) (by omega) (by omega) hp h.bounce_present he
      omega
    · intro j hj1 hj2 hjp he
      have := h.tables _ _ (by omega) (by omega) hj1 (by omega) hp hjp he
      omega
  · intro j _
    rw [setWord_apply, if_neg (fun hc => hK hc.1.symm)]
  · intro f _ hf
    have hne : f ≠ frameOf (m.frames m.kdir (page_directory_index virt)) := by
      rintro rfl
      exact hf hkf
    refine ⟨?_, fun hc => hf ((kernelFrame_setFrame _ hK f).mp hc)⟩
    funext j
    rw [setWord_apply, if_neg (fun hc => hne hc.1)]

/-- A frame that the allocator can give is no table of the kernel. -/
theorem KernelSpace.fresh {m : Machine} (h : KernelSpace m) {n : Nat}
    (hn : n < m.memory_bitmap.pages) (hu : ¬ Used m.memory_bitmap n) :
    n ≠ m.dir ∧ ¬ m.KernelFrame n := by
  refine ⟨h.dir_taken.ne hn hu, fun hk => ?_⟩
  exact (h.kernel_taken n hk).ne hn hu rfl

/-- Hanging a fresh table into the kernel's directory. -/
theorem KernelSpace.addTable {m : Machine} (h : KernelSpace m) {i n : Nat}
    (hi1 : 832 ≤ i) (hi2 : i < 1022) (hp : present (m.frames m.kdir i) = false)
    (ha : (memory_bitmap_allocate m.memory_bitmap).2 = n * 4096)
    (hlt : n < m.memory_bitmap.pages) (hu : ¬ Used m.memory_bitmap n) (hpos : 0 < n) :
    KernelSpace ((m.setBitmap (memory_bitmap_allocate m.memory_bitmap).1).addTable m.kdir i
      (n * 4096)) ∧
    Grown m ((m.setBitmap (memory_bitmap_allocate m.memory_bitmap).1).addTable m.kdir i
      (n * 4096)) := by
  have hne : (memory_bitmap_allocate m.memory_bitmap).2 ≠ 0 := by rw [ha]; omega
  obtain ⟨hnD, hnk⟩ := h.fresh hlt hu
  obtain ⟨h0, hg0⟩ := h.allocate
  have hnK : n ≠ m.kdir := fun he => hnk (Or.inl he)
  have hnB : n ≠ m.bounceTable := fun he => hnk (he ▸ h.kernelFrame_bounce)
  have hfr : frameOf (n * 4096) = n := by unfold frameOf; omega
  have hused : Used (memory_bitmap_allocate m.memory_bitmap).1 n := by
    obtain ⟨n', hn', -, -, -, hj, -⟩ := allocate_fresh hne
    have : n' = n := by omega
    exact (hj n).mpr (Or.inl this.symm)
  have h1 := h0.setFrame (page (fun _ => 0) (m.frames n)) hnD hnK hnB
    (fun j hj1 hj2 hjp he => hnk (Or.inr ⟨j, hj1, by omega, hjp, he.symm⟩))
  have hk1 := kernelFrame_setFrame (m := m.setBitmap (memory_bitmap_allocate m.memory_bitmap).1)
    (page (fun _ => 0) (m.frames n)) hnK
  have h2 := h1.setKernelEntry (x := n * 4096 ||| PAGE_READ_WRITE ||| PAGE_PRESENT) hi1 hi2
    (frameOf_entry n (by decide)) hnD (fun hc => hnk ((hk1 n).mp hc)) (fun _ => hused)
  unfold Machine.addTable
  rw [hfr]
  refine ⟨h2, rfl, rfl, rfl, hg0.pages, hg0.used, ?_, ?_⟩
  · intro j hj
    have hji : j ≠ i := by
      rintro rfl
      rw [hp] at hj
      cases hj
    rw [setWord_apply, if_neg (fun hc => hji hc.2), setFrame_apply, if_neg hnK.symm]
    rfl
  · intro f hf hk
    have hfn : f ≠ n := fun he => hf.ne hlt hu he.symm
    have hfK : f ≠ m.kdir := fun he => hk (Or.inl he)
    constructor
    · funext j
      rw [setWord_apply, if_neg (fun hc => hfK hc.1), setFrame_apply, if_neg hfn]
      rfl
    · rintro (hc | ⟨j, hj1, hj2, hjp, hjf⟩)
      · exact hfK hc
      · by_cases hji : j = i
        · rw [hji] at hjf
          have hx : (((m.setBitmap (memory_bitmap_allocate m.memory_bitmap).1).setFrame n
              (page (fun _ => 0) (m.frames n))).setWord m.kdir i
              (n * 4096 ||| PAGE_READ_WRITE ||| PAGE_PRESENT)).frames m.kdir i =
              (n * 4096 ||| PAGE_READ_WRITE ||| PAGE_PRESENT) := by
            rw [setWord_apply, if_pos ⟨rfl, rfl⟩]
          exact hfn (hjf.symm.trans ((congrArg frameOf hx).trans (frameOf_entry n (by decide))))
        · have hx : (((m.setBitmap (memory_bitmap_allocate m.memory_bitmap).1).setFrame n
              (page (fun _ => 0) (m.frames n))).setWord m.kdir i
              (n * 4096 ||| PAGE_READ_WRITE ||| PAGE_PRESENT)).frames m.kdir j =
              m.frames m.kdir j := by
            rw [setWord_apply, if_neg (fun hc => hji hc.2), setFrame_apply, if_neg hnK.symm]
            rfl
          exact hk (Or.inr ⟨j, hj1, hj2, hx ▸ hjp, (congrArg frameOf hx).symm.trans hjf⟩)

/-- Mapping a page of the kernel heap. -/
theorem KernelSpace.mapPage {m : Machine} (h : KernelSpace m) (phys : Nat) {virt : Nat}
    (h1 : 960 ≤ page_directory_index virt) (h2 : page_directory_index virt < 992)
    (hf : 0 < (freeFrames m.memory_bitmap).card) :
    KernelSpace (m.mapPage m.kdir phys virt PAGE_READ_WRITE).1 ∧
      Grown m (m.mapPage m.kdir phys virt PAGE_READ_WRITE).1 ∧
      (freeFrames m.memory_bitmap).card ≤
        (freeFrames (m.mapPage m.kdir phys virt PAGE_READ_WRITE).1.memory_bitmap).card + 1 := by
  obtain ⟨hne, hcard⟩ := allocate_spec h.zero hf
  rcases mapPage_cases m m.kdir phys virt PAGE_READ_WRITE (Or.inr hne) with
    ⟨hp, he⟩ | ⟨n, hpos, hlt, hu, hp, ha, he⟩
  · rw [he]
    obtain ⟨hk, hg⟩ := h.mapEntry phys h1 h2 hp
    exact ⟨hk, hg, Nat.le_succ _⟩
  · rw [he]
    obtain ⟨hk, hg⟩ := h.addTable (by omega) (by omega) hp ha hlt hu hpos
    have hkd : ((m.setBitmap (memory_bitmap_allocate m.memory_bitmap).1).addTable m.kdir
        (page_directory_index virt) (n * 4096)).kdir = m.kdir := rfl
    have hpde : ((m.setBitmap (memory_bitmap_allocate m.memory_bitmap).1).addTable m.kdir
        (page_directory_index virt) (n * 4096)).frames m.kdir (page_directory_index virt) =
        (n * 4096 ||| PAGE_READ_WRITE ||| PAGE_PRESENT) := by
      rw [addTable_apply, if_pos ⟨rfl, rfl⟩]
    obtain ⟨hk2, hg2⟩ := hk.mapEntry phys h1 h2 (by rw [hkd, hpde]; exact present_entry _ _)
    rw [hkd] at hk2 hg2
    exact ⟨hk2, hg.trans hg2, le_of_eq hcard.symm⟩

/-- Growing the kernel heap by any number of pages. -/
theorem grow_spec {m : Machine} (h : KernelSpace m) (n : Nat) {address : Nat}
    (hs : 0 < (freeSlots m).card) (hal : address % 4096 = 0)
    (hlo : KERNEL_HEAP_VIRTUAL_START ≤ address)
    (hhi : address + n * 4096 ≤ KERNEL_HEAP_VIRTUAL_END + 1)
    (hf : 2 * n ≤ (freeFrames m.memory_bitmap).card) :
    ∃ m', kernel_heap_grow n address m = some (m', true) ∧ KernelSpace m' ∧ Grown m m' ∧
      (freeFrames m.memory_bitmap).card ≤ (freeFrames m'.memory_bitmap).card + 2 * n := by
  induction n generalizing m address with
  | zero => exact ⟨m, rfl, h, Grown.refl m, le_refl _⟩
  | succ n ih =>
    unfold KERNEL_HEAP_VIRTUAL_START at hlo
    unfold KERNEL_HEAP_VIRTUAL_END at hhi
    obtain ⟨hne, hcard⟩ := allocate_spec h.zero (by omega)
    obtain ⟨h0, hg0⟩ := h.allocate
    obtain ⟨i, hi⟩ := free_slot_of_card hs
    obtain ⟨j, hj1, hj2, hjp, hlow⟩ := h0.low
    have hpd1 : 960 ≤ page_directory_index address := by unfold page_directory_index; omega
    have hpd2 : page_directory_index address < 992 := by unfold page_directory_index; omega
    have hT : present (m.frames m.kdir (page_directory_index address)) = true →
        frameOf (m.frames m.kdir (page_directory_index address)) ≠ m.bounceTable ∧
        frameOf (m.frames m.kdir (page_directory_index address)) ≠ m.dir := by
      intro hp
      have hkf : m.KernelFrame (frameOf (m.frames m.kdir (page_directory_index address))) :=
        Or.inr ⟨_, by omega, by omega, hp, rfl⟩
      constructor
      · rw [← h.bounce]
        intro he
        have := h.tables _ _ (by omega) (by omega) (by omega) (by omega) hp h.bounce_present he
        omega
      · intro he
        exact h.dir_apart (he ▸ hkf)
    have hmap := map_spec h0.windows hi hlow (memory_bitmap_allocate m.memory_bitmap).2
      PAGE_READ_WRITE hT h0.dir_taken h0.bounce_taken
      (h0.kernel_taken _ (Or.inr ⟨j, hj1, by omega, hjp, rfl⟩))
    obtain ⟨h1, hg1, hc1⟩ := h0.mapPage (memory_bitmap_allocate m.memory_bitmap).2 hpd1 hpd2
      (by rw [setBitmap_bitmap]; omega)
    rw [setBitmap_bitmap] at hc1
    have hnext : u32 (address + PAGE_SIZE) = address + 4096 := by
      unfold PAGE_SIZE
      exact u32_of_lt (by omega)
    obtain ⟨m', hgrow, hk', hg', hc'⟩ := ih h1
      (by rw [(hg0.trans hg1).freeSlots_eq]; exact hs)
      (show (address + 4096) % 4096 = 0 by omega) (by unfold KERNEL_HEAP_VIRTUAL_START; omega)
      (by unfold KERNEL_HEAP_VIRTUAL_END; omega) (by omega)
    refine ⟨m', ?_, hk', (hg0.trans hg1).trans hg', by omega⟩
    unfold kernel_heap_grow
    simp only [hne, if_false, Option.bind_eq_bind]
    have hptr : (m.setBitmap (memory_bitmap_allocate m.memory_bitmap).1).kernel_page_directory =
        m.kernel_page_directory := rfl
    rw [hptr] at hmap
    rw [hmap, Option.bind_some, hnext]
    exact hgrow

/-! ## A new directory -/

/-- The words of a new directory at the address `a`: nothing below the kernel, the
kernel's entries, and itself at 1023. -/
def newDirectory (m : Machine) (a : Nat) : Nat → Nat := fun i =>
  if i < 768 then 0
  else if i < 1023 then m.frames m.kdir i
  else if i = 1023 then a ||| PAGE_PRESENT ||| PAGE_READ_WRITE
  else m.frames (frameOf a) i

/-- Filling a frame with the new directory through a slot. -/
theorem new_directory_through_slot {m : Machine} (h : Windows m) {i : Nat}
    (hi : bounce_free_slot m = some i) {l n : Nat}
    (hk : Shows m m.kernel_page_directory l m.kdir)
    (hnD : n ≠ m.dir) (hnB : n ≠ m.bounceTable) (hnK : n ≠ m.kdir) (hnl : n ≠ l) :
    ∃ m1 m2 m3, memory_paging_reset_entry (m.openSlot i n) (slotAddr i) = some m1 ∧
      (List.range' KERNEL_PDE_START (KERNEL_PDE_ENTRIES - KERNEL_PDE_START)).foldlM
        (memory_paging_copy_kernel_entry (slotAddr i)) m1 = some m2 ∧
      m2.store32 (at32 (slotAddr i) 1023) (n * 4096 ||| PAGE_PRESENT ||| PAGE_READ_WRITE) =
        some m3 ∧
      bounce_free m3 (slotAddr i) = some (m.setFrame n (newDirectory m (n * 4096))) := by
  obtain ⟨hi16, hu⟩ := free_slot_spec hi
  obtain ⟨hal, hlt, -⟩ := slotAddr_facts hi16
  have hB := openSlot_bounceTable h i n
  have hslot := via_slot h hi16 n
  have hkpd := via_openSlot h n hk.via (fun hb => hk.other_slot hu hb)
  have hK : (m.openSlot i n).frames m.kdir = m.frames m.kdir := openSlot_frames_ne hk.ne_bounce
  have hn : frameOf (n * 4096) = n := by unfold frameOf; omega
  have hbody : ∀ g j, j < 1024 →
      memory_paging_copy_kernel_entry (slotAddr i) ((m.openSlot i n).setFrame n g) j =
        some (((m.openSlot i n).setFrame n g).setWord n j (m.frames m.kdir j)) := by
    intro g j hj
    have hptr : ((m.openSlot i n).setFrame n g).kernel_page_directory =
      m.kernel_page_directory := rfl
    unfold memory_paging_copy_kernel_entry
    rw [hptr, load_via (via_setFrame hkpd hnD hnl) hk.aligned hk.lt hj]
    simp only [setFrame_apply, hnK.symm, if_false, hK]
    exact store_via _ (via_setFrame hslot hnD hnB) hal hlt hj
  have hcopy := fold_words hbody KERNEL_PDE_START (KERNEL_PDE_ENTRIES - KERNEL_PDE_START)
    (by decide) (page (fun _ => 0) ((m.openSlot i n).frames n))
  refine ⟨_, _, _, reset_entry_via hslot hal hlt hnD hnB, hcopy,
    store_via _ (via_setFrame hslot hnD hnB) hal hlt (by decide), ?_⟩
  have hw := windows_setFrame (windows_openSlot h i n) (newDirectory m (n * 4096)) hnD
    (by rw [hB]; exact hnB)
  rw [← close_open_setFrame h hi16 hu n (newDirectory m (n * 4096)) hnB hnD,
    ← bounce_free_spec hw hi16]
  congr 1
  unfold Machine.setWord
  rw [setFrame_setFrame, setFrame_apply, if_pos rfl]
  congr 1
  funext j
  unfold newDirectory page KERNEL_PDE_START KERNEL_PDE_ENTRIES
  rw [hn, openSlot_frames_ne hnB]
  by_cases h1 : j = 1023
  · subst h1; simp
  · rw [Function.update_of_ne h1]
    split_ifs <;> first | rfl | omega

theorem create_page_directory_spec {m : Machine} (h : KernelSpace m) {i : Nat}
    (hi : bounce_free_slot m = some i)
    (ha : (memory_bitmap_allocate m.memory_bitmap).2 ≠ 0) :
    memory_paging_create_page_directory m =
      some ((m.setBitmap (memory_bitmap_allocate m.memory_bitmap).1).setFrame
        (frameOf (memory_bitmap_allocate m.memory_bitmap).2)
        (newDirectory m (memory_bitmap_allocate m.memory_bitmap).2),
        MEMORY_PAGING_RESULT_OK, (memory_bitmap_allocate m.memory_bitmap).2) := by
  obtain ⟨n, hn, -, hlt, hu, -, -⟩ := allocate_fresh ha
  have hfr : frameOf (n * 4096) = n := by unfold frameOf; omega
  obtain ⟨j, hj1, hj2, hjp, hlow⟩ := h.low
  obtain ⟨m1, m2, m3, hreset, hcopy, hself, hfree⟩ := new_directory_through_slot
    (windows_setBitmap h.windows (memory_bitmap_allocate m.memory_bitmap).1) hi
    (hlow.setBitmap (memory_bitmap_allocate m.memory_bitmap).1)
    (h.dir_taken.ne hlt hu) (h.bounce_taken.ne hlt hu) ((h.kernel_taken _ (Or.inl rfl)).ne hlt hu)
    ((h.kernel_taken _ (Or.inr ⟨j, hj1, by omega, hjp, rfl⟩)).ne hlt hu)
  unfold memory_paging_create_page_directory
  rw [hn] at ha
  simp only [hn, ha, if_false, Option.bind_eq_bind, Option.bind_some, hfr, hreset, hcopy, hself,
    hfree, bounce_alloc_spec (windows_setBitmap h.windows
      (memory_bitmap_allocate m.memory_bitmap).1) hi]
  rfl

end alura_os.memory_paging
