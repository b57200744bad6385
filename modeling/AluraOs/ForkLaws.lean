-- What a fork gives the child: every user page of the parent, with the same flags
-- and the same bytes, in frames that were free, while the parent keeps its own.
import AluraOs.TaskCopy

namespace alura_os.task_manager

open alura_os.memory alura_os.memory_bitmap alura_os.memory_paging Machine
open memory_paging_result_t

/-! ## Entries -/

theorem user_index {v : Nat} (hv : v < KERNEL_VIRTUAL_SPACE_START) :
    page_directory_index v < 768 ∧ page_table_index v < 1024 := by
  unfold KERNEL_VIRTUAL_SPACE_START at hv
  unfold page_directory_index page_table_index
  omega

/-- The flags of a copied entry are the flags of its source. -/
theorem flags_of_copy {f pte : Nat} (hp : present pte = true) :
    (f * 4096 ||| pte % 4096 ||| PAGE_PRESENT) % 4096 = pte % 4096 := by
  have h1 : (f * 4096 ||| pte % 4096 ||| PAGE_PRESENT) % 2 ^ 12 =
      (f * 4096 % 2 ^ 12 ||| pte % 4096 % 2 ^ 12) ||| PAGE_PRESENT % 2 ^ 12 := by
    rw [Nat.or_mod_two_pow, Nat.or_mod_two_pow]
  have h2 : f * 4096 % 2 ^ 12 = 0 := by norm_num
  have h3 : pte % 4096 % 2 ^ 12 = pte % 4096 := by norm_num
  have h4 : PAGE_PRESENT % 2 ^ 12 = 1 := by decide
  rw [h2, h3, h4, Nat.zero_or] at h1
  rw [show (4096 : Nat) = 2 ^ 12 from rfl] at h1 ⊢
  rw [h1]
  apply Nat.eq_of_testBit_eq
  intro i
  rw [Nat.testBit_or]
  cases i with
  | zero =>
    rw [present_eq] at hp
    have : (pte % 2 ^ 12).testBit 0 = true := by
      rw [Nat.testBit_mod_two_pow]
      simp [hp]
    rw [this]
    rfl
  | succ i => simp [Nat.testBit_succ]

/-! ## What a fork keeps -/

section forked

variable {m m1 mb m3 m4 m' : Machine} {n s T : Nat}

/-- The frames in use that are no tables of the kernel are as they were. -/
theorem Forked.old (h : Forked m m1 mb m3 m4 m' n s T) {f : Nat} (hf : Taken m.memory_bitmap f)
    (hn : ¬ m.KernelFrame f) : m'.frames f = m.frames f := by
  obtain ⟨he, hn1⟩ := h.grown.kept f hf hn
  have hf1 := h.grown.taken hf
  have hfB : f ≠ m1.bounceTable := by
    rintro rfl
    exact hn1 h.space.kernelFrame_bounce
  have hfn : f ≠ n := (hf1.ne h.dir_lt h.dir_fresh).symm
  have hfs : f ≠ s := ((h.dir_kept.taken hf1).ne h.stack.fresh_lt h.stack.fresh).symm
  rw [h.frames f hfB hfs, h.copied.kept f (h.begun.taken hf1) hfn, h.begun.kept f hf1 hfB, he]

/-- Reading the parent's user pages gives what it gave before. -/
theorem Forked.begun_entry (h : Forked m m1 mb m3 m4 m' n s T) (hk : KernelSpace m)
    (hu : UserSpace m) : mb.frames mb.dir = m.frames m.dir ∧
      ∀ i j, i < 768 → present (m.frames m.dir i) = true → userEntry mb i j = userEntry m i j := by
  have hu1 := hu.grown hk h.grown
  have hD := directory_grown h.grown hk
  have hDb := h.begun.directory h.space
  refine ⟨hDb.trans hD, ?_⟩
  intro i j hi hp
  obtain ⟨ht, hn⟩ := hu.table_taken i hi hp
  obtain ⟨ht1, hn1⟩ := hu1.table_taken i hi (by rw [hD]; exact hp)
  rw [h.begun.userEntry h.space j ht1 hn1, userEntry_grown h.grown hk j ht hn]

/-- A frame of the copy is neither the bounce table nor the child's stack. -/
theorem Forked.new (h : Forked m m1 mb m3 m4 m' n s T) {f : Nat}
    (hlt : f < mb.memory_bitmap.pages) (hf : ¬ Used mb.memory_bitmap f) :
    m'.frames f = m4.frames f ∧ f < m.memory_bitmap.pages ∧ ¬ Used m.memory_bitmap f := by
  have hfB : f ≠ m1.bounceTable := (h.begun.taken h.space.bounce_taken).ne hlt hf
  have hfs : f ≠ s := by
    rintro rfl
    apply hf
    rw [h.bitmap]
    exact (h.stack.used f).mpr (Or.inr (Or.inl rfl))
  refine ⟨h.frames f hfB hfs, ?_, fun hc => hf (h.begun.used f (h.grown.used f hc))⟩
  rw [h.begun.pages, h.grown.pages] at hlt
  exact hlt

/-- The directory of the child. -/
theorem Forked.child_words (h : Forked m m1 mb m3 m4 m' n s T) : m'.frames n = m4.frames n := by
  have hnB : n ≠ m1.bounceTable := (h.space.bounce_taken.ne h.dir_lt h.dir_fresh)
  exact h.frames n hnB h.stack.page_ne_dir.symm

/-- The child's entry of a page that the parent maps. -/
theorem Forked.child_entry (h : Forked m m1 mb m3 m4 m' n s T) (hk : KernelSpace m)
    (hu : UserSpace m) {i j : Nat} (hi : i < 768) (hj : j < 1024) (hup : UserPage m i j) :
    ∃ f, present (m'.frames n i) = true ∧
      m'.frames (frameOf (m'.frames n i)) j =
        (f * 4096 ||| userEntry m i j % 4096 ||| PAGE_PRESENT) ∧
      f < m.memory_bitmap.pages ∧ ¬ Used m.memory_bitmap f ∧
      ∀ k, k < 1024 → m'.frames f k = m.frames (frameOf (userEntry m i j)) k := by
  obtain ⟨hD, he⟩ := h.begun_entry hk hu
  have hue := he i j hi hup.1
  have hupb : UserPage mb i j := by
    unfold UserPage
    rw [hD, hue]
    exact hup
  obtain ⟨f, hc⟩ := h.copied.copied i j hi hj trivial hupb
  obtain ⟨hT1, hT2, -⟩ := h.copied.table i hi hc.pde
  obtain ⟨hTe, -, -⟩ := h.new hT1 hT2
  obtain ⟨hfe, hlt, hfr⟩ := h.new hc.lt hc.fresh
  refine ⟨f, ?_, ?_, hlt, hfr, ?_⟩
  · rw [h.child_words]; exact hc.pde
  · rw [h.child_words, hTe, hc.entry, hue]
  · intro k hk'
    obtain ⟨ht, hn⟩ := hu.frame_taken i j hi hj hup
    have hsrc : mb.frames (frameOf (userEntry m i j)) = m.frames (frameOf (userEntry m i j)) := by
      obtain ⟨hg, hn1⟩ := h.grown.kept _ ht hn
      rw [h.begun.kept _ (h.grown.taken ht)
        (fun hb => hn1 (hb ▸ h.space.kernelFrame_bounce)), hg]
    rw [hfe, hc.words k hk', hue, hsrc]

/-- A page that the parent does not map, the child does not map. -/
theorem Forked.child_empty (h : Forked m m1 mb m3 m4 m' n s T) (hk : KernelSpace m)
    (hu : UserSpace m) {i j : Nat} (hi : i < 768) (hj : j < 1024) (hup : ¬ UserPage m i j)
    (hp : present (m'.frames n i) = true) : m'.frames (frameOf (m'.frames n i)) j = 0 := by
  obtain ⟨hD, he⟩ := h.begun_entry hk hu
  rw [h.child_words] at hp ⊢
  obtain ⟨hT1, hT2, -⟩ := h.copied.table i hi hp
  obtain ⟨hTe, -, -⟩ := h.new hT1 hT2
  rw [hTe]
  apply h.copied.empty i j hi hj hp
  rintro ⟨-, hp1, hp2⟩
  rw [hD] at hp1
  rw [he i j hi hp1] at hp2
  exact hup ⟨hp1, hp2⟩

theorem Forked.parent_entry (h : Forked m m1 mb m3 m4 m' n s T) (hk : KernelSpace m)
    (hu : UserSpace m) {v : Nat} (hv : v < KERNEL_VIRTUAL_SPACE_START) :
    m'.entry m.dir v = m.entry m.dir v := by
  obtain ⟨hi, -⟩ := user_index hv
  unfold Machine.entry
  simp only [h.old hk.dir_taken hk.dir_apart]
  cases hp : present (m.frames m.dir (page_directory_index v)) with
  | true =>
    obtain ⟨ht, hn⟩ := hu.table_taken _ hi hp
    rw [h.old ht hn]
  | false => simp

end forked

/-! ## The law -/

/-- The child maps a user page if and only if the parent does, with the same flags and the
same words, in a frame that was free and that no page of the parent uses. The mappings and
the pages of the parent are as they were. -/
theorem fork_copies_the_address_space {m : Machine} {parent : task_t} {growth heap_break : Nat}
    (task_id : Nat) (hk : KernelSpace m) (hu : UserSpace m) (hst : KernelStack m)
    (hcur : m.cr3 = parent.task_cr3)
    (hbase : parent.stack_base = KERNEL_STACK_TOP - PAGE_SIZE)
    (hesp : parent.task_esp = KERNEL_STACK_TOP - REGISTER_FRAME_SIZE)
    (hal : heap_break % 4096 = 0) (hlo : KERNEL_HEAP_VIRTUAL_START ≤ heap_break)
    (hhi : heap_break + growth * 4096 ≤ KERNEL_HEAP_VIRTUAL_END + 1)
    (hs : 3 ≤ (freeSlots m).card)
    (hf : 2 * growth + 3 + copyNeed m ≤ (freeFrames m.memory_bitmap).card) :
    ∃ m' child, task_manager_task_copy m growth heap_break task_id parent = some (m', child) ∧
      ∀ v, v < KERNEL_VIRTUAL_SPACE_START →
        m'.entry (frameOf parent.task_cr3) v = m.entry (frameOf parent.task_cr3) v ∧
        (m'.entry (frameOf child.task_cr3) v = none ↔
          m.entry (frameOf parent.task_cr3) v = none) ∧
        ∀ pte, m.entry (frameOf parent.task_cr3) v = some pte →
          m'.frames (frameOf pte) = m.frames (frameOf pte) ∧
          ∃ pte', m'.entry (frameOf child.task_cr3) v = some pte' ∧ pte' % 4096 = pte % 4096 ∧
            (∀ k, k < 1024 → m'.frames (frameOf pte') k = m.frames (frameOf pte) k) ∧
            frameOf pte' < m.memory_bitmap.pages ∧ ¬ Used m.memory_bitmap (frameOf pte') ∧
            ∀ v2 pte2, v2 < KERNEL_VIRTUAL_SPACE_START →
              m.entry (frameOf parent.task_cr3) v2 = some pte2 → frameOf pte2 ≠ frameOf pte' := by
  obtain ⟨m1, mb, m3, m4, m', n, s, T, hrun, h⟩ :=
    task_copy_spec task_id hk hu hst hbase hesp hal hlo hhi hs hf
  have hdir : frameOf parent.task_cr3 = m.dir := by rw [← hcur]; rfl
  have hchild : frameOf (child_record parent task_id (n * 4096) 4024).task_cr3 = n := by
    show n * 4096 / 4096 = n
    omega
  refine ⟨m', _, hrun, ?_⟩
  intro v hv
  obtain ⟨hi, hj⟩ := user_index hv
  rw [hdir, hchild]
  have hparent : ∀ v2 pte, v2 < KERNEL_VIRTUAL_SPACE_START → m.entry m.dir v2 = some pte →
      UserPage m (page_directory_index v2) (page_table_index v2) ∧
      userEntry m (page_directory_index v2) (page_table_index v2) = pte := by
    intro v2 pte _ he
    obtain ⟨h1, h2, h3⟩ := entry_eq_some.mp he
    exact ⟨⟨h1, h2⟩, h3⟩
  refine ⟨h.parent_entry hk hu hv, ⟨?_, ?_⟩, ?_⟩
  · intro hnone
    by_contra hsome
    obtain ⟨pte, hpte⟩ := Option.ne_none_iff_exists'.mp hsome
    obtain ⟨hup, -⟩ := hparent v pte hv hpte
    obtain ⟨f, hp, he, -⟩ := h.child_entry hk hu hi hj hup
    have := entry_eq_some.mpr ⟨hp, by rw [he]; exact present_entry _ _, rfl⟩
    rw [hnone] at this
    cases this
  · intro hnone
    by_contra hsome
    obtain ⟨pte, hpte⟩ := Option.ne_none_iff_exists'.mp hsome
    obtain ⟨h1, h2, -⟩ := entry_eq_some.mp hpte
    have hup : ¬ UserPage m (page_directory_index v) (page_table_index v) := by
      rintro ⟨hp1, hp2⟩
      have := entry_eq_some.mpr ⟨hp1, hp2, rfl⟩
      rw [hnone] at this
      cases this
    rw [h.child_empty hk hu hi hj hup h1] at h2
    cases h2
  · intro pte hpte
    obtain ⟨hup, he⟩ := hparent v pte hv hpte
    obtain ⟨ht, hn⟩ := hu.frame_taken _ _ hi hj hup
    rw [he] at ht hn
    obtain ⟨f, hp, hce, hlt, hfr, hw⟩ := h.child_entry hk hu hi hj hup
    have hpp : present pte = true := he ▸ hup.2
    have hff := frameOf_entry f (show pte % 4096 < 4096 by omega)
    rw [he] at hce hw
    refine ⟨h.old ht hn, _, entry_eq_some.mpr ⟨hp, ?_, hce⟩, flags_of_copy hpp, ?_, ?_, ?_, ?_⟩
    · rw [hce]; exact present_entry _ _
    · rw [hff]; exact hw
    · rw [hff]; exact hlt
    · rw [hff]; exact hfr
    · intro v2 pte2 hv2 hpte2
      obtain ⟨hi2, hj2⟩ := user_index hv2
      obtain ⟨hup2, he2⟩ := hparent v2 pte2 hv2 hpte2
      have ht2 := (hu.frame_taken _ _ hi2 hj2 hup2).1
      rw [he2] at ht2
      rw [hff]
      exact (ht2.ne hlt hfr).symm

/-! ## A small machine -/

/-- The kernel's directory in frame 1 with the low window and the bounce table in frames 2
and 3, and a task in frame 4 with one user page and a kernel stack. -/
def smallFrames (f i : Nat) : Nat :=
  if f = 1 then
    if i = 768 then 0x2003 else if i = 1022 then 0x3003 else if i = 1023 then 0x1003 else 0
  else if f = 2 then if i = 1 then 0x1003 else 0
  else if f = 4 then
    if i = 0 then 0x5007 else if i = 768 then 0x2003 else if i = 831 then 0x7003
    else if i = 1022 then 0x3003 else if i = 1023 then 0x4003 else 0
  else if f = 5 then if i = 1 then 0x6007 else 0
  else if f = 6 then if i = 0 then 42 else 0
  else if f = 7 then if i = 1023 then 0x8003 else 0
  else 0

def smallBitmap : memory_bitmap_t where
  entries := fun i => if i = 0 then 0x1FF else 0
  pages := 32
  last_allocated_page_index := 0
  pages_lt := by decide
  last_le := by decide

def smallMachine : Machine where
  frames := smallFrames
  cr3 := 0x4000
  memory_bitmap := smallBitmap
  bounce_pages_used := fun _ => false
  kernel_page_directory_phys := 0x1000

/-- The user task that runs on the small machine. -/
def smallParent : task_t :=
  { task_t.zeroed with
    task_cr3 := 0x4000
    task_is_user := true
    stack_base := KERNEL_STACK_TOP - PAGE_SIZE
    stack_top := KERNEL_STACK_TOP
    task_esp := KERNEL_STACK_TOP - REGISTER_FRAME_SIZE }

theorem small_used {f : Nat} (hf : f < 9) : Used smallMachine.memory_bitmap f := by
  have : ∀ f, f < 9 → Used smallMachine.memory_bitmap f := by decide
  exact this f hf

theorem small_kernel_present {j : Nat} (hj : j < 1023)
    (hp : present (smallMachine.frames smallMachine.kdir j) = true) : j = 768 ∨ j = 1022 := by
  by_contra hc
  have h1 : smallMachine.frames smallMachine.kdir j = 0 := by
    show smallFrames 1 j = 0
    unfold smallFrames
    rw [if_pos rfl, if_neg (by omega), if_neg (by omega), if_neg (by omega)]
  rw [h1] at hp
  cases hp

theorem small_kernelFrame {f : Nat} (h : smallMachine.KernelFrame f) : f = 1 ∨ f = 2 ∨ f = 3 := by
  rcases h with rfl | ⟨j, -, hj, hp, rfl⟩
  · exact Or.inl rfl
  · rcases small_kernel_present hj hp with rfl | rfl
    · exact Or.inr (Or.inl rfl)
    · exact Or.inr (Or.inr rfl)

theorem small_windows : Windows smallMachine where
  self_present := by decide
  self := by decide
  bounce_present := by decide
  apart := by decide
  closed := fun i _ _ => by
    show smallFrames 3 (768 + i) = 0
    unfold smallFrames
    simp

theorem small_kernelSpace : KernelSpace smallMachine where
  windows := small_windows
  zero := small_used (by omega)
  dir_taken := fun _ => small_used (show 4 < 9 by omega)
  kernel_taken := fun f hf _ => by
    apply small_used
    rcases small_kernelFrame hf with rfl | rfl | rfl <;> omega
  dir_apart := fun hf => by
    rcases small_kernelFrame hf with h | h | h <;> revert h <;> decide
  bounce_present := by decide
  bounce := by decide
  low := by
    refine ⟨768, by omega, by omega, by decide, by decide, by decide, ⟨?_, ?_, ?_, ?_⟩, by decide,
      by decide, ?_⟩ <;> decide
  tables := fun i j _ hi2 _ hj2 hip hjp he => by
    rcases small_kernel_present hi2 hip with rfl | rfl <;>
      rcases small_kernel_present hj2 hjp with rfl | rfl
    · rfl
    · revert he; decide
    · revert he; decide
    · rfl
  no_loop := fun j _ hj2 hp => by
    rcases small_kernel_present hj2 hp with rfl | rfl <;> decide
  stack := by decide

theorem small_user_pde {i : Nat} (hi : i < 768)
    (hp : present (smallMachine.frames smallMachine.dir i) = true) : i = 0 := by
  by_contra hc
  have h1 : smallMachine.frames smallMachine.dir i = 0 := by
    show smallFrames 4 i = 0
    unfold smallFrames
    simp only [show ¬ (4 = 1) by omega, show ¬ (4 = 2) by omega, if_false, if_true, hc]
    rw [if_neg (by omega), if_neg (by omega), if_neg (by omega), if_neg (by omega)]
  rw [h1] at hp
  cases hp

theorem small_user_page {i j : Nat} (hi : i < 768) :
    UserPage smallMachine i j ↔ i = 0 ∧ j = 1 := by
  constructor
  · rintro ⟨hp1, hp2⟩
    have hi0 := small_user_pde hi hp1
    refine ⟨hi0, ?_⟩
    by_contra hc
    subst hi0
    have h1 : userEntry smallMachine 0 j = 0 := by
      show smallFrames 5 j = 0
      unfold smallFrames
      simp [hc]
    rw [h1] at hp2
    cases hp2
  · rintro ⟨rfl, rfl⟩
    decide

theorem small_userSpace : UserSpace smallMachine where
  table_taken := fun i hi hp => by
    obtain rfl := small_user_pde hi hp
    refine ⟨fun _ => small_used (show 5 < 9 by omega), fun hf => ?_⟩
    rcases small_kernelFrame hf with h | h | h <;> revert h <;> decide
  frame_taken := fun i j hi _ hup => by
    obtain ⟨rfl, rfl⟩ := (small_user_page hi).mp hup
    refine ⟨fun _ => small_used (show 6 < 9 by omega), fun hf => ?_⟩
    rcases small_kernelFrame hf with h | h | h <;> revert h <;> decide

theorem small_kernelStack : KernelStack smallMachine where
  pde_present := by decide
  pte_present := by decide
  table_taken := fun _ => small_used (show 7 < 9 by omega)
  table_apart := fun hf => by
    rcases small_kernelFrame hf with h | h | h <;> revert h <;> decide
  frame_taken := fun _ => small_used (show 8 < 9 by omega)
  frame_apart := fun hf => by
    rcases small_kernelFrame hf with h | h | h <;> revert h <;> decide

theorem small_copyNeed : copyNeed smallMachine = 2 := by
  unfold copyNeed
  rw [Finset.sum_eq_single 0]
  · unfold tableNeed
    rw [if_pos (by decide), Finset.sum_eq_single 1]
    · rw [if_pos ((small_user_page (by omega)).mpr ⟨rfl, rfl⟩)]
    · intro q _ hq
      exact if_neg (fun hup => hq ((small_user_page (by omega)).mp hup).2)
    · intro hc
      exact absurd (Finset.mem_Ico.mpr ⟨by omega, by omega⟩) hc
  · intro p hp hne
    exact if_neg (fun hpp => hne (small_user_pde (Finset.mem_Ico.mp hp).2 hpp))
  · intro hc
    exact absurd (Finset.mem_Ico.mpr ⟨by omega, by omega⟩) hc

/-- A fork on the small machine gives the child the page at 0x1000 with its flags and its
first word. -/
theorem fork_copies_the_small_page :
    ∃ m' child, task_manager_task_copy smallMachine 0 0xF0000000 7 smallParent = some (m', child) ∧
      ∃ pte, m'.entry (frameOf child.task_cr3) 0x1000 = some pte ∧ pte % 4096 = 7 ∧
        m'.frames (frameOf pte) 0 = 42 ∧ m'.frames 6 0 = 42 ∧ frameOf pte ≠ 6 := by
  obtain ⟨m', child, hrun, hall⟩ := fork_copies_the_address_space (m := smallMachine) 7
    small_kernelSpace small_userSpace small_kernelStack (show 0x4000 = smallParent.task_cr3 from rfl)
    rfl rfl (show 0xF0000000 % 4096 = 0 by decide) (by decide)
    (show 0xF0000000 + 0 * 4096 ≤ KERNEL_HEAP_VIRTUAL_END + 1 by decide) (by decide)
    (by rw [small_copyNeed]; decide)
  obtain ⟨-, -, hpage⟩ := hall 0x1000 (by decide)
  obtain ⟨hold, pte, he, hflags, hwords, -, -, hne⟩ := hpage 0x6007 (by decide)
  have h6 : frameOf 0x6007 = 6 := by decide
  rw [h6] at hold hwords
  refine ⟨m', child, hrun, pte, he, hflags, hwords 0 (by omega), congrFun hold 0, ?_⟩
  exact (h6 ▸ hne 0x1000 0x6007 (by decide) (by decide)).symm

end alura_os.task_manager
