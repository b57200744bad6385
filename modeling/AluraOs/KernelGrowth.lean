-- Growth of the kernel heap with or without free frames: every word in use stays
-- as it was, but for absent entries of the kernel's own tables.
import AluraOs.AddressSpaces

namespace alura_os.memory_paging

open alura_os.memory alura_os.memory_bitmap Machine memory_paging_result_t

/-! ## Allocations that may fail -/

theorem allocate_zero {b : memory_bitmap_t} (h0 : Used b 0)
    (h : (memory_bitmap_allocate b).2 = 0) : (memory_bitmap_allocate b).1 = b := by
  rcases allocate_cases b with ⟨he, -⟩ | ⟨i, hi, hu, ha, -, -⟩
  · rw [he]
  · have hi0 : i = 0 := by omega
    subst hi0
    exact absurd h0 hu

/-- A map fails and changes nothing, or it sets the entry. -/
theorem mapPage_or {m : Machine} {d virt : Nat} (phys flags : Nat)
    (hz : Used m.memory_bitmap 0) (hd : Taken m.memory_bitmap d)
    (hT : present (m.frames d (page_directory_index virt)) = true →
      frameOf (m.frames d (page_directory_index virt)) ≠ d) :
    (present (m.frames d (page_directory_index virt)) = false ∧
      m.mapPage d phys virt flags = (m, MEMORY_PAGING_RESULT_ALLOCATION_ERROR)) ∨
    ∃ T, (m.mapPage d phys virt flags).2 = MEMORY_PAGING_RESULT_OK ∧
      Mapped m (m.mapPage d phys virt flags).1 d virt (phys ||| flags ||| PAGE_PRESENT) T := by
  by_cases hfree : present (m.frames d (page_directory_index virt)) = true ∨
      0 < (freeFrames m.memory_bitmap).card
  · obtain ⟨hok, T, hM⟩ := mapPage_mapped phys flags hz hd hfree hT
    exact Or.inr ⟨T, hok, hM⟩
  · have hp : present (m.frames d (page_directory_index virt)) = false := by
      simpa using fun hc => hfree (Or.inl hc)
    have ha : (memory_bitmap_allocate m.memory_bitmap).2 = 0 := by
      by_contra hne
      obtain ⟨n, -, -, hlt, hu, -, -⟩ := allocate_fresh hne
      exact hfree (Or.inr (Finset.card_pos.mpr ⟨n, mem_freeFrames.mpr ⟨hlt, hu⟩⟩))
    refine Or.inl ⟨hp, ?_⟩
    unfold mapPage
    simp only [hp, Bool.false_eq_true, if_false, ha, if_true, allocate_zero hz ha]
    rfl

/-! ## Words in use -/

/-- The machine `m'` came from `m` by taking free frames. Of the words in use, at most absent
entries of the kernel's tables changed, and no page for users came in; frame 0, which
stands for no frame, may hold anything. -/
structure Extends (m m' : Machine) : Prop where
  kernel : m'.kernel_page_directory_phys = m.kernel_page_directory_phys
  pages : m'.memory_bitmap.pages = m.memory_bitmap.pages
  used : ∀ f, Used m.memory_bitmap f → Used m'.memory_bitmap f
  kernel_frames : ∀ f, f ≠ 0 → Taken m.memory_bitmap f → m'.KernelFrame f → m.KernelFrame f
  words : ∀ f j, f ≠ 0 → Taken m.memory_bitmap f → m'.frames f j = m.frames f j ∨
    (m.KernelFrame f ∧ present (m.frames f j) = false ∧ m'.frames f j &&& PAGE_USER = 0)

namespace Extends

variable {m m1 m2 : Machine}

theorem refl (m : Machine) : Extends m m :=
  ⟨rfl, rfl, fun _ h => h, fun _ _ _ h => h, fun _ _ _ _ => Or.inl rfl⟩

theorem taken (h : Extends m m1) {f : Nat} (hf : Taken m.memory_bitmap f) :
    Taken m1.memory_bitmap f := by
  intro hp
  rw [h.pages] at hp
  exact h.used f (hf hp)

/-- A word that is there stays. -/
theorem present_word (h : Extends m m1) {f j : Nat} (h0 : f ≠ 0) (hf : Taken m.memory_bitmap f)
    (hp : present (m.frames f j) = true) : m1.frames f j = m.frames f j := by
  rcases h.words f j h0 hf with hw | ⟨-, habs, -⟩
  · exact hw
  · rw [hp] at habs
    cases habs

theorem trans (h1 : Extends m m1) (h2 : Extends m1 m2) : Extends m m2 where
  kernel := h2.kernel.trans h1.kernel
  pages := h2.pages.trans h1.pages
  used := fun f hf => h2.used f (h1.used f hf)
  kernel_frames := fun f h0 hf hk => h1.kernel_frames f h0 hf (h2.kernel_frames f h0 (h1.taken hf) hk)
  words := fun f j h0 hf => by
    rcases h1.words f j h0 hf with he1 | ⟨hk1, hp1, hu1⟩
    · rcases h2.words f j h0 (h1.taken hf) with he2 | ⟨hk2, hp2, hu2⟩
      · exact Or.inl (he2.trans he1)
      · exact Or.inr ⟨h1.kernel_frames f h0 hf hk2, he1 ▸ hp2, hu2⟩
    · rcases h2.words f j h0 (h1.taken hf) with he2 | ⟨-, -, hu2⟩
      · exact Or.inr ⟨hk1, hp1, he2 ▸ hu1⟩
      · exact Or.inr ⟨hk1, hp1, hu2⟩

theorem of_grown (h : Grown m m1)
    (hw : ∀ f j, Taken m.memory_bitmap f → m1.frames f j = m.frames f j ∨
      (m.KernelFrame f ∧ present (m.frames f j) = false ∧ m1.frames f j &&& PAGE_USER = 0)) :
    Extends m m1 where
  kernel := h.kernel
  pages := h.pages
  used := h.used
  kernel_frames := fun f _ hf hk => by
    by_contra hn
    exact (h.kept f hf hn).2 hk
  words := fun f j _ hf => hw f j hf

end Extends

/-- The entry of a frame that only the kernel may use. -/
theorem kernel_entry_user (n : Nat) :
    (n * 4096 ||| PAGE_READ_WRITE ||| PAGE_PRESENT) &&& PAGE_USER = 0 := by
  have h : n * 4096 &&& PAGE_USER = 0 := by
    unfold PAGE_USER
    rw [show (4 : Nat) = 2 ^ 2 by norm_num, Nat.and_two_pow, show n * 4096 = 2 ^ 12 * n by omega,
      Nat.testBit_two_pow_mul]
    simp
  rw [Nat.and_or_distrib_right, Nat.and_or_distrib_right, h]
  rfl

/-! ## One page of the kernel -/

theorem KernelSpace.heap_table {m : Machine} (h : KernelSpace m) {virt : Nat}
    (h1 : 960 ≤ page_directory_index virt) (h2 : page_directory_index virt < 992) :
    present (m.frames m.kdir (page_directory_index virt)) = true →
      frameOf (m.frames m.kdir (page_directory_index virt)) ≠ m.bounceTable ∧
      frameOf (m.frames m.kdir (page_directory_index virt)) ≠ m.dir := by
  intro hp
  have hkf : m.KernelFrame (frameOf (m.frames m.kdir (page_directory_index virt))) :=
    Or.inr ⟨_, by omega, by omega, hp, rfl⟩
  constructor
  · rw [← h.bounce]
    intro he
    have := h.tables _ _ (by omega) (by omega) (by omega) (by omega) hp h.bounce_present he
    omega
  · intro he
    exact h.dir_apart (he ▸ hkf)

/-- Mapping an absent page of the kernel heap changes only absent words. -/
theorem KernelSpace.mapPage_extends {m : Machine} (h : KernelSpace m) (n : Nat) {virt : Nat}
    (h1 : 960 ≤ page_directory_index virt) (h2 : page_directory_index virt < 992)
    (habs : m.entry m.kdir virt = none) :
    KernelSpace (m.mapPage m.kdir (n * 4096) virt PAGE_READ_WRITE).1 ∧
      Grown m (m.mapPage m.kdir (n * 4096) virt PAGE_READ_WRITE).1 ∧
      Extends m (m.mapPage m.kdir (n * 4096) virt PAGE_READ_WRITE).1 := by
  by_cases hc : present (m.frames m.kdir (page_directory_index virt)) = true ∨
      (memory_bitmap_allocate m.memory_bitmap).2 ≠ 0
  · rcases mapPage_cases m m.kdir (n * 4096) virt PAGE_READ_WRITE hc with
      ⟨hp, he⟩ | ⟨t, hpos, hlt, hu, hp, ha, he⟩
    · rw [he]
      obtain ⟨hk, hg⟩ := h.mapEntry (n * 4096) h1 h2 hp
      refine ⟨hk, hg, Extends.of_grown hg fun f j _ => ?_⟩
      rw [mapEntry_kernel, setWord_apply]
      split
      · rename_i hfj
        refine Or.inr ⟨Or.inr ⟨_, by omega, by omega, hp, hfj.1.symm⟩, ?_, kernel_entry_user n⟩
        rw [hfj.1, hfj.2]
        cases hpte : present (m.frames (frameOf (m.frames m.kdir (page_directory_index virt)))
            (page_table_index virt)) with
        | false => rfl
        | true =>
          rw [entry_eq_some.mpr ⟨hp, hpte, rfl⟩] at habs
          cases habs
      · exact Or.inl rfl
    · rw [he]
      obtain ⟨hk, hg⟩ := h.addTable (by omega) (by omega) hp ha hlt hu hpos
      have hkd : ((m.setBitmap (memory_bitmap_allocate m.memory_bitmap).1).addTable m.kdir
          (page_directory_index virt) (t * 4096)).kdir = m.kdir := rfl
      have hpde : ((m.setBitmap (memory_bitmap_allocate m.memory_bitmap).1).addTable m.kdir
          (page_directory_index virt) (t * 4096)).frames m.kdir (page_directory_index virt) =
          (t * 4096 ||| PAGE_READ_WRITE ||| PAGE_PRESENT) := by
        rw [addTable_apply, if_pos ⟨rfl, rfl⟩]
      obtain ⟨hk2, hg2⟩ := hk.mapEntry (n * 4096) h1 h2
        (by rw [hkd, hpde]; exact present_entry _ _)
      rw [hkd] at hk2 hg2
      refine ⟨hk2, hg.trans hg2, Extends.of_grown (hg.trans hg2) fun f j hf => ?_⟩
      have hft : f ≠ t := fun hc => hf.ne hlt hu hc.symm
      rw [mapEntry_kernel, setWord_apply, hpde, frameOf_entry t (by decide),
        if_neg (fun hc => hft hc.1), addTable_apply]
      split
      · rename_i hfj
        refine Or.inr ⟨Or.inl hfj.1, ?_, kernel_entry_user t⟩
        rw [hfj.1, hfj.2]
        exact hp
      · rw [if_neg (fun hc => hft hc.1)]
        exact Or.inl rfl
  · have hp : present (m.frames m.kdir (page_directory_index virt)) = false := by
      simpa using fun hx => hc (Or.inl hx)
    have ha : (memory_bitmap_allocate m.memory_bitmap).2 = 0 := by
      by_contra hx
      exact hc (Or.inr hx)
    have he : (m.mapPage m.kdir (n * 4096) virt PAGE_READ_WRITE).1 = m := by
      unfold Machine.mapPage
      simp only [hp, Bool.false_eq_true, if_false, ha, if_true, allocate_zero h.zero ha]
      rfl
    rw [he]
    exact ⟨h, Grown.refl m, Extends.refl m⟩

/-- Another page of the kernel that was absent is absent after a map. -/
theorem KernelSpace.mapPage_absent {m : Machine} (h : KernelSpace m) (phys flags : Nat)
    {virt v : Nat} (h1 : 768 ≤ page_directory_index virt) (h2 : page_directory_index virt < 1023)
    (h3 : 768 ≤ page_directory_index v) (h4 : page_directory_index v < 1023)
    (hne : page_directory_index v ≠ page_directory_index virt ∨
      page_table_index v ≠ page_table_index virt)
    (habs : m.entry m.kdir v = none) :
    (m.mapPage m.kdir phys virt flags).1.entry m.kdir v = none := by
  have hpt : page_table_index v < 1024 := Nat.mod_lt _ (by decide)
  rcases mapPage_or (m := m) (d := m.kdir) phys flags h.zero (h.kernel_taken _ (Or.inl rfl))
    (h.no_loop _ h1 h2) with ⟨-, he⟩ | ⟨T, -, hM⟩
  · rw [he]
    exact habs
  · generalize (m.mapPage m.kdir phys virt flags).1 = m' at hM
    rw [Option.eq_none_iff_forall_ne_some]
    intro x hx
    obtain ⟨hp1, hp2, -⟩ := entry_eq_some.mp hx
    by_cases hv : page_directory_index v = page_directory_index virt
    · have hpt' := hne.resolve_left (fun hc => hc hv)
      rw [hv, hM.pde_frame] at hp2
      cases hp : present (m.frames m.kdir (page_directory_index virt)) with
      | true =>
        obtain ⟨hT, hold⟩ := hM.table_old hp
        rw [hold _ hpt', hT] at hp2
        rw [entry_eq_some.mpr ⟨by rw [hv]; exact hp, by rw [hv]; exact hp2, rfl⟩] at habs
        cases habs
      | false =>
        rw [(hM.table_new hp).2.2 _ hpt hpt'] at hp2
        cases hp2
    · rw [hM.pde_other _ hv] at hp1 hp2
      have hkf : m.KernelFrame (frameOf (m.frames m.kdir (page_directory_index v))) :=
        Or.inr ⟨_, h3, h4, hp1, rfl⟩
      have hT : frameOf (m.frames m.kdir (page_directory_index v)) ≠ T := by
        cases hp : present (m.frames m.kdir (page_directory_index virt)) with
        | true =>
          rw [(hM.table_old hp).1]
          intro hc
          exact hv (h.tables _ _ h3 h4 h1 h2 hp1 hp hc)
        | false =>
          obtain ⟨hlt, hu, -⟩ := hM.table_new hp
          exact ((h.kernel_taken _ hkf).ne hlt hu).symm
      rw [hM.others _ (h.no_loop _ h3 h4 hp1) hT] at hp2
      rw [entry_eq_some.mpr ⟨hp1, hp2, rfl⟩] at habs
      cases habs

/-! ## Any growth -/

theorem Extends.allocate {m : Machine} (h : KernelSpace m) :
    Extends m (m.setBitmap (memory_bitmap_allocate m.memory_bitmap).1) :=
  Extends.of_grown h.allocate.2 fun _ _ _ => Or.inl rfl

/-- Growing the kernel heap into absent pages, whether or not the frames suffice. -/
theorem grow_extends {m : Machine} (h : KernelSpace m) (n : Nat) {address : Nat}
    (hs : 0 < (freeSlots m).card) (hal : address % 4096 = 0)
    (hlo : KERNEL_HEAP_VIRTUAL_START ≤ address)
    (hhi : address + n * 4096 ≤ KERNEL_HEAP_VIRTUAL_END + 1)
    (habs : ∀ k, k < n → m.entry m.kdir (address + k * 4096) = none) :
    ∃ m' served, kernel_heap_grow n address m = some (m', served) ∧ KernelSpace m' ∧
      Grown m m' ∧ Extends m m' ∧
      ∀ v, address + n * 4096 ≤ v → v ≤ KERNEL_HEAP_VIRTUAL_END → m.entry m.kdir v = none →
        m'.entry m.kdir v = none := by
  induction n generalizing m address with
  | zero => exact ⟨m, true, rfl, h, Grown.refl m, Extends.refl m, fun _ _ _ hv => hv⟩
  | succ n ih =>
    unfold KERNEL_HEAP_VIRTUAL_START at hlo
    unfold KERNEL_HEAP_VIRTUAL_END at hhi
    obtain ⟨h0, hg0⟩ := h.allocate
    have he0 := Extends.allocate h
    by_cases hne : (memory_bitmap_allocate m.memory_bitmap).2 = 0
    · refine ⟨_, false, ?_, h0, hg0, he0, fun _ _ _ hv => hv⟩
      unfold kernel_heap_grow
      simp only [hne, if_true]
      rfl
    · obtain ⟨f, hf, -⟩ := allocate_fresh hne
      obtain ⟨i, hi⟩ := free_slot_of_card hs
      obtain ⟨j, hj1, hj2, hjp, hlow⟩ := h0.low
      have hpd1 : 960 ≤ page_directory_index address := by unfold page_directory_index; omega
      have hpd2 : page_directory_index address < 992 := by unfold page_directory_index; omega
      have hmap := map_spec h0.windows hi hlow (memory_bitmap_allocate m.memory_bitmap).2
        PAGE_READ_WRITE (h0.heap_table hpd1 hpd2) h0.dir_taken h0.bounce_taken
        (h0.kernel_taken _ (Or.inr ⟨j, hj1, by omega, hjp, rfl⟩))
      have hself := habs 0 (by omega)
      rw [Nat.zero_mul, Nat.add_zero] at hself
      obtain ⟨h1, hg1, he1⟩ := h0.mapPage_extends f hpd1 hpd2 hself
      rw [← hf] at h1 hg1 he1
      have hkd : (m.setBitmap (memory_bitmap_allocate m.memory_bitmap).1).kdir = m.kdir := rfl
      have hnext : u32 (address + PAGE_SIZE) = address + 4096 := by
        unfold PAGE_SIZE
        exact u32_of_lt (by omega)
      have hrest : ∀ v, address + 4096 ≤ v → v ≤ KERNEL_HEAP_VIRTUAL_END →
          m.entry m.kdir v = none →
          ((m.setBitmap (memory_bitmap_allocate m.memory_bitmap).1).mapPage m.kdir
            (memory_bitmap_allocate m.memory_bitmap).2 address PAGE_READ_WRITE).1.entry m.kdir v =
            none := by
        intro v hv1 hv2 hv
        unfold KERNEL_HEAP_VIRTUAL_END at hv2
        apply h0.mapPage_absent
        · omega
        · omega
        · unfold page_directory_index; omega
        · unfold page_directory_index; omega
        · unfold page_directory_index page_table_index; omega
        · exact hv
      have habs1 : ∀ k, k < n → ((m.setBitmap (memory_bitmap_allocate m.memory_bitmap).1).mapPage
          m.kdir (memory_bitmap_allocate m.memory_bitmap).2 address PAGE_READ_WRITE).1.entry m.kdir
            (address + 4096 + k * 4096) = none := by
        intro k hk
        have := habs (k + 1) (by omega)
        rw [show address + (k + 1) * 4096 = address + 4096 + k * 4096 by ring] at this
        exact hrest _ (by omega) (by unfold KERNEL_HEAP_VIRTUAL_END; omega) this
      obtain ⟨m', served, hgrow, hk', hg', he', hv'⟩ := ih h1
        (by rw [(hg0.trans hg1).freeSlots_eq]; exact hs)
        (show (address + 4096) % 4096 = 0 by omega) (by unfold KERNEL_HEAP_VIRTUAL_START; omega)
        (by unfold KERNEL_HEAP_VIRTUAL_END; omega)
        (by rw [(hg0.trans hg1).kdir]; exact habs1)
      refine ⟨m', served, ?_, hk', (hg0.trans hg1).trans hg', (he0.trans he1).trans he', ?_⟩
      rotate_left
      · intro v hv1 hv2 hv
        have := hv' v (by omega) hv2
        rw [(hg0.trans hg1).kdir] at this
        exact this (hrest v (by omega) hv2 hv)
      unfold kernel_heap_grow
      simp only [hne, if_false, Option.bind_eq_bind]
      have hptr : (m.setBitmap (memory_bitmap_allocate m.memory_bitmap).1).kernel_page_directory =
          m.kernel_page_directory := rfl
      rw [hptr] at hmap
      rw [hmap, Option.bind_some, hnext]
      exact hgrow

end alura_os.memory_paging
