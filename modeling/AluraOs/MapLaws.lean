-- The laws of a mapping (`memory_paging.c`): what a directory translates after a map and
-- after an unmap, and that the functions on the loaded directory do the same.
import AluraOs.CurrentPages

namespace alura_os.memory_paging

open alura_os.memory alura_os.memory_bitmap Machine memory_paging_result_t

/-! ## Translations -/

/-- What `memory_paging_virtual_to_physical` returns for the directory frame `d`. -/
def translation (m : Machine) (d v : Nat) : Option Nat :=
  (memory_paging_virtual_to_physical m (d * 4096) v).map Prod.snd

/-- The word of the page table that the lookup reads while its slot is open. -/
def tableWord (m : Machine) (i d v : Nat) : Nat :=
  (m.openSlot i (frameOf (m.frames d (page_directory_index v)))).frames
    (frameOf (m.frames d (page_directory_index v))) (page_table_index v)

theorem translation_eq {m : Machine} (h : Windows m) {i d : Nat} (hi : bounce_free_slot m = some i)
    (hd : d ≠ m.bounceTable) (v : Nat) :
    translation m d v = some
      (if present (m.frames d (page_directory_index v)) = true ∧ present (tableWord m i d v) = true
        then ALIGN_DOWN (tableWord m i d v) + v % 4096 else 0) := by
  obtain ⟨hi16, hu⟩ := free_slot_spec hi
  have hpd : page_directory_index v < 1024 := Nat.mod_lt _ (by decide)
  have hpt : page_table_index v < 1024 := Nat.mod_lt _ (by decide)
  have hfr : frameOf (d * 4096) = d := by unfold frameOf; omega
  have hfree : ∀ f, bounce_free (m.openSlot i f) (slotAddr i) = some m := by
    intro f
    rw [bounce_free_spec (windows_openSlot h i f) hi16, close_open h hi16 hu f]
  have hword := load_slot h hi16 (frameOf (m.frames d (page_directory_index v))) hpt
  unfold translation memory_paging_virtual_to_physical
  simp only [Option.bind_eq_bind, Option.bind_some, bounce_alloc_spec h hi, load_slot h hi16 _ hpd, hfr]
  rw [openSlot_frames_ne hd]
  cases hpde : present (m.frames d (page_directory_index v)) with
  | false => simp
  | true =>
    simp only [Bool.not_true, Bool.false_eq_true, if_false, hfree, Option.bind_some,
      bounce_alloc_spec h hi, frameOf_align, hword]
    cases hpte : present (tableWord m i d v) with
    | false =>
      unfold tableWord at hpte
      simp [hpte]
    | true =>
      unfold tableWord at hpte ⊢
      simp [hpte]

section compare

variable {m m' : Machine} {i d v : Nat}

/-- Without a directory entry there is no translation. -/
theorem translation_none (h : Windows m) (hs : 0 < (freeSlots m).card) (hd : d ≠ m.bounceTable)
    (hp : present (m.frames d (page_directory_index v)) = false) : translation m d v = some 0 := by
  obtain ⟨i, hi⟩ := free_slot_of_card hs
  rw [translation_eq h hi hd v]
  simp [hp]

/-- A table other than the bounce table is read as it is. -/
theorem translation_table (h : Windows m) (hs : 0 < (freeSlots m).card) (hd : d ≠ m.bounceTable)
    {t : Nat} (ht : t ≠ m.bounceTable)
    (hp : present (m.frames d (page_directory_index v)) = true)
    (hf : frameOf (m.frames d (page_directory_index v)) = t) :
    translation m d v = some (if present (m.frames t (page_table_index v)) = true then
      ALIGN_DOWN (m.frames t (page_table_index v)) + v % 4096 else 0) := by
  obtain ⟨i, hi⟩ := free_slot_of_card hs
  have hword : tableWord m i d v = m.frames t (page_table_index v) := by
    unfold tableWord
    rw [hf, openSlot_frames_ne ht]
  rw [translation_eq h hi hd v, hword]
  simp [hp]

/-- The lookup reads the frame of a directory entry and then one word of the table, which may be
the bounce table with the lookup's own slot in it. -/
theorem translation_congr (h : Windows m) (h' : Windows m') (hs : 0 < (freeSlots m).card)
    (hu : m'.bounce_pages_used = m.bounce_pages_used) (hB : m'.bounceTable = m.bounceTable)
    (hd : d ≠ m.bounceTable)
    (hp : present (m'.frames d (page_directory_index v)) =
      present (m.frames d (page_directory_index v)))
    (hf : frameOf (m'.frames d (page_directory_index v)) =
      frameOf (m.frames d (page_directory_index v)))
    (hw : present (m.frames d (page_directory_index v)) = true →
      present (m'.frames (frameOf (m.frames d (page_directory_index v))) (page_table_index v)) =
        present (m.frames (frameOf (m.frames d (page_directory_index v))) (page_table_index v)) ∧
      frameOf (m'.frames (frameOf (m.frames d (page_directory_index v))) (page_table_index v)) =
        frameOf (m.frames (frameOf (m.frames d (page_directory_index v))) (page_table_index v))) :
    translation m' d v = translation m d v := by
  obtain ⟨i, hi⟩ := free_slot_of_card hs
  have hi' : bounce_free_slot m' = some i := by
    unfold bounce_free_slot at hi ⊢
    rw [hu]
    exact hi
  rw [translation_eq h hi hd, translation_eq h' hi' (hB ▸ hd), hp]
  cases hpde : present (m.frames d (page_directory_index v)) with
  | false => simp
  | true =>
    obtain ⟨hwp, hwf⟩ := hw hpde
    have hword : present (tableWord m' i d v) = present (tableWord m i d v) ∧
        frameOf (tableWord m' i d v) = frameOf (tableWord m i d v) := by
      unfold tableWord Machine.openSlot
      simp only [hf, hB, setBounce_frames, setWord_apply]
      split
      · exact ⟨rfl, rfl⟩
      · exact ⟨hwp, hwf⟩
    rw [hword.1, align_frame, align_frame, hword.2]

end compare

/-! ## Directories and their pointers -/

/-- A page directory as the kernel builds it: entry 1023 shows the directory itself, entry 1022
the bounce pages, and its tables are distinct frames in use, none of them the loaded directory. -/
structure PageDirectory (m : Machine) (d : Nat) : Prop where
  self_present : present (m.frames d 1023) = true
  self : frameOf (m.frames d 1023) = d
  bounce_present : present (m.frames d 1022) = true
  bounce : frameOf (m.frames d 1022) = m.bounceTable
  distinct : ∀ i j, i < 1024 → j < 1024 → present (m.frames d i) = true →
    present (m.frames d j) = true → frameOf (m.frames d i) = frameOf (m.frames d j) → i = j
  taken : ∀ j, j < 1024 → present (m.frames d j) = true →
    Taken m.memory_bitmap (frameOf (m.frames d j))
  unloaded : ∀ j, j < 1023 → present (m.frames d j) = true → frameOf (m.frames d j) ≠ m.dir

/-- The pointer `page_directory` leads to the directory frame `d`: it is the window on the loaded
directory, or a page that shows `d`, such as a bounce page. -/
inductive Pointer (m : Machine) (page_directory d : Nat) : Prop
  | window : page_directory = PAGE_DIRECTORY_VADDR → d = m.dir → Pointer m page_directory d
  | shown (t : Nat) : Shows m page_directory t d → Taken m.memory_bitmap t →
      Pointer m page_directory d

/-- A call on the directory frame `d` through a pointer, with a bounce slot free. -/
structure Callable (m : Machine) (page_directory d : Nat) : Prop where
  windows : Windows m
  slot : 0 < (freeSlots m).card
  zero : Used m.memory_bitmap 0
  loaded : Taken m.memory_bitmap m.dir
  directory : PageDirectory m d
  pointer : Pointer m page_directory d

namespace PageDirectory

variable {m : Machine} {d : Nat}

theorem dir_taken (h : PageDirectory m d) : Taken m.memory_bitmap d := by
  have := h.taken 1023 (by omega) h.self_present
  rwa [h.self] at this

theorem bounce_taken (h : PageDirectory m d) : Taken m.memory_bitmap m.bounceTable := by
  have := h.taken 1022 (by omega) h.bounce_present
  rwa [h.bounce] at this

theorem ne_bounce (h : PageDirectory m d) : d ≠ m.bounceTable := by
  intro hc
  rw [← h.bounce] at hc
  have := h.distinct 1023 1022 (by omega) (by omega) h.self_present h.bounce_present
    (h.self.trans hc)
  omega

theorem table_ne_dir (h : PageDirectory m d) {j : Nat} (hj : j < 1023)
    (hp : present (m.frames d j) = true) : frameOf (m.frames d j) ≠ d := by
  intro hc
  have := h.distinct j 1023 (by omega) (by omega) hp h.self_present (hc.trans h.self.symm)
  omega

theorem table_ne_bounce (h : PageDirectory m d) {j : Nat} (hj : j < 1022)
    (hp : present (m.frames d j) = true) : frameOf (m.frames d j) ≠ m.bounceTable := by
  intro hc
  have := h.distinct j 1022 (by omega) (by omega) hp h.bounce_present (hc.trans h.bounce.symm)
  omega

end PageDirectory

/-- Words of the directory are read through any pointer to it. -/
theorem Pointer.load {m : Machine} {page_directory d j : Nat} (h : Pointer m page_directory d)
    (hw : Windows m) (hj : j < 1024) :
    m.load32 (at32 page_directory j) = some (m.frames d j) := by
  cases h with
  | window hv hd =>
    rw [hv, hd]
    exact load_via (via_directory hw) (by decide) (by decide) hj
  | shown t hs _ => exact load_via hs.via hs.aligned hs.lt hj

/-! ## Both implementations on frames -/

section window

variable {m : Machine} {virt : Nat}

/-- The end of `memory_paging_map` through the window on the loaded directory. -/
theorem map_entry_window (h : Windows m) {i : Nat} (hi : bounce_free_slot m = some i)
    (phys flags : Nat) (hv : page_directory_index virt < 1022)
    (hT : frameOf (m.frames m.dir (page_directory_index virt)) ≠ m.bounceTable)
    (hTd : frameOf (m.frames m.dir (page_directory_index virt)) ≠ m.dir) :
    memory_paging_map_entry m PAGE_DIRECTORY_VADDR phys virt flags =
      some (m.mapEntry m.dir phys virt flags, MEMORY_PAGING_RESULT_OK) := by
  have hpd : page_directory_index virt < 1024 := by omega
  have hpt : page_table_index virt < 1024 := Nat.mod_lt _ (by decide)
  have huser := set_user_window h flags hpd
  have hB : (m.setWord m.dir (page_directory_index virt)
      (userBit flags (m.frames m.dir (page_directory_index virt)))).bounceTable = m.bounceTable := by
    apply bounceTable_setWord
    intro _ hc
    omega
  have hw : Windows (m.setWord m.dir (page_directory_index virt)
      (userBit flags (m.frames m.dir (page_directory_index virt)))) := by
    apply windows_setWord h h.apart.symm
    intro _ hc
    omega
  have hload : (m.setWord m.dir (page_directory_index virt)
      (userBit flags (m.frames m.dir (page_directory_index virt)))).load32
        (at32 PAGE_DIRECTORY_VADDR (page_directory_index virt)) =
      some (userBit flags (m.frames m.dir (page_directory_index virt))) := by
    rw [load_via (via_directory hw) (by decide) (by decide) hpd]
    apply congrArg some
    exact (setWord_apply _ _ _ _ _ _).trans (if_pos ⟨rfl, rfl⟩)
  have hslot : bounce_free_slot (m.setWord m.dir (page_directory_index virt)
      (userBit flags (m.frames m.dir (page_directory_index virt)))) = some i := hi
  obtain ⟨m1, hstore, hfree⟩ := write_through_slot hw hslot (phys ||| flags ||| PAGE_PRESENT) hpt
    (by rw [hB]; exact hT) hTd
  have hframe : frameOf (frameOf (m.frames m.dir (page_directory_index virt)) * 4096) =
      frameOf (m.frames m.dir (page_directory_index virt)) := by
    unfold frameOf; omega
  unfold memory_paging_map_entry
  simp only [Option.bind_eq_bind, Option.bind_some, huser, hload, bounce_alloc_spec hw hslot,
    align_frame, frameOf_userBit, hframe, hstore, hfree]
  rfl

/-- `memory_paging_map` through the window on the loaded directory. -/
theorem map_window (h : Windows m) {i : Nat} (hi : bounce_free_slot m = some i)
    (phys flags : Nat) (hv : page_directory_index virt < 1022)
    (hT : present (m.frames m.dir (page_directory_index virt)) = true →
      frameOf (m.frames m.dir (page_directory_index virt)) ≠ m.bounceTable ∧
      frameOf (m.frames m.dir (page_directory_index virt)) ≠ m.dir)
    (hD : Taken m.memory_bitmap m.dir) (hB : Taken m.memory_bitmap m.bounceTable) :
    memory_paging_map m PAGE_DIRECTORY_VADDR phys virt flags =
      some (m.mapPage m.dir phys virt flags) := by
  have hpd : page_directory_index virt < 1024 := by omega
  have hload : m.load32 (at32 PAGE_DIRECTORY_VADDR (page_directory_index virt)) =
      some (m.frames m.dir (page_directory_index virt)) :=
    load_via (via_directory h) (by decide) (by decide) hpd
  unfold memory_paging_map mapPage
  simp only [Option.bind_eq_bind, Option.bind_some, hload]
  cases hp : present (m.frames m.dir (page_directory_index virt)) with
  | true =>
    simp only [if_true]
    exact map_entry_window h hi phys flags hv (hT hp).1 (hT hp).2
  | false =>
    simp only [Bool.false_eq_true, if_false]
    by_cases ha : (memory_bitmap_allocate m.memory_bitmap).2 = 0
    · simp only [ha, if_true]
      rfl
    · obtain ⟨n, hn, -, hlt, hu, -, -⟩ := allocate_fresh ha
      have hnD := hD.ne hlt hu
      have hnB := hB.ne hlt hu
      have hfr : frameOf (n * 4096) = n := by unfold frameOf; omega
      have hm0 := windows_setBitmap h (memory_bitmap_allocate m.memory_bitmap).1
      obtain ⟨m1, hreset, hfree⟩ := reset_through_slot hm0 hi hnB hnD
      -- The cleared table is hung in through the window, which shows the directory as before.
      have hw1 := windows_setFrame hm0 (page (fun _ => 0) (m.frames n)) hnD hnB
      have hstore := store_via (n * 4096 ||| PAGE_READ_WRITE ||| PAGE_PRESENT) (via_directory hw1)
        (by decide) (by decide) hpd
      have hw2 := windows_addTable hm0 hv hnD hnB
      have hB2 := bounceTable_addTable (m := m.setBitmap (memory_bitmap_allocate m.memory_bitmap).1) hv hnD
      have hpde : ((m.setBitmap (memory_bitmap_allocate m.memory_bitmap).1).addTable m.dir
          (page_directory_index virt) (n * 4096)).frames m.dir (page_directory_index virt) =
          (n * 4096 ||| PAGE_READ_WRITE ||| PAGE_PRESENT) := by
        rw [addTable_apply, if_pos ⟨rfl, rfl⟩]
      have hfr2 : frameOf (((m.setBitmap (memory_bitmap_allocate m.memory_bitmap).1).addTable m.dir
          (page_directory_index virt) (n * 4096)).frames m.dir (page_directory_index virt)) = n := by
        rw [hpde]
        exact frameOf_entry n (by decide)
      have hlast := map_entry_window hw2 (by exact hi) phys flags hv
        (fun hc => hnB (hfr2.symm.trans (hc.trans hB2))) (fun hc => hnD (hfr2.symm.trans hc))
      unfold addTable at hlast ⊢
      rw [hn] at ha ⊢
      simp only [ha, if_false, bounce_alloc_spec hm0 hi, hfr, Option.bind_some, hreset, hfree,
        setBitmap_frames] at hlast hstore ⊢
      simp only [setFrame_dir, setBitmap_dir] at hstore
      rw [hstore]
      exact hlast

end window

namespace Callable

variable {m : Machine} {page_directory d virt : Nat}

/-- The table that a call writes to is neither the bounce table nor the loaded directory. -/
theorem table_apart (hc : Callable m page_directory d) (hv : page_directory_index virt < 1022)
    (hp : present (m.frames d (page_directory_index virt)) = true) :
    frameOf (m.frames d (page_directory_index virt)) ≠ m.bounceTable ∧
      frameOf (m.frames d (page_directory_index virt)) ≠ m.dir :=
  ⟨hc.directory.table_ne_bounce hv hp, hc.directory.unloaded _ (by omega) hp⟩

theorem map_eq (hc : Callable m page_directory d) (hv : page_directory_index virt < 1022)
    (phys flags : Nat) :
    memory_paging_map m page_directory phys virt flags = some (m.mapPage d phys virt flags) := by
  obtain ⟨i, hi⟩ := free_slot_of_card hc.slot
  have hB := hc.directory.bounce_taken
  cases hc.pointer with
  | window hwin hd =>
    subst hwin hd
    exact map_window hc.windows hi phys flags hv (hc.table_apart hv) hc.loaded hB
  | shown t hs ht =>
    exact map_spec hc.windows hi hs phys flags (hc.table_apart hv) hc.loaded hB ht

/-- `memory_paging_unmap` clears the entry of the page, when there is a table. -/
theorem unmap_eq (hc : Callable m page_directory d) (hv : page_directory_index virt < 1022) :
    memory_paging_unmap m page_directory virt =
      some (if present (m.frames d (page_directory_index virt)) then
        m.setWord (frameOf (m.frames d (page_directory_index virt))) (page_table_index virt) 0
      else m) := by
  obtain ⟨i, hi⟩ := free_slot_of_card hc.slot
  unfold memory_paging_unmap
  rw [hc.pointer.load hc.windows (by omega)]
  cases hp : present (m.frames d (page_directory_index virt)) with
  | false => simp [hp]
  | true =>
    obtain ⟨hB, hD⟩ := hc.table_apart hv hp
    obtain ⟨m1, hstore, hfree⟩ := write_through_slot hc.windows hi (j := page_table_index virt) 0
      (Nat.mod_lt _ (by decide)) hB hD
    simp only [Option.bind_eq_bind, Option.bind_some, hp, if_true, frameOf_align,
      bounce_alloc_spec hc.windows hi, hstore, hfree]

end Callable

/-! ## What a map and an unmap keep -/

/-- The address lies in the window on a table that a map at `virt` brings in. -/
def ShowsNewTable (m : Machine) (d virt v : Nat) : Prop :=
  present (m.frames d (page_directory_index virt)) = false ∧
    v / 4096 = PAGE_TABLE_VADDR (page_directory_index virt) / 4096

/-- The page of `virt` is mapped to `phys`; every other page is as it was, but the recursive
window shows a table that is new. -/
structure MapsPage (m m' : Machine) (d phys virt : Nat) : Prop where
  page : ∀ v, v / 4096 = virt / 4096 → translation m' d v = some (phys + v % 4096)
  others : ∀ v, v < 0x100000000 → v / 4096 ≠ virt / 4096 → ¬ ShowsNewTable m d virt v →
    translation m' d v = translation m d v
  table : ∀ v, ShowsNewTable m d virt v → translation m d v = some 0 ∧
    translation m' d v =
      some (frameOf (m'.frames d (page_directory_index virt)) * 4096 + v % 4096)

/-- The page of `virt` is not mapped, and every other page is as it was. -/
structure UnmapsPage (m m' : Machine) (d virt : Nat) : Prop where
  page : ∀ v, v / 4096 = virt / 4096 → translation m' d v = some 0
  others : ∀ v, v < 0x100000000 → v / 4096 ≠ virt / 4096 → translation m' d v = translation m d v

/-- Only a page with the indices of `virt` is its page. -/
theorem other_page {v virt : Nat} (hv : v < 0x100000000) (hvirt : virt < 0x100000000)
    (hne : v / 4096 ≠ virt / 4096) (hd : page_directory_index v = page_directory_index virt) :
    page_table_index v ≠ page_table_index virt :=
  fun ht => hne (same_page hv hvirt hd ht)

theorem same_page_index {v virt : Nat} (h : v / 4096 = virt / 4096) :
    page_directory_index v = page_directory_index virt ∧
      page_table_index v = page_table_index virt := by
  unfold page_directory_index page_table_index
  omega

/-- The window on the table of entry `pd` is read through entry 1023. -/
theorem window_index {v pd : Nat} (hpd : pd < 1024) (h : v / 4096 = PAGE_TABLE_VADDR pd / 4096) :
    page_directory_index v = 1023 ∧ page_table_index v = pd := by
  unfold PAGE_TABLE_VADDR at h
  unfold page_directory_index page_table_index
  omega

theorem window_page {v pd : Nat} (hv : v < 0x100000000) (hpd : pd < 1024)
    (h1 : page_directory_index v = 1023) (h2 : page_table_index v = pd) :
    v / 4096 = PAGE_TABLE_VADDR pd / 4096 := by
  unfold PAGE_TABLE_VADDR
  unfold page_directory_index at h1
  unfold page_table_index at h2
  omega

/-- The windows outlast a call that leaves entries 1022 and 1023 and the bounce table. -/
theorem windows_kept {m m' : Machine} (h : Windows m)
    (hc : m'.cr3 = m.cr3) (hu : m'.bounce_pages_used = m.bounce_pages_used)
    (hB : m'.frames m.bounceTable = m.frames m.bounceTable)
    (hD : ∀ j, 1022 ≤ j → m'.frames m.dir j = m.frames m.dir j) :
    Windows m' ∧ m'.bounceTable = m.bounceTable := by
  have hdir : m'.dir = m.dir := by unfold Machine.dir; rw [hc]
  have hbt : m'.bounceTable = m.bounceTable := by
    unfold bounceTable
    rw [hdir, hD 1022 (by omega)]
  have h22 := hD 1022 (by omega)
  have h23 := hD 1023 (by omega)
  refine ⟨⟨?_, ?_, ?_, ?_, ?_⟩, hbt⟩
  · rw [hdir, h23]; exact h.self_present
  · rw [hdir, h23]; exact h.self
  · rw [hdir, h22]; exact h.bounce_present
  · rw [hdir, hbt]; exact h.apart
  · rw [hbt, hB, hu]; exact h.closed

section laws

variable {m m' : Machine} {page_directory d virt phys flags T : Nat}

theorem Callable.mapped_windows (hc : Callable m page_directory d)
    (hv : page_directory_index virt < 1022) {x : Nat} (hm : Mapped m m' d virt x T) :
    T ≠ m.bounceTable ∧ Windows m' ∧ m'.bounceTable = m.bounceTable := by
  have hd := hc.directory
  have hTB := hm.table_ne hd.bounce_taken (fun hp => (hc.table_apart hv hp).1)
  have hTD := hm.table_ne hc.loaded (fun hp => (hc.table_apart hv hp).2)
  refine ⟨hTB, windows_kept hc.windows hm.cr3 hm.slots
    (hm.others _ hd.ne_bounce.symm hTB.symm) (fun j hj => ?_)⟩
  by_cases hdir : m.dir = d
  · rw [hdir]
    exact hm.pde_other j (by omega)
  · rw [hm.others _ hdir hTD.symm]

/-- The page of a map leads to its frame. -/
theorem Callable.page_mapped (hc : Callable m page_directory d)
    (hv : page_directory_index virt < 1022) (hp : phys % 4096 = 0) (hf : flags < 4096)
    (hm : Mapped m m' d virt (phys ||| flags ||| PAGE_PRESENT) T) {v : Nat}
    (h : v / 4096 = virt / 4096) : translation m' d v = some (phys + v % 4096) := by
  obtain ⟨hT, hw, hB⟩ := hc.mapped_windows hv hm
  obtain ⟨h1, h2⟩ := same_page_index h
  have hslot : 0 < (freeSlots m').card := by
    unfold freeSlots
    rw [hm.slots]
    exact hc.slot
  have hphys : phys = frameOf phys * 4096 := by unfold frameOf; omega
  have hframe : frameOf (phys ||| flags ||| PAGE_PRESENT) = frameOf phys := by
    rw [frameOf_or _ (by decide), frameOf_or _ hf]
  rw [translation_table (t := T) hw hslot (hB ▸ hc.directory.ne_bounce) (hB ▸ hT)
    (h1 ▸ hm.pde_present) (h1 ▸ hm.pde_frame), h2, hm.entry, if_pos (present_entry _ _), align_frame, hframe,
    ← hphys]

/-- A page of another table, or of the same table at another entry, is read as before. -/
theorem Callable.page_kept (hc : Callable m page_directory d)
    (hv : page_directory_index virt < 1022) (hvirt : virt < 0x100000000) {x : Nat}
    (hm : Mapped m m' d virt x T) {v : Nat} (hlt : v < 0x100000000) (hne : v / 4096 ≠ virt / 4096)
    (hnew : ¬ ShowsNewTable m d virt v) : translation m' d v = translation m d v := by
  have hd := hc.directory
  obtain ⟨hT, hw, hB⟩ := hc.mapped_windows hv hm
  have hpd : page_directory_index v < 1024 := Nat.mod_lt _ (by decide)
  have hslot : 0 < (freeSlots m').card := by
    unfold freeSlots
    rw [hm.slots]
    exact hc.slot
  by_cases hsame : page_directory_index v = page_directory_index virt
  · have hpt := other_page hlt hvirt hne hsame
    cases hp : present (m.frames d (page_directory_index virt)) with
    | true =>
      obtain ⟨rfl, hold⟩ := hm.table_old hp
      apply translation_congr hc.windows hw hc.slot hm.slots hB hd.ne_bounce <;> rw [hsame]
      · rw [hm.pde_present, hp]
      · exact hm.pde_frame
      · intro _
        rw [hold _ hpt]
        exact ⟨rfl, rfl⟩
    | false =>
      -- The table is new, and its other entries are empty.
      obtain ⟨-, -, hzero⟩ := hm.table_new hp
      rw [translation_none hc.windows hc.slot hd.ne_bounce (hsame ▸ hp),
        translation_table (t := T) hw hslot (hB ▸ hd.ne_bounce) (hB ▸ hT) (hsame ▸ hm.pde_present)
          (hsame ▸ hm.pde_frame), hzero (page_table_index v) (Nat.mod_lt _ (by decide)) hpt]
      simp
  · have hpde := hm.pde_other _ hsame
    apply translation_congr hc.windows hw hc.slot hm.slots hB hd.ne_bounce
    · rw [hpde]
    · rw [hpde]
    · intro hp
      by_cases hself : frameOf (m.frames d (page_directory_index v)) = d
      · -- The recursive window shows the words of the directory.
        have h23 := hd.distinct _ 1023 hpd (by omega) hp hd.self_present (hself.trans hd.self.symm)
        rw [hself]
        by_cases hword : page_table_index v = page_directory_index virt
        · have hpv : present (m.frames d (page_directory_index virt)) = true := by
            by_contra hno
            exact hnew ⟨by simpa using hno, window_page hlt (by omega) h23 hword⟩
          rw [hword, hm.pde_present, hpv, hm.pde_frame, (hm.table_old hpv).1]
          exact ⟨rfl, rfl⟩
        · rw [hm.pde_other _ hword]
          exact ⟨rfl, rfl⟩
      · have hother : T ≠ frameOf (m.frames d (page_directory_index v)) :=
          hm.table_ne (hd.taken _ hpd hp)
            (fun hpv he => hsame (hd.distinct _ _ (by omega) hpd hpv hp he).symm)
        rw [hm.others _ hself hother.symm]
        exact ⟨rfl, rfl⟩

theorem Callable.maps_page (hc : Callable m page_directory d)
    (hv : page_directory_index virt < 1022) (hvirt : virt < 0x100000000) (hp : phys % 4096 = 0)
    (hf : flags < 4096) (hm : Mapped m m' d virt (phys ||| flags ||| PAGE_PRESENT) T) :
    MapsPage m m' d phys virt := by
  refine ⟨fun v => hc.page_mapped hv hp hf hm, fun v => hc.page_kept hv hvirt hm, ?_⟩
  rintro v ⟨hnew, hwin⟩
  have hd := hc.directory
  obtain ⟨hT, hw, hB⟩ := hc.mapped_windows hv hm
  obtain ⟨h1, h2⟩ := window_index (by omega) hwin
  have hslot : 0 < (freeSlots m').card := by
    unfold freeSlots
    rw [hm.slots]
    exact hc.slot
  have h23 := hm.pde_other 1023 (by omega)
  rw [translation_table (t := d) hc.windows hc.slot hd.ne_bounce hd.ne_bounce
      (h1 ▸ hd.self_present) (h1 ▸ hd.self),
    translation_table (t := d) hw hslot (hB ▸ hd.ne_bounce) (hB ▸ hd.ne_bounce)
      (h1 ▸ h23 ▸ hd.self_present) (h1 ▸ h23 ▸ hd.self), h2, hnew, hm.pde_present]
  simp [align_frame]

/-- Clearing an entry of a table. -/
theorem Callable.unmaps_page (hc : Callable m page_directory d)
    (hv : page_directory_index virt < 1022) (hvirt : virt < 0x100000000)
    (hp : present (m.frames d (page_directory_index virt)) = true) :
    UnmapsPage m (m.setWord (frameOf (m.frames d (page_directory_index virt)))
      (page_table_index virt) 0) d virt := by
  have hd := hc.directory
  obtain ⟨hTB, hTD⟩ := hc.table_apart hv hp
  have hTd := hd.table_ne_dir (by omega) hp
  have hkept : Windows (m.setWord (frameOf (m.frames d (page_directory_index virt)))
        (page_table_index virt) 0) ∧
      (m.setWord (frameOf (m.frames d (page_directory_index virt)))
        (page_table_index virt) 0).bounceTable = m.bounceTable := by
    refine windows_kept hc.windows ?_ ?_ ?_ ?_
    · rfl
    · rfl
    · funext j
      rw [setWord_apply, if_neg (fun he => hTB he.1.symm)]
    · intro j _
      rw [setWord_apply, if_neg (fun he => hTD he.1.symm)]
  obtain ⟨hw, hB⟩ := hkept
  have hdir : ∀ j, (m.setWord (frameOf (m.frames d (page_directory_index virt)))
      (page_table_index virt) 0).frames d j = m.frames d j := by
    intro j
    rw [setWord_apply, if_neg (fun he => hTd he.1.symm)]
  constructor
  · intro v h
    obtain ⟨h1, h2⟩ := same_page_index h
    rw [translation_table (t := frameOf (m.frames d (page_directory_index virt))) hw hc.slot
      (hB ▸ hd.ne_bounce) (hB ▸ hTB) (by rw [hdir, h1, hp]) (by rw [hdir, h1]), h2]
    simp [setWord_apply]
  · intro v hlt hne
    have hpd : page_directory_index v < 1024 := Nat.mod_lt _ (by decide)
    apply translation_congr hc.windows hw hc.slot rfl hB hd.ne_bounce
    · rw [hdir]
    · rw [hdir]
    · intro hpv
      rw [setWord_apply, if_neg]
      · exact ⟨rfl, rfl⟩
      · rintro ⟨he, hword⟩
        have hsame := hd.distinct _ _ hpd (by omega) hpv hp he
        exact other_page hlt hvirt hne hsame hword

end laws

/-! ## The map laws -/

/-- What a call of `memory_paging_map` did, by its result. -/
def MapLaw (m m' : Machine) (d phys virt flags : Nat) : memory_paging_result_t → Prop
  | MEMORY_PAGING_RESULT_OK => MapsPage m m' d phys virt ∧
      m'.entry d virt = some (phys ||| flags ||| PAGE_PRESENT)
  | MEMORY_PAGING_RESULT_ALLOCATION_ERROR => ∀ v, translation m' d v = translation m d v
  | MEMORY_PAGING_RESULT_BAD_PARAMETER => False

/-- A map and an unmap change the translation of their own page only, apart from the window on
a new table, and on the loaded directory both implementations do the same. -/
theorem mappings_follow_the_map_laws {m : Machine} {page_directory d phys virt flags : Nat}
    (hc : Callable m page_directory d) (hp : phys % 4096 = 0) (hvirt : virt < 0x100000000)
    (hv : page_directory_index virt < 1022) (hf : flags < 4096) :
    (∃ m' result, memory_paging_map m page_directory phys virt flags = some (m', result) ∧
      MapLaw m m' d phys virt flags result ∧
      (d = m.dir → memory_paging_map_current m phys virt flags = some (m', result))) ∧
    ∃ m', memory_paging_unmap m page_directory virt = some m' ∧ UnmapsPage m m' d virt ∧
      (d = m.dir → memory_paging_unmap_current m virt = some m') := by
  have hd := hc.directory
  constructor
  · refine ⟨(m.mapPage d phys virt flags).1, (m.mapPage d phys virt flags).2,
      hc.map_eq hv phys flags, ?_, ?_⟩
    · by_cases hroom : present (m.frames d (page_directory_index virt)) = true ∨
          (memory_bitmap_allocate m.memory_bitmap).2 ≠ 0
      · have hfree : (memory_bitmap_allocate m.memory_bitmap).2 ≠ 0 →
            0 < (freeFrames m.memory_bitmap).card := by
          intro hne
          obtain ⟨n, -, -, hlt, hu, -⟩ := allocate_fresh hne
          exact Finset.card_pos.mpr ⟨n, mem_freeFrames.mpr ⟨hlt, hu⟩⟩
        obtain ⟨hok, T, hm⟩ := mapPage_mapped phys flags hc.zero hd.dir_taken (hroom.imp_right hfree)
          (fun h => hd.table_ne_dir (by omega) h)
        rw [hok]
        refine ⟨hc.maps_page hv hvirt hp hf hm, entry_eq_some.mpr ⟨hm.pde_present, ?_, ?_⟩⟩
        · rw [hm.pde_frame, hm.entry]
          exact present_entry _ _
        · rw [hm.pde_frame, hm.entry]
      · obtain ⟨hno, hzero⟩ := not_or.mp hroom
        have hfull : m.mapPage d phys virt flags =
            (m.setBitmap (memory_bitmap_allocate m.memory_bitmap).1,
              MEMORY_PAGING_RESULT_ALLOCATION_ERROR) := by
          unfold mapPage
          rw [if_neg hno]
          simp [not_not.mp hzero]
        rw [hfull]
        intro v
        exact translation_congr hc.windows (windows_setBitmap hc.windows _) hc.slot rfl rfl
          hd.ne_bounce rfl rfl (fun _ => ⟨rfl, rfl⟩)
    · rintro rfl
      have hphys : phys = frameOf phys * 4096 := by unfold frameOf; omega
      rw [hphys]
      exact map_current_eq hc.windows flags hv hc.loaded hd.bounce_taken
  · refine ⟨_, hc.unmap_eq hv, ?_, ?_⟩
    · cases hpv : present (m.frames d (page_directory_index virt)) with
      | true => exact hc.unmaps_page hv hvirt hpv
      | false =>
        refine ⟨fun v h => ?_, fun _ _ _ => rfl⟩
        exact translation_none hc.windows hc.slot hd.ne_bounce ((same_page_index h).1 ▸ hpv)
    · rintro rfl
      exact unmap_current_eq hc.windows hv


/-! ## The small machine -/

open alura_os.task_manager

theorem small_directory_present {j : Nat} (hp : present (smallMachine.frames 4 j) = true) :
    j = 0 ∨ j = 768 ∨ j = 831 ∨ j = 1022 ∨ j = 1023 := by
  by_contra hc
  have hword : smallMachine.frames 4 j = 0 := by
    show smallFrames 4 j = 0
    unfold smallFrames
    simp only [not_or] at hc
    simp [hc]
  rw [hword] at hp
  cases hp

theorem small_directory : PageDirectory smallMachine 4 where
  self_present := by decide
  self := by decide
  bounce_present := by decide
  bounce := by decide
  distinct := fun i j _ _ hi hj he => by
    rcases small_directory_present hi with rfl | rfl | rfl | rfl | rfl <;>
      rcases small_directory_present hj with rfl | rfl | rfl | rfl | rfl <;>
      first | rfl | (revert he; decide)
  taken := fun j _ hp _ => by
    apply small_used
    rcases small_directory_present hp with rfl | rfl | rfl | rfl | rfl <;> decide
  unloaded := fun j hj hp => by
    rcases small_directory_present hp with rfl | rfl | rfl | rfl | rfl
    all_goals first | omega | decide

theorem small_callable : Callable smallMachine PAGE_DIRECTORY_VADDR 4 where
  windows := small_windows
  slot := by decide
  zero := small_used (by omega)
  loaded := fun _ => small_used (show 4 < 9 by omega)
  directory := small_directory
  pointer := Pointer.window rfl rfl

/-- The map laws on the loaded directory of the small machine, at a page without a table. -/
theorem small_mappings_follow_the_map_laws :
    (∃ m' result, memory_paging_map smallMachine PAGE_DIRECTORY_VADDR 0x6000 0x40000000 7 =
        some (m', result) ∧ MapLaw smallMachine m' 4 0x6000 0x40000000 7 result ∧
      (4 = smallMachine.dir →
        memory_paging_map_current smallMachine 0x6000 0x40000000 7 = some (m', result))) ∧
    ∃ m', memory_paging_unmap smallMachine PAGE_DIRECTORY_VADDR 0x40000000 = some m' ∧
      UnmapsPage smallMachine m' 4 0x40000000 ∧
      (4 = smallMachine.dir → memory_paging_unmap_current smallMachine 0x40000000 = some m') :=
  mappings_follow_the_map_laws small_callable (by decide) (by decide) (by decide) (by decide)

/-- There the map changes the translation of another page: of the window on the new table. -/
theorem a_new_table_shows_in_the_window :
    Callable smallMachine PAGE_DIRECTORY_VADDR 4 ∧
    ∃ m', memory_paging_map smallMachine PAGE_DIRECTORY_VADDR 0x6000 0x40000000 7 =
        some (m', MEMORY_PAGING_RESULT_OK) ∧
      ¬ ∀ v, v < 0x100000000 → v / 4096 ≠ 0x40000000 / 4096 →
        translation m' 4 v = translation smallMachine 4 v := by
  have hc := small_callable
  have hnone : present (smallMachine.frames 4 (page_directory_index 0x40000000)) = false := by decide
  have hok : (smallMachine.mapPage 4 0x6000 0x40000000 7).2 = MEMORY_PAGING_RESULT_OK := by
    decide +kernel
  have hshown : frameOf ((smallMachine.mapPage 4 0x6000 0x40000000 7).1.frames 4
      (page_directory_index 0x40000000)) = 9 := by
    decide +kernel
  have hroom : present (smallMachine.frames 4 (page_directory_index 0x40000000)) = true ∨
      0 < (freeFrames smallMachine.memory_bitmap).card := Or.inr (by decide +kernel)
  obtain ⟨-, T, hm⟩ := mapPage_mapped 0x6000 7 hc.zero hc.directory.dir_taken hroom
    (fun h => hc.directory.table_ne_dir (by decide) h)
  have hlaw := hc.maps_page (by decide) (by decide) (by decide) (by decide) hm
  have hmap := hc.map_eq (show page_directory_index 0x40000000 < 1022 by decide) 0x6000 7
  refine ⟨hc, (smallMachine.mapPage 4 0x6000 0x40000000 7).1, ?_, ?_⟩
  · rw [hmap, ← hok]
  · intro hall
    obtain ⟨hbefore, hafter⟩ := hlaw.table (PAGE_TABLE_VADDR 256) ⟨hnone, by decide⟩
    have hsame := hall (PAGE_TABLE_VADDR 256) (by decide) (by decide)
    rw [hafter, hbefore, hshown] at hsame
    revert hsame
    decide

end alura_os.memory_paging
