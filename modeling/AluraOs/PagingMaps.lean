-- The operations on page tables as operations on frames: what
-- `memory_paging_map` and its kin do to physical memory once the windows they
-- work through are closed again.
import AluraOs.PagingWindows

namespace alura_os.memory_paging

open alura_os.memory alura_os.memory_bitmap Machine memory_paging_result_t

/-! ## The operations on frames -/

/-- A directory entry after a page with these flags went below it. -/
def userBit (flags pde : Nat) : Nat :=
  if flags &&& PAGE_USER ≠ 0 then pde ||| PAGE_USER else pde

namespace Machine

/-- Set the entry of a page in a table that the directory frame `d` has. -/
def mapEntry (m : Machine) (d phys virt flags : Nat) : Machine :=
  let pde := m.frames d (page_directory_index virt)
  (m.setWord d (page_directory_index virt) (userBit flags pde)).setWord (frameOf pde)
    (page_table_index virt) (phys ||| flags ||| PAGE_PRESENT)

/-- Hang the frame at `a` as an empty table into the directory frame `d`. -/
def addTable (m : Machine) (d i a : Nat) : Machine :=
  (m.setFrame (frameOf a) (page (fun _ => 0) (m.frames (frameOf a)))).setWord d i
    (a ||| PAGE_READ_WRITE ||| PAGE_PRESENT)

/-- `memory_paging_map` on the directory frame `d`. -/
def mapPage (m : Machine) (d phys virt flags : Nat) : Machine × memory_paging_result_t :=
  if present (m.frames d (page_directory_index virt)) then
    (m.mapEntry d phys virt flags, MEMORY_PAGING_RESULT_OK)
  else
    let (bitmap, a) := memory_bitmap_allocate m.memory_bitmap
    if a = 0 then (m.setBitmap bitmap, MEMORY_PAGING_RESULT_ALLOCATION_ERROR)
    else
      (((m.setBitmap bitmap).addTable d (page_directory_index virt) a).mapEntry d phys virt flags,
        MEMORY_PAGING_RESULT_OK)

end Machine

@[simp] theorem frameOf_userBit (flags pde : Nat) : frameOf (userBit flags pde) = frameOf pde := by
  unfold userBit
  split
  · exact frameOf_or _ (by decide)
  · rfl

@[simp] theorem present_userBit (flags pde : Nat) : present (userBit flags pde) = present pde := by
  have h : present PAGE_USER = false := by decide
  unfold userBit
  split <;> simp [h]

/-! ## Windows after a write -/

theorem bounceTable_setFrame {m : Machine} {f : Nat} (w : Nat → Nat) (h : f ≠ m.dir) :
    (m.setFrame f w).bounceTable = m.bounceTable := by
  unfold bounceTable
  rw [setFrame_dir, setFrame_apply, if_neg h.symm]

theorem windows_setFrame {m : Machine} (h : Windows m) {f : Nat} (w : Nat → Nat) (hd : f ≠ m.dir)
    (hb : f ≠ m.bounceTable) : Windows (m.setFrame f w) := by
  have hD : (m.setFrame f w).frames m.dir = m.frames m.dir := by
    rw [setFrame_apply, if_neg hd.symm]
  constructor
  · rw [setFrame_dir, hD]; exact h.self_present
  · rw [setFrame_dir, hD]; exact h.self
  · rw [setFrame_dir, hD]; exact h.bounce_present
  · rw [bounceTable_setFrame w hd]; exact h.apart
  · intro i hi hu
    rw [bounceTable_setFrame w hd, setFrame_apply, if_neg hb.symm]
    exact h.closed i hi hu

theorem bounceTable_setWord {m : Machine} {f i x : Nat}
    (h : f = m.dir → i = 1022 → frameOf x = m.bounceTable) :
    (m.setWord f i x).bounceTable = m.bounceTable := by
  unfold bounceTable
  rw [show (m.setWord f i x).dir = m.dir from rfl, setWord_apply]
  split
  · rename_i hc
    exact h hc.1.symm hc.2.symm
  · rfl

/-- Entries 1022 and 1023 of the current directory must keep their frames; any other
entry, outside the bounce table, may change. -/
theorem windows_setWord {m : Machine} (h : Windows m) {f i x : Nat} (hb : f ≠ m.bounceTable)
    (hd : f = m.dir → i = 1022 ∨ i = 1023 →
      present x = true ∧ frameOf x = frameOf (m.frames m.dir i)) :
    Windows (m.setWord f i x) := by
  have hB : (m.setWord f i x).bounceTable = m.bounceTable := by
    apply bounceTable_setWord
    intro hf hi
    rw [(hd hf (Or.inl hi)).2, hi]
    rfl
  have hkeep : ∀ j, j = 1022 ∨ j = 1023 → present (m.frames m.dir j) = true →
      present ((m.setWord f i x).frames m.dir j) = true ∧
      frameOf ((m.setWord f i x).frames m.dir j) = frameOf (m.frames m.dir j) := by
    intro j hj hp
    rw [setWord_apply]
    split
    · rename_i hc
      have := hd hc.1.symm (hc.2 ▸ hj)
      rw [hc.2]
      exact this
    · exact ⟨hp, rfl⟩
  have h23 := hkeep 1023 (Or.inr rfl) h.self_present
  have h22 := hkeep 1022 (Or.inl rfl) h.bounce_present
  constructor
  · exact h23.1
  · exact h23.2.trans h.self
  · exact h22.1
  · rw [hB]; exact h.apart
  · intro j hj hu
    rw [hB, setWord_apply, if_neg (fun hc => hb hc.1.symm)]
    exact h.closed j hj hu

/-! ## A pointer to a directory -/

/-- The virtual address `v` shows the frame `d` through the table `t`. A pointer
through the bounce table is the address of a slot in use. -/
structure Shows (m : Machine) (v t d : Nat) : Prop where
  aligned : v % 4096 = 0
  lt : v < 0x100000000
  via : Via m v t d
  ne_table : d ≠ t
  ne_bounce : d ≠ m.bounceTable
  slot : t = m.bounceTable → ∃ j, j < 16 ∧ m.bounce_pages_used j = true ∧ v = slotAddr j

theorem Shows.other_slot {m : Machine} {v t d i : Nat} (h : Shows m v t d)
    (hi : m.bounce_pages_used i = false) (ht : t = m.bounceTable) :
    page_table_index v ≠ 768 + i := by
  obtain ⟨j, hj, hu, rfl⟩ := h.slot ht
  rw [(slotAddr_facts hj).2.2.2.1]
  have : j ≠ i := by
    rintro rfl
    rw [hi] at hu
    cases hu
  omega

theorem Shows.setWord {m : Machine} {v t d g i x : Nat} (h : Shows m v t d)
    (hd : g = m.dir → i = page_directory_index v → present x = true ∧ frameOf x = t)
    (ht : g = t → i = page_table_index v → present x = true ∧ frameOf x = d)
    (hB : (m.setWord g i x).bounceTable = m.bounceTable) : Shows (m.setWord g i x) v t d where
  aligned := h.aligned
  lt := h.lt
  via := via_setWord h.via hd ht
  ne_table := h.ne_table
  ne_bounce := by rw [hB]; exact h.ne_bounce
  slot := by rw [hB]; exact h.slot

theorem Shows.setFrame {m : Machine} {v t d g : Nat} (h : Shows m v t d) (w : Nat → Nat)
    (hd : g ≠ m.dir) (ht : g ≠ t) : Shows (m.setFrame g w) v t d where
  aligned := h.aligned
  lt := h.lt
  via := via_setFrame h.via hd ht
  ne_table := h.ne_table
  ne_bounce := by rw [bounceTable_setFrame w hd]; exact h.ne_bounce
  slot := by rw [bounceTable_setFrame w hd]; exact h.slot

theorem Shows.setBitmap {m : Machine} {v t d : Nat} (h : Shows m v t d) (b : memory_bitmap_t) :
    Shows (m.setBitmap b) v t d :=
  ⟨h.aligned, h.lt, via_setBitmap b h.via, h.ne_table, h.ne_bounce, h.slot⟩

theorem windows_setBitmap {m : Machine} (h : Windows m) (b : memory_bitmap_t) :
    Windows (m.setBitmap b) := ⟨h.1, h.2, h.3, h.4, h.5⟩

/-! ## Map -/

/-- Closing a slot after its frame got new words. -/
theorem free_after_write {m : Machine} (h : Windows m) {i : Nat}
    (hi : bounce_free_slot m = some i) {g : Nat} (w : Nat → Nat) (hg : g ≠ m.bounceTable)
    (hgd : g ≠ m.dir) :
    bounce_free ((m.openSlot i g).setFrame g w) (slotAddr i) = some (m.setFrame g w) := by
  obtain ⟨hi16, hu⟩ := free_slot_spec hi
  have hw := windows_setFrame (windows_openSlot h i g) w (by exact hgd)
    (by rw [openSlot_bounceTable h i g]; exact hg)
  rw [bounce_free_spec hw hi16, close_open_setFrame h hi16 hu g w hg hgd]

/-- The tail of a write through a fresh window. -/
theorem write_through_slot {m : Machine} (h : Windows m) {i : Nat}
    (hi : bounce_free_slot m = some i) {g j : Nat} (x : Nat) (hj : j < 1024)
    (hg : g ≠ m.bounceTable) (hgd : g ≠ m.dir) :
    ∃ m1, (m.openSlot i g).store32 (at32 (slotAddr i) j) x = some m1 ∧
      bounce_free m1 (slotAddr i) = some (m.setWord g j x) := by
  obtain ⟨hi16, hu⟩ := free_slot_spec hi
  obtain ⟨hal, hlt, -⟩ := slotAddr_facts hi16
  refine ⟨_, store_via x (via_slot h hi16 g) hal hlt hj, ?_⟩
  unfold Machine.setWord
  rw [free_after_write h hi _ hg hgd, openSlot_frames_ne hg]

/-- A write of a user bit, or none. -/
theorem user_bit_step {m : Machine} {v t d i : Nat} (h : Shows m v t d) (hi : i < 1024)
    (flags : Nat) :
    memory_paging_set_user m (at32 v i) flags =
      some (m.setWord d i (userBit flags (m.frames d i))) := by
  unfold memory_paging_set_user userBit
  split
  · rw [load_via h.via h.aligned h.lt hi]
    exact store_via _ h.via h.aligned h.lt hi
  · unfold Machine.setWord
    rw [Function.update_eq_self, setFrame_self]

theorem map_entry_spec {m : Machine} (h : Windows m) {i : Nat} (hi : bounce_free_slot m = some i)
    {v t d virt : Nat} (hv : Shows m v t d) (phys flags : Nat)
    (hT : frameOf (m.frames d (page_directory_index virt)) ≠ m.bounceTable)
    (hTd : frameOf (m.frames d (page_directory_index virt)) ≠ m.dir)
    (hp : present (m.frames d (page_directory_index virt)) = true) :
    memory_paging_map_entry m v phys virt flags =
      some (m.mapEntry d phys virt flags, MEMORY_PAGING_RESULT_OK) := by
  have hpd : page_directory_index virt < 1024 := Nat.mod_lt _ (by decide)
  have hpt : page_table_index virt < 1024 := Nat.mod_lt _ (by decide)
  have hB : (m.setWord d (page_directory_index virt)
      (userBit flags (m.frames d (page_directory_index virt)))).bounceTable = m.bounceTable := by
    apply bounceTable_setWord
    rintro rfl hi2
    rw [frameOf_userBit, hi2]
    rfl
  have hw : Windows (m.setWord d (page_directory_index virt)
      (userBit flags (m.frames d (page_directory_index virt)))) := by
    apply windows_setWord h hv.ne_bounce
    rintro rfl -
    exact ⟨by rw [present_userBit]; exact hp, frameOf_userBit _ _⟩
  have hv1 := hv.setWord (g := d) (i := page_directory_index virt)
    (x := userBit flags (m.frames d (page_directory_index virt)))
    (by
      rintro rfl hx
      rw [present_userBit, frameOf_userBit, hx]
      exact ⟨hv.via.pde_present, hv.via.table⟩)
    (fun hx => absurd hx hv.ne_table) hB
  have hpde : (m.setWord d (page_directory_index virt)
      (userBit flags (m.frames d (page_directory_index virt)))).frames d
        (page_directory_index virt) =
      userBit flags (m.frames d (page_directory_index virt)) := by
    rw [setWord_apply, if_pos ⟨rfl, rfl⟩]
  have hslot : bounce_free_slot (m.setWord d (page_directory_index virt)
      (userBit flags (m.frames d (page_directory_index virt)))) = some i := hi
  obtain ⟨m1, hstore, hfree⟩ := write_through_slot hw hslot (phys ||| flags ||| PAGE_PRESENT) hpt
    (by rw [hB]; exact hT) hTd
  have hframe : frameOf (frameOf (m.frames d (page_directory_index virt)) * 4096) =
      frameOf (m.frames d (page_directory_index virt)) := by
    unfold frameOf; omega
  unfold memory_paging_map_entry
  simp only [Option.bind_eq_bind, Option.bind_some, user_bit_step hv hpd flags,
    load_via hv1.via hv1.aligned hv1.lt hpd, hpde, bounce_alloc_spec hw hslot, align_frame,
    frameOf_userBit, hframe, hstore, hfree]
  rfl

theorem reset_through_slot {m : Machine} (h : Windows m) {i : Nat}
    (hi : bounce_free_slot m = some i) {g : Nat} (hg : g ≠ m.bounceTable) (hgd : g ≠ m.dir) :
    ∃ m1, memory_paging_reset_entry (m.openSlot i g) (slotAddr i) = some m1 ∧
      bounce_free m1 (slotAddr i) = some (m.setFrame g (page (fun _ => 0) (m.frames g))) := by
  obtain ⟨hi16, hu⟩ := free_slot_spec hi
  obtain ⟨hal, hlt, -⟩ := slotAddr_facts hi16
  refine ⟨_, reset_entry_via (via_slot h hi16 g) hal hlt hgd hg, ?_⟩
  rw [free_after_write h hi _ hg hgd, openSlot_frames_ne hg]

theorem addTable_facts {m : Machine} (h : Windows m) {v t d i n : Nat} (hv : Shows m v t d)
    (hp : present (m.frames d i) = false) (hnD : n ≠ m.dir) (hnB : n ≠ m.bounceTable)
    (hnt : n ≠ t) :
    Windows (m.addTable d i (n * 4096)) ∧ Shows (m.addTable d i (n * 4096)) v t d ∧
      (m.addTable d i (n * 4096)).bounceTable = m.bounceTable := by
  have hn : frameOf (n * 4096) = n := by unfold frameOf; omega
  have hw1 := windows_setFrame h (page (fun _ => 0) (m.frames n)) hnD hnB
  have hB1 := bounceTable_setFrame (page (fun _ => 0) (m.frames n)) hnD
  have hv1 := hv.setFrame (page (fun _ => 0) (m.frames n)) hnD hnt
  -- The entry was absent, so it is none of the entries that a window needs.
  have habsent : ∀ j, d = m.dir → i = j → present (m.frames m.dir j) = true → False := by
    rintro j rfl rfl hj
    rw [hp] at hj
    cases hj
  have hB2 : ((m.setFrame n (page (fun _ => 0) (m.frames n))).setWord d i
      (n * 4096 ||| PAGE_READ_WRITE ||| PAGE_PRESENT)).bounceTable = m.bounceTable := by
    rw [bounceTable_setWord, hB1]
    intro hd hi
    exact absurd h.bounce_present (fun hb => habsent _ hd hi hb)
  unfold addTable
  rw [hn]
  refine ⟨?_, ?_, hB2⟩
  · apply windows_setWord hw1
    · rw [hB1]; exact hv.ne_bounce
    · rintro hd (hi | hi)
      · exact absurd h.bounce_present (fun hb => habsent _ hd hi hb)
      · exact absurd h.self_present (fun hb => habsent _ hd hi hb)
  · apply hv1.setWord
    · intro hd hi
      exact absurd hv.via.pde_present (fun hb => habsent _ hd hi hb)
    · intro hd
      exact absurd hd hv.ne_table
    · rw [hB2, hB1]

/-- `memory_paging_map` through any pointer is `mapPage` on the frame it shows. -/
theorem map_spec {m : Machine} (h : Windows m) {i : Nat} (hi : bounce_free_slot m = some i)
    {v t d virt : Nat} (hv : Shows m v t d) (phys flags : Nat)
    (hT : present (m.frames d (page_directory_index virt)) = true →
      frameOf (m.frames d (page_directory_index virt)) ≠ m.bounceTable ∧
      frameOf (m.frames d (page_directory_index virt)) ≠ m.dir)
    (hD : Taken m.memory_bitmap m.dir) (hB : Taken m.memory_bitmap m.bounceTable)
    (ht : Taken m.memory_bitmap t) :
    memory_paging_map m v phys virt flags = some (m.mapPage d phys virt flags) := by
  have hpd : page_directory_index virt < 1024 := Nat.mod_lt _ (by decide)
  unfold memory_paging_map mapPage
  simp only [Option.bind_eq_bind, Option.bind_some, load_via hv.via hv.aligned hv.lt hpd]
  cases hp : present (m.frames d (page_directory_index virt)) with
  | true =>
    simp only [if_true]
    exact map_entry_spec h hi hv phys flags (hT hp).1 (hT hp).2 hp
  | false =>
    simp only [Bool.false_eq_true, if_false]
    by_cases ha : (memory_bitmap_allocate m.memory_bitmap).2 = 0
    · simp only [ha, if_true]
      rfl
    · obtain ⟨n, hn, -, hlt, hnu, -, -⟩ := allocate_fresh ha
      have hnD := hD.ne hlt hnu
      have hnB := hB.ne hlt hnu
      have hnt := ht.ne hlt hnu
      have hfr : frameOf (n * 4096) = n := by unfold frameOf; omega
      have hm0 := windows_setBitmap h (memory_bitmap_allocate m.memory_bitmap).1
      have hv0 := hv.setBitmap (memory_bitmap_allocate m.memory_bitmap).1
      obtain ⟨m1, hreset, hfree⟩ := reset_through_slot hm0 hi hnB hnD
      have hv1 := hv0.setFrame (page (fun _ => 0) (m.frames n)) hnD hnt
      obtain ⟨hw2, hv2, hB2⟩ := addTable_facts hm0 hv0 hp hnD hnB hnt
      have hpde2 : ((m.setBitmap (memory_bitmap_allocate m.memory_bitmap).1).addTable d
          (page_directory_index virt) (n * 4096)).frames d (page_directory_index virt) =
          (n * 4096 ||| PAGE_READ_WRITE ||| PAGE_PRESENT) := by
        unfold addTable
        rw [setWord_apply, if_pos ⟨rfl, rfl⟩]
      have hentry := map_entry_spec hw2 hi hv2 phys flags
        (by rw [hpde2, frameOf_entry n (by decide), hB2]; exact hnB)
        (by rw [hpde2, frameOf_entry n (by decide)]; exact hnD)
        (by rw [hpde2]; exact present_entry _ _)
      unfold addTable at hentry ⊢
      rw [hn] at ha ⊢
      simp only [ha, if_false, bounce_alloc_spec hm0 hi, hfr, Option.bind_some, hreset, hfree,
        store_via _ hv1.via hv1.aligned hv1.lt hpd, setBitmap_frames] at hentry ⊢
      exact hentry

/-! ## What a map changes -/

theorem mapEntry_apply (m : Machine) (d phys virt flags g j : Nat) :
    (m.mapEntry d phys virt flags).frames g j =
      if g = frameOf (m.frames d (page_directory_index virt)) ∧ j = page_table_index virt then
        phys ||| flags ||| PAGE_PRESENT
      else if g = d ∧ j = page_directory_index virt then
        userBit flags (m.frames d (page_directory_index virt))
      else m.frames g j := by
  unfold mapEntry
  simp only [setWord_apply]

theorem addTable_apply (m : Machine) (d i n g j : Nat) :
    (m.addTable d i (n * 4096)).frames g j =
      if g = d ∧ j = i then n * 4096 ||| PAGE_READ_WRITE ||| PAGE_PRESENT
      else if g = n ∧ j < 1024 then 0 else m.frames g j := by
  have hn : frameOf (n * 4096) = n := by unfold frameOf; omega
  unfold addTable
  rw [hn, setWord_apply]
  congr 1
  rw [setFrame_apply]
  unfold page
  by_cases hg : g = n <;> simp [hg]

/-- A map sets one entry of a table that the directory has, or of a fresh one. -/
theorem mapPage_cases (m : Machine) (d phys virt flags : Nat)
    (h : present (m.frames d (page_directory_index virt)) = true ∨
      (memory_bitmap_allocate m.memory_bitmap).2 ≠ 0) :
    (present (m.frames d (page_directory_index virt)) = true ∧
      m.mapPage d phys virt flags =
        (m.mapEntry d phys virt flags, MEMORY_PAGING_RESULT_OK)) ∨
    ∃ n, 0 < n ∧ n < m.memory_bitmap.pages ∧ ¬ Used m.memory_bitmap n ∧
      present (m.frames d (page_directory_index virt)) = false ∧
      (memory_bitmap_allocate m.memory_bitmap).2 = n * 4096 ∧
      m.mapPage d phys virt flags =
        (((m.setBitmap (memory_bitmap_allocate m.memory_bitmap).1).addTable d
          (page_directory_index virt) (n * 4096)).mapEntry d phys virt flags,
          MEMORY_PAGING_RESULT_OK) := by
  unfold mapPage
  cases hp : present (m.frames d (page_directory_index virt)) with
  | true => exact Or.inl ⟨rfl, by simp⟩
  | false =>
    have ha : (memory_bitmap_allocate m.memory_bitmap).2 ≠ 0 := by
      rcases h with h | h
      · rw [hp] at h; cases h
      · exact h
    obtain ⟨n, hn, hpos, hlt, hu, -, -⟩ := allocate_fresh ha
    refine Or.inr ⟨n, hpos, hlt, hu, rfl, hn, ?_⟩
    rw [hn] at ha
    simp [hn, ha]

/-- What a map of the page `virt` with the entry `x` did to the directory frame `d`: the
entry is in the table `T`, which was there or is fresh and otherwise empty. -/
structure Mapped (m m' : Machine) (d virt x T : Nat) : Prop where
  cr3 : m'.cr3 = m.cr3
  kernel : m'.kernel_page_directory_phys = m.kernel_page_directory_phys
  slots : m'.bounce_pages_used = m.bounce_pages_used
  pages : m'.memory_bitmap.pages = m.memory_bitmap.pages
  used : ∀ f, Used m'.memory_bitmap f ↔ Used m.memory_bitmap f ∨
    (present (m.frames d (page_directory_index virt)) = false ∧ f = T)
  pde_present : present (m'.frames d (page_directory_index virt)) = true
  pde_frame : frameOf (m'.frames d (page_directory_index virt)) = T
  pde_other : ∀ j, j ≠ page_directory_index virt → m'.frames d j = m.frames d j
  entry : m'.frames T (page_table_index virt) = x
  table_old : present (m.frames d (page_directory_index virt)) = true →
    T = frameOf (m.frames d (page_directory_index virt)) ∧
    ∀ j, j ≠ page_table_index virt → m'.frames T j = m.frames T j
  table_new : present (m.frames d (page_directory_index virt)) = false →
    T < m.memory_bitmap.pages ∧ ¬ Used m.memory_bitmap T ∧
    ∀ j, j < 1024 → j ≠ page_table_index virt → m'.frames T j = 0
  ne_dir : T ≠ d
  others : ∀ g, g ≠ d → g ≠ T → m'.frames g = m.frames g
  free : (freeFrames m.memory_bitmap).card ≤ (freeFrames m'.memory_bitmap).card +
    (if present (m.frames d (page_directory_index virt)) = true then 0 else 1)

theorem mapPage_mapped {m : Machine} {d virt : Nat} (phys flags : Nat)
    (hz : Used m.memory_bitmap 0) (hd : Taken m.memory_bitmap d)
    (hfree : present (m.frames d (page_directory_index virt)) = true ∨
      0 < (freeFrames m.memory_bitmap).card)
    (hT : present (m.frames d (page_directory_index virt)) = true →
      frameOf (m.frames d (page_directory_index virt)) ≠ d) :
    (m.mapPage d phys virt flags).2 = MEMORY_PAGING_RESULT_OK ∧
    ∃ T, Mapped m (m.mapPage d phys virt flags).1 d virt (phys ||| flags ||| PAGE_PRESENT) T := by
  have halloc : present (m.frames d (page_directory_index virt)) = true ∨
      (memory_bitmap_allocate m.memory_bitmap).2 ≠ 0 :=
    hfree.imp id (fun hc => (allocate_spec hz hc).1)
  rcases mapPage_cases m d phys virt flags halloc with ⟨hp, he⟩ | ⟨n, hpos, hlt, hu, hp, ha, he⟩
  · rw [he]
    refine ⟨rfl, frameOf (m.frames d (page_directory_index virt)), rfl, rfl, rfl, rfl, ?_, ?_, ?_,
      ?_, ?_, ?_, ?_, hT hp, ?_, ?_⟩
    · intro f
      simp only [hp, Bool.true_eq_false, false_and, or_false]
      exact Iff.rfl
    · rw [mapEntry_apply, if_neg (fun hc => hT hp hc.1.symm), if_pos ⟨rfl, rfl⟩, present_userBit]
      exact hp
    · rw [mapEntry_apply, if_neg (fun hc => hT hp hc.1.symm), if_pos ⟨rfl, rfl⟩, frameOf_userBit]
    · intro j hj
      rw [mapEntry_apply, if_neg (fun hc => hT hp hc.1.symm), if_neg (fun hc => hj hc.2)]
    · rw [mapEntry_apply, if_pos ⟨rfl, rfl⟩]
    · intro _
      refine ⟨rfl, fun j hj => ?_⟩
      rw [mapEntry_apply, if_neg (fun hc => hj hc.2), if_neg (fun hc => hT hp hc.1)]
    · intro hc
      rw [hp] at hc
      cases hc
    · intro g hg hgT
      funext j
      rw [mapEntry_apply, if_neg (fun hc => hgT hc.1), if_neg (fun hc => hg hc.1)]
    · exact Nat.le_add_right _ _
  · have hnd : n ≠ d := hd.ne hlt hu
    have hne : (memory_bitmap_allocate m.memory_bitmap).2 ≠ 0 := by rw [ha]; omega
    obtain ⟨n', hn', -, -, -, hj, hpages⟩ := allocate_fresh hne
    have hnn : n' = n := by omega
    subst hnn
    have hpde : ((m.setBitmap (memory_bitmap_allocate m.memory_bitmap).1).addTable d
        (page_directory_index virt) (n' * 4096)).frames d (page_directory_index virt) =
        (n' * 4096 ||| PAGE_READ_WRITE ||| PAGE_PRESENT) := by
      rw [addTable_apply, if_pos ⟨rfl, rfl⟩]
    have hfr := frameOf_entry n' (show PAGE_READ_WRITE < 4096 by decide)
    have hframes : ∀ g j, (m.mapPage d phys virt flags).1.frames g j =
        if g = n' ∧ j = page_table_index virt then phys ||| flags ||| PAGE_PRESENT
        else if g = d ∧ j = page_directory_index virt then
          userBit flags (n' * 4096 ||| PAGE_READ_WRITE ||| PAGE_PRESENT)
        else if g = n' ∧ j < 1024 then 0 else m.frames g j := by
      intro g j
      rw [he, mapEntry_apply, hpde, hfr, addTable_apply]
      by_cases hc : g = d ∧ j = page_directory_index virt
      · simp [hc]
      · simp [hc]
    rw [he] at hframes ⊢
    refine ⟨rfl, n', rfl, rfl, rfl, hpages, ?_, ?_, ?_, ?_, ?_, ?_, ?_, hnd, ?_, ?_⟩
    · intro f
      simp only [hp, true_and]
      exact (hj f).trans or_comm
    · rw [hframes, if_neg (fun hc => hnd hc.1.symm), if_pos ⟨rfl, rfl⟩, present_userBit]
      exact present_entry _ _
    · rw [hframes, if_neg (fun hc => hnd hc.1.symm), if_pos ⟨rfl, rfl⟩, frameOf_userBit, hfr]
    · intro j hj
      rw [hframes, if_neg (fun hc => hnd hc.1.symm), if_neg (fun hc => hj hc.2),
        if_neg (fun hc => hnd hc.1.symm)]
    · rw [hframes, if_pos ⟨rfl, rfl⟩]
    · intro hc
      rw [hp] at hc
      cases hc
    · intro _
      refine ⟨hlt, hu, fun j hj1 hj2 => ?_⟩
      rw [hframes, if_neg (fun hc => hj2 hc.2), if_neg (fun hc => hnd hc.1), if_pos ⟨rfl, hj1⟩]
    · intro g hg hgT
      funext j
      rw [hframes, if_neg (fun hc => hgT hc.1), if_neg (fun hc => hg hc.1),
        if_neg (fun hc => hgT hc.1)]
    · have hfree' : 0 < (freeFrames m.memory_bitmap).card := by
        rcases hfree with hc | hc
        · rw [hp] at hc
          cases hc
        · exact hc
      rw [hp, if_neg (by decide)]
      exact le_of_eq (allocate_spec hz hfree').2.symm

/-- A fresh frame `n` with the words `w` was mapped at `virt` in the directory frame `d`,
with the entry `x` in the table `T`. -/
structure PageAdded (m m' : Machine) (d virt n T x : Nat) (w : Nat → Nat) : Prop where
  cr3 : m'.cr3 = m.cr3
  kernel : m'.kernel_page_directory_phys = m.kernel_page_directory_phys
  slots : m'.bounce_pages_used = m.bounce_pages_used
  pages : m'.memory_bitmap.pages = m.memory_bitmap.pages
  fresh_lt : n < m.memory_bitmap.pages
  fresh : ¬ Used m.memory_bitmap n
  used : ∀ f, Used m'.memory_bitmap f ↔ Used m.memory_bitmap f ∨ f = n ∨
    (present (m.frames d (page_directory_index virt)) = false ∧ f = T)
  pde_present : present (m'.frames d (page_directory_index virt)) = true
  pde_frame : frameOf (m'.frames d (page_directory_index virt)) = T
  pde_other : ∀ j, j ≠ page_directory_index virt → m'.frames d j = m.frames d j
  entry : m'.frames T (page_table_index virt) = x
  table_old : present (m.frames d (page_directory_index virt)) = true →
    T = frameOf (m.frames d (page_directory_index virt)) ∧
    ∀ j, j ≠ page_table_index virt → m'.frames T j = m.frames T j
  table_new : present (m.frames d (page_directory_index virt)) = false →
    T < m.memory_bitmap.pages ∧ ¬ Used m.memory_bitmap T ∧
    ∀ j, j < 1024 → j ≠ page_table_index virt → m'.frames T j = 0
  words : m'.frames n = w
  table_ne_dir : T ≠ d
  table_ne_page : T ≠ n
  page_ne_dir : n ≠ d
  others : ∀ g, g ≠ d → g ≠ T → g ≠ n → m'.frames g = m.frames g
  free : (freeFrames m.memory_bitmap).card ≤ (freeFrames m'.memory_bitmap).card +
    (if present (m.frames d (page_directory_index virt)) = true then 1 else 2)

theorem page_added {m : Machine} {d virt : Nat} (flags : Nat) (w : Nat → Nat → Nat)
    (hz : Used m.memory_bitmap 0) (hd : Taken m.memory_bitmap d)
    (hfree : (if present (m.frames d (page_directory_index virt)) = true then 1 else 2) ≤
      (freeFrames m.memory_bitmap).card)
    (hT : present (m.frames d (page_directory_index virt)) = true →
      frameOf (m.frames d (page_directory_index virt)) ≠ d ∧
      Taken m.memory_bitmap (frameOf (m.frames d (page_directory_index virt)))) :
    ∃ n T, (memory_bitmap_allocate m.memory_bitmap).2 = n * 4096 ∧ 0 < n ∧
      (((m.setBitmap (memory_bitmap_allocate m.memory_bitmap).1).setFrame n (w n)).mapPage d (n * 4096)
        virt flags).2 = MEMORY_PAGING_RESULT_OK ∧
      PageAdded m (((m.setBitmap (memory_bitmap_allocate m.memory_bitmap).1).setFrame n (w n)).mapPage d
        (n * 4096) virt flags).1 d virt n T (n * 4096 ||| flags ||| PAGE_PRESENT)
          (w n) := by
  have hpos : 0 < (freeFrames m.memory_bitmap).card := by split at hfree <;> omega
  obtain ⟨hne, hcard⟩ := allocate_spec hz hpos
  obtain ⟨n, hn, hn0, hlt, hu, hj, hpages⟩ := allocate_fresh hne
  have hnd : n ≠ d := hd.ne hlt hu
  generalize hb : (memory_bitmap_allocate m.memory_bitmap).1 = b at *
  have hfr : ∀ g, g ≠ n → ((m.setBitmap b).setFrame n (w n)).frames g = m.frames g := by
    intro g hg
    rw [setFrame_apply, if_neg hg]
    rfl
  have hfd := hfr d hnd.symm
  obtain ⟨hok, T, hM⟩ := mapPage_mapped (m := (m.setBitmap b).setFrame n (w n)) (d := d) (n * 4096)
    flags ((hj 0).mpr (Or.inr hz)) (hb ▸ hd.allocate)
    (by
      rw [hfd]
      by_cases hp : present (m.frames d (page_directory_index virt)) = true
      · exact Or.inl hp
      · rw [if_neg hp] at hfree
        right
        show 0 < (freeFrames b).card
        omega)
    (by rw [hfd]; exact fun hp => (hT hp).1)
  have hTn : T ≠ n := by
    cases hp : present (m.frames d (page_directory_index virt)) with
    | true =>
      have := (hM.table_old (by rw [hfd]; exact hp)).1
      rw [hfd] at this
      rw [this]
      exact ((hT hp).2.ne hlt hu).symm
    | false =>
      obtain ⟨-, hTu, -⟩ := hM.table_new (by rw [hfd]; exact hp)
      rintro rfl
      exact hTu ((hj T).mpr (Or.inl rfl))
  refine ⟨n, T, hn, hn0, hok, hM.cr3, hM.kernel, hM.slots, hM.pages.trans hpages, hlt, hu, ?_,
    hM.pde_present, hM.pde_frame, ?_, hM.entry, ?_, ?_, ?_, hM.ne_dir, hTn, hnd, ?_, ?_⟩
  · intro f
    rw [hM.used, hfd]
    show Used b f ∨ _ ↔ _
    rw [hj f]
    tauto
  · intro j hj'
    rw [hM.pde_other j hj', hfd]
  · intro hp
    obtain ⟨h1, h2⟩ := hM.table_old (by rw [hfd]; exact hp)
    rw [hfd] at h1
    exact ⟨h1, fun j hj' => by rw [h2 j hj', hfr T hTn]⟩
  · intro hp
    obtain ⟨h1, h2, h3⟩ := hM.table_new (by rw [hfd]; exact hp)
    exact ⟨hpages ▸ h1, fun hc => h2 ((hj T).mpr (Or.inr hc)), h3⟩
  · rw [hM.others n hnd hTn.symm, setFrame_apply, if_pos rfl]
  · intro g hg hgT hgn
    rw [hM.others g hg hgT, hfr g hgn]
  · have := hM.free
    rw [hfd] at this
    have hb' : ((m.setBitmap b).setFrame n (w n)).memory_bitmap = b := rfl
    rw [hb'] at this
    split at this <;> rename_i hp <;> simp only [hp, if_true] <;> simp <;> omega

theorem Windows.of_same {m m' : Machine} (h : Windows m) (hc : m'.cr3 = m.cr3)
    (hu : m'.bounce_pages_used = m.bounce_pages_used) (hD : m'.frames m.dir = m.frames m.dir)
    (hB : m'.frames m.bounceTable = m.frames m.bounceTable) :
    Windows m' ∧ m'.bounceTable = m.bounceTable := by
  have hdir : m'.dir = m.dir := by unfold Machine.dir; rw [hc]
  have hbt : m'.bounceTable = m.bounceTable := by unfold bounceTable; rw [hdir, hD]
  refine ⟨⟨?_, ?_, ?_, ?_, ?_⟩, hbt⟩
  · rw [hdir, hD]; exact h.self_present
  · rw [hdir, hD]; exact h.self
  · rw [hdir, hD]; exact h.bounce_present
  · rw [hdir, hbt]; exact h.apart
  · rw [hbt, hB, hu]; exact h.closed

/-- A map into another directory leaves the windows alone. -/
theorem Mapped.windows {m m' : Machine} {d virt x T : Nat} (hm : Mapped m m' d virt x T)
    (h : Windows m) (hd : d ≠ m.bounceTable) (hdD : d ≠ m.dir) (hT : T ≠ m.bounceTable)
    (hTD : T ≠ m.dir) : Windows m' ∧ m'.bounceTable = m.bounceTable :=
  h.of_same hm.cr3 hm.slots (hm.others _ hdD.symm hTD.symm) (hm.others _ hd.symm hT.symm)

/-- The table of a map is none of the frames that an old table is told apart from and
that the allocator does not give. -/
theorem Mapped.table_ne {m m' : Machine} {d virt x T f : Nat} (hm : Mapped m m' d virt x T)
    (hf : Taken m.memory_bitmap f)
    (hold : present (m.frames d (page_directory_index virt)) = true →
      frameOf (m.frames d (page_directory_index virt)) ≠ f) : T ≠ f := by
  cases hp : present (m.frames d (page_directory_index virt)) with
  | true =>
    rw [(hm.table_old hp).1]
    exact hold hp
  | false =>
    obtain ⟨hlt, hu, -⟩ := hm.table_new hp
    exact hf.ne hlt hu

theorem Shows.of_same {m m' : Machine} {v t d : Nat} (h : Shows m v t d) (hc : m'.cr3 = m.cr3)
    (hu : m'.bounce_pages_used = m.bounce_pages_used) (hD : m'.frames m.dir = m.frames m.dir)
    (ht : m'.frames t = m.frames t) : Shows m' v t d := by
  have hdir : m'.dir = m.dir := by unfold Machine.dir; rw [hc]
  have hbt : m'.bounceTable = m.bounceTable := by unfold bounceTable; rw [hdir, hD]
  obtain ⟨h1, h2, h3, h4⟩ := h.via
  refine ⟨h.aligned, h.lt, ⟨?_, ?_, ?_, ?_⟩, h.ne_table, by rw [hbt]; exact h.ne_bounce,
    by rw [hbt, hu]; exact h.slot⟩
  · rw [hdir, hD]; exact h1
  · rw [hdir, hD]; exact h2
  · rw [ht]; exact h3
  · rw [ht]; exact h4

theorem Shows.openSlot {m : Machine} (h : Windows m) {v t d i : Nat} (hv : Shows m v t d)
    (hi : m.bounce_pages_used i = false) (g : Nat) : Shows (m.openSlot i g) v t d where
  aligned := hv.aligned
  lt := hv.lt
  via := via_openSlot h g hv.via (fun ht => hv.other_slot hi ht)
  ne_table := hv.ne_table
  ne_bounce := by rw [openSlot_bounceTable h]; exact hv.ne_bounce
  slot := by
    rw [openSlot_bounceTable h]
    intro ht
    obtain ⟨j, hj, hu, he⟩ := hv.slot ht
    have hji : j ≠ i := by
      rintro rfl
      rw [hi] at hu
      cases hu
    exact ⟨j, hj, by rw [openSlot_used, Function.update_of_ne hji]; exact hu, he⟩

/-! ## Slots that stay open over a map -/

theorem openSlot_setWord {m : Machine} {i f g j x : Nat} (hg : g ≠ m.bounceTable)
    (hgd : g ≠ m.dir) :
    (m.openSlot i f).setWord g j x = (m.setWord g j x).openSlot i f := by
  have hB : (m.setWord g j x).bounceTable = m.bounceTable := bounceTable_setFrame _ hgd
  apply Machine.ext_fields
  · funext a b
    unfold openSlot
    rw [hB]
    simp only [setBounce_frames, setWord_apply]
    by_cases ha : a = g
    · subst ha
      simp [hg]
    · simp [ha]
  all_goals rfl

theorem openSlot_setFrame {m : Machine} {i f g : Nat} (w : Nat → Nat)
    (hg : g ≠ m.bounceTable) (hgd : g ≠ m.dir) :
    (m.openSlot i f).setFrame g w = (m.setFrame g w).openSlot i f := by
  have hB : (m.setFrame g w).bounceTable = m.bounceTable := bounceTable_setFrame _ hgd
  apply Machine.ext_fields
  · funext a b
    unfold openSlot
    rw [hB]
    simp only [setBounce_frames, setWord_apply, setFrame_apply]
    by_cases ha : a = g
    · subst ha
      simp [hg]
    · simp [ha, setWord_apply]
  all_goals rfl

theorem openSlot_mapEntry {m : Machine} {i f d virt : Nat} (phys flags : Nat)
    (hd : d ≠ m.bounceTable) (hdD : d ≠ m.dir)
    (hT : frameOf (m.frames d (page_directory_index virt)) ≠ m.bounceTable)
    (hTD : frameOf (m.frames d (page_directory_index virt)) ≠ m.dir) :
    (m.openSlot i f).mapEntry d phys virt flags = (m.mapEntry d phys virt flags).openSlot i f := by
  have hB : (m.setWord d (page_directory_index virt)
      (userBit flags (m.frames d (page_directory_index virt)))).bounceTable = m.bounceTable :=
    bounceTable_setFrame _ hdD
  unfold mapEntry
  simp only [openSlot_frames_ne hd]
  rw [openSlot_setWord hd hdD,
    openSlot_setWord (by rw [hB]; exact hT) (by exact hTD)]

theorem openSlot_mapPage {m : Machine} {i f d virt : Nat} (phys flags : Nat)
    (hd : d ≠ m.bounceTable) (hdD : d ≠ m.dir)
    (hT : present (m.frames d (page_directory_index virt)) = true →
      frameOf (m.frames d (page_directory_index virt)) ≠ m.bounceTable ∧
      frameOf (m.frames d (page_directory_index virt)) ≠ m.dir)
    (hD : Taken m.memory_bitmap m.dir) (hB : Taken m.memory_bitmap m.bounceTable) :
    (m.openSlot i f).mapPage d phys virt flags =
      ((m.mapPage d phys virt flags).1.openSlot i f, (m.mapPage d phys virt flags).2) := by
  unfold mapPage
  rw [openSlot_frames_ne hd]
  cases hp : present (m.frames d (page_directory_index virt)) with
  | true =>
    simp only [if_true]
    rw [openSlot_mapEntry phys flags hd hdD (hT hp).1 (hT hp).2]
  | false =>
    have hbm : (m.openSlot i f).memory_bitmap = m.memory_bitmap := rfl
    simp only [Bool.false_eq_true, if_false, hbm]
    by_cases ha : (memory_bitmap_allocate m.memory_bitmap).2 = 0
    · simp only [ha, if_true]
      rfl
    · simp only [ha, if_false]
      obtain ⟨n, hn, -, hlt, hu, -, -⟩ := allocate_fresh ha
      have hnD := hD.ne hlt hu
      have hnB := hB.ne hlt hu
      have hfr : frameOf (n * 4096) = n := by unfold frameOf; omega
      have hB1 := bounceTable_setFrame (m := m.setBitmap (memory_bitmap_allocate m.memory_bitmap).1)
        (page (fun _ => 0) (m.frames n)) hnD
      rw [hn]
      have hadd : ((m.openSlot i f).setBitmap (memory_bitmap_allocate m.memory_bitmap).1).addTable d
          (page_directory_index virt) (n * 4096) =
          ((m.setBitmap (memory_bitmap_allocate m.memory_bitmap).1).addTable d
            (page_directory_index virt) (n * 4096)).openSlot i f := by
        unfold addTable
        rw [hfr, setBitmap_frames, openSlot_frames_ne hnB]
        have hcomm : (m.openSlot i f).setBitmap (memory_bitmap_allocate m.memory_bitmap).1 =
            (m.setBitmap (memory_bitmap_allocate m.memory_bitmap).1).openSlot i f := rfl
        rw [hcomm, openSlot_setFrame _ (by exact hnB) (by exact hnD),
          openSlot_setWord (by exact hB1 ▸ hd) (by exact hdD)]
        rfl
      rw [hadd]
      have hB2 : ((m.setBitmap (memory_bitmap_allocate m.memory_bitmap).1).addTable d
          (page_directory_index virt) (n * 4096)).bounceTable = m.bounceTable := by
        unfold addTable
        rw [hfr]
        have hB3 := bounceTable_setWord (m := (m.setBitmap
          (memory_bitmap_allocate m.memory_bitmap).1).setFrame n (page (fun _ => 0) (m.frames n)))
          (f := d) (i := page_directory_index virt)
          (x := n * 4096 ||| PAGE_READ_WRITE ||| PAGE_PRESENT) (fun hd => absurd hd hdD)
        exact hB3.trans hB1
      have hpde : ((m.setBitmap (memory_bitmap_allocate m.memory_bitmap).1).addTable d
          (page_directory_index virt) (n * 4096)).frames d (page_directory_index virt) =
          (n * 4096 ||| PAGE_READ_WRITE ||| PAGE_PRESENT) := by
        rw [addTable_apply, if_pos ⟨rfl, rfl⟩]
      rw [openSlot_mapEntry phys flags (by rw [hB2]; exact hd) (by exact hdD)
        (by rw [hpde, frameOf_entry n (by decide), hB2]; exact hnB)
        (by rw [hpde, frameOf_entry n (by decide)]; exact hnD)]

/-- A slot on the frame `n` is a pointer to it. -/
theorem shows_slot {m : Machine} (h : Windows m) {i n : Nat} (hi : i < 16)
    (hn : n ≠ m.bounceTable) : Shows (m.openSlot i n) (slotAddr i) m.bounceTable n := by
  obtain ⟨hal, hlt, -⟩ := slotAddr_facts hi
  refine ⟨hal, hlt, via_slot h hi n, hn, ?_, fun _ => ⟨i, hi, ?_, rfl⟩⟩
  · rw [openSlot_bounceTable h]; exact hn
  · rw [openSlot_used, Function.update_self]

/-- `memory_paging_map` through a slot on another directory. -/
theorem map_through_slot {m : Machine} (h : Windows m) {i n : Nat}
    (hi : bounce_free_slot m = some i) (hs : 2 ≤ (freeSlots m).card) (phys virt flags : Nat)
    (hn : n ≠ m.bounceTable) (hnD : n ≠ m.dir)
    (hT : present (m.frames n (page_directory_index virt)) = true →
      frameOf (m.frames n (page_directory_index virt)) ≠ m.bounceTable ∧
      frameOf (m.frames n (page_directory_index virt)) ≠ m.dir)
    (hD : Taken m.memory_bitmap m.dir) (hB : Taken m.memory_bitmap m.bounceTable) :
    memory_paging_map (m.openSlot i n) (slotAddr i) phys virt flags =
      some ((m.mapPage n phys virt flags).1.openSlot i n, (m.mapPage n phys virt flags).2) := by
  have hB1 := openSlot_bounceTable h i n
  have hs1 := freeSlots_openSlot hi n
  obtain ⟨j, hj⟩ := free_slot_of_card (m := m.openSlot i n) (by omega)
  have hmap := map_spec (windows_openSlot h i n) hj (shows_slot h (free_slot_spec hi).1 hn) phys
    flags (by rw [openSlot_frames_ne hn, hB1]; exact hT) hD (by rw [hB1]; exact hB) hB
  rw [hmap, openSlot_mapPage phys flags hn hnD hT hD hB]

end alura_os.memory_paging
