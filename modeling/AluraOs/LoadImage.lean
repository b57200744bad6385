-- The image of a program while it is loaded: which pages it has, which frames
-- they are in, and how many frames the load has left. The pages lie in frames of
-- their own, so that a write to one page leaves the others as they are.
import AluraOs.Arguments

namespace alura_os.elf_executable

open alura_os.memory alura_os.memory_bitmap alura_os.memory_paging alura_os.task_manager Machine
open memory_paging_result_t

/-! ## Pages of its own -/

/-- The page of the kernel stack. -/
def STACK_PAGE : Nat := (KERNEL_STACK_TOP - PAGE_SIZE) / 4096

/-- A page that a program has for itself: one below the kernel, or its kernel stack. -/
def OwnPage (v : Nat) : Prop := v < KERNEL_VIRTUAL_SPACE_START ∨ v / 4096 = STACK_PAGE

theorem OwnPage.private {v : Nat} (h : OwnPage v) : Private (page_directory_index v) := by
  unfold OwnPage STACK_PAGE KERNEL_STACK_TOP KERNEL_VIRTUAL_SPACE_START PAGE_SIZE at h
  unfold Private page_directory_index
  omega

/-- The indices tell the pages of a program apart. -/
theorem OwnPage.same {v w : Nat} (hv : OwnPage v) (hw : OwnPage w)
    (hd : page_directory_index v = page_directory_index w)
    (ht : page_table_index v = page_table_index w) : v / 4096 = w / 4096 := by
  unfold OwnPage STACK_PAGE KERNEL_STACK_TOP KERNEL_VIRTUAL_SPACE_START PAGE_SIZE at hv hw
  unfold page_directory_index at hd
  unfold page_table_index at ht
  omega

theorem entry_same_page (m : Machine) (n : Nat) {v w : Nat} (h : v / 4096 = w / 4096) :
    m.entry n v = m.entry n w := by
  unfold Machine.entry page_directory_index page_table_index
  rw [h, show v / 4194304 = w / 4194304 by omega]

theorem OwnPage.of_same {v w : Nat} (hw : OwnPage w) (h : v / 4096 = w / 4096) : OwnPage v := by
  unfold OwnPage KERNEL_VIRTUAL_SPACE_START at *
  omega

theorem page_table_index_lt (v : Nat) : page_table_index v < 1024 := Nat.mod_lt _ (by decide)

/-- The frames that are free. -/
def freeCount (m : Machine) : Nat := (freeFrames m.memory_bitmap).card

/-- The load in `m`, whose tables and pages lie in frames of their own. -/
structure Image (mb m : Machine) (n : Nat) : Prop where
  loading : Loading mb m n
  tables_apart : ∀ i j, Private i → Private j → present (m.frames n i) = true →
    present (m.frames n j) = true → frameOf (m.frames n i) = frameOf (m.frames n j) → i = j
  pages_apart : ∀ v w x y, OwnPage v → OwnPage w → m.entry n v = some x → m.entry n w = some y →
    frameOf x = frameOf y → v / 4096 = w / 4096
  page_frame : ∀ v x, OwnPage v → m.entry n v = some x → PageFrame mb m n (frameOf x)

/-- No page of the program lies in the frame. -/
def Unmapped (m : Machine) (n f : Nat) : Prop :=
  ∀ v x, OwnPage v → m.entry n v = some x → frameOf x ≠ f

/-- Of the pages of the program only those of `P` changed between `m` and `m'`. -/
structure PagesKept (m m' : Machine) (n : Nat) (P : Nat → Prop) : Prop where
  entry : ∀ v, OwnPage v → ¬ P (v / 4096) → m'.entry n v = m.entry n v
  words : ∀ v x, OwnPage v → ¬ P (v / 4096) → m.entry n v = some x →
    m'.frames (frameOf x) = m.frames (frameOf x)

/-- The load went on from `m` to `m'`: of the pages of the program only those of `P` changed,
and no frame that is still free. -/
structure Onward (mb m m' : Machine) (n : Nat) (P : Nat → Prop) : Prop
    extends PagesKept m m' n P where
  image : Image mb m' n
  pages : ∀ f, PageFrame mb m n f → PageFrame mb m' n f
  used : ∀ f, Used m.memory_bitmap f → Used m'.memory_bitmap f
  untouched : ∀ f, ¬ Used m'.memory_bitmap f → m'.frames f = m.frames f

/-! ## Segments below the kernel -/

/-- The program headers, as the loop of the loader reads them. -/
def program_headers (data : List Nat) (e_phoff : Nat) : Nat → Nat → List Nat → List Elf32_Phdr
  | 0, _, _ => []
  | n + 1, i, program_header =>
    let program_header := read_into data (u32 (e_phoff + i * PROGRAM_HEADER_SIZE)) program_header
    Elf32_Phdr.ofBytes program_header :: program_headers data e_phoff n (i + 1) program_header

/-- The memory of the segment ends below the kernel and its file bytes end in its pages, or
the segment is empty. -/
def BelowKernel (ph : Elf32_Phdr) : Prop :=
  (ph.p_vaddr + ph.p_memsz ≤ KERNEL_VIRTUAL_SPACE_START ∧
    ph.p_vaddr + ph.p_filesz ≤ segment_end ph) ∨
  (ph.p_vaddr % 4096 = 0 ∧ ph.p_memsz = 0 ∧ ph.p_filesz = 0)

/-- The pages of a segment below the kernel hold all of its memory. -/
theorem segment_pages {ph : Elf32_Phdr}
    (h : ph.p_vaddr + ph.p_memsz ≤ KERNEL_VIRTUAL_SPACE_START) :
    segment_start ph % 4096 = 0 ∧ segment_start ph ≤ ph.p_vaddr ∧
      ph.p_vaddr + ph.p_memsz ≤ segment_end ph ∧ segment_end ph ≤ KERNEL_VIRTUAL_SPACE_START ∧
      segment_start ph + (segment_end ph - segment_start ph) / PAGE_SIZE * 4096 =
        segment_end ph := by
  unfold KERNEL_VIRTUAL_SPACE_START at *
  unfold segment_start segment_end ALIGN_UP ALIGN_DOWN PAGE_SIZE u32
  omega

theorem empty_segment_pages {ph : Elf32_Phdr} (h1 : ph.p_vaddr % 4096 = 0) (h2 : ph.p_memsz = 0) :
    (segment_end ph - segment_start ph) / PAGE_SIZE = 0 := by
  unfold segment_start segment_end ALIGN_UP ALIGN_DOWN PAGE_SIZE u32
  rw [h2]
  omega

theorem segment_flags_lt (task_is_user : Bool) :
    PAGE_PRESENT ||| (if task_is_user then PAGE_USER else 0) ||| PAGE_READ_WRITE < 4096 := by
  cases task_is_user <;> decide

section image

variable {mb m m' m'' : Machine} {n i : Nat} {P Q : Nat → Prop}

theorem Onward.refl (h : Image mb m n) : Onward mb m m n P :=
  ⟨⟨fun _ _ _ => rfl, fun _ _ _ _ _ => rfl⟩, h, fun _ hf => hf, fun _ hu => hu, fun _ _ => rfl⟩

theorem Onward.trans (h1 : Onward mb m m' n P) (h2 : Onward mb m' m'' n P) :
    Onward mb m m'' n P where
  image := h2.image
  pages := fun f hf => h2.pages f (h1.pages f hf)
  entry := fun v hv hp => (h2.entry v hv hp).trans (h1.entry v hv hp)
  words := fun v x hv hp hx =>
    (h2.words v x hv hp ((h1.entry v hv hp).trans hx)).trans (h1.words v x hv hp hx)
  used := fun f hf => h2.used f (h1.used f hf)
  untouched := fun f hf =>
    (h2.untouched f hf).trans (h1.untouched f fun hc => hf (h2.used f hc))

theorem Onward.mono (h : Onward mb m m' n P) (hpq : ∀ p, P p → Q p) : Onward mb m m' n Q where
  image := h.image
  pages := h.pages
  entry := fun v hv hq => h.entry v hv fun hp => hq (hpq _ hp)
  words := fun v x hv hq hx => h.words v x hv (fun hp => hq (hpq _ hp)) hx
  used := h.used
  untouched := h.untouched

theorem Onward.taken (hon : Onward mb m m' n P) (h : Image mb m n) {f : Nat}
    (hf : Taken m.memory_bitmap f) : Taken m'.memory_bitmap f := by
  intro hlt
  rw [hon.image.loading.pages, ← h.loading.pages] at hlt
  exact hon.used f (hf hlt)

/-! ## Frames -/

theorem entry_setBitmap (m : Machine) (b : memory_bitmap_t) (n v : Nat) :
    (m.setBitmap b).entry n v = m.entry n v := rfl

theorem Image.setBitmap (h : Image mb m n) {b : memory_bitmap_t}
    (hp : b.pages = m.memory_bitmap.pages) (hu : ∀ f, Used m.memory_bitmap f → Used b f) :
    Onward mb m (m.setBitmap b) n P := by
  have hpage : ∀ f, PageFrame mb m n f → PageFrame mb (m.setBitmap b) n f :=
    fun f hf => ⟨hf.owned.mono hu, hf.ne_dir, hf.ne_table⟩
  exact ⟨⟨fun _ _ _ => rfl, fun _ _ _ _ _ => rfl⟩, ⟨h.loading.setBitmap hp hu, h.tables_apart,
    h.pages_apart, fun v x hv hx => hpage _ (h.page_frame v x hv hx)⟩, hpage, hu, fun _ _ => rfl⟩

/-- A frame for the load: none is left, or a fresh one is taken that no page lies in and that
can be given back. -/
theorem Image.take (h : Image mb m n) (hb : LoadBase mb) :
    (freeCount m = 0 ∧ memory_bitmap_allocate m.memory_bitmap = (m.memory_bitmap, 0)) ∨
    ∃ f b, memory_bitmap_allocate m.memory_bitmap = (b, f * 4096) ∧ f * 4096 ≠ 0 ∧
      ¬ Used m.memory_bitmap f ∧ freeCount (m.setBitmap b) + 1 = freeCount m ∧ PageFrame mb (m.setBitmap b) n f ∧
      Unmapped (m.setBitmap b) n f ∧ (∀ P, Onward mb m (m.setBitmap b) n P) ∧
      ∀ P, Onward mb m (m.setBitmap (memory_bitmap_free b (f * 4096))) n P := by
  have hz := h.loading.used 0 hb.space.zero
  by_cases hne : (memory_bitmap_allocate m.memory_bitmap).2 = 0
  · left
    refine ⟨?_, Prod.ext (allocate_zero hz hne) hne⟩
    by_contra hc
    exact (allocate_spec hz (Nat.pos_of_ne_zero hc)).1 hne
  · right
    obtain ⟨f, hf, hpos, hlt, hu, hj, hp⟩ := allocate_fresh hne
    have hfree : 0 < freeCount m := Finset.card_pos.mpr ⟨f, mem_freeFrames.mpr ⟨hlt, hu⟩⟩
    obtain ⟨-, hfresh⟩ := h.loading.allocate
    obtain ⟨g, hg, -, hpage⟩ := hfresh hne
    obtain rfl : g = f := by omega
    have hon : ∀ P, Onward mb m (m.setBitmap (memory_bitmap_allocate m.memory_bitmap).1) n P :=
      fun P => h.setBitmap hp fun k hk => (hj k).mpr (Or.inr hk)
    refine ⟨g, _, Prod.ext rfl hf, by omega, hu, (allocate_spec hz hfree).2, hpage, ?_, hon,
      fun P => h.setBitmap (by rw [pages_free]; exact hp) fun k hk => ?_⟩
    · rintro v x hv hx rfl
      exact hu (h.page_frame v x hv hx).owned.used
    · have hkg : k ≠ g := by
        rintro rfl
        exact hu hk
      rw [used_free]
      exact ⟨by omega, (hj k).mpr (Or.inr hk)⟩

/-- An entry of the program stays when a frame that is no table of it changes. -/
theorem Image.entry_setFrame (h : Image mb m n) (hb : LoadBase mb) {f : Nat} (w : Nat → Nat)
    (hf : f = 0 ∨ PageFrame mb m n f) {v : Nat} (hv : OwnPage v) :
    (m.setFrame f w).entry n v = m.entry n v := by
  obtain ⟨hn, hT, -⟩ := h.loading.writable hb hf
  unfold Machine.entry
  simp only
  rw [setFrame_apply, if_neg hn.symm]
  by_cases hp : present (m.frames n (page_directory_index v)) = true
  · rw [setFrame_apply, if_neg (hT _ hv.private hp).symm]
  · simp [hp]

theorem Image.setFrame (h : Image mb m n) (hb : LoadBase mb) {f : Nat} (w : Nat → Nat)
    (hf : f = 0 ∨ PageFrame mb m n f)
    (hP : ∀ v x, OwnPage v → m.entry n v = some x → frameOf x = f → P (v / 4096)) :
    Onward mb m (m.setFrame f w) n P := by
  obtain ⟨hn, -, -⟩ := h.loading.writable hb hf
  have hnw : (m.setFrame f w).frames n = m.frames n := by
    rw [setFrame_apply, if_neg hn.symm]
  have hentry := fun v hv => h.entry_setFrame hb w hf (v := v) hv
  have hpage : ∀ g, PageFrame mb m n g → PageFrame mb (m.setFrame f w) n g := by
    intro g hg
    exact ⟨hg.owned.mono fun _ hu => hu, hg.ne_dir, by rw [hnw]; exact hg.ne_table⟩
  refine ⟨⟨fun v hv _ => hentry v hv, ?_⟩, ⟨h.loading.setFrame hb w hf,
    by rw [hnw]; exact h.tables_apart, ?_, ?_⟩, hpage, fun _ hu => hu, ?_⟩
  · intro v x hv hp hx
    rw [setFrame_apply, if_neg]
    intro hc
    exact hp (hP v x hv hx hc)
  · intro v u x y hv hu hx hy
    rw [hentry v hv] at hx
    rw [hentry u hu] at hy
    exact h.pages_apart v u x y hv hu hx hy
  · intro v x hv hx
    rw [hentry v hv] at hx
    exact hpage _ (h.page_frame v x hv hx)
  · intro g hg
    rw [setFrame_apply, if_neg]
    rintro rfl
    rcases hf with rfl | hf
    · exact hg (h.loading.used 0 hb.space.zero)
    · exact hg hf.owned.used

/-! ## Maps -/

/-- A map takes a frame exactly for a table that was not there. -/
theorem Mapped.free_eq {virt x T : Nat} (hM : Mapped m m' n virt x T) :
    freeCount m' + (if present (m.frames n (page_directory_index virt)) = true then 0 else 1) =
      freeCount m := by
  unfold freeCount
  cases hp : present (m.frames n (page_directory_index virt)) with
  | true =>
    have hset : freeFrames m'.memory_bitmap = freeFrames m.memory_bitmap := by
      ext j
      simp only [mem_freeFrames, hM.pages, hM.used, hp, Bool.true_eq_false, false_and, or_false]
    rw [hset]
    rfl
  | false =>
    obtain ⟨hlt, hu, -⟩ := hM.table_new hp
    have hset : freeFrames m'.memory_bitmap = (freeFrames m.memory_bitmap).erase T := by
      ext j
      simp only [mem_freeFrames, Finset.mem_erase, hM.pages, hM.used, hp, true_and]
      tauto
    have hmem : T ∈ freeFrames m.memory_bitmap := mem_freeFrames.mpr ⟨hlt, hu⟩
    have hpos := Finset.card_pos.mpr ⟨T, hmem⟩
    rw [hset, Finset.card_erase_of_mem hmem]
    simp only [Bool.false_eq_true, if_false]
    omega

/-- The table of a map is the table of no other entry. -/
theorem Image.table_ne (h : Image mb m n) {virt y T : Nat} (hM : Mapped m m' n virt y T)
    (hpr : Private (page_directory_index virt)) {j : Nat} (hj : Private j)
    (hne : j ≠ page_directory_index virt) (hp : present (m.frames n j) = true) :
    frameOf (m.frames n j) ≠ T := by
  cases hpo : present (m.frames n (page_directory_index virt)) with
  | true =>
    rw [(hM.table_old hpo).1]
    exact fun hc => hne (h.tables_apart _ _ hj hpr hp hpo hc)
  | false =>
    rintro rfl
    exact (hM.table_new hpo).2.1 (h.loading.tables j hj hp).1.used

/-- A page of the program is no table of the map. -/
theorem PageFrame.ne_mapped {virt y T f : Nat} (hf : PageFrame mb m n f)
    (hM : Mapped m m' n virt y T) (hpr : Private (page_directory_index virt)) : f ≠ T := by
  cases hpo : present (m.frames n (page_directory_index virt)) with
  | true =>
    rw [(hM.table_old hpo).1]
    exact hf.ne_table _ hpr hpo
  | false =>
    rintro rfl
    exact (hM.table_new hpo).2.1 hf.owned.used

/-- A map changes the entry of its own page only. -/
theorem Image.entry_mapped (h : Image mb m n) {virt y T : Nat} (hM : Mapped m m' n virt y T)
    (hown : OwnPage virt) {v : Nat} (hv : OwnPage v) (hne : v / 4096 ≠ virt / 4096) :
    m'.entry n v = m.entry n v := by
  have hpr := hown.private
  cases hp : present (m.frames n (page_directory_index v)) with
  | true =>
    have hpde : present (m'.frames n (page_directory_index v)) = true ∧
        frameOf (m'.frames n (page_directory_index v)) =
          frameOf (m.frames n (page_directory_index v)) := by
      by_cases hjv : page_directory_index v = page_directory_index virt
      · rw [hjv] at hp ⊢
        exact ⟨hM.pde_present, hM.pde_frame.trans (hM.table_old hp).1⟩
      · rw [hM.pde_other _ hjv]
        exact ⟨hp, rfl⟩
    have hword : m'.frames (frameOf (m.frames n (page_directory_index v))) (page_table_index v) =
        m.frames (frameOf (m.frames n (page_directory_index v))) (page_table_index v) := by
      rcases h.loading.table_word hM hv.private hp (page_table_index v) with hw | ⟨hT, hk, -⟩
      · exact hw
      · by_cases hjv : page_directory_index v = page_directory_index virt
        · exact absurd (hv.same hown hjv hk) hne
        · exact absurd hT (h.table_ne hM hpr hv.private hjv hp)
    unfold Machine.entry
    simp only [hpde.1, hpde.2, hword, hp]
  | false =>
    have hnone : m.entry n v = none := by
      unfold Machine.entry
      simp [hp]
    rw [hnone]
    unfold Machine.entry
    by_cases hjv : page_directory_index v = page_directory_index virt
    · have hk : page_table_index v ≠ page_table_index virt := fun hk => hne (hv.same hown hjv hk)
      rw [hjv] at hp ⊢
      have hz := (hM.table_new hp).2.2 _ (page_table_index_lt v) hk
      have hpz : present 0 = false := rfl
      simp [hM.pde_frame, hz, hpz]
    · simp [hM.pde_other _ hjv, hp]

theorem Mapped.entry_at {virt y T : Nat}
    (hM : Mapped m m' n virt (y ||| PAGE_PRESENT) T) :
    m'.entry n virt = some (y ||| PAGE_PRESENT) := by
  refine entry_eq_some.mpr ⟨hM.pde_present, ?_, ?_⟩
  · rw [hM.pde_frame, hM.entry]
    simp [PAGE_PRESENT]
  · rw [hM.pde_frame, hM.entry]

/-- A map of a frame in which no page lies. -/
theorem Image.mapped (h : Image mb m n) {f virt flags T : Nat} (hfl : flags < 4096)
    (hown : OwnPage virt) (hf : PageFrame mb m n f) (hun : Unmapped m n f)
    (hM : Mapped m m' n virt (f * 4096 ||| flags ||| PAGE_PRESENT) T) (hL : Loading mb m' n) :
    Onward mb m m' n (fun p => p = virt / 4096) := by
  have hpr := hown.private
  have hat := Mapped.entry_at hM
  have hother := fun v hv hne => h.entry_mapped hM hown (v := v) hv hne
  have hpage : ∀ g, PageFrame mb m n g → PageFrame mb m' n g := fun g hg => hg.mapped hM hpr
  -- What an entry of the new machine is: the new one, or an old one in another frame.
  have hcases : ∀ v x, OwnPage v → m'.entry n v = some x →
      (v / 4096 = virt / 4096 ∧ frameOf x = f) ∨
        (v / 4096 ≠ virt / 4096 ∧ m.entry n v = some x ∧ frameOf x ≠ f) := by
    intro v x hv hx
    by_cases hsame : v / 4096 = virt / 4096
    · left
      rw [entry_same_page m' n hsame, hat] at hx
      rw [← Option.some.inj hx, frameOf_entry f hfl]
      exact ⟨hsame, rfl⟩
    · right
      rw [hother v hv hsame] at hx
      exact ⟨hsame, hx, hun v x hv hx⟩
  refine ⟨⟨fun v hv hne => hother v hv hne, ?_⟩, ⟨hL, ?_, ?_, ?_⟩, hpage,
    fun g hg => (hM.used g).mpr (Or.inl hg), ?_⟩
  · intro v x hv _ hx
    have hg := h.page_frame v x hv hx
    exact hM.others _ hg.ne_dir (hg.ne_mapped hM hpr)
  · intro a b ha hbb hpa hpb hab
    by_cases hav : a = page_directory_index virt <;> by_cases hbv : b = page_directory_index virt
    · rw [hav, hbv]
    · rw [hM.pde_other b hbv] at hpb hab
      rw [hav, hM.pde_frame] at hab
      exact absurd hab.symm (h.table_ne hM hpr hbb hbv hpb)
    · rw [hM.pde_other a hav] at hpa hab
      rw [hbv, hM.pde_frame] at hab
      exact absurd hab (h.table_ne hM hpr ha hav hpa)
    · rw [hM.pde_other a hav] at hpa hab
      rw [hM.pde_other b hbv] at hpb hab
      exact h.tables_apart a b ha hbb hpa hpb hab
  · intro v w x y hv hw hx hy hxy
    rcases hcases v x hv hx with ⟨hvp, hxf⟩ | ⟨-, hx, hxf⟩ <;>
      rcases hcases w y hw hy with ⟨hwp, hyf⟩ | ⟨-, hy, hyf⟩
    · exact hvp.trans hwp.symm
    · exact absurd (hxy.symm.trans hxf) hyf
    · exact absurd (hxy.trans hyf) hxf
    · exact h.pages_apart v w x y hv hw hx hy hxy
  · intro v x hv hx
    rcases hcases v x hv hx with ⟨-, hxf⟩ | ⟨-, hx, -⟩
    · rw [hxf]
      exact hpage f hf
    · exact hpage _ (h.page_frame v x hv hx)
  · intro g hg
    apply hM.others g
    · rintro rfl
      exact hg hL.dir_owned.used
    · rintro rfl
      exact hg (h.loading.table_owned hM hpr).used

/-- The tables of the directory after a map. -/
theorem Mapped.tables {virt x T : Nat} (hM : Mapped m m' n virt x T) (j : Nat) :
    present (m'.frames n j) = (present (m.frames n j) || decide (j = page_directory_index virt)) := by
  by_cases hj : j = page_directory_index virt
  · rw [hj, hM.pde_present]
    simp
  · rw [hM.pde_other j hj]
    simp [hj]

theorem Image.map_slot (h : Image mb m n) (hb : LoadBase mb) (hi : bounce_free_slot mb = some i)
    (f flags : Nat) {virt : Nat} (hown : OwnPage virt) :
    memory_paging_map (m.openSlot i n) (slotAddr i) (f * 4096) virt flags =
      some ((m.mapPage n (f * 4096) virt flags).1.openSlot i n,
        (m.mapPage n (f * 4096) virt flags).2) := by
  have hL := h.loading
  have hk := hL.space hb
  obtain ⟨hnB, hnD⟩ := hL.dir_apart hb
  exact map_through_slot hk.windows (by rw [hL.free_slot]; exact hi)
    (by rw [hL.freeSlots_eq]; have := hb.slots; omega) (f * 4096) virt flags hnB hnD
    (fun hp => hL.table_apart hb hown.private hp) hk.dir_taken hk.bounce_taken

/-- A page is mapped while its table is there or a frame is left. -/
theorem Image.map (h : Image mb m n) (hb : LoadBase mb) (hi : bounce_free_slot mb = some i)
    {f flags virt : Nat} (hfl : flags < 4096) (hown : OwnPage virt)
    (hstack : virt / 4096 = STACK_PAGE → flags &&& PAGE_USER = 0) (hf : PageFrame mb m n f)
    (hun : Unmapped m n f)
    (hroom : present (m.frames n (page_directory_index virt)) = true ∨ 0 < freeCount m) :
    ∃ m', memory_paging_map (m.openSlot i n) (slotAddr i) (f * 4096) virt flags =
        some (m'.openSlot i n, MEMORY_PAGING_RESULT_OK) ∧
      Onward mb m m' n (fun p => p = virt / 4096) ∧
      m'.entry n virt = some (f * 4096 ||| flags ||| PAGE_PRESENT) ∧
      m'.frames f = m.frames f ∧
      freeCount m' + (if present (m.frames n (page_directory_index virt)) = true then 0 else 1) =
        freeCount m ∧
      ∀ j, present (m'.frames n j) =
        (present (m.frames n j) || decide (j = page_directory_index virt)) := by
  have hL := h.loading
  have hk := hL.space hb
  have hpr := hown.private
  obtain ⟨hok, T, hM⟩ := mapPage_mapped (m := m) (d := n) (f * 4096) flags hk.zero
    (fun _ => hL.dir_owned.used) hroom (fun hp => (hL.tables _ hpr hp).2)
  have hmappable : Mappable mb m n f virt flags := by
    rcases hown with hlow | hpage
    · exact Or.inl ⟨hlow, hf⟩
    · refine Or.inr ⟨?_, hstack hpage⟩
      unfold STACK_PAGE KERNEL_STACK_TOP PAGE_SIZE at hpage
      unfold page_directory_index
      omega
  have hmap := h.map_slot hb hi f flags hown
  rw [hok] at hmap
  exact ⟨_, hmap, h.mapped hfl hown hf hun hM (hL.map hfl hmappable hM), Mapped.entry_at hM,
    hM.others f hf.ne_dir (hf.ne_mapped hM hpr), Mapped.free_eq hM, Mapped.tables hM⟩

/-- Without its table and without a frame a page is not mapped. -/
theorem Image.map_refused (h : Image mb m n) (hb : LoadBase mb)
    (hi : bounce_free_slot mb = some i) (f flags : Nat) {virt : Nat} (hown : OwnPage virt)
    (hp : present (m.frames n (page_directory_index virt)) = false) (hfree : freeCount m = 0) :
    memory_paging_map (m.openSlot i n) (slotAddr i) (f * 4096) virt flags =
      some (m.openSlot i n, MEMORY_PAGING_RESULT_ALLOCATION_ERROR) := by
  have hL := h.loading
  rw [h.map_slot hb hi f flags hown]
  rcases mapPage_or (m := m) (d := n) (f * 4096) flags (hL.space hb).zero
    (fun _ => hL.dir_owned.used) (fun hp => (hL.tables _ hown.private hp).2) with ⟨-, he⟩ | ⟨T, -, hM⟩
  · rw [he]
  · have hcount := Mapped.free_eq hM
    rw [if_neg (by rw [hp]; decide)] at hcount
    omega

/-! ## Bytes -/

/-- The byte of the program at `v`. -/
def spaceByte (m : Machine) (n v : Nat) : Option Nat :=
  (m.entry n v).map fun x => byteAt (m.frames (frameOf x)) (v % 4096)

/-- Bytes of mapped pages from `lo` up to `hi` were written, and nothing else. -/
structure Put (mb m m' : Machine) (n lo hi : Nat) : Prop where
  onward : Onward mb m m' n (fun p => lo / 4096 ≤ p ∧ p * 4096 < hi)
  entries : ∀ u, OwnPage u → m'.entry n u = m.entry n u
  others : ∀ u, u < KERNEL_VIRTUAL_SPACE_START → ¬ (lo ≤ u ∧ u < hi) →
    spaceByte m' n u = spaceByte m n u
  bitmap : m'.memory_bitmap = m.memory_bitmap
  directory : m'.frames n = m.frames n

theorem Put.refl (h : Image mb m n) (lo hi : Nat) : Put mb m m n lo hi :=
  ⟨Onward.refl h, fun _ _ => rfl, fun _ _ _ => rfl, rfl, rfl⟩

theorem Put.trans {lo mid hi : Nat} (h1 : Put mb m m' n lo mid) (h2 : Put mb m' m'' n mid hi)
    (hl : lo ≤ mid) (hh : mid ≤ hi) : Put mb m m'' n lo hi where
  onward := (h1.onward.mono fun p hp => ⟨hp.1, by omega⟩).trans
    (h2.onward.mono fun p hp => ⟨by omega, hp.2⟩)
  entries := fun u hu => (h2.entries u hu).trans (h1.entries u hu)
  others := fun u hu hne =>
    (h2.others u hu fun hc => hne ⟨by omega, hc.2⟩).trans
      (h1.others u hu fun hc => hne ⟨hc.1, by omega⟩)
  bitmap := h2.bitmap.trans h1.bitmap
  directory := h2.directory.trans h1.directory

/-- Bytes for a mapped page: the lookup, the slot, the copy and the slot's end. -/
theorem Image.chunk (h : Image mb m n) (hb : LoadBase mb) (hi : bounce_free_slot mb = some i)
    {v : Nat} (hv : v < KERNEL_VIRTUAL_SPACE_START) (hx : (m.entry n v).isSome)
    (bytes : List Nat) (hlen : v % 4096 + bytes.length ≤ 4096) :
    ∃ phys kaddr m1 m2 m3,
      memory_paging_virtual_to_physical (m.openSlot i n) (n * 4096) v =
        some (m.openSlot i n, phys) ∧
      bounce_alloc (m.openSlot i n) phys = some (m1, kaddr) ∧ kaddr ≠ 0 ∧
      u32 (kaddr + v % 4096) ≠ 0 ∧
      memcpy_to m1 (u32 (kaddr + v % 4096)) bytes = some m2 ∧
      bounce_free m2 kaddr = some (m3.openSlot i n) ∧ Put mb m m3 n v (v + bytes.length) ∧
      ∀ u, v ≤ u → u < v + bytes.length →
        spaceByte m3 n u = some (bytes.getD (u - v) 0 % 256) := by
  obtain ⟨x, hx⟩ := Option.isSome_iff_exists.mp hx
  have hown : OwnPage v := Or.inl hv
  have hpage := h.page_frame v x hown hx
  obtain ⟨phys, kaddr, m1, m2, hv2p, halloc, hk0, hk, hcopy, hfree⟩ :=
    h.loading.chunk hb hi hv hx bytes hlen
  have hentry : ∀ u, OwnPage u → (m.setFrame (frameOf x)
      (putBytes (m.frames (frameOf x)) (v % 4096) bytes)).entry n u = m.entry n u :=
    fun u hu => h.entry_setFrame hb _ (Or.inr hpage) hu
  -- The bytes of the page of `v`, and of the other pages.
  have hsame : ∀ u, u / 4096 = v / 4096 → spaceByte (m.setFrame (frameOf x)
      (putBytes (m.frames (frameOf x)) (v % 4096) bytes)) n u =
        some (byteAt (putBytes (m.frames (frameOf x)) (v % 4096) bytes) (u % 4096)) := by
    intro u hu
    unfold spaceByte
    rw [hentry u (hown.of_same hu), entry_same_page m n hu, hx, Option.map_some, setFrame_apply,
      if_pos rfl]
  refine ⟨phys, kaddr, m1, m2, _, hv2p, halloc, hk0, hk, hcopy, hfree,
    ⟨?_, hentry, ?_, rfl, ?_⟩, ?_⟩
  · by_cases hempty : bytes = []
    · subst hempty
      unfold putBytes
      rw [setFrame_self]
      exact Onward.refl h
    · have hpos := List.length_pos_of_ne_nil hempty
      refine h.setFrame hb _ (Or.inr hpage) fun u y hu hy hxy => ?_
      have := h.pages_apart u v y x hu hown hy hx hxy
      omega
  · intro u hu hne
    have hou : OwnPage u := Or.inl hu
    by_cases hpv : u / 4096 = v / 4096
    · rw [hsame u hpv, byteAt_putBytes, if_neg (by omega)]
      unfold spaceByte
      rw [entry_same_page m n hpv, hx, Option.map_some]
    · unfold spaceByte
      rw [hentry u hou]
      cases hy : m.entry n u with
      | none => rfl
      | some y =>
        rw [Option.map_some, Option.map_some, setFrame_apply,
          if_neg fun hc => hpv (h.pages_apart u v y x hou hown hy hx hc)]
  · rw [setFrame_apply, if_neg hpage.ne_dir.symm]
  · intro u hu1 hu2
    rw [hsame u (by omega), byteAt_putBytes, if_pos (by omega),
      show u % 4096 - v % 4096 = u - v by omega]

/-! ## The loops over bytes -/

/-- The copy loop over mapped pages. -/
theorem Image.copy_bytes (h : Image mb m n) (hb : LoadBase mb)
    (hi : bounce_free_slot mb = some i) (data : List Nat) (count file_offset v : Nat)
    (htop : v + count ≤ KERNEL_VIRTUAL_SPACE_START)
    (hx : ∀ u, v ≤ u → u < v + count → (m.entry n u).isSome) :
    ∃ m', elf_copy_bytes data (n * 4096) count file_offset v (m.openSlot i n) =
        some (m'.openSlot i n, true) ∧ Put mb m m' n v (v + count) ∧
      (file_offset + count ≤ data.length → data.length < 0x100000000 →
        ∀ u, v ≤ u → u < v + count →
          spaceByte m' n u = some (data.getD (file_offset + (u - v)) 0 % 256)) := by
  induction count using Nat.strong_induction_on generalizing m file_offset v with
  | _ count ih =>
    unfold elf_copy_bytes
    split
    · exact ⟨m, rfl, Put.refl h _ _, fun _ _ u h1 h2 => by omega⟩
    · rename_i hne
      obtain ⟨c, hc⟩ : ∃ c, min (PAGE_SIZE - v % 4096) count = c := ⟨_, rfl⟩
      have hc1 : 0 < c ∧ c ≤ count ∧ v % 4096 + c ≤ 4096 := by
        unfold PAGE_SIZE at hc
        omega
      have hlen : (ramfs_read data file_offset c).length ≤ c := by
        unfold ramfs_read
        exact List.length_take_le _ _
      obtain ⟨phys, kaddr, m1, m2, m3, hv2p, halloc, -, hk, hcopy, hfree, hput, hbytes⟩ :=
        h.chunk hb hi (v := v) (by omega) (hx v (le_refl _) (by omega))
          (ramfs_read data file_offset c) (by omega)
      have hput : Put mb m m3 n v (v + c) :=
        hput.trans (Put.refl hput.onward.image _ _) (by omega) (by omega)
      have hv : u32 (v + c) = v + c := by
        unfold KERNEL_VIRTUAL_SPACE_START at htop
        exact u32_of_lt (by omega)
      obtain ⟨m', hloop, hput', hrest⟩ := ih (count - c) (by omega) hput.onward.image
        (u32 (file_offset + c)) (v + c) (by omega) (fun u h1 h2 => by
          rw [hput.entries u (Or.inl (by omega))]
          exact hx u (by omega) (by omega))
      rw [show v + c + (count - c) = v + count by omega] at hput' hrest
      refine ⟨m', ?_, hput.trans hput' (by omega) (by omega), fun hfile hdata u hu1 hu2 => ?_⟩
      · have hp : v % PAGE_SIZE = v % 4096 := rfl
        simp only [hc, hp, hv2p, halloc, hk, if_false, hcopy, hfree, Option.bind_eq_bind,
          Option.bind_some, hv]
        exact hloop
      · have hoff : u32 (file_offset + c) = file_offset + c := u32_of_lt (by omega)
        by_cases hin : u < v + c
        · rw [hput'.others u (by omega) (by omega), hbytes u hu1 (by
            unfold ramfs_read
            rw [List.length_take, List.length_drop]
            omega)]
          unfold ramfs_read
          congr 2
          rw [List.getD_eq_getElem?_getD, List.getD_eq_getElem?_getD, List.getElem?_take,
            if_pos (by omega), List.getElem?_drop]
        · rw [hrest (by rw [hoff]; omega) hdata u (by omega) hu2, hoff,
            show file_offset + c + (u - (v + c)) = file_offset + (u - v) by omega]

/-- The clearing loop over mapped pages. -/
theorem Image.zero_bytes (h : Image mb m n) (hb : LoadBase mb)
    (hi : bounce_free_slot mb = some i) (count v : Nat)
    (htop : v + count ≤ KERNEL_VIRTUAL_SPACE_START)
    (hx : ∀ u, v ≤ u → u < v + count → (m.entry n u).isSome) :
    ∃ m', elf_zero_bytes (n * 4096) count v (m.openSlot i n) = some (m'.openSlot i n, true) ∧
      Put mb m m' n v (v + count) ∧
      ∀ u, v ≤ u → u < v + count → spaceByte m' n u = some 0 := by
  induction count using Nat.strong_induction_on generalizing m v with
  | _ count ih =>
    unfold elf_zero_bytes
    split
    · exact ⟨m, rfl, Put.refl h _ _, fun u h1 h2 => by omega⟩
    · rename_i hne
      obtain ⟨c, hc⟩ : ∃ c, min (PAGE_SIZE - v % 4096) count = c := ⟨_, rfl⟩
      have hc1 : 0 < c ∧ c ≤ count ∧ v % 4096 + c ≤ 4096 := by
        unfold PAGE_SIZE at hc
        omega
      obtain ⟨phys, kaddr, m1, m2, m3, hv2p, halloc, hk, -, hcopy, hfree, hput, hbytes⟩ :=
        h.chunk hb hi (v := v) (by omega) (hx v (le_refl _) (by omega)) (List.replicate c 0)
          (by rw [List.length_replicate]; omega)
      rw [List.length_replicate] at hput hbytes
      have hv : u32 (v + c) = v + c := by
        unfold KERNEL_VIRTUAL_SPACE_START at htop
        exact u32_of_lt (by omega)
      obtain ⟨m', hloop, hput', hrest⟩ := ih (count - c) (by omega) hput.onward.image (v + c)
        (by omega) (fun u h1 h2 => by
          rw [hput.entries u (Or.inl (by omega))]
          exact hx u (by omega) (by omega))
      rw [show v + c + (count - c) = v + count by omega] at hput' hrest
      refine ⟨m', ?_, hput.trans hput' (by omega) (by omega), fun u hu1 hu2 => ?_⟩
      · have hp : v % PAGE_SIZE = v % 4096 := rfl
        simp only [hc, hp, hv2p, halloc, hk, if_false, hcopy, hfree, Option.bind_eq_bind,
          Option.bind_some, hv]
        exact hloop
      · by_cases hin : u < v + c
        · rw [hput'.others u (by omega) (by omega), hbytes u hu1 hin, List.getD_replicate _ (by omega)]
        · exact hrest u (by omega) hu2

/-! ## Frames that a segment needs -/

/-- The entries of a directory that have a table. -/
def tablesOf (m : Machine) (n : Nat) : Nat → Bool := fun j => present (m.frames n j)

/-- `tables` and the table of the page at `address`. -/
def withTable (tables : Nat → Bool) (address : Nat) : Nat → Bool :=
  fun j => tables j || decide (j = page_directory_index address)

/-- The frames that `count` pages from `address` on take: each page one, and one for each table
that is not there. -/
def page_need (tables : Nat → Bool) : Nat → Nat → Nat
  | 0, _ => 0
  | count + 1, address =>
    1 + (if tables (page_directory_index address) then 0 else 1) +
      page_need (withTable tables address) count (address + PAGE_SIZE)

/-- The tables that these pages leave. -/
def page_tables (tables : Nat → Bool) : Nat → Nat → Nat → Bool
  | 0, _ => tables
  | count + 1, address => page_tables (withTable tables address) count (address + PAGE_SIZE)

/-- The page of `v` lies in a frame that was free in `m` and has its words of then. -/
def FreshPage (m m' : Machine) (n v : Nat) : Prop :=
  ∃ x, m'.entry n v = some x ∧ ¬ Taken m.memory_bitmap (frameOf x) ∧
    m'.frames (frameOf x) = m.frames (frameOf x)

/-- The page loop below the kernel: with frames enough every page is mapped to a fresh frame,
else the loop ends with a failure. -/
theorem Image.map_pages (h : Image mb m n) (hb : LoadBase mb)
    (hi : bounce_free_slot mb = some i) {flags : Nat} (hfl : flags < 4096) (count address : Nat)
    (hal : address % 4096 = 0) (htop : address + count * 4096 ≤ KERNEL_VIRTUAL_SPACE_START) :
    ∃ m' mapped, elf_map_pages (slotAddr i) flags count address (m.openSlot i n) =
        some (m'.openSlot i n, mapped) ∧
      Onward mb m m' n (fun p => address / 4096 ≤ p ∧ p < address / 4096 + count) ∧
      (mapped = true ↔ page_need (tablesOf m n) count address ≤ freeCount m) ∧
      (mapped = true → freeCount m' + page_need (tablesOf m n) count address = freeCount m ∧
        tablesOf m' n = page_tables (tablesOf m n) count address ∧
        ∀ v, address ≤ v → v < address + count * 4096 → FreshPage m m' n v) := by
  induction count generalizing m address with
  | zero =>
    refine ⟨m, true, rfl, Onward.refl h, by simp [page_need], fun _ => ⟨rfl, rfl, ?_⟩⟩
    intro v h1 h2
    omega
  | succ count ih =>
    have hbm : (m.openSlot i n).memory_bitmap = m.memory_bitmap := rfl
    have hlow : address < KERNEL_VIRTUAL_SPACE_START := by omega
    have hown : OwnPage address := Or.inl hlow
    have hnostack : address / 4096 = STACK_PAGE → flags &&& PAGE_USER = 0 := by
      unfold STACK_PAGE KERNEL_STACK_TOP PAGE_SIZE
      unfold KERNEL_VIRTUAL_SPACE_START at hlow
      omega
    unfold page_need page_tables
    have hwith : ∀ m1 : Machine, (∀ j, present (m1.frames n j) =
        (present (m.frames n j) || decide (j = page_directory_index address))) →
        tablesOf m1 n = withTable (tablesOf m n) address := fun m1 hj => funext hj
    rcases h.take hb with ⟨hfree, ha⟩ | ⟨f, b, ha, hz, hfresh, hcount, hf, hun, hon0, hback⟩
    · refine ⟨m, false, ?_, Onward.refl h, ?_, fun hc => by cases hc⟩
      · have hself : (m.openSlot i n).setBitmap m.memory_bitmap = m.openSlot i n := rfl
        unfold elf_map_pages
        simp only [hbm, ha, if_true, hself]
        rfl
      · constructor
        · exact fun hc => by cases hc
        · intro hle
          omega
    · have hcomm : (m.openSlot i n).setBitmap b = (m.setBitmap b).openSlot i n := rfl
      have h1 := (hon0 (fun _ => False)).image
      by_cases hroom : present (m.frames n (page_directory_index address)) = true ∨
          0 < freeCount (m.setBitmap b)
      · obtain ⟨m1, hmap, hon1, hat, hwords, hcount1, htab⟩ :=
          h1.map hb hi hfl hown hnostack hf hun hroom
        obtain ⟨m2, mapped, hloop, hon2, hiff, hdone⟩ := ih hon1.image (address + PAGE_SIZE)
          (by unfold PAGE_SIZE; omega) (by unfold PAGE_SIZE; omega)
        have hframes : (m.setBitmap b).frames = m.frames := rfl
        rw [hframes] at hcount1 htab
        rw [hwith m1 htab] at hiff hdone
        have hif : (if tablesOf m n (page_directory_index address) = true then 0 else 1) =
            (if present (m.frames n (page_directory_index address)) = true then 0 else 1) := rfl
        rw [hif]
        refine ⟨m2, mapped, ?_, ?_, ?_, fun hm => ?_⟩
        · unfold elf_map_pages
          simp only [hbm, ha, hz, if_false, hcomm, hmap, Option.bind_eq_bind, Option.bind_some,
            ne_eq, not_true_eq_false]
          exact hloop
        · refine ((hon0 _).trans (hon1.mono fun p hp => ?_)).trans (hon2.mono fun p hp => ?_)
          · omega
          · unfold PAGE_SIZE at hp
            omega
        · rw [hiff]
          omega
        · obtain ⟨hleft, htables, hall⟩ := hdone hm
          refine ⟨by omega, htables, fun v hv1 hv2 => ?_⟩
          by_cases hpage : v < address + 4096
          · -- The page of `v` is the one that was just mapped.
            have hnext : ¬ ((address + PAGE_SIZE) / 4096 ≤ address / 4096 ∧
                address / 4096 < (address + PAGE_SIZE) / 4096 + count) := by
              unfold PAGE_SIZE
              omega
            have hentry := (hon2.entry address hown hnext).trans hat
            refine ⟨_, (entry_same_page m2 n (show v / 4096 = address / 4096 by omega)).trans hentry,
              ?_, ?_⟩
            · rw [frameOf_entry f hfl]
              exact fun hc => hfresh (hc (h.loading.pages ▸ hf.owned.lt))
            · rw [hon2.words address _ hown hnext hat, frameOf_entry f hfl, hwords]
              rfl
          · obtain ⟨x, hx, hux, hwx⟩ := hall v (by unfold PAGE_SIZE; omega)
              (by unfold PAGE_SIZE; omega)
            have hu : ¬ Used m1.memory_bitmap (frameOf x) := fun hc => hux fun _ => hc
            refine ⟨x, hx, fun hc => hux ?_, hwx.trans ((hon1.untouched _ hu).trans rfl)⟩
            exact ((hon0 _).trans hon1).taken h hc
      · obtain ⟨hp, hfree⟩ : present (m.frames n (page_directory_index address)) = false ∧
            freeCount (m.setBitmap b) = 0 := by
          refine ⟨?_, by omega⟩
          simpa using fun hc => hroom (Or.inl hc)
        have hmap := h1.map_refused hb hi f flags hown hp hfree
        refine ⟨_, false, ?_, hback _, ?_, fun hc => by cases hc⟩
        · unfold elf_map_pages
          simp only [hbm, ha, hz, if_false, hcomm, hmap, Option.bind_eq_bind, Option.bind_some,
            ne_eq, reduceCtorEq, not_false_eq_true, if_true]
          rfl
        · constructor
          · exact fun hc => by cases hc
          · intro hle
            have hif : (if tablesOf m n (page_directory_index address) = true then 0 else 1) = 1 :=
              if_neg (by unfold tablesOf; rw [hp]; decide)
            omega

/-! ## Segments -/

def segment_need (tables : Nat → Bool) (ph : Elf32_Phdr) : Nat :=
  page_need tables ((segment_end ph - segment_start ph) / PAGE_SIZE) (segment_start ph)

def segment_tables (tables : Nat → Bool) (ph : Elf32_Phdr) : Nat → Bool :=
  page_tables tables ((segment_end ph - segment_start ph) / PAGE_SIZE) (segment_start ph)

/-- The pages of a segment. -/
def SegmentPage (ph : Elf32_Phdr) (p : Nat) : Prop :=
  segment_start ph / 4096 ≤ p ∧ p * 4096 < segment_end ph

theorem no_page_of_empty {ph : Elf32_Phdr} (h1 : ph.p_vaddr % 4096 = 0) (h2 : ph.p_memsz = 0)
    (p : Nat) : ¬ SegmentPage ph p := by
  rintro ⟨hlo, hhi⟩
  unfold segment_start segment_end ALIGN_UP ALIGN_DOWN u32 at *
  rw [h2] at hhi
  omega

/-- The page of a segment below the kernel is below the kernel. -/
theorem BelowKernel.page {ph : Elf32_Phdr} (h : BelowKernel ph) {p : Nat} (hp : SegmentPage ph p) :
    p * 4096 < KERNEL_VIRTUAL_SPACE_START := by
  rcases h with ⟨hmem, -⟩ | ⟨hal, hmem, -⟩
  · obtain ⟨-, -, -, h4, -⟩ := segment_pages hmem
    exact hp.2.trans_le h4
  · exact absurd hp (no_page_of_empty hal hmem p)

/-- The byte that a program expects at byte `k` of a segment. -/
def segment_byte (data : List Nat) (ph : Elf32_Phdr) (k : Nat) : Nat :=
  if k < ph.p_filesz then data.getD (ph.p_offset + k) 0 % 256 else 0

/-- The bytes of the segment are those of the file, followed by zeros. -/
def SegmentLoaded (m : Machine) (n : Nat) (data : List Nat) (ph : Elf32_Phdr) : Prop :=
  ∀ k, k < ph.p_memsz → spaceByte m n (ph.p_vaddr + k) = some (segment_byte data ph k)

/-- The segment has no more bytes in the file than in memory, and the file has them. -/
def InFile (data : List Nat) (ph : Elf32_Phdr) : Prop :=
  ph.p_filesz ≤ ph.p_memsz ∧ ph.p_offset + ph.p_filesz ≤ data.length

/-- The byte at `u` is what a frame that was free in `m` held there. -/
def StaleByte (m m' : Machine) (n u : Nat) : Prop :=
  ∃ f, ¬ Taken m.memory_bitmap f ∧ spaceByte m' n u = some (byteAt (m.frames f) (u % 4096))

theorem FreshPage.stale {u : Nat} (h : FreshPage m m' n u) : StaleByte m m' n u := by
  obtain ⟨x, hx, hu, hw⟩ := h
  refine ⟨frameOf x, hu, ?_⟩
  unfold spaceByte
  rw [hx, Option.map_some, hw]

/-- One segment below the kernel: with frames enough it is loaded; around its bytes its pages
hold what their frames held. -/
theorem Image.segment (h : Image mb m n) (hb : LoadBase mb) (hi : bounce_free_slot mb = some i)
    (task_is_user : Bool) (data : List Nat) {ph : Elf32_Phdr} (hph : BelowKernel ph) :
    ∃ m' error, elf_load_segment (m.openSlot i n) (slotAddr i) (n * 4096) task_is_user data ph =
        some (m'.openSlot i n, error) ∧ Onward mb m m' n (SegmentPage ph) ∧
      error = (if segment_need (tablesOf m n) ph ≤ freeCount m then none
        else some elf_result_t.ELF_RESULT_ALLOCATION_ERROR) ∧
      (error = none → freeCount m' + segment_need (tablesOf m n) ph = freeCount m ∧
        tablesOf m' n = segment_tables (tablesOf m n) ph ∧
        (InFile data ph → data.length < 0x100000000 → SegmentLoaded m' n data ph) ∧
        (InFile data ph → ∀ u, SegmentPage ph (u / 4096) →
          ¬ (ph.p_vaddr ≤ u ∧ u < ph.p_vaddr + ph.p_memsz) → StaleByte m m' n u)) := by
  rcases hph with ⟨hmem, hfile⟩ | ⟨hal, hmem, hfile⟩
  · obtain ⟨h1, h2, h3, h4, h5⟩ := segment_pages hmem
    obtain ⟨m1, mapped, hmap, hon1, hiff, hdone⟩ := h.map_pages hb hi
      (segment_flags_lt task_is_user) ((segment_end ph - segment_start ph) / PAGE_SIZE)
      (segment_start ph) h1 (by omega)
    have hon1 : Onward mb m m1 n (SegmentPage ph) := hon1.mono fun p hp => by
      unfold SegmentPage
      omega
    unfold elf_load_segment
    simp only [hmap, Option.bind_eq_bind, Option.bind_some]
    cases mapped with
    | false =>
      have hneed : ¬ segment_need (tablesOf m n) ph ≤ freeCount m := fun hc => by
        cases hiff.mpr hc
      refine ⟨m1, _, rfl, hon1, ?_, fun hc => by cases hc⟩
      rw [if_neg hneed]
    | true =>
      obtain ⟨hcount, htables, hall⟩ := hdone rfl
      have hx : ∀ u, ph.p_vaddr ≤ u → u < segment_end ph → (m1.entry n u).isSome := by
        intro u hu1 hu2
        obtain ⟨x, hx, -⟩ := hall u (by omega) (by omega)
        rw [hx]
        rfl
      have hstale : ∀ u, SegmentPage ph (u / 4096) → StaleByte m m1 n u ∧
          u < KERNEL_VIRTUAL_SPACE_START := by
        rintro u ⟨hu1, hu2⟩
        exact ⟨(hall u (by omega) (by omega)).stale, by omega⟩
      obtain ⟨m2, hcopy, hput2, hbytes2⟩ := hon1.image.copy_bytes hb hi data ph.p_filesz
        ph.p_offset ph.p_vaddr (by omega) (fun u hu1 hu2 => hx u hu1 (by omega))
      have hon2 : Onward mb m m2 n (SegmentPage ph) := hon1.trans (hput2.onward.mono fun p hp => by
        unfold SegmentPage
        omega)
      have hleft : freeCount m2 + segment_need (tablesOf m n) ph = freeCount m := by
        unfold freeCount at hcount ⊢
        rw [hput2.bitmap]
        exact hcount
      have htab : tablesOf m2 n = segment_tables (tablesOf m n) ph := by
        unfold tablesOf at htables ⊢
        rw [hput2.directory]
        exact htables
      have hneed : segment_need (tablesOf m n) ph ≤ freeCount m := hiff.mp rfl
      rw [if_pos hneed]
      simp only [Bool.not_true, Bool.false_eq_true, if_false, hcopy, Option.bind_some]
      split
      · rename_i hlt
        have hstart : u32 (ph.p_vaddr + ph.p_filesz) = ph.p_vaddr + ph.p_filesz := by
          unfold KERNEL_VIRTUAL_SPACE_START at h4
          exact u32_of_lt (by omega)
        obtain ⟨m3, hzero, hput3, hbytes3⟩ := hput2.onward.image.zero_bytes hb hi
          (ph.p_memsz - ph.p_filesz) (ph.p_vaddr + ph.p_filesz) (by omega) (fun u hu1 hu2 => by
            rw [hput2.entries u (Or.inl (by omega))]
            exact hx u (by omega) (by omega))
        rw [show ph.p_vaddr + ph.p_filesz + (ph.p_memsz - ph.p_filesz) = ph.p_vaddr + ph.p_memsz by
          omega] at hput3 hbytes3
        rw [hstart, hzero]
        refine ⟨m3, none, rfl, hon2.trans (hput3.onward.mono fun p hp => by
          unfold SegmentPage
          omega), rfl, fun _ => ⟨?_, ?_, fun hin hdata k hk => ?_, fun _ u hu hout => ?_⟩⟩
        · unfold freeCount at hleft ⊢
          rw [hput3.bitmap]
          exact hleft
        · unfold tablesOf at htab ⊢
          rw [hput3.directory]
          exact htab
        · unfold segment_byte
          split
          · rename_i hkf
            rw [hput3.others _ (by omega) (by omega), hbytes2 hin.2 hdata _ (by omega) (by omega),
              Nat.add_sub_cancel_left]
          · exact hbytes3 _ (by omega) (by omega)
        · obtain ⟨⟨f, hf, hbyte⟩, hlow⟩ := hstale u hu
          refine ⟨f, hf, ?_⟩
          rw [hput3.others u hlow (by omega), hput2.others u hlow (by omega), hbyte]
      · rename_i hge
        refine ⟨m2, none, rfl, hon2, rfl, fun _ => ⟨hleft, htab, fun hin hdata k hk => ?_,
          fun hin u hu hout => ?_⟩⟩
        · have hkf : k < ph.p_filesz := by omega
          unfold segment_byte
          rw [if_pos hkf, hbytes2 hin.2 hdata _ (by omega) (by omega), Nat.add_sub_cancel_left]
        · obtain ⟨⟨f, hf, hbyte⟩, hlow⟩ := hstale u hu
          refine ⟨f, hf, ?_⟩
          have hsize := hin.1
          rw [hput2.others u hlow (by omega), hbyte]
  · have hneed : segment_need (tablesOf m n) ph = 0 := by
      unfold segment_need
      rw [empty_segment_pages hal hmem]
      rfl
    have htab : segment_tables (tablesOf m n) ph = tablesOf m n := by
      unfold segment_tables
      rw [empty_segment_pages hal hmem]
      rfl
    rw [hneed, htab, if_pos (Nat.zero_le _)]
    refine ⟨m, none, ?_, Onward.refl h, rfl, fun _ => ⟨rfl, rfl, fun _ _ k hk => by omega,
      fun _ u hu _ => ?_⟩⟩
    swap
    · exact absurd hu (no_page_of_empty hal hmem _)
    unfold elf_load_segment
    rw [empty_segment_pages hal hmem, hmem, hfile]
    unfold elf_map_pages elf_copy_bytes
    rfl

/-! ## All segments -/

/-- The frames that the program headers need, in the order of the loop. -/
def load_need (tables : Nat → Bool) : List Elf32_Phdr → Nat
  | [] => 0
  | ph :: rest =>
    if ph.p_type ≠ PT_LOAD then load_need tables rest
    else segment_need tables ph + load_need (segment_tables tables ph) rest

/-- The end of the highest segment. -/
def load_end (heap_start : Nat) : List Elf32_Phdr → Nat
  | [] => heap_start
  | ph :: rest =>
    if ph.p_type ≠ PT_LOAD then load_end heap_start rest
    else load_end (if heap_start < segment_end ph then segment_end ph else heap_start) rest

/-- A page of one of the segments. -/
def LoadPage (phs : List Elf32_Phdr) (p : Nat) : Prop :=
  ∃ ph ∈ phs, ph.p_type = PT_LOAD ∧ SegmentPage ph p

theorem PagesKept.spaceByte (h : PagesKept m m' n P) {u : Nat} (hu : OwnPage u)
    (hP : ¬ P (u / 4096)) : spaceByte m' n u = spaceByte m n u := by
  unfold elf_executable.spaceByte
  rw [h.entry _ hu hP]
  cases hx : m.entry n u with
  | none => rfl
  | some x => rw [Option.map_some, Option.map_some, h.words _ x hu hP hx]

/-- The bytes of a segment stay when none of the pages that they are in changes. -/
theorem PagesKept.segmentLoaded (h : PagesKept m m' n P) {data : List Nat} {ph : Elf32_Phdr}
    (hph : ph.p_vaddr + ph.p_memsz ≤ KERNEL_VIRTUAL_SPACE_START)
    (hP : ∀ k, k < ph.p_memsz → ¬ P ((ph.p_vaddr + k) / 4096)) (hl : SegmentLoaded m n data ph) :
    SegmentLoaded m' n data ph := by
  intro k hk
  rw [h.spaceByte (Or.inl (by omega)) (hP k hk)]
  exact hl k hk

/-- What is stale after a part of the load was stale before it. -/
theorem StaleByte.before {u : Nat} (h : StaleByte m' m'' n u) (hI : Image mb m n)
    (hon : Onward mb m m' n P) : StaleByte m m'' n u := by
  obtain ⟨f, hf, hbyte⟩ := h
  refine ⟨f, fun hc => hf (hon.taken hI hc), ?_⟩
  rw [hbyte, hon.untouched f fun hc => hf fun _ => hc]

theorem StaleByte.after {u : Nat} (h : StaleByte m m' n u) (hk : PagesKept m' m'' n P)
    (hu : OwnPage u) (hP : ¬ P (u / 4096)) : StaleByte m m'' n u := by
  obtain ⟨f, hf, hbyte⟩ := h
  exact ⟨f, hf, (hk.spaceByte hu hP).trans hbyte⟩

/-- The program header loop: with frames enough every segment is loaded, and those that share
no page with a later one are as in the file. -/
theorem Image.segments (h : Image mb m n) (hb : LoadBase mb) (hi : bounce_free_slot mb = some i)
    (task_is_user : Bool) (data : List Nat) (e_phoff count k : Nat) (program_header : List Nat)
    (heap_start : Nat)
    (hph : ∀ ph ∈ program_headers data e_phoff count k program_header,
      ph.p_type = PT_LOAD → BelowKernel ph) :
    ∃ m', elf_load_segments data e_phoff (slotAddr i) (n * 4096) task_is_user count k
        program_header heap_start (m.openSlot i n) = some (m'.openSlot i n,
          if load_need (tablesOf m n) (program_headers data e_phoff count k program_header) ≤
            freeCount m
          then .ok (load_end heap_start (program_headers data e_phoff count k program_header))
          else .error elf_result_t.ELF_RESULT_ALLOCATION_ERROR) ∧
      Onward mb m m' n (LoadPage (program_headers data e_phoff count k program_header)) ∧
      (load_need (tablesOf m n) (program_headers data e_phoff count k program_header) ≤
          freeCount m → data.length < 0x100000000 →
        ∀ l1 ph l2, program_headers data e_phoff count k program_header = l1 ++ ph :: l2 →
          ph.p_type = PT_LOAD → InFile data ph →
          (∀ k, k < ph.p_memsz → ¬ LoadPage l2 ((ph.p_vaddr + k) / 4096)) →
          SegmentLoaded m' n data ph) ∧
      (load_need (tablesOf m n) (program_headers data e_phoff count k program_header) ≤
          freeCount m → ∀ l1 ph l2,
        program_headers data e_phoff count k program_header = l1 ++ ph :: l2 →
          ph.p_type = PT_LOAD → InFile data ph → ∀ u, SegmentPage ph (u / 4096) →
          ¬ LoadPage l2 (u / 4096) → ¬ (ph.p_vaddr ≤ u ∧ u < ph.p_vaddr + ph.p_memsz) →
          StaleByte m m' n u) := by
  induction count generalizing m k program_header heap_start with
  | zero =>
    refine ⟨m, rfl, Onward.refl h, fun _ _ l1 ph l2 hl => ?_, fun _ l1 ph l2 hl => ?_⟩
    · cases l1 <;> cases hl
    · cases l1 <;> cases hl
  | succ count ih =>
    unfold program_headers at hph ⊢
    unfold elf_load_segments
    simp only
    by_cases htype : (Elf32_Phdr.ofBytes (read_into data (u32 (e_phoff + k * PROGRAM_HEADER_SIZE))
        program_header)).p_type ≠ PT_LOAD
    · obtain ⟨m', hloop, hon, hbytes, hstale⟩ := ih h (k + 1) (read_into data
        (u32 (e_phoff + k * PROGRAM_HEADER_SIZE)) program_header) heap_start
        fun ph hm => hph ph (List.mem_cons_of_mem _ hm)
      rw [if_pos htype]
      unfold load_need load_end
      rw [if_pos htype, if_pos htype]
      refine ⟨m', hloop, hon.mono fun p ⟨ph, hm, hp⟩ => ⟨ph, List.mem_cons_of_mem _ hm, hp⟩,
        fun hneed hdata l1 ph l2 hl hload => ?_, fun hneed l1 ph l2 hl hload => ?_⟩
      · cases l1 with
        | nil =>
          obtain ⟨rfl, -⟩ := List.cons.inj hl
          exact absurd hload htype
        | cons a l1 => exact hbytes hneed hdata l1 ph l2 (List.cons.inj hl).2 hload
      · cases l1 with
        | nil =>
          obtain ⟨rfl, -⟩ := List.cons.inj hl
          exact absurd hload htype
        | cons a l1 => exact hstale hneed l1 ph l2 (List.cons.inj hl).2 hload
    · have hbelow := hph _ List.mem_cons_self (not_not.mp htype)
      rw [if_neg htype]
      unfold load_need load_end
      rw [if_neg htype, if_neg htype]
      generalize Elf32_Phdr.ofBytes (read_into data (u32 (e_phoff + k * PROGRAM_HEADER_SIZE))
        program_header) = ph0 at *
      obtain ⟨m1, error, hseg, hon1, herr, hdone⟩ := h.segment hb hi task_is_user data hbelow
      have hon1' : Onward mb m m1 n (LoadPage (ph0 :: program_headers data e_phoff count (k + 1)
          (read_into data (u32 (e_phoff + k * PROGRAM_HEADER_SIZE)) program_header))) :=
        hon1.mono fun p hp => ⟨ph0, List.mem_cons_self, not_not.mp htype, hp⟩
      simp only [hseg, Option.bind_eq_bind, Option.bind_some]
      by_cases hneed : segment_need (tablesOf m n) ph0 ≤ freeCount m
      · rw [if_pos hneed] at herr
        subst herr
        obtain ⟨hleft, htables, hloaded, hstale1⟩ := hdone rfl
        obtain ⟨m2, hloop, hon2, hbytes, hstale2⟩ := ih hon1.image (k + 1) (read_into data
          (u32 (e_phoff + k * PROGRAM_HEADER_SIZE)) program_header)
          (if heap_start < segment_end ph0 then segment_end ph0 else heap_start)
          fun ph hm => hph ph (List.mem_cons_of_mem _ hm)
        rw [htables] at hloop hbytes hstale2
        have hiff : load_need (segment_tables (tablesOf m n) ph0) (program_headers data e_phoff count
            (k + 1) (read_into data (u32 (e_phoff + k * PROGRAM_HEADER_SIZE)) program_header)) ≤
            freeCount m1 ↔ segment_need (tablesOf m n) ph0 + load_need (segment_tables (tablesOf m n)
              ph0) (program_headers data e_phoff count (k + 1) (read_into data
              (u32 (e_phoff + k * PROGRAM_HEADER_SIZE)) program_header)) ≤ freeCount m := by
          omega
        simp only [hiff] at hloop hbytes hstale2
        refine ⟨m2, hloop, hon1'.trans (hon2.mono fun p ⟨ph, hm, hp⟩ =>
          ⟨ph, List.mem_cons_of_mem _ hm, hp⟩), fun hneed' hdata l1 ph l2 hl hload hin hapart => ?_,
          fun hneed' l1 ph l2 hl hload hin u hu hnot hout => ?_⟩
        · cases l1 with
          | nil =>
            obtain ⟨rfl, rfl⟩ := List.cons.inj hl
            rcases hbelow with ⟨hmem, -⟩ | ⟨-, hmem, -⟩
            · exact hon2.toPagesKept.segmentLoaded hmem hapart (hloaded hin hdata)
            · intro j hj
              omega
          | cons a l1 => exact hbytes hneed' hdata l1 ph l2 (List.cons.inj hl).2 hload hin hapart
        · cases l1 with
          | nil =>
            obtain ⟨rfl, rfl⟩ := List.cons.inj hl
            have hlow := hbelow.page hu
            exact (hstale1 hin u hu hout).after hon2.toPagesKept (Or.inl (by
              unfold KERNEL_VIRTUAL_SPACE_START at *
              omega)) hnot
          | cons a l1 =>
            exact (hstale2 hneed' l1 ph l2 (List.cons.inj hl).2 hload hin u hu hnot hout).before h
              hon1
      · rw [if_neg hneed] at herr
        subst herr
        refine ⟨m1, ?_, hon1', fun hneed' => by omega, fun hneed' => by omega⟩
        rw [if_neg (show ¬ segment_need (tablesOf m n) ph0 + load_need _ _ ≤ freeCount m by omega)]
        rfl

/-! ## The stacks -/

/-- The kernel stack: with two frames its page is mapped and holds the first register frame,
with fewer it is not mapped. -/
theorem Image.kernel_stack (h : Image mb m n) (hb : LoadBase mb)
    (hi : bounce_free_slot mb = some i) (task_is_user : Bool) (eip user_esp : Nat)
    (hT : present (m.frames n 831) = false) :
    ∃ m', task_manager_prepare_new_stack (m.openSlot i n) (slotAddr i) task_is_user eip user_esp =
        some (m'.openSlot i n, KERNEL_STACK_TOP - if task_is_user then 72 else 64) ∧
      Onward mb m m' n (fun p => p = STACK_PAGE) ∧ freeCount m' = freeCount m - 2 ∧
      (∀ j, j ≠ 831 → tablesOf m' n j = tablesOf m n j) ∧
      (freeCount m < 2 → m'.entry n (KERNEL_STACK_TOP - PAGE_SIZE) = none) ∧
      (2 ≤ freeCount m → ∃ x w, m'.entry n (KERNEL_STACK_TOP - PAGE_SIZE) = some x ∧
        m'.frames (frameOf x) = pushWords w 1024 (first_frame task_is_user eip user_esp)) := by
  have hown : OwnPage (KERNEL_STACK_TOP - PAGE_SIZE) := Or.inr rfl
  have hat831 : page_directory_index (KERNEL_STACK_TOP - PAGE_SIZE) = 831 := by decide
  have hnone : m.entry n (KERNEL_STACK_TOP - PAGE_SIZE) = none := by
    unfold Machine.entry
    simp [hat831, hT]
  rcases h.take hb with ⟨hfree, ha⟩ | ⟨f, b, ha, hz, -, hcount, hf, hun, hon0, -⟩
  · -- Neither frame: the words go to frame 0, which is no page of the program.
    have hself : m.setBitmap m.memory_bitmap = m := rfl
    have hmap := h.map_refused hb hi 0 PAGE_READ_WRITE hown (by rw [hat831]; exact hT) hfree
    have hrun := h.loading.prepare_stack (m := m) (b := m.memory_bitmap) hb hi task_is_user eip
      user_esp (f := 0) (by rw [Nat.zero_mul]; exact ha) (by rw [hself]; exact hmap) (Or.inl rfl)
    have hon := h.setFrame (P := fun p => p = STACK_PAGE) hb (pushWords (m.frames 0) 1024
      (first_frame task_is_user eip user_esp)) (Or.inl rfl) (by
        intro v x hv hx hx0
        exact absurd hx0 ((h.page_frame v x hv hx).owned.ne fun _ => hb.space.zero))
    have hfn : (0 : Nat) ≠ n := (h.loading.dir_owned.ne fun _ => hb.space.zero).symm
    refine ⟨_, hrun, hon, ?_, fun j _ => ?_, fun _ => ?_, fun h2 => by omega⟩
    · show freeCount m = freeCount m - 2
      omega
    · unfold tablesOf
      rw [setFrame_apply, if_neg hfn.symm]
    · rw [h.entry_setFrame hb _ (Or.inl rfl) hown]
      exact hnone
  · have h1 := (hon0 (fun _ => False)).image
    have hT1 : present ((m.setBitmap b).frames n 831) = false := hT
    by_cases hfree : 0 < freeCount (m.setBitmap b)
    · obtain ⟨m1, hmap, hon1, hat, hwords, hcount1, htab⟩ := h1.map hb hi
        (show PAGE_READ_WRITE < 4096 by decide) hown (fun _ => by decide) hf hun (Or.inr hfree)
      have hf1 := hon1.pages f hf
      have hrun := hon1.image.loading.prepare_stack hb hi task_is_user eip user_esp ha hmap
        (Or.inr hf1)
      have hframe : frameOf (f * 4096 ||| PAGE_READ_WRITE ||| PAGE_PRESENT) = f :=
        frameOf_entry f (by decide)
      have hon2 := hon1.image.setFrame (P := fun p => p = STACK_PAGE) hb (pushWords (m1.frames f) 1024
        (first_frame task_is_user eip user_esp)) (Or.inr hf1) (by
          intro v x hv hx hxf
          exact hon1.image.pages_apart v _ x _ hv hown hx hat (hxf.trans hframe.symm))
      rw [hat831, hT1] at hcount1
      refine ⟨_, hrun, ((hon0 _).trans (hon1.mono fun p hp => hp)).trans hon2, ?_, fun j hj => ?_,
        fun h2 => by omega, fun _ => ⟨f * 4096 ||| PAGE_READ_WRITE ||| PAGE_PRESENT, m1.frames f,
          ?_, ?_⟩⟩
      · show freeCount m1 = freeCount m - 2
        simp only [Bool.false_eq_true, if_false] at hcount1
        omega
      · unfold tablesOf
        rw [setFrame_apply, if_neg hf1.ne_dir.symm, htab j, hat831]
        simp [hj]
      · rw [hon1.image.entry_setFrame hb _ (Or.inr hf1) hown]
        exact hat
      · rw [hframe, setFrame_apply, if_pos rfl]
    · have hmap := h1.map_refused hb hi f PAGE_READ_WRITE hown (by rw [hat831]; exact hT1) (by omega)
      have hrun := h1.loading.prepare_stack hb hi task_is_user eip user_esp ha hmap (Or.inr hf)
      have hon := h1.setFrame (P := fun p => p = STACK_PAGE) hb (pushWords ((m.setBitmap b).frames f)
        1024 (first_frame task_is_user eip user_esp)) (Or.inr hf)
        (fun v x hv hx hxf => absurd hxf (hun v x hv hx))
      refine ⟨_, hrun, (hon0 _).trans hon, ?_, fun j _ => ?_, fun _ => ?_, fun h2 => by omega⟩
      · show freeCount (m.setBitmap b) = freeCount m - 2
        omega
      · unfold tablesOf
        rw [setFrame_apply, if_neg hf.ne_dir.symm]
        rfl
      · rw [h1.entry_setFrame hb _ (Or.inr hf) hown]
        exact hnone

/-- The page of the user stack. -/
def USER_STACK_PAGE : Nat := (USER_STACK_TOP - PAGE_SIZE) / 4096

/-- The user stack: with two frames its page is mapped, with one there is a frame that is not
mapped, without a frame there is `NULL`. -/
theorem Image.user_stack (h : Image mb m n) (hb : LoadBase mb)
    (hi : bounce_free_slot mb = some i) (hT : present (m.frames n 767) = false) :
    ∃ m' f, task_manager_map_user_stack (m.openSlot i n) (slotAddr i) =
        some (m'.openSlot i n, f * 4096) ∧
      Onward mb m m' n (fun p => p = USER_STACK_PAGE) ∧ freeCount m' = freeCount m - 2 ∧
      (∀ j, tablesOf m' n j =
        (tablesOf m n j || (decide (j = 767) && decide (2 ≤ freeCount m)))) ∧
      (f = 0 ↔ freeCount m = 0) ∧ (f ≠ 0 → PageFrame mb m' n f) ∧
      (∀ v x, OwnPage v → m'.entry n v = some x → frameOf x = f → v / 4096 = USER_STACK_PAGE) ∧
      (2 ≤ freeCount m → ∃ x, m'.entry n (USER_STACK_TOP - PAGE_SIZE) = some x ∧ frameOf x = f) := by
  have hown : OwnPage (USER_STACK_TOP - PAGE_SIZE) := Or.inl (by decide)
  have hat767 : page_directory_index (USER_STACK_TOP - PAGE_SIZE) = 767 := by decide
  have hbm : (m.openSlot i n).memory_bitmap = m.memory_bitmap := rfl
  unfold task_manager_map_user_stack
  rcases h.take hb with ⟨hfree, ha⟩ | ⟨f, b, ha, hz, -, hcount, hf, hun, hon0, -⟩
  · have hself : (m.openSlot i n).setBitmap m.memory_bitmap = m.openSlot i n := rfl
    simp only [hbm, ha, if_true, hself]
    refine ⟨m, 0, rfl, Onward.refl h, by omega, fun j => ?_, by simp [hfree],
      fun hc => absurd rfl hc, ?_, fun h2 => by omega⟩
    · rw [hfree]
      simp
    · intro v x hv hx hx0
      exact absurd hx0 ((h.page_frame v x hv hx).owned.ne fun _ => hb.space.zero)
  · have hcomm : (m.openSlot i n).setBitmap b = (m.setBitmap b).openSlot i n := rfl
    have h1 := (hon0 (fun _ => False)).image
    have hT1 : present ((m.setBitmap b).frames n 767) = false := hT
    have hf0 : f = 0 ↔ freeCount m = 0 := by
      constructor
      · rintro rfl
        exact absurd (Nat.zero_mul _) hz
      · intro hc
        omega
    by_cases hfree : 0 < freeCount (m.setBitmap b)
    · obtain ⟨m1, hmap, hon1, hat, -, hcount1, htab⟩ := h1.map hb hi
        (show PAGE_USER ||| PAGE_READ_WRITE < 4096 by decide) hown
        (fun hc => absurd hc (by decide)) hf hun (Or.inr hfree)
      have hframe : frameOf (f * 4096 ||| (PAGE_USER ||| PAGE_READ_WRITE) ||| PAGE_PRESENT) = f :=
        frameOf_entry f (by decide)
      rw [hat767, hT1] at hcount1
      simp only [Bool.false_eq_true, if_false] at hcount1
      simp only [hbm, ha, hz, if_false, hcomm, hmap, Option.bind_eq_bind, Option.bind_some]
      refine ⟨m1, f, rfl, (hon0 _).trans hon1, by omega, fun j => ?_, hf0, fun _ => hon1.pages f hf,
        ?_, fun _ => ⟨f * 4096 ||| (PAGE_USER ||| PAGE_READ_WRITE) ||| PAGE_PRESENT, hat, hframe⟩⟩
      · unfold tablesOf
        rw [htab j, hat767, decide_eq_true (show 2 ≤ freeCount m by omega), Bool.and_true]
        rfl
      · intro v x hv hx hxf
        exact hon1.image.pages_apart v _ x _ hv hown hx hat (hxf.trans hframe.symm)
    · have hmap := h1.map_refused hb hi f (PAGE_USER ||| PAGE_READ_WRITE) hown
        (by rw [hat767]; exact hT1) (by omega)
      simp only [hbm, ha, hz, if_false, hcomm, hmap, Option.bind_eq_bind, Option.bind_some]
      refine ⟨m.setBitmap b, f, rfl, hon0 _, by omega, fun j => ?_, hf0, fun _ => hf,
        fun v x hv hx hxf => absurd hxf (hun v x hv hx), fun h2 => by omega⟩
      rw [decide_eq_false (show ¬ 2 ≤ freeCount m by omega), Bool.and_false, Bool.or_false]
      rfl

/-- The page of the kernel stack is mapped and holds the first register frame. -/
def FirstFrame (m : Machine) (n : Nat) (task_is_user : Bool) (eip user_esp : Nat) : Prop :=
  ∃ x w, m.entry n (KERNEL_STACK_TOP - PAGE_SIZE) = some x ∧
    m.frames (frameOf x) = pushWords w 1024 (first_frame task_is_user eip user_esp)

/-- The page of the user stack is mapped and holds the arguments. -/
def UserBlock (m : Machine) (n : Nat) (argv : List (List Nat)) : Prop :=
  ∃ x, m.entry n (USER_STACK_TOP - PAGE_SIZE) = some x ∧ Block (m.frames (frameOf x)) argv

/-- The frames that the stacks take when there are enough. -/
def stack_need (task_is_user : Bool) (argv : List (List Nat)) : Nat :=
  if task_is_user = true ∧ ArgumentsFit argv then 4 else 2

/-- The arguments fit, and there are frames for the stacks. -/
def StacksFit (task_is_user : Bool) (argv : List (List Nat)) (free : Nat) : Prop :=
  (task_is_user = true → ArgumentsFit argv) ∧ stack_need task_is_user argv ≤ free

/-- The user stack pointer of a new program; a task of the kernel has no argument block. -/
def start_esp (task_is_user : Bool) (argv : List (List Nat)) : Nat :=
  if task_is_user then blockAddress argv else USER_STACK_TOP

theorem PagesKept.entry_stack (h : PagesKept m m' n P) (hP : ¬ P STACK_PAGE) :
    m'.entry n (KERNEL_STACK_TOP - PAGE_SIZE) = m.entry n (KERNEL_STACK_TOP - PAGE_SIZE) :=
  h.entry _ (Or.inr rfl) hP

theorem PagesKept.firstFrame (h : PagesKept m m' n P) (hP : ¬ P STACK_PAGE) {task_is_user : Bool}
    {eip user_esp : Nat} (hf : FirstFrame m n task_is_user eip user_esp) :
    FirstFrame m' n task_is_user eip user_esp := by
  obtain ⟨x, w, hx, hw⟩ := hf
  refine ⟨x, w, (h.entry_stack hP).trans hx, ?_⟩
  rw [h.words _ x (Or.inr rfl) hP hx]
  exact hw

theorem PagesKept.userBlock (h : PagesKept m m' n P) (hP : ¬ P USER_STACK_PAGE)
    {argv : List (List Nat)} (hb : UserBlock m n argv) : UserBlock m' n argv := by
  have hown : OwnPage (USER_STACK_TOP - PAGE_SIZE) := Or.inl (by decide)
  obtain ⟨x, hx, hw⟩ := hb
  refine ⟨x, (h.entry _ hown hP).trans hx, ?_⟩
  rw [h.words _ x hown hP hx]
  exact hw

/-- Both stacks: they are ready when the arguments fit and there are frames enough, and
otherwise no stack pointer is given or the kernel stack is not mapped. -/
theorem Image.stacks (h : Image mb m n) (hb : LoadBase mb) (hi : bounce_free_slot mb = some i)
    (task_is_user : Bool) (eip : Nat) {argv : List (List Nat)}
    (hargc : argv.length ≤ TASK_MAX_ARGUMENTS) (hbytes : stringBytes argv ≤ PAGE_SIZE)
    (hT : ∀ j, Private j → present (m.frames n j) = false) :
    ∃ m' result esp, task_manager_prepare_new_stack_with_args (m.openSlot i n) (slotAddr i)
        task_is_user eip argv = some (m'.openSlot i n, result, esp) ∧
      Onward mb m m' n (fun p => p = STACK_PAGE ∨ p = USER_STACK_PAGE) ∧
      freeCount m' = freeCount m - stack_need task_is_user argv ∧
      (∀ j, j < 768 → tablesOf m' n j =
        (task_is_user && (decide (j = 767) && decide (2 ≤ freeCount m)))) ∧
      (StacksFit task_is_user argv (freeCount m) →
        result = task_manager_result_t.TASK_MANAGER_RESULT_OK ∧
        esp = some (KERNEL_STACK_TOP - if task_is_user then 72 else 64) ∧
        FirstFrame m' n task_is_user eip (start_esp task_is_user argv) ∧
        (task_is_user = true → UserBlock m' n argv)) ∧
      (¬ StacksFit task_is_user argv (freeCount m) →
        (result ≠ task_manager_result_t.TASK_MANAGER_RESULT_OK ∧ esp = none) ∨
        (result = task_manager_result_t.TASK_MANAGER_RESULT_OK ∧
          m'.entry n (KERNEL_STACK_TOP - PAGE_SIZE) = none)) := by
  have hT831 := hT 831 (Or.inr rfl)
  unfold task_manager_prepare_new_stack_with_args
  cases task_is_user with
  | false =>
    obtain ⟨m1, hstack, hon, hcount, htab, hfew, hready⟩ :=
      h.kernel_stack hb hi false eip USER_STACK_TOP hT831
    have hneed : stack_need false argv = 2 := if_neg fun hc => by cases hc.1
    simp only [Bool.false_eq_true, if_false, hstack, Option.bind_eq_bind, Option.bind_some]
    refine ⟨m1, _, _, rfl, hon.mono fun p hp => Or.inl hp, by rw [hneed]; exact hcount,
      fun j hj => ?_, fun hfit => ⟨rfl, rfl, ?_, fun hc => by cases hc⟩, fun hfit => Or.inr ⟨rfl, ?_⟩⟩
    · rw [htab j (by omega)]
      exact hT j (Or.inl hj)
    · exact hready (by have := hfit.2; rw [hneed] at this; exact this)
    · apply hfew
      by_contra hge
      exact hfit ⟨(fun hc => by cases hc), by rw [hneed]; exact Nat.not_lt.mp hge⟩
  | true =>
    obtain ⟨m1, f, hmap, hon1, hcount1, htab1, hf0, hf, honly, hblock⟩ :=
      h.user_stack hb hi (hT 767 (Or.inl (by decide)))
    have hon1' : Onward mb m m1 n (fun p => p = STACK_PAGE ∨ p = USER_STACK_PAGE) :=
      hon1.mono fun p hp => Or.inr hp
    have htables : ∀ j, j < 768 → tablesOf m1 n j =
        (true && (decide (j = 767) && decide (2 ≤ freeCount m))) := by
      intro j hj
      have hj0 : tablesOf m n j = false := hT j (Or.inl hj)
      rw [htab1 j, hj0, Bool.false_or, Bool.true_and]
    simp only [if_true, hmap, Option.bind_eq_bind, Option.bind_some]
    by_cases hz : f = 0
    · have hfree := hf0.mp hz
      have hneed : 2 ≤ stack_need true argv := by
        unfold stack_need
        split <;> omega
      subst hz
      simp only [Nat.zero_mul, if_true]
      refine ⟨m1, _, _, rfl, hon1', by omega, htables, fun hfit => ?_,
        fun _ => Or.inl ⟨by decide, rfl⟩⟩
      have := hfit.2
      omega
    · have hfz : f * 4096 ≠ 0 := by omega
      have hpage := Or.inr (a := f = 0) (hf hz)
      obtain ⟨hw, hs, hBo⟩ := hon1.image.loading.open_windows hb hi
      obtain ⟨hB, hD⟩ := hon1.image.loading.writable_apart hb hpage
      obtain ⟨w, hargs, hbw⟩ := build_arguments_eq hw (by omega) (by rw [hBo]; exact hB) hD hargc
        hbytes
      rw [hon1.image.loading.open_setFrame hb w hpage] at hargs
      have hon2 := hon1.image.setFrame (P := fun p => p = USER_STACK_PAGE) hb w hpage honly
      have hon2' : Onward mb m (m1.setFrame f w) n (fun p => p = STACK_PAGE ∨ p = USER_STACK_PAGE) :=
        hon1'.trans (hon2.mono fun p hp => Or.inr hp)
      have htables2 : ∀ j, tablesOf (m1.setFrame f w) n j = tablesOf m1 n j := by
        intro j
        unfold tablesOf
        rw [setFrame_apply, if_neg (hf hz).ne_dir.symm]
      have hcount2 : freeCount (m1.setFrame f w) = freeCount m - 2 := hcount1
      simp only [hfz, if_false, hargs, Option.bind_some]
      by_cases hfit : ArgumentsFit argv
      · have hneed : stack_need true argv = 4 := if_pos ⟨rfl, hfit⟩
        have h831 : present ((m1.setFrame f w).frames n 831) = false := by
          have h1 := htables2 831
          rw [htab1 831] at h1
          unfold tablesOf at h1
          rw [hT831] at h1
          simpa using h1
        obtain ⟨m3, hstack, hon3, hcount3, htab3, hfew, hready⟩ :=
          hon2.image.kernel_stack hb hi true eip (blockAddress argv) h831
        have hon3' : Onward mb (m1.setFrame f w) m3 n
            (fun p => p = STACK_PAGE ∨ p = USER_STACK_PAGE) := hon3.mono fun p hp => Or.inl hp
        simp only [hfit, if_true, ne_eq, not_true_eq_false, if_false, hstack, Option.bind_some]
        have hcount4 : freeCount m3 = freeCount m - stack_need true argv := by
          rw [hcount3, hcount2, hneed, Nat.sub_sub]
        refine ⟨m3, _, _, rfl, hon2'.trans hon3', hcount4, fun j hj => ?_, fun hok => ⟨rfl, rfl,
          hready ?_, fun _ => ?_⟩, fun hno => Or.inr ⟨rfl, hfew ?_⟩⟩
        · rw [htab3 j (by omega), htables2 j]
          exact htables j hj
        · have hroom := hok.2
          rw [hneed] at hroom
          rw [hcount2]
          exact Nat.le_sub_of_add_le hroom
        · have hroom := hok.2
          rw [hneed] at hroom
          obtain ⟨x, hx, hxf⟩ := hblock (Nat.le_trans (by decide) hroom)
          refine hon3.toPagesKept.userBlock (by decide) ⟨x, ?_, ?_⟩
          · rw [hon1.image.entry_setFrame hb w hpage (Or.inl (by decide))]
            exact hx
          · rw [hxf, setFrame_apply, if_pos rfl]
            exact hbw hfit
        · rw [hcount2]
          refine Nat.lt_of_not_le fun hge => hno ⟨fun _ => hfit, ?_⟩
          rw [hneed]
          exact Nat.add_le_of_le_sub' (Nat.le_of_lt (Nat.lt_of_sub_pos (Nat.lt_of_lt_of_le Nat.two_pos hge))) hge
      · have hneed : stack_need true argv = 2 := if_neg fun hc => hfit hc.2
        simp only [hfit, if_false, ne_eq, reduceCtorEq, not_false_eq_true, if_true]
        refine ⟨_, _, _, rfl, hon2', by rw [hneed]; exact hcount2, fun j hj => ?_,
          fun hok => absurd (hok.1 rfl) hfit, fun _ => Or.inl ⟨by decide, rfl⟩⟩
        rw [htables2 j]
        exact htables j hj

end image

end alura_os.elf_executable
