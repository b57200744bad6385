-- The first page directory (`bootstrap.c`) and the switch to the kernel's own
-- (`memory_paging_module_init`): the kernel runs on at the addresses at which it ran before.
import AluraOs.KernelWindow
import AluraOs.Loops

namespace alura_os.bootstrap

open alura_os.memory alura_os.memory_bitmap alura_os.kernel_window loops
open alura_os.memory_paging hiding memory_paging_reset_entry

/-! ## The first directory -/

def BOOTSTRAP_4MB_PAGES : Nat := 16
def PAGE_4MB : Nat := 0x80

def reset_entry (entry : Nat → Nat) : Nat → Nat :=
  (List.range KERNEL_PDE_ENTRIES).foldl (fun entry i => Function.update entry i 0) entry

def map_pages (bootstrap_page_directory : Nat → Nat) : Nat → Nat :=
  (List.range BOOTSTRAP_4MB_PAGES).foldl (fun directory i =>
    let phys_addr := i * 0x400000
    let entry := phys_addr ||| PAGE_PRESENT ||| PAGE_READ_WRITE ||| PAGE_4MB
    Function.update (Function.update directory i entry) (768 + i) entry) bootstrap_page_directory

/-- What `setup_bootstrap_paging` leaves in the directory, whatever was there. -/
def setup_bootstrap_paging (bootstrap_page_directory : Nat → Nat) : Nat → Nat :=
  map_pages (reset_entry bootstrap_page_directory)

/-! ## The processor -/

/-- The processor with the memory and the allocator of the boot: `cr3`, and whether `cr4` allows
pages of 4 MiB. -/
structure processor_t where
  window : LowWindow
  cr3 : Nat
  pse : Bool

/-- The physical address that the processor finds for a virtual one. -/
def translate (p : processor_t) (v : Nat) : Option Nat :=
  let pde := p.window.frames (frameOf p.cr3) (page_directory_index v)
  if !present pde then none
  else if p.pse ∧ pde &&& PAGE_4MB ≠ 0 then some (pde / 0x400000 * 0x400000 + v % 0x400000)
  else
    let pte := p.window.frames (frameOf pde) (page_table_index v)
    if present pte then some (frameOf pte * 4096 + v % 4096) else none

/-- `memory_paging_create_kernel_page_directory`, whose result is dropped. -/
def create_directory (p : processor_t) : processor_t :=
  { p with window := (memory_paging_create_kernel_page_directory p.window).1 }

def memory_paging_set (p : processor_t) (page_directory : Nat) : processor_t :=
  { p with cr3 := page_directory }

def memory_paging_disable_pse (p : processor_t) : processor_t := { p with pse := false }

/-- `bounce_init`, which comes first, only clears the flags of the bounce pages. -/
def memory_paging_module_init (p : processor_t) : processor_t :=
  let p := create_directory p
  let p := memory_paging_set p p.window.kernel_page_directory_phys
  memory_paging_disable_pse p

/-- The processor after each call in `memory_paging_module_init`. -/
def module_init_steps (p : processor_t) : List processor_t :=
  [create_directory p,
    memory_paging_set (create_directory p) (create_directory p).window.kernel_page_directory_phys,
    memory_paging_module_init p]

/-- The processor where `memory_paging_module_init` is called: the first directory is the frame
`B`. -/
def first_processor (multiboot : multiboot_info_t) (entries : Nat → Nat)
    (frames : Nat → Nat → Nat) (B : Nat) : processor_t :=
  ⟨boot_start multiboot entries frames, B * 4096, true⟩

/-! ## The words of the first directory -/

/-- The entry of a large page. -/
def large_entry (i : Nat) : Nat := i * 0x400000 ||| PAGE_PRESENT ||| PAGE_READ_WRITE ||| PAGE_4MB

theorem reset_entry_eq (entry : Nat → Nat) {i : Nat} (hi : i < KERNEL_PDE_ENTRIES) :
    reset_entry entry i = 0 := by
  have hloop := foldl_range (n := KERNEL_PDE_ENTRIES) (s := entry)
    (f := fun entry i => Function.update entry i 0) (P := fun n e => ∀ i < n, e i = 0)
    (fun k e _ he i hi => by
      rw [Function.update_apply]
      split
      · rfl
      · exact he i (by omega))
    (fun i hi => by omega)
  exact hloop i hi

theorem map_pages_eq (directory : Nat → Nat) (j : Nat) :
    map_pages directory j =
      if j < 16 then large_entry j
      else if 768 ≤ j ∧ j < 784 then large_entry (j - 768)
      else directory j := by
  have hloop := foldl_range (n := BOOTSTRAP_4MB_PAGES) (s := directory)
    (f := fun directory i => Function.update (Function.update directory i (large_entry i)) (768 + i)
      (large_entry i))
    (P := fun n d => n ≤ 16 → ∀ j, d j =
      if j < n then large_entry j
      else if 768 ≤ j ∧ j < 768 + n then large_entry (j - 768)
      else directory j)
    (fun k d hk hd hle j => by
      rw [Function.update_apply, Function.update_apply, hd (by omega)]
      by_cases hhigh : j = 768 + k
      · have hin : 768 ≤ j ∧ j < 768 + (k + 1) := by omega
        have hsub : j - 768 = k := by omega
        rw [if_pos hhigh, if_neg (by omega), if_pos hin, hsub]
      · rw [if_neg hhigh]
        by_cases hlow : j = k
        · rw [if_pos hlow, if_pos (by omega), hlow]
        · rw [if_neg hlow]
          have h1 : j < k + 1 ↔ j < k := by omega
          have h2 : (768 ≤ j ∧ j < 768 + (k + 1)) ↔ (768 ≤ j ∧ j < 768 + k) := by omega
          simp only [h1, h2])
    (fun _ j => by rw [if_neg (by omega), if_neg (by omega)])
  exact hloop le_rfl j

theorem large_entry_present (i : Nat) : present (large_entry i) = true := by
  unfold large_entry
  simp [PAGE_PRESENT]

theorem large_entry_eq (i : Nat) : large_entry i = i * 0x400000 + 0x83 := by
  unfold large_entry
  have hflags : i * 0x400000 ||| PAGE_PRESENT ||| PAGE_READ_WRITE ||| PAGE_4MB =
      i <<< 22 ||| 0x83 := by
    rw [Nat.or_assoc, Nat.or_assoc, Nat.shiftLeft_eq]
    rfl
  rw [hflags, ← Nat.shiftLeft_add_eq_or_of_lt (by decide), Nat.shiftLeft_eq]

theorem large_entry_large (i : Nat) : large_entry i &&& PAGE_4MB ≠ 0 := by
  intro h
  have hbit := congrArg (Nat.testBit · 7) h
  unfold large_entry at hbit
  simp only [Nat.testBit_and, Nat.testBit_or] at hbit
  simp [PAGE_4MB, Nat.testBit] at hbit

variable {p : processor_t} {words : Nat → Nat}

/-- The first directory shows the low memory twice, and nothing else. -/
theorem first_translate (hpse : p.pse = true)
    (hwords : p.window.frames (frameOf p.cr3) = setup_bootstrap_paging words) {v : Nat}
    (hv : v < 0x100000000) :
    translate p v =
      if v < KERNEL_LOW_WINDOW_SIZE then some v
      else if KERNEL_VIRTUAL_SPACE_START ≤ v ∧
          v < KERNEL_VIRTUAL_SPACE_START + KERNEL_LOW_WINDOW_SIZE then
        some (v - KERNEL_VIRTUAL_SPACE_START)
      else none := by
  have hindex : page_directory_index v = v / 0x400000 := by
    unfold page_directory_index
    omega
  have hlarge : ∀ i, p.window.frames (frameOf p.cr3) (v / 0x400000) = large_entry i →
      translate p v = some (i * 0x400000 + v % 0x400000) := by
    intro i hi
    unfold translate
    rw [hindex, hi]
    simp only [large_entry_present, hpse, large_entry_large, ne_eq, not_false_eq_true, and_self,
      Bool.not_true, Bool.false_eq_true, if_false, if_true]
    have haddress : large_entry i / 0x400000 * 0x400000 + v % 0x400000 =
        i * 0x400000 + v % 0x400000 := by
      rw [large_entry_eq]
      omega
    exact congrArg some haddress
  have hentry : p.window.frames (frameOf p.cr3) (v / 0x400000) = _ :=
    (congrFun hwords _).trans (map_pages_eq _ _)
  unfold KERNEL_LOW_WINDOW_SIZE KERNEL_VIRTUAL_SPACE_START
  by_cases hlow : v < 0x04000000
  · rw [if_pos (by omega)] at hentry
    have haddress : v / 0x400000 * 0x400000 + v % 0x400000 = v := by omega
    rw [if_pos hlow, hlarge _ hentry, haddress]
  · by_cases hhigh : 0xC0000000 ≤ v ∧ v < 0xC0000000 + 0x04000000
    · have hin : 768 ≤ v / 0x400000 ∧ v / 0x400000 < 784 := by omega
      rw [if_neg (by omega), if_pos hin] at hentry
      have haddress : (v / 0x400000 - 768) * 0x400000 + v % 0x400000 = v - 0xC0000000 := by omega
      rw [if_neg hlow, if_pos hhigh, hlarge _ hentry, haddress]
    · have hout : ¬ (768 ≤ v / 0x400000 ∧ v / 0x400000 < 784) := by omega
      have hzero := reset_entry_eq words (i := v / 0x400000) (by unfold KERNEL_PDE_ENTRIES; omega)
      rw [if_neg (by omega), if_neg hout, hzero] at hentry
      rw [if_neg hlow, if_neg hhigh]
      unfold translate
      rw [hindex, hentry]
      rfl

/-! ## The words of the kernel's tables -/

section calls

variable {s : LowWindow} {D virtual : Nat} (physical : Nat)

/-- What `memory_paging_map_kernel` writes into a table. -/
def kernel_entry (physical : Nat) : Nat := physical ||| PAGE_READ_WRITE ||| PAGE_PRESENT

theorem map_kernel_entry_frames {pde : Nat} (hk : s.kernel_page_directory_phys = D * 4096)
    (hpde : s.frames D (page_directory_index virtual) = pde) :
    (memory_paging_map_kernel_entry s physical virtual PAGE_READ_WRITE).1.frames =
      Function.update s.frames (frameOf pde) (Function.update (s.frames (frameOf pde))
        (page_table_index virtual) (kernel_entry physical)) := by
  have hal : frameOf (ALIGN_DOWN pde) = frameOf pde := by
    unfold frameOf ALIGN_DOWN
    omega
  have huser : ¬ (PAGE_READ_WRITE &&& PAGE_USER ≠ 0) := by decide
  unfold memory_paging_map_kernel_entry
  simp only [huser, if_false, LowWindow.load, LowWindow.store, hk, frameOf_page, hpde, hal]
  rfl

/-- With the page table there, one word of it is written. -/
theorem map_kernel_old_frames {pde : Nat} (hk : s.kernel_page_directory_phys = D * 4096)
    (hpde : s.frames D (page_directory_index virtual) = pde) (hp : present pde = true) :
    (memory_paging_map_kernel s physical virtual PAGE_READ_WRITE).1.frames =
      Function.update s.frames (frameOf pde) (Function.update (s.frames (frameOf pde))
        (page_table_index virtual) (kernel_entry physical)) := by
  have hload : s.load (D * 4096) (page_directory_index virtual) = (pde, s.access D) := by
    unfold LowWindow.load
    rw [frameOf_page, hpde]
  unfold memory_paging_map_kernel
  simp only [hk, hload, hp, if_true]
  exact map_kernel_entry_frames (s := s.access D) physical hk hpde

/-- Without a page for the table, nothing is written. -/
theorem map_kernel_full_frames (hk : s.kernel_page_directory_phys = D * 4096)
    (hp : present (s.frames D (page_directory_index virtual)) = false)
    (ha : memory_bitmap_allocate s.memory_bitmap = (s.memory_bitmap, 0)) :
    (memory_paging_map_kernel s physical virtual PAGE_READ_WRITE).1.frames = s.frames := by
  have hload : s.load (D * 4096) (page_directory_index virtual) =
      (s.frames D (page_directory_index virtual), s.access D) := by
    unfold LowWindow.load
    rw [frameOf_page]
  unfold memory_paging_map_kernel
  simp only [hk, hload, hp, Bool.false_eq_true, if_false, LowWindow.access_bitmap, ha, if_true]
  rfl

/-- With a new table `T`, the directory and one word of the table are written. -/
theorem map_kernel_new_frames {T : Nat} (hk : s.kernel_page_directory_phys = D * 4096)
    (hp : present (s.frames D (page_directory_index virtual)) = false) (hT : 0 < T)
    (ha : (memory_bitmap_allocate s.memory_bitmap).2 = T * 4096) :
    (memory_paging_map_kernel s physical virtual PAGE_READ_WRITE).1.frames T
        (page_table_index virtual) = kernel_entry physical ∧
      ∀ g, g ≠ D → g ≠ T →
        (memory_paging_map_kernel s physical virtual PAGE_READ_WRITE).1.frames g = s.frames g := by
  have hload : s.load (D * 4096) (page_directory_index virtual) =
      (s.frames D (page_directory_index virtual), s.access D) := by
    unfold LowWindow.load
    rw [frameOf_page]
  have hne : ¬ T * 4096 = 0 := by omega
  obtain ⟨s1, h1, -, hk1, hother, -, -⟩ := reset_words
    ((s.access D).setBitmap (memory_bitmap_allocate s.memory_bitmap).1) T 1024
  have hreset : memory_paging_reset_entry ((s.access D).setBitmap
      (memory_bitmap_allocate s.memory_bitmap).1) (T * 4096) = s1 := h1
  have hframes : ∀ i x, (s1.store (D * 4096) i x).frames =
      Function.update s1.frames D (Function.update (s1.frames D) i x) := by
    intro i x
    unfold LowWindow.store
    rw [frameOf_page]
  have hpde : (s1.store (D * 4096) (page_directory_index virtual) (T * 4096 ||| PAGE_READ_WRITE |||
      PAGE_PRESENT)).frames D (page_directory_index virtual) =
      (T * 4096 ||| PAGE_READ_WRITE ||| PAGE_PRESENT) := by
    rw [hframes, Function.update_self, Function.update_self]
  have hentry := map_kernel_entry_frames (s := s1.store (D * 4096) (page_directory_index virtual)
    (T * 4096 ||| PAGE_READ_WRITE ||| PAGE_PRESENT)) physical (hk1.trans hk) hpde
  rw [frameOf_entry T (by decide), hframes] at hentry
  unfold memory_paging_map_kernel
  simp only [hk, hload, hp, Bool.false_eq_true, if_false, LowWindow.access_bitmap, ha, hne, hreset]
  rw [hentry]
  refine ⟨?_, fun g hgD hgT => ?_⟩
  · rw [Function.update_self, Function.update_self]
  · rw [Function.update_of_ne hgT, Function.update_of_ne hgD, hother g hgT]
    rfl

end calls

/-- After `k` pages of the low window: the entries of its tables and the words of the tables, as far
as there were pages for tables. -/
structure Filled (s0 s : LowWindow) (D : Nat) (L : List Nat) (k : Nat) : Prop where
  entry : ∀ i, i < tables k → (h : i < L.length) →
    s.frames D (768 + i) = kernel_entry (L[i] * 4096)
  word : ∀ j, j < k → (h : j / 1024 < L.length) →
    s.frames L[j / 1024] (j % 1024) = kernel_entry (j * 4096)
  others : ∀ g, g ≠ D → g ∉ L → s.frames g = s0.frames g

theorem kernel_entry_present (physical : Nat) : present (kernel_entry physical) = true :=
  present_entry physical PAGE_READ_WRITE

theorem frameOf_kernel_entry (f : Nat) : frameOf (kernel_entry (f * 4096)) = f :=
  frameOf_entry f (by decide)

theorem Filled.turn {s0 s1 s : LowWindow} {D k : Nat} {L : List Nat} (hr : Ranged s1 s D 768 16 L k)
    (hf : Filled s0 s D L k) (hD : D ∉ L) (hL : L.Nodup) (hk : k < 16384) :
    Filled s0 (memory_paging_map_kernel s (u32 (0 + k * PAGE_SIZE))
      (u32 (KERNEL_VIRTUAL_SPACE_START + k * PAGE_SIZE)) PAGE_READ_WRITE).1 D L (k + 1) := by
  have hidx : page_directory_index (u32 (KERNEL_VIRTUAL_SPACE_START + k * PAGE_SIZE)) =
      768 + k / 1024 :=
    range_index (show KERNEL_VIRTUAL_SPACE_START = 768 * 0x400000 from rfl) (by omega)
  have hpti : page_table_index (u32 (KERNEL_VIRTUAL_SPACE_START + k * PAGE_SIZE)) = k % 1024 := by
    unfold PAGE_SIZE KERNEL_VIRTUAL_SPACE_START page_table_index
    rw [u32_of_lt (by omega)]
    omega
  have hphysical : u32 (0 + k * PAGE_SIZE) = k * 4096 := by
    unfold PAGE_SIZE
    rw [u32_of_lt (by omega)]
    omega
  rw [hphysical]
  generalize hv : u32 (KERNEL_VIRTUAL_SPACE_START + k * PAGE_SIZE) = virtual at *
  have hsame : ∀ i j, (hi : i < L.length) → (hj : j < L.length) → L[i] = L[j] → i = j :=
    fun i j _ _ he => (List.Nodup.getElem_inj_iff hL).mp he
  have hmem : ∀ i, (h : i < L.length) → L[i] ≠ D :=
    fun i h he => hD (he ▸ List.getElem_mem h)
  have hnew : ∀ j, j < k + 1 → j < k ∨ j = k := fun j hj => by omega
  have hout : ∀ g i, (h : i < L.length) → g ∉ L → g ≠ L[i] :=
    fun g i h hg he => hg (he ▸ List.getElem_mem h)
  rcases Nat.lt_or_ge (k / 1024) L.length with hlen | hlen
  · by_cases hold : k / 1024 < tables k
    · -- the table is there
      have htab : tables (k + 1) = tables k := by
        unfold tables at *
        omega
      have hpde := hf.entry (k / 1024) hold hlen
      rw [← hidx] at hpde
      have hframes := map_kernel_old_frames (k * 4096) hr.kernel hpde (kernel_entry_present _)
      rw [frameOf_kernel_entry, hpti] at hframes
      refine ⟨fun i hi h => ?_, fun j hj h => ?_, fun g hgD hg => ?_⟩ <;> rw [hframes]
      · rw [Function.update_of_ne (hmem _ hlen).symm]
        exact hf.entry i (by omega) h
      · by_cases htable : j / 1024 = k / 1024
        · simp only [htable, Function.update_self]
          rcases hnew j hj with hlt | rfl
          · rw [Function.update_of_ne (by omega)]
            have hword := hf.word j hlt h
            simp only [htable] at hword
            exact hword
          · exact Function.update_self ..
        · rw [Function.update_of_ne fun he => htable (hsame _ _ h hlen he)]
          exact hf.word j (by omega) h
      · rw [Function.update_of_ne (hout g _ hlen hg)]
        exact hf.others g hgD hg
    · -- the first page of a table
      have htab : tables k = k / 1024 ∧ tables (k + 1) = k / 1024 + 1 ∧ k % 1024 = 0 := by
        unfold tables at *
        omega
      have habsent := hr.absent (k / 1024) (by omega) (Or.inl (by omega))
      rw [← hidx] at habsent
      rcases allocate_first hr.order with ⟨hnone, -⟩ | ⟨T, rest, he, hpos, ha, -, -⟩
      · rw [hr.free, htab.1] at hnone
        have := List.drop_eq_nil_iff.mp hnone
        omega
      · have hT : T = L[k / 1024] := by
          rw [hr.free, htab.1, List.drop_eq_getElem_cons hlen] at he
          exact (List.cons.inj he).1.symm
        subst hT
        obtain ⟨hword, hother⟩ := map_kernel_new_frames (k * 4096) hr.kernel habsent hpos ha
        have hturn := map_kernel_new (k * 4096) hr.kernel habsent hpos ha (hmem _ hlen)
        rw [hpti] at hword
        refine ⟨fun i hi h => ?_, fun j hj h => ?_, fun g hgD hg => ?_⟩
        · by_cases hlast : i = k / 1024
          · subst hlast
            rw [← hidx]
            exact hturn.entry
          · rw [hturn.others (768 + i) (by omega)]
            exact hf.entry i (by omega) h
        · rcases hnew j hj with hlt | rfl
          · rw [hother _ (hmem _ h) fun he => absurd (hsame _ _ h hlen he) (by omega)]
            exact hf.word j hlt h
          · exact hword
        · rw [hother g hgD (hout g _ hlen hg)]
          exact hf.others g hgD hg
  · -- no page is left for the table
    have hnone : free_pages s.memory_bitmap = [] := by
      rw [hr.free]
      exact List.drop_eq_nil_of_le (by unfold tables; omega)
    have ha : memory_bitmap_allocate s.memory_bitmap = (s.memory_bitmap, 0) := by
      rcases allocate_first hr.order with ⟨-, he⟩ | ⟨T, rest, he, -⟩
      · exact he
      · rw [hnone] at he
        cases he
    have habsent := hr.absent (k / 1024) (by omega) (Or.inr hlen)
    rw [← hidx] at habsent
    have hframes := map_kernel_full_frames (k * 4096) hr.kernel habsent ha
    refine ⟨fun i hi h => ?_, fun j hj h => ?_, fun g hgD hg => ?_⟩ <;> rw [hframes]
    · refine hf.entry i ?_ h
      unfold tables at *
      omega
    · refine hf.word j ?_ h
      rcases hnew j hj with hlt | rfl
      · exact hlt
      · omega
    · exact hf.others g hgD hg

theorem higher_half_filled {s : LowWindow} {D : Nat} {L : List Nat} (h : Before s D 768 16 L)
    (hL : L.Nodup) : Filled s (memory_paging_map_higher_half s) D L 16384 := by
  have hpages : ∀ k ≤ 16384, Filled s (kernel_window.map_pages s 0 KERNEL_VIRTUAL_SPACE_START
      PAGE_READ_WRITE k) D L k := by
    intro k
    induction k with
    | zero =>
      intro _
      exact ⟨fun i hi => absurd hi (by unfold tables; omega), fun j hj => absurd hj (by omega),
        fun _ _ _ => rfl⟩
    | succ k ih =>
      intro hk
      have hr : Ranged s (kernel_window.map_pages s 0 KERNEL_VIRTUAL_SPACE_START PAGE_READ_WRITE k)
          D 768 16 L k := map_pages_ranged h (by omega) (by decide) k (by omega)
      unfold kernel_window.map_pages
      rw [List.range_succ, List.foldl_append]
      exact (ih (by omega)).turn hr h.apart hL (by omega)
  exact hpages 16384 le_rfl

/-! ## The kernel's directory -/

/-- The directory `D` that `memory_paging_create_kernel_page_directory` leaves, with its tables from
the pages `L`: sixteen entries for the low window, as far as there were pages, and its own. -/
structure Directory (s0 s : LowWindow) (D : Nat) (L : List Nat) : Prop where
  kernel : s.kernel_page_directory_phys = D * 4096
  entry : ∀ i, i < 16 → (h : i < L.length) → s.frames D (768 + i) = kernel_entry (L[i] * 4096)
  missing : ∀ i, i < 16 → L.length ≤ i → present (s.frames D (768 + i)) = false
  empty : ∀ j, j < 1023 → j < 768 ∨ 784 ≤ j → s.frames D j = 0
  itself : s.frames D 1023 = kernel_entry (D * 4096)
  word : ∀ j, j < 16384 → (h : j / 1024 < L.length) →
    s.frames L[j / 1024] (j % 1024) = kernel_entry (j * 4096)
  others : ∀ g, g ≠ D → g ∉ L → s.frames g = s0.frames g

theorem create_directory_spec {s : LowWindow} {D : Nat} {L : List Nat} (h : InOrder s.memory_bitmap)
    (hfree : free_pages s.memory_bitmap = D :: L) :
    Directory s (memory_paging_create_kernel_page_directory s).1 D L := by
  rcases allocate_first h with ⟨he, -⟩ | ⟨T, rest, he, hpos, ha, hrest, horder⟩
  · rw [hfree] at he
    cases he
  · rw [hfree] at he
    obtain ⟨rfl, rfl⟩ := List.cons.inj he
    have hsorted := free_pages_sorted s.memory_bitmap
    rw [hfree] at hsorted
    obtain ⟨hfirst, hL⟩ := List.pairwise_cons.mp hsorted
    have hDL : D ∉ L := fun hc => absurd (hfirst D hc) (by omega)
    have hne : ¬ D * 4096 = 0 := by omega
    obtain ⟨s1, h1, hb, hk, hother, hzero, -⟩ := reset_words
      ((s.setBitmap (memory_bitmap_allocate s.memory_bitmap).1).setKernel (D * 4096)) D 1024
    have hreset : kernel_window.memory_paging_reset_entry ((s.setBitmap
      (memory_bitmap_allocate s.memory_bitmap).1).setKernel (D * 4096)) (D * 4096) = s1 := h1
    have hbefore : Before s1 D 768 16 L := by
      refine ⟨hk, hb ▸ horder, hb ▸ hrest, hDL, fun i hi => ?_⟩
      rw [hzero (768 + i) (by omega)]
      rfl
    have hr := higher_half_ranged hbefore
    have hf := higher_half_filled hbefore (hL.imp fun hlt => Nat.ne_of_lt hlt)
    unfold memory_paging_create_kernel_page_directory
    simp only [ha, hne, if_false, hreset]
    generalize memory_paging_map_higher_half s1 = s2 at hr hf ⊢
    have hframes : (s2.store (D * 4096) 1023
        (D * 4096 ||| PAGE_PRESENT ||| PAGE_READ_WRITE)).frames =
        Function.update s2.frames D (Function.update (s2.frames D) 1023
          (D * 4096 ||| PAGE_PRESENT ||| PAGE_READ_WRITE)) := by
      unfold LowWindow.store
      rw [frameOf_page]
    have hentries : ∀ j, j ≠ 1023 → (s2.store (D * 4096) 1023
        (D * 4096 ||| PAGE_PRESENT ||| PAGE_READ_WRITE)).frames D j = s2.frames D j := by
      intro j hj
      rw [hframes, Function.update_self, Function.update_of_ne hj]
    refine ⟨?_, fun i hi hlen => ?_, fun i hi hlen => ?_, fun j hj hside => ?_, ?_,
      fun j hj hlen => ?_, fun g hgD hg => ?_⟩
    · rw [LowWindow.store_kernel, hr.kernel]
    · rw [hentries _ (by omega)]
      exact hf.entry i (by unfold tables; omega) hlen
    · rw [hentries _ (by omega)]
      exact hr.absent i hi (Or.inr hlen)
    · rw [hentries _ (by omega), hr.others j (by omega)]
      exact hzero j (by omega)
    · rw [hframes, Function.update_self, Function.update_self, Nat.or_assoc,
        Nat.or_comm PAGE_PRESENT, ← Nat.or_assoc]
      rfl
    · have hmem : L[j / 1024] ≠ D := fun he => hDL (he ▸ List.getElem_mem hlen)
      rw [hframes, Function.update_of_ne hmem]
      exact hf.word j hj hlen
    · rw [hframes, Function.update_of_ne hgD, hf.others g hgD hg]
      exact hother g hgD

/-- An entry of the kernel shows no large page. -/
theorem kernel_entry_small (f : Nat) : kernel_entry (f * 4096) &&& PAGE_4MB = 0 := by
  have heq : kernel_entry (f * 4096) = f * 4096 + 3 := by
    unfold kernel_entry
    have hflags : f * 4096 ||| PAGE_READ_WRITE ||| PAGE_PRESENT = f <<< 12 ||| 3 := by
      rw [Nat.or_assoc, Nat.shiftLeft_eq]
      rfl
    rw [hflags, ← Nat.shiftLeft_add_eq_or_of_lt (by decide), Nat.shiftLeft_eq]
  have hbit : (f * 4096 + 3).testBit 7 = false := by
    rw [Nat.testBit_eq_decide_div_mod_eq]
    simp
    omega
  rw [heq, show PAGE_4MB = 2 ^ 7 from rfl, Nat.and_two_pow, hbit]
  rfl

section walks

variable {s0 : LowWindow} {D : Nat} {L : List Nat}

/-- An address whose entry of the directory is a table `T`. -/
theorem translate_table {T v : Nat} (hpde : p.window.frames (frameOf p.cr3)
    (page_directory_index v) = kernel_entry (T * 4096)) {f : Nat}
    (hpte : p.window.frames T (page_table_index v) = kernel_entry (f * 4096)) :
    translate p v = some (f * 4096 + v % 4096) := by
  unfold translate
  simp only [hpde, kernel_entry_present, kernel_entry_small, frameOf_kernel_entry, hpte]
  simp

/-- Below the tables the kernel's directory shows the low window, as far as it has tables, and
nothing else. -/
theorem Directory.translate_eq (h : Directory s0 p.window D L) (hcr3 : p.cr3 = D * 4096) {v : Nat}
    (hv : v < 0xFFC00000) :
    translate p v =
      if KERNEL_VIRTUAL_SPACE_START ≤ v ∧
          v < KERNEL_VIRTUAL_SPACE_START + 0x400000 * min 16 L.length then
        some (v - KERNEL_VIRTUAL_SPACE_START)
      else none := by
  have hdirectory : frameOf p.cr3 = D := by
    rw [hcr3]
    exact frameOf_page D
  have hindex : page_directory_index v = v / 0x400000 := by
    unfold page_directory_index
    omega
  have habsent : present (p.window.frames D (v / 0x400000)) = false → translate p v = none := by
    intro hp
    unfold translate
    simp only [hdirectory, hindex, hp, Bool.not_false, if_true]
  unfold KERNEL_VIRTUAL_SPACE_START
  by_cases hin : 0xC0000000 ≤ v ∧ v < 0xC0000000 + 0x400000 * min 16 L.length
  · have hi : (v - 0xC0000000) / 4096 / 1024 < L.length := by omega
    have hpde := h.entry _ (show (v - 0xC0000000) / 4096 / 1024 < 16 by omega) hi
    have hpte := h.word ((v - 0xC0000000) / 4096) (by omega) hi
    have hpdi : 768 + (v - 0xC0000000) / 4096 / 1024 = page_directory_index v := by omega
    have hpti : (v - 0xC0000000) / 4096 % 1024 = page_table_index v := by
      unfold page_table_index
      omega
    rw [hpdi, ← hdirectory] at hpde
    rw [hpti] at hpte
    have haddress : (v - 0xC0000000) / 4096 * 4096 + v % 4096 = v - 0xC0000000 := by omega
    rw [if_pos hin, translate_table hpde hpte, haddress]
  · rw [if_neg hin]
    apply habsent
    by_cases hwindow : 768 ≤ v / 0x400000 ∧ v / 0x400000 < 784
    · have hj : 768 + (v / 0x400000 - 768) = v / 0x400000 := by omega
      have hmissing := h.missing (v / 0x400000 - 768) (by omega) (by omega)
      rwa [hj] at hmissing
    · rw [h.empty (v / 0x400000) (by omega) (by omega)]
      rfl

/-- In the last tables of the address space each table of the directory is to be seen. -/
theorem Directory.translate_table_eq (h : Directory s0 p.window D L) (hcr3 : p.cr3 = D * 4096)
    {i k : Nat} (hi : i < 16) (hlen : i < L.length) (hk : k < 4096) :
    translate p (PAGE_TABLE_VADDR (768 + i) + k) = some (L[i] * 4096 + k) := by
  have hpdi : page_directory_index (PAGE_TABLE_VADDR (768 + i) + k) = 1023 := by
    unfold PAGE_TABLE_VADDR page_directory_index
    omega
  have hpti : page_table_index (PAGE_TABLE_VADDR (768 + i) + k) = 768 + i := by
    unfold PAGE_TABLE_VADDR page_table_index
    omega
  have hrest : (PAGE_TABLE_VADDR (768 + i) + k) % 4096 = k := by
    unfold PAGE_TABLE_VADDR
    omega
  have hpde : p.window.frames (frameOf p.cr3) 1023 = kernel_entry (D * 4096) := by
    rw [hcr3, frameOf_page]
    exact h.itself
  rw [← hpdi] at hpde
  have hpte := h.entry i hi hlen
  rw [← hpti] at hpte
  rw [translate_table hpde hpte, hrest]

theorem Directory.translate_directory_eq (h : Directory s0 p.window D L) (hcr3 : p.cr3 = D * 4096)
    {k : Nat} (hk : k < 4096) : translate p (PAGE_DIRECTORY_VADDR + k) = some (D * 4096 + k) := by
  have hpdi : page_directory_index (PAGE_DIRECTORY_VADDR + k) = 1023 := by
    unfold PAGE_DIRECTORY_VADDR page_directory_index
    omega
  have hpti : page_table_index (PAGE_DIRECTORY_VADDR + k) = 1023 := by
    unfold PAGE_DIRECTORY_VADDR page_table_index
    omega
  have hrest : (PAGE_DIRECTORY_VADDR + k) % 4096 = k := by
    unfold PAGE_DIRECTORY_VADDR
    omega
  have hpde : p.window.frames (frameOf p.cr3) 1023 = kernel_entry (D * 4096) := by
    rw [hcr3, frameOf_page]
    exact h.itself
  have hpte := h.itself
  rw [← hpdi] at hpde
  rw [← hpti] at hpte
  rw [translate_table hpde hpte, hrest]

end walks

/-! ## The switch -/

section boot

variable {multiboot : multiboot_info_t} {entries : Nat → Nat} {frames : Nat → Nat → Nat}
  {B : Nat}

/-- The first directory lies in the image of the kernel, which is not given away. -/
theorem kernel_image_kept (hB : LocksBytes multiboot.kernel_physical_start
    multiboot.kernel_physical_end B) : B ∉ pages_at_boot multiboot := by
  intro hmem
  unfold pages_at_boot at hmem
  rw [List.mem_filter, decide_eq_true_iff] at hmem
  exact hmem.2.2 (Or.inr (Or.inr (Or.inl hB)))

theorem boot_directory {D : Nat} {L : List Nat} (hlist : pages_at_boot multiboot = D :: L) :
    Directory (boot_start multiboot entries frames)
      (memory_paging_create_kernel_page_directory (boot_start multiboot entries frames)).1 D L :=
  create_directory_spec (boot_in_order multiboot entries)
    ((free_pages_at_boot multiboot entries).trans hlist)

/-- As long as the first directory is loaded, the low window is where it is. -/
theorem first_window (hpse : p.pse = true)
    (hwords : p.window.frames (frameOf p.cr3) = setup_bootstrap_paging words) {v : Nat}
    (hv : KERNEL_VIRTUAL_SPACE_START ≤ v)
    (hv' : v < KERNEL_VIRTUAL_SPACE_START + KERNEL_LOW_WINDOW_SIZE) :
    translate p v = some (v - KERNEL_VIRTUAL_SPACE_START) := by
  have hlow : ¬ v < KERNEL_LOW_WINDOW_SIZE := by
    unfold KERNEL_LOW_WINDOW_SIZE KERNEL_VIRTUAL_SPACE_START at *
    omega
  have hlt : v < 0x100000000 := by
    unfold KERNEL_LOW_WINDOW_SIZE KERNEL_VIRTUAL_SPACE_START at *
    omega
  rw [first_translate hpse hwords hlt, if_neg hlow, if_pos ⟨hv, hv'⟩]

/-- With all its tables the kernel's directory has the low window where it was. -/
theorem Directory.window_eq {s0 : LowWindow} {D : Nat} {L : List Nat}
    (h : Directory s0 p.window D L) (hcr3 : p.cr3 = D * 4096) (hlen : 16 ≤ L.length) {v : Nat}
    (hv : KERNEL_VIRTUAL_SPACE_START ≤ v)
    (hv' : v < KERNEL_VIRTUAL_SPACE_START + KERNEL_LOW_WINDOW_SIZE) :
    translate p v = some (v - KERNEL_VIRTUAL_SPACE_START) := by
  have hlt : v < 0xFFC00000 := by
    unfold KERNEL_VIRTUAL_SPACE_START KERNEL_LOW_WINDOW_SIZE at hv'
    omega
  have hall : min 16 L.length = 16 := by omega
  rw [h.translate_eq hcr3 hlt, hall, if_pos ⟨hv, hv'⟩]

/-- The bytes of a low page, in the window. -/
theorem low_address {f k : Nat} (hf : Low f) (hk : k < 4096) :
    KERNEL_VIRTUAL_SPACE_START + (f * 4096 + k) <
      KERNEL_VIRTUAL_SPACE_START + KERNEL_LOW_WINDOW_SIZE := by
  unfold Low PAGE_SIZE at hf
  unfold KERNEL_LOW_WINDOW_SIZE at *
  omega

/-- The kernel runs on at the addresses at which it ran. While it makes its own directory it reaches
every page that it means; and each of the calls that bring the directory in leaves the low window
where it is, if and only if there are pages for the directory and its sixteen tables. -/
theorem the_switch_moves_nothing
    (hB : LocksBytes multiboot.kernel_physical_start multiboot.kernel_physical_end B)
    (hframes : frames B = setup_bootstrap_paging words) (hpages : pages_at_boot multiboot ≠ [])
    (hlow : ∀ f ∈ (pages_at_boot multiboot).take 17, Low f) :
    (∀ f ∈ (create_directory (first_processor multiboot entries frames B)).window.accessed,
      ∀ k < 4096, translate (first_processor multiboot entries frames B)
        (KERNEL_VIRTUAL_SPACE_START + (f * 4096 + k)) = some (f * 4096 + k)) ∧
    ((∀ p ∈ module_init_steps (first_processor multiboot entries frames B), ∀ v,
        KERNEL_VIRTUAL_SPACE_START ≤ v →
        v < KERNEL_VIRTUAL_SPACE_START + KERNEL_LOW_WINDOW_SIZE →
        translate p v = translate (first_processor multiboot entries frames B) v) ↔
      17 ≤ (pages_at_boot multiboot).length) := by
  have hkept := kernel_image_kept hB
  have hfirst : ∀ v, KERNEL_VIRTUAL_SPACE_START ≤ v →
      v < KERNEL_VIRTUAL_SPACE_START + KERNEL_LOW_WINDOW_SIZE →
      translate (first_processor multiboot entries frames B) v =
        some (v - KERNEL_VIRTUAL_SPACE_START) := by
    intro v
    have hwords : frames (frameOf (B * 4096)) = setup_bootstrap_paging words := by
      rw [frameOf_page]
      exact hframes
    exact first_window rfl hwords
  cases hlist : pages_at_boot multiboot with
  | nil => exact absurd hlist hpages
  | cons D L =>
    rw [hlist, List.mem_cons, not_or] at hkept
    rw [hlist] at hlow
    have hdirectory : Directory (boot_start multiboot entries frames)
        (create_directory (first_processor multiboot entries frames B)).window D L :=
      boot_directory hlist
    have hcreated : Created (create_directory (first_processor multiboot entries frames B)).window
        D L := (create_spec (boot_in_order multiboot entries)
      ((free_pages_at_boot multiboot entries).trans hlist) rfl).2
    refine ⟨fun f hf k hk => ?_, fun hall => ?_, fun hlen q hq v hv hv' => ?_⟩
    · have hf' : Low f := by
        apply hlow
        rw [List.take_succ_cons, List.mem_cons]
        exact (hcreated.accessed f).mp hf
      rw [hfirst _ (Nat.le_add_right ..) (low_address hf' hk), Nat.add_sub_cancel_left]
    · -- a table that is missing would begin the page after the last one
      by_contra hshort
      rw [List.length_cons] at hshort
      have hin : KERNEL_VIRTUAL_SPACE_START + 0x400000 * L.length <
          KERNEL_VIRTUAL_SPACE_START + KERNEL_LOW_WINDOW_SIZE := by
        unfold KERNEL_LOW_WINDOW_SIZE
        omega
      have hlt : KERNEL_VIRTUAL_SPACE_START + 0x400000 * L.length < 0xFFC00000 := by
        unfold KERNEL_VIRTUAL_SPACE_START
        omega
      have hmoved := hall (memory_paging_module_init (first_processor multiboot entries frames B))
        (by simp [module_init_steps]) _ (Nat.le_add_right ..) hin
      have hfinal : Directory (boot_start multiboot entries frames) (memory_paging_module_init
        (first_processor multiboot entries frames B)).window D L := hdirectory
      rw [hfirst _ (Nat.le_add_right ..) hin, hfinal.translate_eq hdirectory.kernel hlt,
        if_neg (by omega)] at hmoved
      cases hmoved
    · have hlen' : 16 ≤ L.length := by
        rw [List.length_cons] at hlen
        omega
      rw [hfirst v hv hv']
      unfold module_init_steps at hq
      simp only [List.mem_cons, List.not_mem_nil, or_false] at hq
      rcases hq with rfl | rfl | rfl
      · -- the directory is made, and not yet loaded
        have hwords : (create_directory (first_processor multiboot entries frames B)).window.frames
            (frameOf (B * 4096)) = setup_bootstrap_paging words := by
          rw [frameOf_page]
          exact (hdirectory.others B hkept.1 hkept.2).trans hframes
        exact first_window rfl hwords hv hv'
      · exact hdirectory.window_eq (p := memory_paging_set _ _) hdirectory.kernel hlen' hv hv'
      · exact hdirectory.window_eq (p := memory_paging_module_init _) hdirectory.kernel hlen' hv
          hv'

/-- Then nothing is mapped below the tables but the low window, and the tables that the last entries
show are the ones that the kernel reaches in the window. -/
theorem the_kernel_maps_only_its_window (hlow : ∀ f ∈ (pages_at_boot multiboot).take 17, Low f)
    (hlen : 17 ≤ (pages_at_boot multiboot).length) :
    let p := memory_paging_module_init (first_processor multiboot entries frames B)
    (∀ v < 0xFFC00000, translate p v =
      if KERNEL_VIRTUAL_SPACE_START ≤ v ∧
          v < KERNEL_VIRTUAL_SPACE_START + KERNEL_LOW_WINDOW_SIZE then
        some (v - KERNEL_VIRTUAL_SPACE_START)
      else none) ∧
    ∀ k < 4096,
      translate p (PAGE_DIRECTORY_VADDR + k) =
        translate p (KERNEL_VIRTUAL_SPACE_START + (p.cr3 + k)) ∧
      ∀ i < 16, translate p (PAGE_TABLE_VADDR (768 + i) + k) =
        translate p (KERNEL_VIRTUAL_SPACE_START +
          (ALIGN_DOWN (p.window.frames (frameOf p.cr3) (768 + i)) + k)) := by
  cases hlist : pages_at_boot multiboot with
  | nil =>
    rw [hlist] at hlen
    cases hlen
  | cons D L =>
    rw [hlist] at hlow hlen
    rw [List.length_cons] at hlen
    intro p
    have hdirectory : Directory (boot_start multiboot entries frames) p.window D L :=
      boot_directory hlist
    have hcr3 : p.cr3 = D * 4096 := hdirectory.kernel
    have hwindow : ∀ f ∈ (D :: L).take 17, ∀ k < 4096,
        translate p (KERNEL_VIRTUAL_SPACE_START + (f * 4096 + k)) = some (f * 4096 + k) := by
      intro f hf k hk
      rw [hdirectory.window_eq hcr3 (by omega) (Nat.le_add_right ..) (low_address (hlow f hf) hk),
        Nat.add_sub_cancel_left]
    refine ⟨fun v hv => ?_, fun k hk => ⟨?_, fun i hi => ?_⟩⟩
    · have hall : min 16 L.length = 16 := by omega
      rw [hdirectory.translate_eq hcr3 hv, hall]
      rfl
    · rw [hdirectory.translate_directory_eq hcr3 hk, hcr3, hwindow D List.mem_cons_self k hk]
    · have hi' : i < L.length := by omega
      have hmem : L[i] ∈ (D :: L).take 17 := by
        rw [List.take_succ_cons]
        exact List.mem_cons_of_mem _ (List.mem_take_iff_getElem.mpr ⟨i, by omega, rfl⟩)
      rw [hdirectory.translate_table_eq hcr3 hi hi' hk, hcr3, frameOf_page,
        hdirectory.entry i hi hi', align_frame, frameOf_kernel_entry, hwindow _ hmem k hk]

end boot

theorem small_size_lt : 0x120000 < 0x10000000000000000 := by decide

theorem small_image_lt : 0x102000 < 0x100000000 := by decide

/-- 288 pages, of which 29 are free, and a kernel of two pages. -/
def smallMemory : multiboot_info_t where
  mmap := [⟨0, 0x120000, 1, first_address_lt, small_size_lt⟩]
  mods := []
  kernel_physical_start := 0x100000
  kernel_physical_end := 0x102000
  kernel_start_lt := oneExtraPage.kernel_start_lt
  kernel_end_lt := small_image_lt

theorem small_memory_pages : (pages_at_boot smallMemory).length = 29 := by decide +kernel

theorem small_memory_low : ∀ f ∈ (pages_at_boot smallMemory).take 17, Low f := by
  intro f hf
  have hmem := List.mem_of_mem_take hf
  have hpages : bitmap_pages_of smallMemory = 288 := by decide
  unfold pages_at_boot at hmem
  rw [List.mem_filter, List.mem_range, hpages] at hmem
  unfold Low PAGE_SIZE KERNEL_LOW_WINDOW_SIZE
  omega

/-- The first directory, whatever page is looked at. -/
def smallFrames (_ : Nat) : Nat → Nat := setup_bootstrap_paging fun _ => 0

/-- The processor of a boot with a small memory. -/
def smallProcessor : processor_t := first_processor smallMemory (fun _ => 0) smallFrames 0x101

theorem a_small_kernel_runs_on :
    17 ≤ (pages_at_boot smallMemory).length ∧
      ∀ p ∈ module_init_steps smallProcessor, ∀ v, KERNEL_VIRTUAL_SPACE_START ≤ v →
        v < KERNEL_VIRTUAL_SPACE_START + KERNEL_LOW_WINDOW_SIZE →
        translate p v = translate smallProcessor v := by
  have hlen : 17 ≤ (pages_at_boot smallMemory).length := by
    rw [small_memory_pages]
    decide
  have hB : LocksBytes smallMemory.kernel_physical_start smallMemory.kernel_physical_end 0x101 := by
    decide
  have hframes : smallFrames 0x101 = setup_bootstrap_paging fun _ => 0 := rfl
  have hpages : pages_at_boot smallMemory ≠ [] := List.ne_nil_of_length_pos (by omega)
  have hlaw := @the_switch_moves_nothing _ smallMemory (fun _ => 0) smallFrames 0x101 hB hframes
    hpages small_memory_low
  exact ⟨hlen, hlaw.2.mpr hlen⟩

/-- The second entry of the directory, in the last page and in the window. -/
theorem a_small_directory_is_seen_twice :
    translate (memory_paging_module_init smallProcessor) (PAGE_DIRECTORY_VADDR + 4) =
      translate (memory_paging_module_init smallProcessor)
        (KERNEL_VIRTUAL_SPACE_START + ((memory_paging_module_init smallProcessor).cr3 + 4)) := by
  have hlen : 17 ≤ (pages_at_boot smallMemory).length := by
    rw [small_memory_pages]
    decide
  have hlaw := @the_kernel_maps_only_its_window smallMemory (fun _ => 0) smallFrames 0x101
    small_memory_low hlen
  have hprocessor : smallProcessor =
      first_processor smallMemory (fun _ => 0) smallFrames 0x101 := rfl
  rw [hprocessor]
  exact (hlaw.2 4 (by decide)).1

end alura_os.bootstrap
