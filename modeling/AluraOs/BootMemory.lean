-- The frame allocator at boot (`memory_bitmap_module_init`): the memory map of
-- the boot loader says which pages are free, and the lock functions take back
-- what is in use. What a write to the bitmap does is a parameter here, so that
-- the same functions also tell at which pages they write.
import AluraOs.FramePool

namespace alura_os.memory_bitmap

open alura_os.memory

/-! ## What the boot loader hands over -/

def MULTIBOOT_MEMORY_AVAILABLE : Nat := 1

structure multiboot_memory_map_t where
  addr : Nat
  len : Nat
  type : Nat
  addr_lt : addr < 0x10000000000000000
  len_lt : len < 0x10000000000000000

structure multiboot_module_t where
  mod_start : Nat
  mod_end : Nat
  start_lt : mod_start < 0x100000000
  end_lt : mod_end < 0x100000000

/-- The entries of `mmap_addr` and `mods_addr`, and the addresses of the kernel image. -/
structure multiboot_info_t where
  mmap : List multiboot_memory_map_t
  mods : List multiboot_module_t
  kernel_physical_start : Nat
  kernel_physical_end : Nat
  kernel_start_lt : kernel_physical_start < 0x100000000
  kernel_end_lt : kernel_physical_end < 0x100000000

/-- The value that a `uint64_t` keeps of a result. -/
def u64 (n : Nat) : Nat := n % 0x10000000000000000

/-! ## The functions -/

section writes

variable {σ : Type} (set clear : σ → Nat → σ)

/-- `for (; page < last_page; ++page)` -/
def for_pages (write : σ → Nat → σ) (s : σ) (page last_page : Nat) : σ :=
  (List.range' page (last_page - page)).foldl write s

def memory_bitmap_lock_first_megabyte (s : σ) : σ := for_pages set s 0 (0x100000 / PAGE_SIZE)

def memory_bitmap_lock_multiboot_modules (s : σ) (multiboot : multiboot_info_t) : σ :=
  multiboot.mods.foldl (fun s mod =>
    for_pages set s (mod.mod_start / PAGE_SIZE) (u32 (mod.mod_end + PAGE_SIZE - 1) / PAGE_SIZE)) s

def memory_bitmap_lock_kernel (s : σ) (multiboot : multiboot_info_t) : σ :=
  for_pages set s (multiboot.kernel_physical_start / PAGE_SIZE)
    (u32 (multiboot.kernel_physical_end + PAGE_SIZE - 1) / PAGE_SIZE)

def memory_bitmap_lock_bitmap (s : σ) (multiboot : multiboot_info_t) (pages : Nat) : σ :=
  let bitmap_phys_start := ALIGN_UP multiboot.kernel_physical_end
  let bitmap_size_bytes := ALIGN_UP (pages / 8)
  let bitmap_pages := bitmap_size_bytes / PAGE_SIZE
  let start_page := bitmap_phys_start / PAGE_SIZE
  for_pages set s start_page (start_page + bitmap_pages)

/-- The first loop: `region_end` is a `size_t`, so it keeps the low half of a 64-bit sum. -/
def total_memory_bytes (multiboot : multiboot_info_t) : Nat :=
  multiboot.mmap.foldl (fun total_memory_bytes memory_map =>
    let region_end := u32 (memory_map.len + memory_map.addr)
    if region_end > total_memory_bytes then region_end else total_memory_bytes) 0

/-- `memory_bitmap.pages` -/
def bitmap_pages_of (multiboot : multiboot_info_t) : Nat := total_memory_bytes multiboot / PAGE_SIZE

/-- One turn of the loop that clears the available regions. Both indices are a `size_t`. -/
def memory_bitmap_clear_region (s : σ) (memory_map : multiboot_memory_map_t) : σ :=
  if memory_map.type = MULTIBOOT_MEMORY_AVAILABLE then
    for_pages clear s (u32 (memory_map.addr / PAGE_SIZE))
      (u32 (u64 (memory_map.addr + memory_map.len + PAGE_SIZE - 1) / PAGE_SIZE))
  else s

/-- The writes of `memory_bitmap_module_init`, in order. -/
def memory_bitmap_fill (s : σ) (multiboot : multiboot_info_t) : σ :=
  let pages := bitmap_pages_of multiboot
  let s := for_pages set s 0 pages
  let s := multiboot.mmap.foldl (memory_bitmap_clear_region clear) s
  let s := memory_bitmap_lock_first_megabyte set s
  let s := memory_bitmap_lock_multiboot_modules set s multiboot
  let s := memory_bitmap_lock_kernel set s multiboot
  memory_bitmap_lock_bitmap set s multiboot pages

end writes

theorem total_memory_bytes_lt (multiboot : multiboot_info_t) :
    total_memory_bytes multiboot < 0x100000000 := by
  unfold total_memory_bytes
  have hstep : ∀ (regions : List multiboot_memory_map_t) (total : Nat), total < 0x100000000 →
      regions.foldl (fun total_memory_bytes memory_map =>
        let region_end := u32 (memory_map.len + memory_map.addr)
        if region_end > total_memory_bytes then region_end else total_memory_bytes) total <
      0x100000000 := by
    intro regions
    induction regions with
    | nil => exact fun _ h => h
    | cons r rs ih =>
      intro total h
      rw [List.foldl_cons]
      apply ih
      have := u32_lt (r.len + r.addr)
      dsimp only
      split <;> omega
  exact hstep _ 0 (by decide)

/-- `memory_bitmap_module_init`, on the words that the storage happens to hold. -/
def memory_bitmap_module_init (entries : Nat → Nat) (multiboot : multiboot_info_t) :
    memory_bitmap_t where
  entries := memory_bitmap_fill BITMAP_SET BITMAP_CLEAR entries multiboot
  pages := bitmap_pages_of multiboot
  last_allocated_page_index := 0
  pages_lt := by
    have := total_memory_bytes_lt multiboot
    unfold bitmap_pages_of PAGE_SIZE
    omega
  last_le := Nat.zero_le _

/-! ## Loops over pages -/

section loops

variable {σ : Type} {write : σ → Nat → σ} {Q : σ → Prop} {j : Nat}

/-- A loop that only adds the page `j` to what holds. -/
theorem for_pages_adds (h : ∀ s p, Q (write s p) ↔ j = p ∨ Q s) (s : σ) (a b : Nat) :
    Q (for_pages write s a b) ↔ (a ≤ j ∧ j < b) ∨ Q s := by
  have hrange : ∀ (n a : Nat) (s : σ),
      Q ((List.range' a n).foldl write s) ↔ (a ≤ j ∧ j < a + n) ∨ Q s := by
    intro n
    induction n with
    | zero =>
      intro a s
      simp only [List.range'_zero, List.foldl_nil, Nat.add_zero]
      exact ⟨Or.inr, fun hc => hc.resolve_left (by omega)⟩
    | succ n ih =>
      intro a s
      rw [List.range'_succ, List.foldl_cons, ih, h]
      constructor
      · rintro (⟨h1, h2⟩ | rfl | hq)
        · exact Or.inl ⟨by omega, by omega⟩
        · exact Or.inl ⟨by omega, by omega⟩
        · exact Or.inr hq
      · rintro (⟨h1, h2⟩ | hq)
        · by_cases hj : j = a
          · exact Or.inr (Or.inl hj)
          · exact Or.inl ⟨by omega, by omega⟩
        · exact Or.inr (Or.inr hq)
  unfold for_pages
  rw [hrange]
  constructor
  · rintro (⟨h1, h2⟩ | hq)
    · exact Or.inl ⟨h1, by omega⟩
    · exact Or.inr hq
  · rintro (⟨h1, h2⟩ | hq)
    · exact Or.inl ⟨h1, by omega⟩
    · exact Or.inr hq

/-- A loop that only takes the page `j` away. -/
theorem for_pages_removes (h : ∀ s p, Q (write s p) ↔ j ≠ p ∧ Q s) (s : σ) (a b : Nat) :
    Q (for_pages write s a b) ↔ ¬ (a ≤ j ∧ j < b) ∧ Q s := by
  have hnot : ∀ s p, ¬ Q (write s p) ↔ j = p ∨ ¬ Q s := by
    intro s p
    rw [h, not_and_or, not_not]
  have := for_pages_adds (Q := fun s => ¬ Q s) hnot s a b
  rw [← not_iff_not, this]
  tauto

/-- A loop over a list whose turns only add. -/
theorem foldl_adds {α : Type} {f : σ → α → σ} {P : α → Prop}
    (h : ∀ s x, Q (f s x) ↔ P x ∨ Q s) (xs : List α) (s : σ) :
    Q (xs.foldl f s) ↔ (∃ x ∈ xs, P x) ∨ Q s := by
  induction xs generalizing s with
  | nil => simp
  | cons x xs ih =>
    rw [List.foldl_cons, ih, h]
    simp only [List.mem_cons, exists_eq_or_imp]
    generalize (∃ x ∈ xs, P x) = later
    tauto

end loops

/-! ## The pages of each area -/

/-- The page `p` is cleared for the region. -/
def Clears (r : multiboot_memory_map_t) (p : Nat) : Prop :=
  r.type = MULTIBOOT_MEMORY_AVAILABLE ∧ u32 (r.addr / 4096) ≤ p ∧
    p < u32 (u64 (r.addr + r.len + 4095) / 4096)

/-- The page `p` is cleared for some region. -/
def Cleared (multiboot : multiboot_info_t) (p : Nat) : Prop := ∃ r ∈ multiboot.mmap, Clears r p

/-- The pages that a lock function takes for the bytes from `first` to `last`. -/
def LocksBytes (first last p : Nat) : Prop := first / 4096 ≤ p ∧ p < u32 (last + 4095) / 4096

/-- The first page of the bitmap. -/
def bitmap_start (multiboot : multiboot_info_t) : Nat :=
  ALIGN_UP multiboot.kernel_physical_end / 4096

/-- The page `p` is locked by one of the lock functions. -/
def Locked (multiboot : multiboot_info_t) (p : Nat) : Prop :=
  p < 256 ∨ (∃ mod ∈ multiboot.mods, LocksBytes mod.mod_start mod.mod_end p) ∨
    LocksBytes multiboot.kernel_physical_start multiboot.kernel_physical_end p ∨
    bitmap_start multiboot ≤ p ∧
      p < bitmap_start multiboot + ALIGN_UP (bitmap_pages_of multiboot / 8) / 4096

/-- What the lock functions add. -/
theorem locks_add {σ : Type} {set : σ → Nat → σ} {Q : σ → Prop} {j : Nat}
    (h : ∀ s p, Q (set s p) ↔ j = p ∨ Q s) (s : σ) (multiboot : multiboot_info_t) :
    Q (memory_bitmap_lock_bitmap set (memory_bitmap_lock_kernel set
      (memory_bitmap_lock_multiboot_modules set (memory_bitmap_lock_first_megabyte set s)
        multiboot) multiboot) multiboot (bitmap_pages_of multiboot)) ↔
      Locked multiboot j ∨ Q s := by
  unfold memory_bitmap_lock_bitmap memory_bitmap_lock_kernel memory_bitmap_lock_multiboot_modules
    memory_bitmap_lock_first_megabyte Locked LocksBytes bitmap_start PAGE_SIZE
  have hsub : ∀ n : Nat, n + 4096 - 1 = n + 4095 := fun _ => rfl
  have hmods := foldl_adds (Q := Q)
    (fun s (mod : multiboot_module_t) => for_pages_adds h s (mod.mod_start / 4096)
      (u32 (mod.mod_end + 4095) / 4096))
    multiboot.mods (for_pages set s 0 (0x100000 / 4096))
  simp only [hsub]
  rw [for_pages_adds h, for_pages_adds h, hmods, for_pages_adds h]
  simp only [Nat.zero_le, true_and, Nat.reduceDiv]
  generalize (∃ mod ∈ multiboot.mods, mod.mod_start / 4096 ≤ j ∧
    j < u32 (mod.mod_end + 4095) / 4096) = modules
  generalize (j < 256) = megabyte
  clear hmods
  tauto

/-- The bits after the boot. -/
theorem used_after_init (entries : Nat → Nat) (multiboot : multiboot_info_t) {p : Nat}
    (hp : p < bitmap_pages_of multiboot) :
    Used (memory_bitmap_module_init entries multiboot) p ↔
      ¬ Cleared multiboot p ∨ Locked multiboot p := by
  have hset : ∀ (e : Nat → Nat) q, BITMAP_TEST (BITMAP_SET e q) p ≠ 0 ↔
      p = q ∨ BITMAP_TEST e p ≠ 0 := fun e q => test_set e q p
  have hclear : ∀ (e : Nat → Nat) q, BITMAP_TEST (BITMAP_CLEAR e q) p ≠ 0 ↔
      p ≠ q ∧ BITMAP_TEST e p ≠ 0 := fun e q => test_clear e q p
  have hregion : ∀ (e : Nat → Nat) (r : multiboot_memory_map_t),
      ¬ BITMAP_TEST (memory_bitmap_clear_region BITMAP_CLEAR e r) p ≠ 0 ↔
        Clears r p ∨ ¬ BITMAP_TEST e p ≠ 0 := by
    intro e r
    unfold memory_bitmap_clear_region Clears
    split
    · rename_i htype
      rw [for_pages_removes (Q := fun e => BITMAP_TEST e p ≠ 0) hclear]
      have hsub : r.addr + r.len + PAGE_SIZE - 1 = r.addr + r.len + 4095 := rfl
      rw [hsub]
      unfold PAGE_SIZE
      tauto
    · rename_i htype
      tauto
  have hregions := foldl_adds (Q := fun e => ¬ BITMAP_TEST e p ≠ 0) hregion multiboot.mmap
    (for_pages BITMAP_SET entries 0 (bitmap_pages_of multiboot))
  rw [show (∃ r ∈ multiboot.mmap, Clears r p) = Cleared multiboot p from rfl] at hregions
  have hall := (for_pages_adds (Q := fun e => BITMAP_TEST e p ≠ 0) hset entries 0
    (bitmap_pages_of multiboot)).mpr (Or.inl ⟨Nat.zero_le p, hp⟩)
  unfold Used memory_bitmap_module_init memory_bitmap_fill
  rw [locks_add (Q := fun e => BITMAP_TEST e p ≠ 0) hset]
  tauto

/-- The pages that the boot writes to. -/
def boot_writes (multiboot : multiboot_info_t) : List Nat :=
  memory_bitmap_fill (fun log p => p :: log) (fun log p => p :: log) [] multiboot

theorem mem_boot_writes (multiboot : multiboot_info_t) (p : Nat) :
    p ∈ boot_writes multiboot ↔
      p < bitmap_pages_of multiboot ∨ Cleared multiboot p ∨ Locked multiboot p := by
  have hcons : ∀ (log : List Nat) q, p ∈ q :: log ↔ p = q ∨ p ∈ log := fun _ _ => List.mem_cons
  have hregion : ∀ (log : List Nat) (r : multiboot_memory_map_t),
      p ∈ memory_bitmap_clear_region (fun log p => p :: log) log r ↔ Clears r p ∨ p ∈ log := by
    intro log r
    unfold memory_bitmap_clear_region Clears
    split
    · rename_i htype
      rw [for_pages_adds (Q := fun log => p ∈ log) hcons]
      have hsub : r.addr + r.len + PAGE_SIZE - 1 = r.addr + r.len + 4095 := rfl
      rw [hsub]
      unfold PAGE_SIZE
      tauto
    · rename_i htype
      tauto
  unfold boot_writes memory_bitmap_fill
  rw [locks_add (Q := fun log => p ∈ log) hcons,
    foldl_adds (Q := fun log => p ∈ log) hregion,
    for_pages_adds (Q := fun log => p ∈ log) hcons]
  rw [show (∃ r ∈ multiboot.mmap, Clears r p) = Cleared multiboot p from rfl]
  simp only [Nat.zero_le, true_and, List.not_mem_nil, or_false]
  tauto

/-! ## Bytes and pages -/

/-- The page `p` holds one of the bytes from `first` to `last`. -/
def Overlaps (first last p : Nat) : Prop := ∃ byte, first ≤ byte ∧ byte < last ∧ byte / 4096 = p

theorem overlaps_iff {first last p : Nat} :
    Overlaps first last p ↔ first < last ∧ first / 4096 ≤ p ∧ 4096 * p < last := by
  constructor
  · rintro ⟨byte, h1, h2, rfl⟩
    omega
  · rintro ⟨h1, h2, h3⟩
    by_cases hp : 4096 * p ≤ first
    · exact ⟨first, by omega, h1, by omega⟩
    · exact ⟨4096 * p, by omega, h3, by omega⟩

/-- A lock function takes all the pages of its bytes, unless the sum that rounds the
last address up wraps. -/
theorem Overlaps.locksBytes {first last p : Nat} (h : Overlaps first last p)
    (hl : last ≤ 0xFFFFF000) : LocksBytes first last p := by
  obtain ⟨h1, h2, h3⟩ := overlaps_iff.mp h
  unfold LocksBytes u32
  omega

/-! ## What is in use at boot -/

/-- The bytes of the words `entries[0 .. ceil(pages / 32) - 1]`. -/
def bitmap_bytes (multiboot : multiboot_info_t) : Nat := 4 * ((bitmap_pages_of multiboot + 31) / 32)

/-- The page `p` holds a byte that is in use at boot. -/
def InUse (multiboot : multiboot_info_t) (p : Nat) : Prop :=
  Overlaps 0 0x100000 p ∨ (∃ mod ∈ multiboot.mods, Overlaps mod.mod_start mod.mod_end p) ∨
    Overlaps multiboot.kernel_physical_start multiboot.kernel_physical_end p ∨
    Overlaps (ALIGN_UP multiboot.kernel_physical_end)
      (ALIGN_UP multiboot.kernel_physical_end + bitmap_bytes multiboot) p

/-- The page `p` is marked after the boot, and no run of calls without a free of it leads to
an allocation of it. -/
def KeptAside (entries : Nat → Nat) (multiboot : multiboot_info_t) (p : Nat) : Prop :=
  Used (memory_bitmap_module_init entries multiboot) p ∧
    ∀ cs : List Call, (∀ address, Call.free address ∈ cs → address / PAGE_SIZE ≠ p) →
      memory_bitmap_find (calls (memory_bitmap_module_init entries multiboot) cs) ≠ some p

/-- What the lock functions leave out: the pages of a module or of a kernel whose end wraps
when it is rounded up, and the last page of a bitmap that has at most seven bits on it, since
`pages / 8` rounds down. -/
def Overlooked (multiboot : multiboot_info_t) (p : Nat) : Prop :=
  (∃ mod ∈ multiboot.mods, 0xFFFFF000 < mod.mod_end ∧ Overlaps mod.mod_start mod.mod_end p) ∨
    (0xFFFFF000 < multiboot.kernel_physical_end ∧
      Overlaps multiboot.kernel_physical_start multiboot.kernel_physical_end p) ∨
    (0 < bitmap_pages_of multiboot % 32768 ∧ bitmap_pages_of multiboot % 32768 < 8 ∧
      p = bitmap_start multiboot + bitmap_pages_of multiboot / 32768)

/-- A page that is used stays so until it is freed. -/
theorem Used.calls {b : memory_bitmap_t} {p : Nat} {cs : List Call} (hu : Used b p)
    (hc : ∀ address, Call.free address ∈ cs → address / PAGE_SIZE ≠ p) :
    Used (memory_bitmap.calls b cs) p := by
  induction cs generalizing b with
  | nil => exact hu
  | cons c cs ih =>
    apply ih
    · cases c with
      | allocate =>
        rcases allocate_cases b with ⟨he, -⟩ | ⟨_, -, -, -, hj, -⟩
        · simpa [call, he] using hu
        · exact (hj p).mpr (Or.inr hu)
      | free address =>
        have hne := hc address List.mem_cons_self
        exact (used_free b address p).mpr ⟨by simpa [PAGE_SIZE] using hne.symm, hu⟩
    · intro address ha
      exact hc address (List.mem_cons_of_mem c ha)

/-- A page is kept aside as soon as it is marked. -/
theorem keptAside_iff (entries : Nat → Nat) (multiboot : multiboot_info_t) {p : Nat}
    (hp : p < bitmap_pages_of multiboot) :
    KeptAside entries multiboot p ↔ ¬ Cleared multiboot p ∨ Locked multiboot p := by
  rw [← used_after_init entries multiboot hp]
  constructor
  · exact fun h => h.1
  · intro hu
    refine ⟨hu, ?_⟩
    intro cs hc hfind
    exact hu.calls hc (memory_bitmap_find_spec hfind).2

theorem bitmap_pages_lt (multiboot : multiboot_info_t) :
    bitmap_pages_of multiboot < 0x100000 := by
  have := total_memory_bytes_lt multiboot
  unfold bitmap_pages_of PAGE_SIZE
  omega

/-- What is in use is locked or overlooked. -/
theorem InUse.locked {multiboot : multiboot_info_t} {p : Nat} (h : InUse multiboot p) :
    Locked multiboot p ∨ Overlooked multiboot p := by
  unfold Locked Overlooked
  rcases h with h | ⟨mod, hm, h⟩ | h | h
  · have := overlaps_iff.mp h
    exact Or.inl (Or.inl (by omega))
  · by_cases hl : mod.mod_end ≤ 0xFFFFF000
    · exact Or.inl (Or.inr (Or.inl ⟨mod, hm, h.locksBytes hl⟩))
    · exact Or.inr (Or.inl ⟨mod, hm, by omega, h⟩)
  · by_cases hl : multiboot.kernel_physical_end ≤ 0xFFFFF000
    · exact Or.inl (Or.inr (Or.inr (Or.inl (h.locksBytes hl))))
    · exact Or.inr (Or.inr (Or.inl ⟨by omega, h⟩))
  · obtain ⟨-, h1, h2⟩ := overlaps_iff.mp h
    have hb : ALIGN_UP multiboot.kernel_physical_end = 4096 * bitmap_start multiboot := by
      have := ALIGN_UP_mod multiboot.kernel_physical_end
      unfold bitmap_start
      omega
    have hpages := bitmap_pages_lt multiboot
    have hup := ALIGN_UP_bounds (v := bitmap_pages_of multiboot / 8) (by omega)
    have hmod := ALIGN_UP_mod (bitmap_pages_of multiboot / 8)
    unfold bitmap_bytes at h2
    by_cases hl : p < bitmap_start multiboot + ALIGN_UP (bitmap_pages_of multiboot / 8) / 4096
    · exact Or.inl (Or.inr (Or.inr (Or.inr ⟨by omega, hl⟩)))
    · exact Or.inr (Or.inr (Or.inr ⟨by omega, by omega, by omega⟩))

theorem Overlooked.inUse {multiboot : multiboot_info_t} {p : Nat} (h : Overlooked multiboot p) :
    InUse multiboot p := by
  rcases h with ⟨mod, hm, -, h⟩ | ⟨-, h⟩ | ⟨h1, h2, rfl⟩
  · exact Or.inr (Or.inl ⟨mod, hm, h⟩)
  · exact Or.inr (Or.inr (Or.inl h))
  · refine Or.inr (Or.inr (Or.inr (overlaps_iff.mpr ?_)))
    have := ALIGN_UP_mod multiboot.kernel_physical_end
    unfold bitmap_bytes bitmap_start
    omega

/-- Everything that is in use at boot is kept aside exactly when each page that the lock
functions overlook is outside every available region, or is locked with another area. -/
theorem what_is_in_use_is_kept_aside (entries : Nat → Nat) (multiboot : multiboot_info_t) :
    (∀ p < bitmap_pages_of multiboot, InUse multiboot p → KeptAside entries multiboot p) ↔
      ∀ p < bitmap_pages_of multiboot, Overlooked multiboot p →
        ¬ Cleared multiboot p ∨ Locked multiboot p := by
  constructor
  · intro h p hp ho
    exact (keptAside_iff entries multiboot hp).mp (h p hp ho.inUse)
  · intro h p hp hu
    apply (keptAside_iff entries multiboot hp).mpr
    rcases hu.locked with hl | ho
    · exact Or.inr hl
    · exact h p hp ho

theorem first_address_lt : 0 < 0x10000000000000000 := by decide

theorem size_128_MiB_lt : 0x8000000 < 0x10000000000000000 := by decide

/-- 32769 pages of memory, and a kernel of one megabyte at the usual place. -/
def oneExtraPage : multiboot_info_t where
  mmap := [⟨0, 0x8001000, 1, first_address_lt, by decide⟩]
  mods := []
  kernel_physical_start := 0x100000
  kernel_physical_end := 0x200000
  kernel_start_lt := by decide
  kernel_end_lt := by decide

/-- The bitmap has 1025 words, so the last one is on a second page, which stays free. -/
theorem the_last_word_is_given_away :
    (∀ r ∈ oneExtraPage.mmap, r.addr + r.len ≤ 0x100000000) ∧
      513 < bitmap_pages_of oneExtraPage ∧ InUse oneExtraPage 513 ∧
        ¬ KeptAside (fun _ => 0) oneExtraPage 513 := by
  have hlt : 513 < bitmap_pages_of oneExtraPage := by decide
  have huse : InUse oneExtraPage 513 :=
    Or.inr (Or.inr (Or.inr ⟨0x201000, by decide, by decide, by decide⟩))
  have hclear : Cleared oneExtraPage 513 := ⟨_, List.mem_cons_self, by decide, by decide, by decide⟩
  have hlock : ¬ Locked oneExtraPage 513 := by
    unfold Locked LocksBytes
    decide
  refine ⟨by decide, hlt, huse, fun hkept => ?_⟩
  exact absurd ((keptAside_iff _ _ hlt).mp hkept) (by tauto)

/-! ## What becomes free -/

/-- The byte lies in the region. -/
def Holds (r : multiboot_memory_map_t) (byte : Nat) : Prop := r.addr ≤ byte ∧ byte < r.addr + r.len

/-- All bytes of the page `p` are in regions of available memory. -/
def Available (multiboot : multiboot_info_t) (p : Nat) : Prop :=
  ∀ byte, byte / 4096 = p → ∃ r ∈ multiboot.mmap, r.type = MULTIBOOT_MEMORY_AVAILABLE ∧ Holds r byte

/-- No byte of the page `p` is in a region of another type. -/
def Unshared (multiboot : multiboot_info_t) (p : Nat) : Prop :=
  ∀ byte, byte / 4096 = p → ∀ r ∈ multiboot.mmap, Holds r byte → r.type = MULTIBOOT_MEMORY_AVAILABLE

/-- The regions end below 4 GiB. -/
def Below4GiB (multiboot : multiboot_info_t) : Prop :=
  ∀ r ∈ multiboot.mmap, r.addr + r.len ≤ 0x100000000

/-- An available region begins or ends inside the page `p`. -/
def EdgePage (multiboot : multiboot_info_t) (p : Nat) : Prop :=
  ∃ r ∈ multiboot.mmap, r.type = MULTIBOOT_MEMORY_AVAILABLE ∧
    (r.addr % 4096 ≠ 0 ∧ p = r.addr / 4096 ∨
      (r.addr + r.len) % 4096 ≠ 0 ∧ p = (r.addr + r.len) / 4096)

section below

variable {multiboot : multiboot_info_t} (hb : Below4GiB multiboot)

include hb

theorem clears_iff {r : multiboot_memory_map_t} (hr : r ∈ multiboot.mmap) {p : Nat} :
    Clears r p ↔ r.type = MULTIBOOT_MEMORY_AVAILABLE ∧ r.addr / 4096 ≤ p ∧
      p < (r.addr + r.len + 4095) / 4096 := by
  have hr := hb r hr
  unfold Clears u32 u64
  rw [Nat.mod_eq_of_lt (a := r.addr / 4096) (by omega),
    Nat.mod_eq_of_lt (a := r.addr + r.len + 4095) (by omega),
    Nat.mod_eq_of_lt (a := (r.addr + r.len + 4095) / 4096) (by omega)]

theorem EdgePage.cleared {p : Nat} (h : EdgePage multiboot p) : Cleared multiboot p := by
  obtain ⟨r, hr, ht, h⟩ := h
  refine ⟨r, hr, (clears_iff hb hr).mpr ⟨ht, ?_⟩⟩
  omega

/-- A cleared page is covered by a region, or is at its edge. -/
theorem Cleared.available {p : Nat} (h : Cleared multiboot p)
    (he : EdgePage multiboot p → Available multiboot p) : Available multiboot p := by
  obtain ⟨r, hr, hc⟩ := h
  obtain ⟨ht, h1, h2⟩ := (clears_iff hb hr).mp hc
  by_cases hwhole : r.addr ≤ 4096 * p ∧ 4096 * p + 4096 ≤ r.addr + r.len
  · intro byte hp
    refine ⟨r, hr, ht, ?_⟩
    unfold Holds
    omega
  · exact he ⟨r, hr, ht, by omega⟩

/-- A page that is free after the boot is available as a whole and not shared, exactly when
this holds of each page that some available region has its edge on and no lock takes, and no
page that is cleared and not locked is shared with a region of another type. -/
theorem only_whole_pages_become_free (entries : Nat → Nat) :
    (∀ p < bitmap_pages_of multiboot, ¬ Used (memory_bitmap_module_init entries multiboot) p →
      Available multiboot p ∧ Unshared multiboot p) ↔
    ∀ p < bitmap_pages_of multiboot, ¬ Locked multiboot p →
      (EdgePage multiboot p → Available multiboot p) ∧
        (Cleared multiboot p → Unshared multiboot p) := by
  constructor
  · intro h p hp hl
    have hfree (hc : Cleared multiboot p) :
        ¬ Used (memory_bitmap_module_init entries multiboot) p := by
      rw [used_after_init entries multiboot hp]
      tauto
    constructor
    · intro he
      exact (h p hp (hfree (he.cleared hb))).1
    · intro hc
      exact (h p hp (hfree hc)).2
  · intro h p hp hu
    rw [used_after_init entries multiboot hp, not_or, not_not] at hu
    obtain ⟨hedge, hother⟩ := h p hp hu.2
    exact ⟨hu.1.available hb hedge, hother hu.1⟩

end below

/-- Available memory up to the middle of a page, whose other half is reserved. -/
def sharedPage : multiboot_info_t where
  mmap := [⟨0, 0x400800, 1, by decide, by decide⟩, ⟨0x400800, 0x800, 2, by decide, by decide⟩]
  mods := []
  kernel_physical_start := 0x100000
  kernel_physical_end := 0x200000
  kernel_start_lt := by decide
  kernel_end_lt := by decide

theorem a_reserved_half_page_becomes_free :
    Below4GiB sharedPage ∧ 1024 < bitmap_pages_of sharedPage ∧
      ¬ Used (memory_bitmap_module_init (fun _ => 0) sharedPage) 1024 ∧
        ¬ Unshared sharedPage 1024 := by
  have hlt : 1024 < bitmap_pages_of sharedPage := by decide
  have hclear : Cleared sharedPage 1024 :=
    ⟨_, List.mem_cons_self, by decide, by decide, by decide⟩
  have hlock : ¬ Locked sharedPage 1024 := by
    unfold Locked LocksBytes
    decide
  refine ⟨by unfold Below4GiB; decide, hlt, ?_, fun hone => ?_⟩
  · rw [used_after_init _ _ hlt]
    tauto
  · have htype := hone 0x400800 (by decide) _ (List.mem_cons_of_mem _ List.mem_cons_self)
      ⟨by decide, by decide⟩
    exact absurd htype (by decide)

/-- Memory that begins and ends at page boundaries shares no page and has no edge inside one, so no
other page becomes free. -/
theorem the_pages_of_the_extra_page_are_whole :
    ¬ ∃ p, p < bitmap_pages_of oneExtraPage ∧
      ¬ Used (memory_bitmap_module_init (fun _ => 0) oneExtraPage) p ∧
        ¬ (Available oneExtraPage p ∧ Unshared oneExtraPage p) := by
  rintro ⟨p, hp, hu, hno⟩
  apply hno
  apply (only_whole_pages_become_free (by unfold Below4GiB; decide) _).mpr _ p hp hu
  intro p hp hl
  constructor
  · rintro ⟨r, hr, -, hr'⟩
    rw [List.mem_singleton.mp hr] at hr'
    simp at hr'
  · intro hc byte hb r hr _
    rw [List.mem_singleton.mp hr]
    rfl

/-! ## Where the boot writes -/

/-- The loop of a lock function over the bytes from `first` to `last` is empty, or ends with
the counted pages. -/
def LocksWithin (pages first last : Nat) : Prop :=
  first / 4096 * 4096 < last → last ≤ 0xFFFFF000 → last ≤ 4096 * pages

/-- The loop that clears a region is empty, or ends with the counted pages. -/
def ClearsWithin (pages : Nat) (r : multiboot_memory_map_t) : Prop :=
  r.type = MULTIBOOT_MEMORY_AVAILABLE →
    u32 (r.addr / 4096) < u32 (u64 (r.addr + r.len + 4095) / 4096) →
      u32 (u64 (r.addr + r.len + 4095) / 4096) ≤ pages

/-- What the loader has to hand over for the writes to stay in the bitmap. -/
structure WritesFit (multiboot : multiboot_info_t) : Prop where
  megabyte : 0x100000 ≤ total_memory_bytes multiboot
  regions : ∀ r ∈ multiboot.mmap, ClearsWithin (bitmap_pages_of multiboot) r
  modules : ∀ mod ∈ multiboot.mods,
    LocksWithin (bitmap_pages_of multiboot) mod.mod_start mod.mod_end
  kernel : LocksWithin (bitmap_pages_of multiboot) multiboot.kernel_physical_start
    multiboot.kernel_physical_end
  bitmap : bitmap_start multiboot + ALIGN_UP (bitmap_pages_of multiboot / 8) / 4096 ≤
    bitmap_pages_of multiboot

/-- The module lies below the bitmap or behind it, or is empty. -/
def ApartFrom (multiboot : multiboot_info_t) (mod : multiboot_module_t) : Prop :=
  mod.mod_end ≤ mod.mod_start ∨ mod.mod_end ≤ ALIGN_UP multiboot.kernel_physical_end ∨
    ALIGN_UP multiboot.kernel_physical_end + bitmap_bytes multiboot ≤ mod.mod_start

theorem all_below_iff {first last : Nat} (pages : Nat) (P : Nat → Prop)
    (hP : ∀ p, P p ↔ first ≤ p ∧ p < last) :
    (∀ p, P p → p < pages) ↔ (first < last → last ≤ pages) := by
  constructor
  · intro h hlt
    have := h (last - 1) ((hP _).mpr (by omega))
    omega
  · intro h p hp
    have := (hP p).mp hp
    have := h (by omega)
    omega

theorem locksWithin_iff {pages first last : Nat} (hl : last < 0x100000000) :
    (∀ p, LocksBytes first last p → p < pages) ↔ LocksWithin pages first last := by
  rw [all_below_iff pages (LocksBytes first last) (fun _ => Iff.rfl)]
  unfold LocksWithin u32
  omega

theorem clearsWithin_iff {pages : Nat} {r : multiboot_memory_map_t} :
    (∀ p, Clears r p → p < pages) ↔ ClearsWithin pages r := by
  unfold ClearsWithin
  rw [← all_below_iff pages (fun p => u32 (r.addr / 4096) ≤ p ∧
    p < u32 (u64 (r.addr + r.len + 4095) / 4096)) (fun _ => Iff.rfl)]
  unfold Clears
  constructor
  · intro h ht p hp
    exact h p ⟨ht, hp⟩
  · intro h p hp
    exact h hp.1 p hp.2

/-- All the writes of the boot are at counted pages. -/
theorem writesFit_iff (multiboot : multiboot_info_t) :
    (∀ p ∈ boot_writes multiboot, p < bitmap_pages_of multiboot) ↔ WritesFit multiboot := by
  have hpages := bitmap_pages_lt multiboot
  have hup := ALIGN_UP_bounds (v := bitmap_pages_of multiboot / 8) (by omega)
  have hmod := ALIGN_UP_mod (bitmap_pages_of multiboot / 8)
  have hbitmap := all_below_iff (bitmap_pages_of multiboot) (fun p =>
    bitmap_start multiboot ≤ p ∧
      p < bitmap_start multiboot + ALIGN_UP (bitmap_pages_of multiboot / 8) / 4096)
    (fun _ => Iff.rfl)
  have htotal : bitmap_pages_of multiboot = total_memory_bytes multiboot / 4096 := rfl
  simp only [mem_boot_writes]
  constructor
  · intro h
    have hlock : ∀ p, Locked multiboot p → p < bitmap_pages_of multiboot :=
      fun p hl => h p (Or.inr (Or.inr hl))
    have hmegabyte := hlock 255 (Or.inl (by decide))
    constructor
    · omega
    · intro r hr
      apply clearsWithin_iff.mp
      exact fun p hc => h p (Or.inr (Or.inl ⟨r, hr, hc⟩))
    · intro mod hm
      apply (locksWithin_iff mod.end_lt).mp
      exact fun p hc => hlock p (Or.inr (Or.inl ⟨mod, hm, hc⟩))
    · apply (locksWithin_iff multiboot.kernel_end_lt).mp
      exact fun p hc => hlock p (Or.inr (Or.inr (Or.inl hc)))
    · apply hbitmap.mp
      · exact fun p hc => hlock p (Or.inr (Or.inr (Or.inr hc)))
      · omega
  · rintro ⟨h1, h2, h3, h4, h5⟩ p (hp | ⟨r, hr, hc⟩ | hp | ⟨mod, hm, hc⟩ | hc | hc)
    · exact hp
    · exact clearsWithin_iff.mpr (h2 r hr) p hc
    · omega
    · exact (locksWithin_iff mod.end_lt).mpr (h3 mod hm) p hc
    · exact (locksWithin_iff multiboot.kernel_end_lt).mpr h4 p hc
    · exact hbitmap.mpr (fun _ => h5) p hc

theorem apartFrom_iff {multiboot : multiboot_info_t} {mod : multiboot_module_t}
    (hb : 0 < bitmap_bytes multiboot) :
    (∀ byte, ALIGN_UP multiboot.kernel_physical_end ≤ byte →
      byte < ALIGN_UP multiboot.kernel_physical_end + bitmap_bytes multiboot →
      ¬ (mod.mod_start ≤ byte ∧ byte < mod.mod_end)) ↔ ApartFrom multiboot mod := by
  unfold ApartFrom
  constructor
  · intro h
    have h1 := h mod.mod_start
    have h2 := h (ALIGN_UP multiboot.kernel_physical_end)
    omega
  · intro h byte h1 h2
    omega

/-- The writes of the boot stay in the bitmap, and its storage off the modules, exactly when
the memory has a first megabyte, the areas round to counted pages, and the loader put each
module below the bitmap or behind it. -/
theorem boot_writes_stay_in_the_bitmap (multiboot : multiboot_info_t) :
    ((∀ p ∈ boot_writes multiboot, p < bitmap_pages_of multiboot) ∧
      ∀ mod ∈ multiboot.mods, ∀ byte, ALIGN_UP multiboot.kernel_physical_end ≤ byte →
        byte < ALIGN_UP multiboot.kernel_physical_end + bitmap_bytes multiboot →
        ¬ (mod.mod_start ≤ byte ∧ byte < mod.mod_end)) ↔
    WritesFit multiboot ∧ ∀ mod ∈ multiboot.mods, ApartFrom multiboot mod := by
  rw [writesFit_iff]
  constructor
  · rintro ⟨hw, hm⟩
    refine ⟨hw, ?_⟩
    intro mod hmod
    refine (apartFrom_iff ?_).mp (hm mod hmod)
    have htotal : bitmap_pages_of multiboot = total_memory_bytes multiboot / 4096 := rfl
    have := hw.megabyte
    unfold bitmap_bytes
    omega
  · rintro ⟨hw, hm⟩
    refine ⟨hw, ?_⟩
    intro mod hmod
    refine (apartFrom_iff ?_).mpr (hm mod hmod)
    have htotal : bitmap_pages_of multiboot = total_memory_bytes multiboot / 4096 := rfl
    have := hw.megabyte
    unfold bitmap_bytes
    omega

/-- Memory at 4 GiB, and a module right behind the kernel. -/
def highMemory : multiboot_info_t where
  mmap := [⟨0, 0x8000000, 1, first_address_lt, size_128_MiB_lt⟩,
    ⟨0x100000000, 0x10000000, 1, by decide, by decide⟩]
  mods := [⟨0x200000, 0x210000, by decide, by decide⟩]
  kernel_physical_start := 0x100000
  kernel_physical_end := 0x200000
  kernel_start_lt := by decide
  kernel_end_lt := by decide

/-- A page of the high region is cleared, far behind the last counted one, and the first word of
the bitmap is the first word of the module. -/
theorem the_boot_writes_outside_the_bitmap :
    (∃ p ∈ boot_writes highMemory, ¬ p < bitmap_pages_of highMemory) ∧
      ∃ mod ∈ highMemory.mods, ∃ byte, ALIGN_UP highMemory.kernel_physical_end ≤ byte ∧
        byte < ALIGN_UP highMemory.kernel_physical_end + bitmap_bytes highMemory ∧
        mod.mod_start ≤ byte ∧ byte < mod.mod_end := by
  constructor
  · have hclear : Cleared highMemory 0x100000 :=
      ⟨_, List.mem_cons_of_mem _ List.mem_cons_self, by decide, by decide, by decide⟩
    refine ⟨0x100000, (mem_boot_writes _ _).mpr (Or.inr (Or.inl hclear)), ?_⟩
    decide
  · exact ⟨_, List.mem_cons_self, 0x200000, by decide, by decide, by decide, by decide⟩

end alura_os.memory_bitmap
