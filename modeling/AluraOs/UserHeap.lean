-- The heap of a user task: the pages between `heap_start` and `heap_break`, as
-- `sbrk` maps and unmaps them.
import AluraOs.CurrentPages
import AluraOs.ForkLaws

namespace alura_os.task_manager

open alura_os.memory alura_os.memory_bitmap alura_os.memory_paging alura_os.elf_executable
open Machine memory_paging_result_t

/-! ## A range of pages -/

/-- The machine `m` is the machine `base` with the pages from `lo` to `hi` mapped. -/
structure PagesOver (base m : Machine) (lo hi : Nat) : Prop extends Steps base m where
  inside : ∀ v, lo ≤ v → v < hi → UserWritable m base.dir v
  outside : ∀ v, v < PAGE_TABLES_START → v < lo ∨ hi ≤ v →
    m.entry base.dir v = base.entry base.dir v

/-- A table of user pages that was hung in since `base`. -/
def NewTable (base m : Machine) (g : Nat) : Prop :=
  UserTable m base.dir g ∧ ¬ UserTable base base.dir g

/-- The frame of one of the pages from `lo` to `hi`. -/
def PageFrom (base m : Machine) (lo hi g : Nat) : Prop :=
  ∃ v x, lo ≤ v ∧ v < hi ∧ m.entry base.dir v = some x ∧ frameOf x = g

/-- The frames that were taken since `base` are those of the pages from `lo` to `hi` and of
the new tables. -/
structure FramesOver (base m : Machine) (lo hi : Nat) : Prop where
  fresh : ∀ g, PageFrom base m lo hi g → ¬ Used base.memory_bitmap g
  used : ∀ g, Used m.memory_bitmap g ↔
    Used base.memory_bitmap g ∨ PageFrom base m lo hi g ∨ NewTable base m g

section turns

variable {base m m' : Machine} {lo hi a : Nat}

theorem PagesOver.refl (hk : KernelSpace m) (ho : OwnSpace m m.dir) (lo : Nat) :
    PagesOver m m lo lo := by
  refine ⟨⟨rfl, rfl, rfl, rfl, hk, ho, fun _ _ => Or.inl rfl⟩, ?_, fun _ _ _ => rfl⟩
  intro v h1 h2
  omega

theorem FramesOver.refl (m : Machine) (lo : Nat) : FramesOver m m lo lo := by
  constructor
  · rintro g ⟨v, x, h1, h2, -⟩
    omega
  · intro g
    constructor
    · exact Or.inl
    · rintro (hu | ⟨v, x, h1, h2, -⟩ | ⟨h1, h2⟩)
      · exact hu
      · omega
      · exact absurd h1 h2

/-- One page more, at the end. -/
theorem PagesOver.gain (h : PagesOver base m lo hi) (hg : PageGained m m' hi) (hal : hi % 4096 = 0)
    (hlo : lo ≤ hi) (hhi : hi < KERNEL_VIRTUAL_SPACE_START) : PagesOver base m' lo (hi + 4096) := by
  have hdir := h.dir
  have hsteps := hg.toSteps
  obtain ⟨f, -, hat⟩ := hg.entry
  refine ⟨h.toSteps.trans hsteps, ?_, ?_⟩
  · intro v h1 h2
    by_cases hlt : v < hi
    · have hin := h.inside v h1 hlt
      rw [← hdir] at hin ⊢
      exact hsteps.userWritable hin (hg.others v (user_below_tables (hlt.trans hhi)) (by omega))
    · have hpage : v / 4096 = hi / 4096 := by omega
      have hpd : page_directory_index v = page_directory_index hi := by
        unfold page_directory_index
        omega
      rw [← hdir]
      refine ⟨f * 4096 ||| 7, (entry_same_page m' _ hpage).trans hat, ?_, ?_, ?_, ?_⟩
      · rw [Nat.and_or_distrib_right]
        simp [PAGE_USER]
      · rw [Nat.and_or_distrib_right]
        simp [PAGE_READ_WRITE]
      · rw [hpd]
        exact hg.user
      · rw [hpd]
        exact hg.own.writable _ (user_directory_index hhi) (entry_eq_some.mp hat).1
  · intro v hv hout
    rw [← h.outside v hv (by omega), ← hdir]
    exact hg.others v hv (by omega)

/-- The pages from `lo'` to `hi'` are those from `lo` to `hi` without the one at `a`. -/
def WithoutPage (lo hi lo' hi' a : Nat) : Prop :=
  ∀ v, (lo' ≤ v ∧ v < hi') ↔ (lo ≤ v ∧ v < hi ∧ v / 4096 ≠ a / 4096)

/-- One page less. -/
theorem PagesOver.lose {lo' hi' : Nat} (h : PagesOver base m lo hi) (hl : PageLost m m' a)
    (hr : WithoutPage lo hi lo' hi' a) (hhi : hi ≤ KERNEL_VIRTUAL_SPACE_START)
    (hbase : ∀ v, v / 4096 = a / 4096 → base.entry base.dir v = none) :
    PagesOver base m' lo' hi' := by
  have hdir := h.dir
  have hsteps := hl.toSteps
  refine ⟨h.toSteps.trans hsteps, ?_, ?_⟩
  · intro v h1 h2
    obtain ⟨h3, h4, hne⟩ := (hr v).mp ⟨h1, h2⟩
    have hin := h.inside v h3 h4
    rw [← hdir] at hin ⊢
    exact hsteps.userWritable hin (hl.others v (user_below_tables (by omega)) hne)
  · intro v hv hout
    by_cases hsame : v / 4096 = a / 4096
    · rw [hbase v hsame, ← hdir, entry_same_page m' _ hsame]
      exact hl.entry
    · rw [← h.outside v hv, ← hdir]
      · exact hl.others v hv hsame
      · by_contra hno
        have := (hr v).mpr ⟨by omega, by omega, hsame⟩
        omega

theorem PagesOver.pageFrom_gain (h : PagesOver base m lo hi) (hg : PageGained m m' hi)
    (hal : hi % 4096 = 0) (hlo : lo ≤ hi) (hhi : hi < KERNEL_VIRTUAL_SPACE_START) (g : Nat) :
    PageFrom base m' lo (hi + 4096) g ↔
      PageFrom base m lo hi g ∨ ∃ x, m'.entry m.dir hi = some x ∧ frameOf x = g := by
  have hdir := h.dir
  have hlow : ∀ v, v < hi → v < PAGE_TABLES_START := fun v hv => user_below_tables (by omega)
  unfold PageFrom
  rw [← hdir]
  constructor
  · rintro ⟨v, x, h1, h2, hx, hf⟩
    by_cases hlt : v < hi
    · rw [hg.others v (hlow v hlt) (by omega)] at hx
      exact Or.inl ⟨v, x, h1, hlt, hx, hf⟩
    · rw [entry_same_page m' _ (show v / 4096 = hi / 4096 by omega)] at hx
      exact Or.inr ⟨x, hx, hf⟩
  · rintro (⟨v, x, h1, h2, hx, hf⟩ | ⟨x, hx, hf⟩)
    · rw [← hg.others v (hlow v h2) (by omega)] at hx
      exact ⟨v, x, h1, by omega, hx, hf⟩
    · exact ⟨hi, x, hlo, by omega, hx, hf⟩

theorem newTable_step (h : Steps base m) (h' : Steps m m') (g : Nat) :
    NewTable base m' g ↔
      NewTable base m g ∨ UserTable m' m.dir g ∧ ¬ UserTable m m.dir g := by
  have hdir := h.dir
  have hold := h.userTable (g := g)
  have hmid := h'.userTable (g := g)
  unfold NewTable
  rw [hdir] at hmid ⊢
  tauto

theorem FramesOver.gain (h : PagesOver base m lo hi) (hf : FramesOver base m lo hi)
    (hg : PageGained m m' hi) (hal : hi % 4096 = 0) (hlo : lo ≤ hi)
    (hhi : hi < KERNEL_VIRTUAL_SPACE_START) : FramesOver base m' lo (hi + 4096) := by
  have hpage := h.pageFrom_gain hg hal hlo hhi
  constructor
  · intro g hpg
    rcases (hpage g).mp hpg with hold | ⟨x, hx, rfl⟩
    · exact hf.fresh g hold
    · obtain ⟨f, hfree, hat⟩ := hg.entry
      rw [hat] at hx
      rw [← Option.some.inj hx, frameOf_or _ (by decide)]
      have hframe : frameOf (f * 4096) = f := by unfold frameOf; omega
      rw [hframe]
      exact fun hu => hfree ((hf.used f).mpr (Or.inl hu))
  · intro g
    rw [hg.used, hf.used, hpage, newTable_step h.toSteps hg.toSteps]
    generalize (∃ x, m'.entry m.dir hi = some x ∧ frameOf x = g) = new
    clear hpage
    tauto

theorem FramesOver.lose {lo' hi' : Nat} (h : PagesOver base m lo hi) (hf : FramesOver base m lo hi)
    (hl : PageLost m m' a) (hr : WithoutPage lo hi lo' hi' a) (ha : lo ≤ a ∧ a < hi)
    (hhi : hi ≤ KERNEL_VIRTUAL_SPACE_START) (ho : OwnSpace m m.dir) :
    FramesOver base m' lo' hi' := by
  have hdir := h.dir
  have hlow : ∀ v, v < hi → v < PAGE_TABLES_START ∧ v < KERNEL_VIRTUAL_SPACE_START := by
    intro v hv
    exact ⟨user_below_tables (by omega), by omega⟩
  -- The pages that are left are the old ones in other frames than that of `a`.
  have hpage : ∀ g, PageFrom base m' lo' hi' g ↔
      PageFrom base m lo hi g ∧ ¬ ∃ x, m.entry m.dir a = some x ∧ frameOf x = g := by
    intro g
    unfold PageFrom
    rw [← hdir]
    constructor
    · rintro ⟨v, x, h1, h2, hx, hg⟩
      obtain ⟨h3, h4, hne⟩ := (hr v).mp ⟨h1, h2⟩
      rw [hl.others v (hlow v h4).1 hne] at hx
      refine ⟨⟨v, x, h3, h4, hx, hg⟩, ?_⟩
      rintro ⟨y, hy, hfy⟩
      exact hne (ho.pages_apart v a x y (hlow v h4).2 (hlow a ha.2).2 hx hy (hg.trans hfy.symm))
    · rintro ⟨⟨v, x, h1, h2, hx, hg⟩, hno⟩
      have hne : v / 4096 ≠ a / 4096 := by
        intro hc
        rw [entry_same_page m _ hc] at hx
        exact hno ⟨x, hx, hg⟩
      obtain ⟨h3, h4⟩ := (hr v).mpr ⟨h1, h2, hne⟩
      rw [← hl.others v (hlow v h2).1 hne] at hx
      exact ⟨v, x, h3, h4, hx, hg⟩
  have htable : ∀ g, NewTable base m' g ↔ NewTable base m g := by
    intro g
    unfold NewTable UserTable
    rw [← hdir]
    simp only [hl.same]
  constructor
  · intro g hpg
    exact hf.fresh g ((hpage g).mp hpg).1
  · intro g
    rw [hl.used, hf.used, hpage, htable]
    -- The frame of `a` was neither in use in `base` nor is it a table.
    have hframe : (∃ x, m.entry m.dir a = some x ∧ frameOf x = g) →
        ¬ Used base.memory_bitmap g ∧ ¬ NewTable base m g := by
      rintro ⟨x, hx, rfl⟩
      refine ⟨hf.fresh _ ⟨a, x, ha.1, ha.2, by rw [← hdir]; exact hx, rfl⟩, ?_⟩
      rintro ⟨⟨j, hj, hp, hT⟩, -⟩
      rw [← hdir] at hp hT
      exact (ho.pages a x (hlow a ha.2).2 hx).ne_table j (by omega) hp hT.symm
    tauto

end turns

/-! ## The loops -/

/-- The range can be mapped: it lies on page boundaries below the kernel, and nothing is mapped
there in `base`. -/
structure Room (base : Machine) (lo hi : Nat) : Prop where
  low : lo % 4096 = 0
  high : hi % 4096 = 0
  le : lo ≤ hi
  below : hi ≤ USER_HEAP_VIRTUAL_CEILING
  empty : ∀ v, lo ≤ v → v < hi → base.entry base.dir v = none

theorem ceiling_below : USER_HEAP_VIRTUAL_CEILING < KERNEL_VIRTUAL_SPACE_START := by decide

section loops

variable {base m : Machine} {lo hi : Nat}

/-- The state of the loops: the pages from `lo` to `hi`, and a free slot. -/
theorem PagesOver.here (h : PagesOver base m lo hi) : OwnSpace m m.dir := by
  rw [h.dir]
  exact h.own

theorem PagesOver.mapped (h : PagesOver base m lo hi) {v : Nat} (h1 : lo ≤ v) (h2 : v < hi) :
    ∃ x, m.entry m.dir v = some x := by
  obtain ⟨x, hx, -⟩ := h.inside v h1 h2
  rw [h.dir]
  exact ⟨x, hx⟩

theorem freeSlots_eq {m m' : Machine} (h : m'.bounce_pages_used = m.bounce_pages_used) :
    freeSlots m' = freeSlots m := by
  unfold freeSlots
  rw [h]

/-- The unwind loop takes the pages back, from the first on. -/
theorem unwind_spec (n : Nat) (hr : Room base lo hi) (hn : hi = lo + n * 4096)
    (hs : 0 < (freeSlots base).card) (h : PagesOver base m lo hi) :
    ∃ m', sbrk_unwind n lo m = some m' ∧ PagesOver base m' hi hi ∧
      (∀ j, m'.frames base.dir j = m.frames base.dir j) ∧
      (FramesOver base m lo hi → FramesOver base m' hi hi) := by
  have hceil := ceiling_below
  induction n generalizing m lo with
  | zero =>
    have heq : lo = hi := by omega
    subst heq
    exact ⟨m, rfl, h, fun _ => rfl, id⟩
  | succ n ih =>
    have hlow := hr.low
    have hbelow := hr.below
    obtain ⟨x, hx⟩ := h.mapped (le_refl lo) (by omega)
    have hslots : 0 < (freeSlots m).card := by rw [freeSlots_eq h.slots]; exact hs
    obtain ⟨hstep, hl⟩ := page_lost h.here (by omega) hx h.space hslots
    have hw : WithoutPage lo hi (lo + 4096) hi lo := by
      intro v
      omega
    have hnext := h.lose hl hw (by omega) (fun v hv => hr.empty v (by omega) (by omega))
    obtain ⟨m', hrest, hp, hdirectory, hframes⟩ := ih
      ⟨by omega, hr.high, by omega, hr.below, fun v h1 h2 => hr.empty v (by omega) h2⟩
      (by omega) hnext
    refine ⟨m', ?_, hp, ?_, ?_⟩
    · unfold sbrk_unwind
      simp only [Option.bind_eq_bind, hstep, Option.bind_some]
      exact hrest
    · intro j
      rw [hdirectory, ← h.dir]
      exact hl.same j
    · intro hf
      exact hframes (hf.lose h hl hw ⟨le_refl lo, by omega⟩ (by omega) h.here)

/-- What the loop that gives pages back does to the machine `m`: the pages from `lo` to `hi`
are gone and their frames are free. -/
structure GaveBack (d : Nat) (m m' : Machine) (lo hi : Nat) : Prop where
  others : ∀ v, v < PAGE_TABLES_START → v < lo ∨ hi ≤ v → m'.entry d v = m.entry d v
  freed : ∀ v x, lo ≤ v → v < hi → m.entry d v = some x → ¬ Used m'.memory_bitmap (frameOf x)
  used : ∀ g, Used m'.memory_bitmap g → Used m.memory_bitmap g

/-- The loop that gives pages back takes them from the end. -/
theorem free_pages_spec (n : Nat) (hr : Room base lo hi) (hn : lo + n * 4096 ≤ hi)
    (hs : 0 < (freeSlots base).card) (h : PagesOver base m lo hi) (hf : FramesOver base m lo hi) :
    ∃ m', sbrk_free_pages n hi m = some m' ∧ PagesOver base m' lo (hi - n * 4096) ∧
      FramesOver base m' lo (hi - n * 4096) ∧ GaveBack base.dir m m' (hi - n * 4096) hi := by
  have hceil := ceiling_below
  induction n generalizing m hi with
  | zero =>
    refine ⟨m, rfl, by simpa using h, by simpa using hf, fun _ _ _ => rfl, fun v x h1 h2 => ?_,
      fun _ => id⟩
    omega
  | succ n ih =>
    have hhigh := hr.high
    have hbelow := hr.below
    have hcount : lo + n * 4096 ≤ hi - 4096 := Nat.le_sub_of_add_le (by omega)
    have hsub : sub32 hi PAGE_SIZE = hi - 4096 := by
      unfold KERNEL_VIRTUAL_SPACE_START at hceil
      unfold sub32 PAGE_SIZE
      omega
    obtain ⟨x, hx⟩ := h.mapped (v := hi - 4096) (by omega) (by omega)
    have hslots : 0 < (freeSlots m).card := by rw [freeSlots_eq h.slots]; exact hs
    obtain ⟨hstep, hl⟩ := page_lost h.here (by omega) hx h.space hslots
    have hw : WithoutPage lo hi lo (hi - 4096) (hi - 4096) := by
      intro v
      omega
    have hnext := h.lose hl hw (by omega) (fun v hv => hr.empty v (by omega) (by omega))
    have hframes := hf.lose h hl hw ⟨by omega, by omega⟩ (by omega) h.here
    have hroom : Room base lo (hi - 4096) :=
      ⟨hr.low, by omega, by omega, by omega, fun v h1 h2 => hr.empty v h1 (by omega)⟩
    obtain ⟨m', hrest, hp, hfr, hgave⟩ := ih hroom hcount hnext hframes
    have heq : hi - 4096 - n * 4096 = hi - (n + 1) * 4096 := by omega
    rw [heq] at hp hfr hgave
    have hdir := h.dir
    refine ⟨m', ?_, hp, hfr, fun v hv hout => ?_, fun v y h1 h2 hy => ?_, fun g hu => ?_⟩
    · unfold sbrk_free_pages
      simp only [Option.bind_eq_bind, hsub, hstep, Option.bind_some]
      exact hrest
    · rw [hgave.others v hv (by omega), ← hdir]
      exact hl.others v hv (by omega)
    · by_cases hlt : v < hi - 4096
      · refine hgave.freed v y h1 hlt ?_
        rw [← hdir, hl.others v (user_below_tables (by omega)) (by omega), hdir]
        exact hy
      · intro hu
        have hlost := ((hl.used _).mp (hgave.used _ hu)).2
        apply hlost
        rw [← hdir, entry_same_page m _ (show v / 4096 = (hi - 4096) / 4096 by omega)] at hy
        exact ⟨y, hy, rfl⟩
    · exact ((hl.used g).mp (hgave.used g hu)).1

end loops

/-! ## The page loop -/

/-- The frames run out at a page table: the pages before have their frames, the page has its
own, and there is none for the table. -/
def StuckAtTable (tables : Nat → Bool) (free count address : Nat) : Prop :=
  ∃ k, k < count ∧ page_need tables k address < free ∧ free < page_need tables (k + 1) address

/-- What one page takes. -/
def page_cost (tables : Nat → Bool) (address : Nat) : Nat :=
  1 + if tables (page_directory_index address) then 0 else 1

theorem page_need_succ (tables : Nat → Bool) (count address : Nat) :
    page_need tables (count + 1) address = page_cost tables address +
      page_need (withTable tables address) count (address + PAGE_SIZE) := rfl

theorem stuck_succ (tables : Nat → Bool) (free count address : Nat) :
    StuckAtTable tables free (count + 1) address ↔
      (free = 1 ∧ tables (page_directory_index address) = false) ∨
        page_cost tables address ≤ free ∧ StuckAtTable (withTable tables address)
          (free - page_cost tables address) count (address + PAGE_SIZE) := by
  unfold StuckAtTable
  constructor
  · rintro ⟨k, hk, h1, h2⟩
    cases k with
    | zero =>
      left
      rw [page_need_succ] at h2
      unfold page_need at h1 h2
      unfold page_cost at h2
      cases ht : tables (page_directory_index address) with
      | true =>
        rw [ht, if_pos rfl] at h2
        omega
      | false =>
        rw [ht, if_neg (by decide)] at h2
        exact ⟨by omega, rfl⟩
    | succ k =>
      right
      rw [page_need_succ] at h1 h2
      exact ⟨by omega, k, by omega, by omega, by omega⟩
  · rintro (⟨h1, h2⟩ | ⟨h1, k, hk, h2, h3⟩)
    · refine ⟨0, by omega, ?_, ?_⟩
      · unfold page_need
        omega
      · rw [page_need_succ]
        unfold page_cost page_need
        rw [h2, if_neg (by decide)]
        omega
    · refine ⟨k + 1, by omega, ?_, ?_⟩
      · rw [page_need_succ]
        omega
      · rw [page_need_succ]
        omega

theorem stuck_needs {tables : Nat → Bool} {free count address : Nat}
    (h : StuckAtTable tables free count address) : free < page_need tables count address := by
  induction count generalizing tables free address with
  | zero =>
    obtain ⟨k, hk, -⟩ := h
    omega
  | succ count ih =>
    rw [page_need_succ]
    rcases (stuck_succ _ _ _ _).mp h with ⟨h1, h2⟩ | ⟨h1, h2⟩
    · unfold page_cost
      rw [h2, if_neg (by decide)]
      omega
    · have := ih h2
      omega

theorem sbrk_unwind_add (p q a : Nat) (m : Machine) :
    sbrk_unwind (p + q) a m = (sbrk_unwind p a m).bind (sbrk_unwind q (a + p * PAGE_SIZE)) := by
  induction p generalizing a m with
  | zero => simp [sbrk_unwind]
  | succ p ih =>
    have hnext : a + PAGE_SIZE + p * PAGE_SIZE = a + (p + 1) * PAGE_SIZE := by
      unfold PAGE_SIZE
      omega
    rw [Nat.succ_add, sbrk_unwind, sbrk_unwind]
    simp only [Option.bind_eq_bind]
    cases sbrk_free_page m a with
    | none => rfl
    | some m1 =>
      simp only [Option.bind_some]
      rw [ih, hnext]

theorem sbrk_map_pages_full {m : Machine} (start n address : Nat) (hk : KernelSpace m)
    (hfree : freeCount m = 0) :
    sbrk_map_pages start (n + 1) address m =
      (sbrk_unwind ((address - start) / PAGE_SIZE) start m).map fun m => (m, false) := by
  have hnone : (memory_bitmap_allocate m.memory_bitmap).2 = 0 := by
    by_contra hc
    obtain ⟨f, -, -, hlt, hu, -, -⟩ := allocate_fresh hc
    have := Finset.card_pos.mpr ⟨f, mem_freeFrames.mpr ⟨hlt, hu⟩⟩
    unfold freeCount at hfree
    omega
  have hsame : m.setBitmap (memory_bitmap_allocate m.memory_bitmap).1 = m := by
    rw [allocate_zero hk.zero hnone]
    rfl
  unfold sbrk_map_pages
  simp only [hnone, if_true, hsame, Option.bind_eq_bind]
  cases sbrk_unwind ((address - start) / PAGE_SIZE) start m <;> rfl

theorem sbrk_map_pages_turn {m m' : Machine} {r : memory_paging_result_t} (start n address : Nat)
    (hne : (memory_bitmap_allocate m.memory_bitmap).2 ≠ 0)
    (hmap : memory_paging_map_current (m.setBitmap (memory_bitmap_allocate m.memory_bitmap).1)
      (memory_bitmap_allocate m.memory_bitmap).2 address
      (PAGE_PRESENT ||| PAGE_USER ||| PAGE_READ_WRITE) = some (m', r)) :
    sbrk_map_pages start (n + 1) address m =
      sbrk_map_pages start n (u32 (address + PAGE_SIZE)) m' := by
  rw [sbrk_map_pages]
  simp only [hne, if_false, hmap, Option.bind_eq_bind, Option.bind_some]

/-- How the page loop ends: with all pages, with none since a page had no frame, or stuck at a
page table. -/
inductive MapEnd (base m m' : Machine) (lo hi n : Nat) (served : Bool) : Prop where
  | served (need : page_need (tablesOf m base.dir) n hi ≤ freeCount m) (ok : served = true)
      (pages : PagesOver base m' lo (hi + n * 4096)) (frames : FramesOver base m' lo (hi + n * 4096))
  | refused (need : freeCount m < page_need (tablesOf m base.dir) n hi)
      (free : ¬ StuckAtTable (tablesOf m base.dir) (freeCount m) n hi) (null : served = false)
      (b : Nat) (pages : PagesOver base m' b b) (frames : FramesOver base m' b b)
  | stuck_served (stuck : StuckAtTable (tablesOf m base.dir) (freeCount m) n hi) (ok : served = true)
      (v : Nat) (low : hi ≤ v) (high : v < hi + n * 4096) (absent : m'.entry base.dir v = none)
  | stuck_refused (stuck : StuckAtTable (tablesOf m base.dir) (freeCount m) n hi)
      (null : served = false) (slots : m'.bounce_pages_used ≠ base.bounce_pages_used)

theorem map_pages_end {base m : Machine} {lo hi : Nat} (n : Nat) (hr : Room base lo (hi + n * 4096))
    (hal : hi % 4096 = 0) (hle : lo ≤ hi) (hs : 0 < (freeSlots base).card)
    (h : PagesOver base m lo hi) (hf : FramesOver base m lo hi) :
    ∃ m' served, sbrk_map_pages lo n hi m = some (m', served) ∧ MapEnd base m m' lo hi n served := by
  have hceil := ceiling_below
  induction n generalizing m hi with
  | zero => exact ⟨m, true, rfl, .served (Nat.zero_le _) rfl (by simpa using h) (by simpa using hf)⟩
  | succ n ih =>
    have hbelow := hr.below
    have hlow := hr.low
    have hhi : hi < KERNEL_VIRTUAL_SPACE_START := by omega
    have hnext : u32 (hi + PAGE_SIZE) = hi + 4096 := by
      unfold KERNEL_VIRTUAL_SPACE_START at hhi
      exact u32_of_lt (show hi + 4096 < 0x100000000 by omega)
    have hroom : Room base lo hi :=
      ⟨hlow, hal, hle, by omega, fun v h1 h2 => hr.empty v h1 (by omega)⟩
    have hdir := h.dir
    have hslots : 0 < (freeSlots m).card := by rw [freeSlots_eq h.slots]; exact hs
    have htotal : hi + 4096 + n * 4096 = hi + (n + 1) * 4096 := by omega
    obtain ⟨k, hk⟩ : ∃ k, hi = lo + k * 4096 := ⟨(hi - lo) / 4096, by omega⟩
    have hcount : (hi - lo) / PAGE_SIZE = k := by
      unfold PAGE_SIZE
      omega
    by_cases hzero : freeCount m = 0
    · -- No frame for the page: the loop gives back what it mapped.
      obtain ⟨m', hunwind, hp, -, hframes⟩ := unwind_spec k hroom hk hs h
      refine ⟨m', false, ?_, .refused ?_ ?_ rfl hi hp (hframes hf)⟩
      · rw [sbrk_map_pages_full lo n hi h.space hzero, hcount, hunwind]
        rfl
      · rw [hzero, page_need_succ]
        unfold page_cost
        omega
      · rw [hzero]
        rintro ⟨j, -, hj, -⟩
        omega
    · by_cases hcost : page_cost (tablesOf m base.dir) hi ≤ freeCount m
      · -- A frame for the page, and for its table.
        obtain ⟨hne, m1, hmap, hg⟩ := page_gained h.space h.here hhi (by rw [hdir]; exact hcost)
        have hp1 := h.gain hg hal hle hhi
        have hf1 := hf.gain h hg hal hle hhi
        have htables : tablesOf m1 base.dir = withTable (tablesOf m base.dir) hi := by
          rw [← hdir]
          exact hg.tables
        have hfree : freeCount m1 = freeCount m - page_cost (tablesOf m base.dir) hi := by
          have := hg.count
          rw [hdir] at this
          unfold page_cost
          omega
        obtain ⟨m', served, hrest, hend⟩ := ih (by rw [htotal]; exact hr) (by omega) (by omega) hp1 hf1
        refine ⟨m', served, ?_, ?_⟩
        · rw [sbrk_map_pages_turn lo n hi hne hmap, hnext]
          exact hrest
        · have hneed := page_need_succ (tablesOf m base.dir) n hi
          have hstuck := stuck_succ (tablesOf m base.dir) (freeCount m) n hi
          have hpage : hi + PAGE_SIZE = hi + 4096 := rfl
          rw [hpage, ← htables] at hneed hstuck
          rw [← hfree] at hstuck
          cases hend with
          | served need ok pages frames =>
            rw [htotal] at pages frames
            exact .served (by omega) ok pages frames
          | refused need free null b pages frames =>
            refine .refused (by omega) ?_ null b pages frames
            rw [hstuck]
            rintro (⟨h1, h2⟩ | ⟨-, h2⟩)
            · unfold page_cost at hcost
              rw [h2, if_neg (by decide)] at hcost
              omega
            · exact free h2
          | stuck_served stuck ok v low high absent =>
            exact .stuck_served (hstuck.mpr (Or.inr ⟨hcost, stuck⟩)) ok v (by omega) (by omega) absent
          | stuck_refused stuck null slots =>
            exact .stuck_refused (hstuck.mpr (Or.inr ⟨hcost, stuck⟩)) null slots
      · -- The page takes the last frame, and there is none for its table.
        have hone : freeCount m = 1 ∧ tablesOf m base.dir (page_directory_index hi) = false := by
          unfold page_cost at hcost
          cases ht : tablesOf m base.dir (page_directory_index hi) with
          | true =>
            rw [ht, if_pos rfl] at hcost
            omega
          | false =>
            rw [ht, if_neg (by decide)] at hcost
            exact ⟨by omega, rfl⟩
        have hstuck : StuckAtTable (tablesOf m base.dir) (freeCount m) (n + 1) hi :=
          (stuck_succ _ _ _ _).mpr (Or.inl hone)
        obtain ⟨hne, m1, hmap, hsteps, hwords, hfree1⟩ :=
          page_stuck h.space h.here hhi hone.1 (by rw [hdir]; exact hone.2)
        have hentry : ∀ v, m1.entry base.dir v = m.entry base.dir v := by
          intro v
          unfold Machine.entry
          rw [hwords]
        have hp1 : PagesOver base m1 lo hi := by
          refine ⟨h.toSteps.trans hsteps, fun v h1 h2 => ?_, fun v hv hout => ?_⟩
          · unfold UserWritable
            rw [hentry, hwords]
            exact h.inside v h1 h2
          · rw [hentry]
            exact h.outside v hv hout
        have hturn := sbrk_map_pages_turn lo n hi hne hmap
        rw [hnext] at hturn
        cases n with
        | zero =>
          refine ⟨m1, true, hturn, .stuck_served hstuck rfl hi (le_refl hi) (by omega) ?_⟩
          rw [hp1.outside hi (user_below_tables hhi) (Or.inr (le_refl hi))]
          exact hr.empty hi hle (by omega)
        | succ n =>
          -- The next page has no frame, and the unwind loop comes to the one without a table.
          obtain ⟨m2, hunwind, hp2, hdirectory, -⟩ := unwind_spec k hroom hk hs hp1
          have hslots2 : 0 < (freeSlots m2).card := by rw [freeSlots_eq hp2.slots]; exact hs
          have habsent : present (m2.frames m2.dir (page_directory_index hi)) = false := by
            rw [hp2.dir, hdirectory, hwords]
            exact hone.2
          obtain ⟨m', hlast, hopen⟩ := absent_page_kept hp2.space hslots2 hhi habsent
          refine ⟨m', false, ?_, .stuck_refused hstuck rfl ?_⟩
          · rw [hturn, sbrk_map_pages_full lo n (hi + 4096) hp1.space hfree1]
            have hcount1 : (hi + 4096 - lo) / PAGE_SIZE = k + 1 := by
              unfold PAGE_SIZE
              omega
            have hend : lo + k * PAGE_SIZE = hi := hk.symm
            rw [hcount1, sbrk_unwind_add, hunwind, Option.bind_some, hend]
            unfold sbrk_unwind
            simp only [Option.bind_eq_bind, hlast, Option.bind_some]
            rfl
          · rw [← hp2.slots]
            exact hopen

/-! ## Ranges side by side -/

section append

variable {base m m' : Machine} {lo mid hi : Nat}

theorem PagesOver.append (h : PagesOver base m lo mid) (h' : PagesOver m m' mid hi)
    (hle : lo ≤ mid) (hle' : mid ≤ hi) (hhi : hi ≤ KERNEL_VIRTUAL_SPACE_START) :
    PagesOver base m' lo hi := by
  have hdir := h.dir
  have hlow : ∀ v, v < hi → v < PAGE_TABLES_START := fun v hv => user_below_tables (by omega)
  refine ⟨h.toSteps.trans h'.toSteps, fun v h1 h2 => ?_, fun v hv hout => ?_⟩
  · by_cases hlt : v < mid
    · have hin := h.inside v h1 hlt
      rw [← hdir] at hin ⊢
      exact h'.toSteps.userWritable hin (h'.outside v (hlow v h2) (Or.inl hlt))
    · rw [← hdir]
      exact h'.inside v (by omega) h2
  · rw [← h.outside v hv (by omega), ← hdir]
    exact h'.outside v hv (by omega)

theorem FramesOver.append (h : PagesOver base m lo mid) (h' : PagesOver m m' mid hi)
    (hf : FramesOver base m lo mid) (hf' : FramesOver m m' mid hi)
    (hle : lo ≤ mid) (hle' : mid ≤ hi) (hhi : hi ≤ KERNEL_VIRTUAL_SPACE_START) :
    FramesOver base m' lo hi := by
  have hdir := h.dir
  have hlow : ∀ v, v < hi → v < PAGE_TABLES_START := fun v hv => user_below_tables (by omega)
  have hpage : ∀ g, PageFrom base m' lo hi g ↔
      PageFrom base m lo mid g ∨ PageFrom m m' mid hi g := by
    intro g
    unfold PageFrom
    rw [← hdir]
    constructor
    · rintro ⟨v, x, h1, h2, hx, hg⟩
      by_cases hlt : v < mid
      · rw [h'.outside v (hlow v h2) (Or.inl hlt)] at hx
        exact Or.inl ⟨v, x, h1, hlt, hx, hg⟩
      · exact Or.inr ⟨v, x, by omega, h2, hx, hg⟩
    · rintro (⟨v, x, h1, h2, hx, hg⟩ | ⟨v, x, h1, h2, hx, hg⟩)
      · rw [← h'.outside v (hlow v (by omega)) (Or.inl h2)] at hx
        exact ⟨v, x, h1, by omega, hx, hg⟩
      · exact ⟨v, x, by omega, h2, hx, hg⟩
  have htable : ∀ g, NewTable base m' g ↔ NewTable base m g ∨ NewTable m m' g :=
    newTable_step h.toSteps h'.toSteps
  constructor
  · intro g hg
    rcases (hpage g).mp hg with hold | hnew
    · exact hf.fresh g hold
    · exact fun hu => hf'.fresh g hnew ((hf.used g).mpr (Or.inl hu))
  · intro g
    rw [hf'.used, hf.used, hpage, htable]
    tauto

end append

/-! ## The call -/

/-- The values of an `int32_t`. -/
def IsInt32 (delta : Int) : Prop := -0x80000000 ≤ delta ∧ delta < 0x80000000

/-- The pages of a growth. -/
def sbrk_pages (delta : Int) : Nat := ALIGN_UP delta.toNat / PAGE_SIZE

/-- The call passes its checks and maps pages. -/
structure Grows (task : task_t) (delta : Int) : Prop where
  user : task.task_is_user = true
  positive : 0 < delta
  heap : task.heap_break ≠ 0
  above : (task.heap_start : Int) ≤ task.heap_break + delta
  below : (task.heap_break : Int) + delta < USER_HEAP_VIRTUAL_CEILING

/-- The call passes its checks and unmaps pages. -/
structure Shrinks (task : task_t) (delta : Int) : Prop where
  user : task.task_is_user = true
  negative : delta < 0
  heap : task.heap_break ≠ 0
  above : (task.heap_start : Int) ≤ task.heap_break + delta
  below : (task.heap_break : Int) + delta < USER_HEAP_VIRTUAL_CEILING

/-- A failure return of `syscall_sbrk`. -/
def SbrkFailed (r : Int) : Prop :=
  r = -SYSCALL_RESULT_FAIL ∨ r = -SYSCALL_RESULT_BAD_PARAMETER ∨ r = -SYSCALL_RESULT_OUT_OF_MEMORY

/-- The task has a directory of its own, and above its break there is nothing yet. -/
structure HeapReady (m : Machine) (task : task_t) : Prop where
  space : KernelSpace m
  own : OwnSpace m m.dir
  slots : 0 < (freeSlots m).card
  aligned : task.heap_break % 4096 = 0
  empty : ∀ v, task.heap_break ≤ v → v < USER_HEAP_VIRTUAL_CEILING → m.entry m.dir v = none

theorem sbrk_pages_bounds {delta : Int} (hpos : 0 < delta) (hd : IsInt32 delta) :
    delta ≤ sbrk_pages delta * 4096 ∧ (sbrk_pages delta * 4096 : Int) < delta + 4096 ∧
      ALIGN_UP delta.toNat = sbrk_pages delta * 4096 := by
  have hup := ALIGN_UP_bounds (v := delta.toNat) (by unfold IsInt32 at hd; omega)
  have hmod := ALIGN_UP_mod delta.toNat
  unfold sbrk_pages PAGE_SIZE
  omega

theorem Grows.room {m : Machine} {task : task_t} {delta : Int} (hg : Grows task delta)
    (h : HeapReady m task) (hd : IsInt32 delta) :
    Room m task.heap_break (task.heap_break + sbrk_pages delta * 4096) := by
  have hpages := sbrk_pages_bounds hg.positive hd
  have hal := h.aligned
  have hbelow := hg.below
  have hceil : USER_HEAP_VIRTUAL_CEILING % 4096 = 0 := by decide
  refine ⟨hal, by omega, by omega, by omega, fun v h1 h2 => h.empty v h1 (by omega)⟩

/-- A call that passes its checks with a positive `delta` is the page loop. -/
theorem sbrk_grows {m : Machine} {task : task_t} {delta : Int} (hg : Grows task delta)
    (h : HeapReady m task) (hd : IsInt32 delta) :
    syscall_sbrk m task delta =
      (sbrk_map_pages task.heap_break (sbrk_pages delta) task.heap_break m).map fun r =>
        if r.2 then (r.1, { task with heap_break := task.heap_break + sbrk_pages delta * 4096 },
          int32 task.heap_break)
        else (r.1, task, -SYSCALL_RESULT_OUT_OF_MEMORY) := by
  obtain ⟨huser, hpos, hheap, habove, hbelow⟩ := hg
  have hpages := sbrk_pages_bounds hpos hd
  have hroom := (Grows.mk huser hpos hheap habove hbelow).room h hd
  have hceil := ceiling_below
  have hu32 : u32 (task.heap_break + ALIGN_UP delta.toNat) =
      task.heap_break + sbrk_pages delta * 4096 := by
    rw [hpages.2.2]
    apply u32_of_lt
    have := hroom.below
    unfold KERNEL_VIRTUAL_SPACE_START at hceil
    omega
  have hcount : ALIGN_UP delta.toNat / PAGE_SIZE = sbrk_pages delta := rfl
  unfold syscall_sbrk syscall_sbrk_allocate_physical_memory
  rw [if_neg (by simp [huser]), if_neg (by omega), if_neg hheap]
  simp only [hu32, hcount]
  rw [if_neg (by omega), if_neg (by omega), if_neg (by omega), if_pos hpos,
    if_neg (by have := hroom.below; omega)]
  cases sbrk_map_pages task.heap_break (sbrk_pages delta) task.heap_break m with
  | none => rfl
  | some r =>
    obtain ⟨m', served⟩ := r
    cases served <;> rfl

section results

variable {m m' : Machine} {task : task_t} {delta : Int}

/-- The task after a growth. -/
def grown_task (task : task_t) (delta : Int) : task_t :=
  { task with heap_break := task.heap_break + sbrk_pages delta * 4096 }

theorem sbrk_served (hg : Grows task delta) (h : HeapReady m task) (hd : IsInt32 delta)
    (hloop : sbrk_map_pages task.heap_break (sbrk_pages delta) task.heap_break m = some (m', true)) :
    syscall_sbrk m task delta = some (m', grown_task task delta, int32 task.heap_break) := by
  rw [sbrk_grows hg h hd, hloop]
  rfl

theorem sbrk_refused (hg : Grows task delta) (h : HeapReady m task) (hd : IsInt32 delta)
    (hloop : sbrk_map_pages task.heap_break (sbrk_pages delta) task.heap_break m = some (m', false)) :
    syscall_sbrk m task delta = some (m', task, -SYSCALL_RESULT_OUT_OF_MEMORY) := by
  rw [sbrk_grows hg h hd, hloop]
  rfl

end results

/-- A call that passes its checks with a negative `delta` is the loop that unmaps. -/
theorem sbrk_shrinks {m : Machine} {task : task_t} {delta : Int} (hg : Shrinks task delta) :
    syscall_sbrk m task delta =
      (syscall_sbrk_free_physical_memory m task.heap_break (-delta).toNat).map fun r =>
        (r.1, { task with heap_break := r.2 }, int32 task.heap_break) := by
  obtain ⟨huser, hneg, hheap, habove, hbelow⟩ := hg
  have hceil : (USER_HEAP_VIRTUAL_CEILING : Int) < KERNEL_VIRTUAL_SPACE_START := by decide
  unfold syscall_sbrk
  rw [if_neg (by simp [huser]), if_neg (by omega), if_neg hheap]
  simp only
  rw [if_neg (by omega), if_neg (by omega), if_neg (by omega), if_neg (by omega)]
  cases syscall_sbrk_free_physical_memory m task.heap_break (-delta).toNat with
  | none => rfl
  | some r => rfl

/-- Every other call leaves all as it is: it fails, or asks for the break. -/
theorem sbrk_stays (m : Machine) {task : task_t} {delta : Int} (hg : ¬ Grows task delta)
    (hs : ¬ Shrinks task delta) :
    ∃ r, syscall_sbrk m task delta = some (m, task, r) ∧
      (SbrkFailed r ∨ delta = 0 ∧ r = int32 task.heap_break) := by
  unfold syscall_sbrk
  by_cases huser : task.task_is_user = true
  · rw [if_neg (by simp [huser])]
    by_cases hzero : delta = 0
    · exact ⟨_, by rw [if_pos hzero]; rfl, Or.inr ⟨hzero, rfl⟩⟩
    · rw [if_neg hzero]
      by_cases hheap : task.heap_break = 0
      · exact ⟨_, by rw [if_pos hheap]; rfl, Or.inl (Or.inl rfl)⟩
      · rw [if_neg hheap]
        simp only
        by_cases hbelow : (USER_HEAP_VIRTUAL_CEILING : Int) ≤ task.heap_break + delta
        · exact ⟨_, by rw [if_pos hbelow]; rfl, Or.inl (Or.inr (Or.inr rfl))⟩
        · rw [if_neg hbelow]
          by_cases habove : (task.heap_break : Int) + delta < task.heap_start
          · exact ⟨_, by rw [if_pos habove]; rfl, Or.inl (Or.inl rfl)⟩
          · exfalso
            rcases lt_or_gt_of_ne hzero with hneg | hpos
            · exact hs ⟨huser, hneg, hheap, by omega, by omega⟩
            · exact hg ⟨huser, hpos, hheap, by omega, by omega⟩
  · exact ⟨_, by rw [if_pos (by simpa using huser)]; rfl, Or.inl (Or.inl rfl)⟩

/-- The value that a call returns for a break is no failure. -/
theorem break_not_failed {b : Nat} (hal : b % 4096 = 0) :
    ¬ SbrkFailed (int32 b) := by
  unfold SbrkFailed int32 SYSCALL_RESULT_FAIL SYSCALL_RESULT_BAD_PARAMETER
    SYSCALL_RESULT_OUT_OF_MEMORY
  split <;> omega

/-! ## A failed call -/

/-- What a call of `sbrk` promises. When it fails, the break, the mappings and the slots are
as before, and only page tables took frames; when it grows the heap, every page of the
growth is mapped. -/
structure Atomic (m : Machine) (task : task_t) (delta : Int) (m' : Machine) (task' : task_t)
    (r : Int) : Prop where
  heap : SbrkFailed r → task'.heap_break = task.heap_break
  mappings : SbrkFailed r → ∀ v, v < PAGE_TABLES_START → m'.entry m.dir v = m.entry m.dir v
  slots : SbrkFailed r → m'.bounce_pages_used = m.bounce_pages_used
  frames : SbrkFailed r → ∀ g, Used m'.memory_bitmap g ↔ Used m.memory_bitmap g ∨ NewTable m m' g
  grown : ¬ SbrkFailed r → 0 < delta → ∀ v, task.heap_break ≤ v → v < task'.heap_break →
    ∃ x, m'.entry m.dir v = some x

/-- The call returns when it may grow the heap, and keeps its promise when it returns. -/
def SbrkIsAtomic (m : Machine) (task : task_t) (delta : Int) : Prop :=
  (0 ≤ delta → ∃ m' task' r, syscall_sbrk m task delta = some (m', task', r)) ∧
    ∀ m' task' r, syscall_sbrk m task delta = some (m', task', r) → Atomic m task delta m' task' r

/-- A state that a failed call may leave. -/
theorem atomic_of_restored {m m' : Machine} {task : task_t} {delta : Int} {b : Nat}
    (h : PagesOver m m' b b) (hf : FramesOver m m' b b) :
    Atomic m task delta m' task (-SYSCALL_RESULT_OUT_OF_MEMORY) := by
  have hfail : SbrkFailed (-SYSCALL_RESULT_OUT_OF_MEMORY) := Or.inr (Or.inr rfl)
  refine ⟨fun _ => rfl, fun _ v hv => h.outside v hv (by omega), fun _ => h.slots, fun _ g => ?_,
    fun hno => absurd hfail hno⟩
  rw [hf.used]
  constructor
  · rintro (hu | ⟨v, x, h1, h2, -⟩ | hn)
    · exact Or.inl hu
    · omega
    · exact Or.inr hn
  · rintro (hu | hn)
    · exact Or.inl hu
    · exact Or.inr (Or.inr hn)

section atomic

variable {m : Machine} {task : task_t} {delta : Int}

/-- Frames that run out at a page table break the promise: a page of the growth is not mapped
although the call ends well, or a slot stays open. -/
theorem stuck_not_atomic (h : HeapReady m task) (hd : IsInt32 delta) (hg : Grows task delta)
    (hstuck : StuckAtTable (tablesOf m m.dir) (freeCount m) (sbrk_pages delta) task.heap_break) :
    ¬ SbrkIsAtomic m task delta := by
  rintro ⟨-, hall⟩
  obtain ⟨m', served, hloop, hend⟩ := map_pages_end (sbrk_pages delta) (hg.room h hd) h.aligned
    (le_refl _) h.slots (PagesOver.refl h.space h.own _) (FramesOver.refl m _)
  cases hend with
  | served need ok pages frames => exact absurd (stuck_needs hstuck) (by omega)
  | refused need free null b pages frames => exact free hstuck
  | stuck_served stuck ok v low high absent =>
    subst ok
    obtain ⟨x, hx⟩ := (hall _ _ _ (sbrk_served hg h hd hloop)).grown (break_not_failed h.aligned)
      hg.positive v low high
    rw [absent] at hx
    cases hx
  | stuck_refused stuck null slots =>
    subst null
    exact slots ((hall _ _ _ (sbrk_refused hg h hd hloop)).slots (Or.inr (Or.inr rfl)))

theorem grows_atomic (h : HeapReady m task) (hd : IsInt32 delta) (hg : Grows task delta)
    (hfree : ¬ StuckAtTable (tablesOf m m.dir) (freeCount m) (sbrk_pages delta) task.heap_break) :
    SbrkIsAtomic m task delta := by
  have hbreak := break_not_failed h.aligned
  obtain ⟨m', served, hloop, hend⟩ := map_pages_end (sbrk_pages delta) (hg.room h hd) h.aligned
    (le_refl _) h.slots (PagesOver.refl h.space h.own _) (FramesOver.refl m _)
  cases hend with
  | served need ok pages frames =>
    subst ok
    have hcall := sbrk_served hg h hd hloop
    refine ⟨fun _ => ⟨_, _, _, hcall⟩, fun m1 task1 r hr => ?_⟩
    rw [hcall] at hr
    cases hr
    refine ⟨fun hc => absurd hc hbreak, fun hc => absurd hc hbreak, fun hc => absurd hc hbreak,
      fun hc => absurd hc hbreak, fun _ _ v h1 h2 => ?_⟩
    obtain ⟨x, hx, -⟩ := pages.inside v h1 h2
    exact ⟨x, hx⟩
  | refused need free null b pages frames =>
    subst null
    have hcall := sbrk_refused hg h hd hloop
    refine ⟨fun _ => ⟨_, _, _, hcall⟩, fun m1 task1 r hr => ?_⟩
    rw [hcall] at hr
    cases hr
    exact atomic_of_restored pages frames
  | stuck_served stuck ok v low high absent => exact absurd stuck hfree
  | stuck_refused stuck null slots => exact absurd stuck hfree

/-- A call that does not map pages keeps the promise. -/
theorem stays_atomic (h : HeapReady m task) (hg : ¬ Grows task delta) :
    SbrkIsAtomic m task delta := by
  by_cases hs : Shrinks task delta
  · have hneg := hs.negative
    refine ⟨fun hpos => absurd hneg (by omega), fun m' task' r hr => ?_⟩
    rw [sbrk_shrinks hs] at hr
    obtain ⟨r', -, hr⟩ := Option.map_eq_some_iff.mp hr
    cases hr
    have hbreak := break_not_failed h.aligned
    exact ⟨fun hc => absurd hc hbreak, fun hc => absurd hc hbreak, fun hc => absurd hc hbreak,
      fun hc => absurd hc hbreak, fun _ hpos => absurd hneg (by omega)⟩
  · obtain ⟨r, hcall, hr⟩ := sbrk_stays m hg hs
    refine ⟨fun _ => ⟨_, _, _, hcall⟩, fun m' task' r' hr' => ?_⟩
    rw [hcall] at hr'
    cases hr'
    refine ⟨fun _ => rfl, fun _ _ _ => rfl, fun _ => rfl, fun _ g => ?_, fun hno hpos => ?_⟩
    · constructor
      · exact Or.inl
      · rintro (hu | ⟨h1, h2⟩)
        · exact hu
        · exact absurd h1 h2
    · rcases hr with hr | ⟨hzero, -⟩
      · exact absurd hr hno
      · omega

/-- A call of `sbrk` is atomic exactly when it does not grow the heap, or the frames do not run
out at a page table. -/
theorem a_failed_sbrk_changes_nothing (h : HeapReady m task) (hd : IsInt32 delta) :
    SbrkIsAtomic m task delta ↔
      ¬ (Grows task delta ∧
        StuckAtTable (tablesOf m m.dir) (freeCount m) (sbrk_pages delta) task.heap_break) := by
  constructor
  · rintro ha ⟨hg, hstuck⟩
    exact stuck_not_atomic h hd hg hstuck ha
  · intro hno
    by_cases hg : Grows task delta
    · exact grows_atomic h hd hg fun hstuck => hno ⟨hg, hstuck⟩
    · exact stays_atomic h hg

end atomic

/-! ## The heap of the small task -/

theorem small_directory {j : Nat} (hp : present (smallMachine.frames smallMachine.dir j) = true) :
    j = 0 ∨ j = 768 ∨ j = 831 ∨ j = 1022 ∨ j = 1023 := by
  by_contra hc
  have h1 : smallMachine.frames smallMachine.dir j = 0 := by
    show smallFrames 4 j = 0
    unfold smallFrames
    simp only [show ¬ (4 = 1) by omega, show ¬ (4 = 2) by omega, if_false, if_true]
    rw [if_neg (by omega), if_neg (by omega), if_neg (by omega), if_neg (by omega),
      if_neg (by omega)]
  rw [h1] at hp
  cases hp

theorem small_entry {v x : Nat} (hv : v < KERNEL_VIRTUAL_SPACE_START)
    (hx : smallMachine.entry smallMachine.dir v = some x) : v / 4096 = 1 ∧ frameOf x = 6 := by
  obtain ⟨hp, hq, he⟩ := entry_eq_some.mp hx
  obtain ⟨h0, h1⟩ := (small_user_page (user_directory_index hv)).mp ⟨hp, hq⟩
  have hx6 : x = 0x6007 := by
    rw [← he, h0, h1]
    decide
  refine ⟨?_, by rw [hx6]; decide⟩
  unfold page_directory_index at h0
  unfold page_table_index at h1
  unfold KERNEL_VIRTUAL_SPACE_START at hv
  omega

theorem small_ownSpace : OwnSpace smallMachine smallMachine.dir where
  taken := fun j _ hp _ => by
    apply small_used
    rcases small_directory hp with rfl | rfl | rfl | rfl | rfl <;> decide
  apart := fun i j hi _ hpi hpj he => by
    obtain rfl := small_user_pde hi hpi
    rcases small_directory hpj with rfl | rfl | rfl | rfl | rfl
    · rfl
    all_goals
      revert he
      decide
  loops := fun j hj hp => by
    rcases small_directory hp with rfl | rfl | rfl | rfl | rfl <;> revert hj <;> decide
  foreign := fun j hj hp hf => by
    obtain rfl := small_user_pde hj hp
    rcases small_kernelFrame hf with h | h | h <;> revert h <;> decide
  writable := fun j hj hp => by
    obtain rfl := small_user_pde hj hp
    decide
  pages := fun v x hv hx => by
    rw [(small_entry hv hx).2]
    refine ⟨by decide, by decide, small_used (by omega), by decide, fun hf => ?_, fun j _ hp => ?_⟩
    · rcases small_kernelFrame hf with h | h | h <;> revert h <;> decide
    · rcases small_directory hp with rfl | rfl | rfl | rfl | rfl <;> decide
  pages_apart := fun v w x y hv hw hx hy _ => by
    rw [(small_entry hv hx).1, (small_entry hw hy).1]

/-- The small task with an empty heap from 4 MiB on, where it has no page table yet. -/
def heapTask : task_t := { smallParent with heap_start := 0x400000, heap_break := 0x400000 }

theorem small_heap_empty (v : Nat) (h1 : 0x400000 ≤ v) (h2 : v < USER_HEAP_VIRTUAL_CEILING) :
    smallMachine.entry smallMachine.dir v = none := by
  cases hx : smallMachine.entry smallMachine.dir v with
  | none => rfl
  | some x =>
    have := (small_entry (h2.trans ceiling_below) hx).1
    omega

theorem small_slots_free : 0 < (freeSlots smallMachine).card :=
  Finset.card_pos.mpr ⟨0, mem_freeSlots.mpr (by decide)⟩

theorem small_heapReady : HeapReady smallMachine heapTask :=
  ⟨small_kernelSpace, small_ownSpace, small_slots_free, by decide, small_heap_empty⟩

/-- The small machine with one free frame. -/
def tightMachine : Machine :=
  smallMachine.setBitmap { smallBitmap with entries := fun i => if i = 0 then 0x7FFFFFFF else 0 }

theorem tight_heapReady : HeapReady tightMachine heapTask := by
  have hused : ∀ f, Used smallMachine.memory_bitmap f → Used tightMachine.memory_bitmap f := by
    intro f hf
    have hlt : f < 32 := by
      by_contra hge
      have hword : smallBitmap.entries (f / BITMAP_ENTRY_SIZE_IN_BITS) = 0 := by
        show (if f / 32 = 0 then 0x1FF else 0) = 0
        rw [if_neg (by omega)]
      apply hf
      show smallBitmap.entries (f / BITMAP_ENTRY_SIZE_IN_BITS) &&& _ = 0
      rw [hword, Nat.zero_and]
    have hall : ∀ f < 32, Used smallMachine.memory_bitmap f → Used tightMachine.memory_bitmap f := by
      decide
    exact hall f hlt hf
  exact ⟨small_kernelSpace.setBitmap rfl hused, small_ownSpace.setBitmap rfl hused, small_slots_free,
    by decide, small_heap_empty⟩

/-- With one frame left, a growth by a page gives the page's address, and the page is not
mapped. -/
theorem sbrk_gives_a_page_that_is_not_there :
    HeapReady tightMachine heapTask ∧ ¬ SbrkIsAtomic tightMachine heapTask 4096 := by
  refine ⟨tight_heapReady, fun hatomic => ?_⟩
  refine stuck_not_atomic tight_heapReady ⟨by decide, by decide⟩ ⟨rfl, by decide, by decide,
    by decide, by decide⟩ ?_ hatomic
  have hone : freeCount tightMachine = 1 := by decide +kernel
  have hpages : sbrk_pages 4096 = 0 + 1 := by decide
  rw [hone, hpages]
  exact (stuck_succ _ _ _ _).mpr (Or.inl ⟨rfl, by decide⟩)

theorem small_sbrk_is_atomic : SbrkIsAtomic smallMachine heapTask 4096 := by
  apply (a_failed_sbrk_changes_nothing small_heapReady ⟨by decide, by decide⟩).mpr
  rintro ⟨-, hstuck⟩
  have hneed := stuck_needs hstuck
  have hcount : freeCount smallMachine = 23 := by decide +kernel
  have hpages : page_need (tablesOf smallMachine smallMachine.dir) (sbrk_pages 4096)
      heapTask.heap_break = 2 := by decide +kernel
  rw [hcount, hpages] at hneed
  omega

end alura_os.task_manager
