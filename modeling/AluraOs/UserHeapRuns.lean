-- Runs of `sbrk`: from the launch of a program on, the heap is an interval of
-- pages, and what the program may count on of it.
import AluraOs.UserHeap

namespace alura_os.task_manager

open alura_os.memory alura_os.memory_bitmap alura_os.memory_paging alura_os.elf_executable
open Machine

/-! ## The interval -/

/-- A user task that runs a new program: its heap is empty, and nothing is mapped where the
heap may grow. -/
structure Launched (m : Machine) (task : task_t) : Prop extends HeapReady m task where
  user : task.task_is_user = true
  start : task.heap_break = task.heap_start
  below : task.heap_start ≤ USER_HEAP_VIRTUAL_CEILING

/-- Since the launch in `m0`, the heap has the pages from its start to the break. -/
structure HeapInterval (m0 : Machine) (task0 : task_t) (m : Machine) (task : task_t) : Prop where
  user : task.task_is_user = true
  start : task.heap_start = task0.heap_start
  aligned : task.heap_break % 4096 = 0
  low : task0.heap_start ≤ task.heap_break
  high : task.heap_break ≤ USER_HEAP_VIRTUAL_CEILING
  pages : PagesOver m0 m task0.heap_start task.heap_break
  frames : FramesOver m0 m task0.heap_start task.heap_break

/-- A page that is mapped stays as it is, or it is unmapped and its frame is free. -/
def KeptOrFreed (d : Nat) (m m' : Machine) : Prop :=
  ∀ v x, v < PAGE_TABLES_START → m.entry d v = some x →
    m'.entry d v = some x ∨ m'.entry d v = none ∧ ¬ Used m'.memory_bitmap (frameOf x)

/-- How far a call moves the break. -/
def sbrk_rounded (delta : Int) : Int :=
  if 0 ≤ delta then ALIGN_UP delta.toNat else -(ALIGN_UP (-delta).toNat : Int)

theorem sbrk_rounded_whole {delta : Int} (hd : IsInt32 delta) (h : delta % 4096 = 0) :
    sbrk_rounded delta = delta := by
  unfold IsInt32 at hd
  have h1 := ALIGN_UP_bounds (v := delta.toNat) (by omega)
  have h2 := ALIGN_UP_bounds (v := (-delta).toNat) (by omega)
  have h3 := ALIGN_UP_mod delta.toNat
  have h4 := ALIGN_UP_mod (-delta).toNat
  unfold sbrk_rounded
  split <;> omega

section interval

variable {m0 m : Machine} {task0 task : task_t} {delta : Int}

theorem Launched.start_aligned (hl : Launched m0 task0) : task0.heap_start % 4096 = 0 := by
  rw [← hl.start]
  exact hl.aligned

theorem HeapInterval.begin (hl : Launched m0 task0) : HeapInterval m0 task0 m0 task0 := by
  have hstart := hl.start
  refine ⟨hl.user, rfl, hl.aligned, by omega, by rw [hstart]; exact hl.below, ?_, ?_⟩
  · rw [hstart]
    exact PagesOver.refl hl.space hl.own _
  · rw [hstart]
    exact FramesOver.refl m0 _

theorem HeapInterval.ready (h : HeapInterval m0 task0 m task) (hl : Launched m0 task0) :
    HeapReady m task := by
  have hceil := ceiling_below
  refine ⟨h.pages.space, h.pages.here, ?_, h.aligned, fun v h1 h2 => ?_⟩
  · rw [freeSlots_eq h.pages.slots]
    exact hl.slots
  · have hlow := h.low
    have hstart := hl.start
    rw [h.pages.dir, h.pages.outside v (user_below_tables (by omega)) (Or.inr h1)]
    exact hl.empty v (by omega) h2

/-- A call that maps pages, when the frames do not run out at a page table. -/
theorem HeapInterval.grow (h : HeapInterval m0 task0 m task) (hl : Launched m0 task0)
    (hd : IsInt32 delta) (hg : Grows task delta)
    (hfree : ¬ StuckAtTable (tablesOf m m.dir) (freeCount m) (sbrk_pages delta) task.heap_break) :
    ∃ m' task' r, syscall_sbrk m task delta = some (m', task', r) ∧
      HeapInterval m0 task0 m' task' ∧ KeptOrFreed m0.dir m m' ∧
      (SbrkFailed r ∧ task' = task ∧
          freeCount m < page_need (tablesOf m m.dir) (sbrk_pages delta) task.heap_break ∨
        ¬ SbrkFailed r ∧ (task'.heap_break : Int) = task.heap_break + sbrk_rounded delta) := by
  have hready := h.ready hl
  have hroom := hg.room hready hd
  have hceil := ceiling_below
  have hlow := h.low
  have hbelow := hroom.below
  have hle := hroom.le
  have hdir := h.pages.dir
  obtain ⟨m', served, hloop, hend⟩ := map_pages_end (sbrk_pages delta) hroom hready.aligned
    (le_refl _) hready.slots (PagesOver.refl hready.space hready.own _) (FramesOver.refl m _)
  cases hend with
  | served need ok pages frames =>
    subst ok
    refine ⟨m', grown_task task delta, _, sbrk_served hg hready hd hloop, ?_, ?_, Or.inr ⟨?_, ?_⟩⟩
    · exact ⟨h.user, h.start, hroom.high, hlow.trans hle, hbelow,
        h.pages.append pages hlow hle (hbelow.trans hceil.le),
        h.frames.append h.pages pages frames hlow hle (hbelow.trans hceil.le)⟩
    · intro v x hv hx
      left
      rw [← hdir] at hx ⊢
      rw [pages.outside v hv ?_]
      · exact hx
      · by_contra hin
        rw [hready.empty v (by omega) (by omega)] at hx
        cases hx
    · exact break_not_failed hready.aligned
    · have hpages := sbrk_pages_bounds hg.positive hd
      have hpos := hg.positive
      unfold sbrk_rounded grown_task
      rw [if_pos (by omega), hpages.2.2]
      simp
  | refused need free null b pages frames =>
    subst null
    have hsame : PagesOver m m' task.heap_break task.heap_break := by
      refine ⟨pages.toSteps, fun v h1 h2 => ?_, fun v hv _ => pages.outside v hv (by omega)⟩
      omega
    have hno : ∀ c g, ¬ PageFrom m m' c c g := by
      rintro c g ⟨v, x, h1, h2, -⟩
      omega
    have hframes : FramesOver m m' task.heap_break task.heap_break := by
      refine ⟨fun g hg => absurd hg (hno _ g), fun g => ?_⟩
      have hb := hno b g
      have hbreak := hno task.heap_break g
      rw [frames.used]
      tauto
    refine ⟨m', task, _, sbrk_refused hg hready hd hloop, ?_, ?_,
      Or.inl ⟨Or.inr (Or.inr rfl), rfl, need⟩⟩
    · exact ⟨h.user, h.start, h.aligned, hlow, h.high,
        h.pages.append hsame hlow (le_refl _) (h.high.trans hceil.le),
        h.frames.append h.pages hsame hframes hlow (le_refl _) (h.high.trans hceil.le)⟩
    · intro v x hv hx
      left
      rw [← hdir] at hx ⊢
      rw [hsame.outside v hv (by omega)]
      exact hx
  | stuck_served stuck ok v low high absent => exact absurd stuck hfree
  | stuck_refused stuck null slots => exact absurd stuck hfree

/-- A call that unmaps pages. -/
theorem HeapInterval.shrink (h : HeapInterval m0 task0 m task) (hl : Launched m0 task0)
    (hd : IsInt32 delta) (hs : Shrinks task delta) :
    ∃ m' task', syscall_sbrk m task delta = some (m', task', int32 task.heap_break) ∧
      HeapInterval m0 task0 m' task' ∧ KeptOrFreed m0.dir m m' ∧
      (task'.heap_break : Int) = task.heap_break + sbrk_rounded delta := by
  have hceil := ceiling_below
  have hneg := hs.negative
  have habove := hs.above
  have hlow := h.low
  have hhigh := h.high
  have hal := h.aligned
  have hstart := hl.start_aligned
  have heq := h.start
  have hbreak := hl.start
  unfold IsInt32 at hd
  have hup := ALIGN_UP_bounds (v := (-delta).toNat) (by omega)
  have hmod := ALIGN_UP_mod (-delta).toNat
  obtain ⟨n, hn⟩ : ∃ n, ALIGN_UP (-delta).toNat = n * 4096 :=
    ⟨ALIGN_UP (-delta).toNat / 4096, by omega⟩
  have hcount : ALIGN_UP (-delta).toNat / PAGE_SIZE = n := by
    unfold PAGE_SIZE
    omega
  have hroom : Room m0 task0.heap_start task.heap_break := by
    refine ⟨hstart, hal, hlow, hhigh, fun v h1 h2 => hl.empty v ?_ ?_⟩ <;> omega
  have hle : task0.heap_start + n * 4096 ≤ task.heap_break := by omega
  obtain ⟨m', hloop, hp, hf, hgave⟩ := free_pages_spec n hroom hle hl.slots h.pages h.frames
  have hsub : sub32 task.heap_break (n * 4096) = task.heap_break - n * 4096 := by
    unfold KERNEL_VIRTUAL_SPACE_START at hceil
    unfold sub32
    omega
  refine ⟨m', { task with heap_break := task.heap_break - n * 4096 }, ?_, ?_, ?_, ?_⟩
  · rw [sbrk_shrinks hs]
    unfold syscall_sbrk_free_physical_memory
    simp only [hcount, hloop, Option.bind_eq_bind, Option.bind_some]
    rw [hn, hsub]
    rfl
  · refine ⟨h.user, h.start, ?_, ?_, ?_, hp, hf⟩
    · show (task.heap_break - n * 4096) % 4096 = 0
      omega
    · show task0.heap_start ≤ task.heap_break - n * 4096
      omega
    · show task.heap_break - n * 4096 ≤ USER_HEAP_VIRTUAL_CEILING
      omega
  · intro v x hv hx
    by_cases hin : task.heap_break - n * 4096 ≤ v ∧ v < task.heap_break
    · right
      refine ⟨?_, hgave.freed v x hin.1 hin.2 hx⟩
      rw [hp.outside v hv (Or.inr hin.1)]
      exact hroom.empty v (by omega) hin.2
    · left
      rw [hgave.others v hv (by omega)]
      exact hx
  · show ((task.heap_break - n * 4096 : Nat) : Int) = _
    unfold sbrk_rounded
    rw [if_neg (by omega), hn]
    omega

/-- A call keeps the interval, unless the frames run out at a page table. -/
theorem HeapInterval.call (h : HeapInterval m0 task0 m task) (hl : Launched m0 task0)
    (hd : IsInt32 delta)
    (hfree : ¬ (Grows task delta ∧
      StuckAtTable (tablesOf m m.dir) (freeCount m) (sbrk_pages delta) task.heap_break)) :
    ∃ m' task' r, syscall_sbrk m task delta = some (m', task', r) ∧
      HeapInterval m0 task0 m' task' ∧ KeptOrFreed m0.dir m m' ∧
      (SbrkFailed r ∧ task' = task ∨
        ¬ SbrkFailed r ∧ (task'.heap_break : Int) = task.heap_break + sbrk_rounded delta) := by
  by_cases hg : Grows task delta
  · obtain ⟨m', task', r, hcall, hnext, hkept, hend⟩ :=
      h.grow hl hd hg fun hstuck => hfree ⟨hg, hstuck⟩
    exact ⟨m', task', r, hcall, hnext, hkept, hend.imp (fun hc => ⟨hc.1, hc.2.1⟩) id⟩
  · by_cases hs : Shrinks task delta
    · obtain ⟨m', task', hcall, hnext, hkept, hbreak⟩ := h.shrink hl hd hs
      exact ⟨m', task', _, hcall, hnext, hkept, Or.inr ⟨break_not_failed h.aligned, hbreak⟩⟩
    · obtain ⟨r, hcall, hr⟩ := sbrk_stays m hg hs
      refine ⟨m, task, r, hcall, h, fun v x _ hx => Or.inl hx, ?_⟩
      rcases hr with hr | ⟨hzero, hr⟩
      · exact Or.inl ⟨hr, rfl⟩
      · right
        rw [hzero, hr]
        exact ⟨break_not_failed h.aligned, by simp [sbrk_rounded, show ALIGN_UP 0 = 0 by decide]⟩

end interval

/-! ## Runs -/

instance (r : Int) : Decidable (SbrkFailed r) := by
  unfold SbrkFailed
  infer_instance

/-- A run of calls from `m0` on, each under the condition `C` on the state, the argument and the
result. The last index is the break as the program sees it: the start of the heap and the sum of
what it asked for with success. -/
inductive SbrkRun (C : Machine → task_t → Int → Int → Prop) (m0 : Machine) (task0 : task_t) :
    Machine → task_t → Int → Prop where
  | start : SbrkRun C m0 task0 m0 task0 task0.heap_start
  | call {m m' : Machine} {task task' : task_t} {B delta r : Int} (h : SbrkRun C m0 task0 m task B)
      (hd : IsInt32 delta) (hc : syscall_sbrk m task delta = some (m', task', r))
      (hC : C m task delta r) :
      SbrkRun C m0 task0 m' task' (if SbrkFailed r then B else B + delta)

/-- There are frames for the pages and the page tables of the call. -/
def FramesSuffice (m : Machine) (task : task_t) (delta : Int) : Prop :=
  Grows task delta →
    page_need (tablesOf m m.dir) (sbrk_pages delta) task.heap_break ≤ freeCount m

/-- The frames do not run out at a page table. -/
def NotStuck (m : Machine) (task : task_t) (delta : Int) : Prop :=
  ¬ (Grows task delta ∧
    StuckAtTable (tablesOf m m.dir) (freeCount m) (sbrk_pages delta) task.heap_break)

theorem FramesSuffice.notStuck {m : Machine} {task : task_t} {delta : Int}
    (h : FramesSuffice m task delta) : NotStuck m task delta := by
  rintro ⟨hg, hstuck⟩
  have := h hg
  have := stuck_needs hstuck
  omega

/-- Every state of a run that never gets stuck has the heap in order. -/
theorem SbrkRun.interval {C : Machine → task_t → Int → Int → Prop} {m0 m : Machine}
    {task0 task : task_t} {B : Int} (hl : Launched m0 task0)
    (hC : ∀ m task delta r, C m task delta r → NotStuck m task delta)
    (h : SbrkRun C m0 task0 m task B) : HeapInterval m0 task0 m task := by
  induction h with
  | start => exact HeapInterval.begin hl
  | call _ hd hc hcond ih =>
    obtain ⟨m1, task1, r1, hcall, hnext, -⟩ := ih.call hl hd (hC _ _ _ _ hcond)
    rw [hcall] at hc
    cases hc
    exact hnext

/-- The heap of the task, as the program and the kernel can see it. -/
structure HeapShape (m0 : Machine) (task0 : task_t) (m : Machine) (task : task_t) : Prop where
  start : task.heap_start = task0.heap_start
  start_aligned : task.heap_start % 4096 = 0
  break_aligned : task.heap_break % 4096 = 0
  low : task.heap_start ≤ task.heap_break
  high : task.heap_break ≤ USER_HEAP_VIRTUAL_CEILING
  directory : m.cr3 = m0.cr3
  mapped : ∀ v, task.heap_start ≤ v → v < task.heap_break → UserWritable m m.dir v
  unmapped : ∀ v, task.heap_break ≤ v → v < USER_HEAP_VIRTUAL_CEILING → m.entry m.dir v = none
  apart : ∀ v w x y, v < KERNEL_VIRTUAL_SPACE_START → w < KERNEL_VIRTUAL_SPACE_START →
    m.entry m.dir v = some x → m.entry m.dir w = some y → frameOf x = frameOf y →
    v / 4096 = w / 4096
  outside : ∀ v, v < PAGE_TABLES_START → v < task.heap_start ∨ USER_HEAP_VIRTUAL_CEILING ≤ v →
    m.entry m.dir v = m0.entry m0.dir v
  frames : ∀ g, Used m.memory_bitmap g ↔ Used m0.memory_bitmap g ∨
    PageFrom m0 m task.heap_start task.heap_break g ∨ NewTable m0 m g

theorem HeapInterval.shape {m0 m : Machine} {task0 task : task_t} (hl : Launched m0 task0)
    (h : HeapInterval m0 task0 m task) : HeapShape m0 task0 m task := by
  have hdir := h.pages.dir
  have hstart := h.start
  have hhigh := h.high
  have hready := h.ready hl
  constructor
  · exact h.start
  · rw [hstart]
    exact hl.start_aligned
  · exact h.aligned
  · rw [hstart]
    exact h.low
  · exact h.high
  · exact h.pages.cr3
  · intro v h1 h2
    rw [hdir]
    exact h.pages.inside v (by omega) h2
  · exact hready.empty
  · exact h.pages.here.pages_apart
  · intro v hv hout
    rw [hdir]
    exact h.pages.outside v hv (by omega)
  · rw [hstart]
    exact h.frames.used

/-- The heap stays an interval of pages. In every run of `sbrk` that has the frames it asks for,
the break is a page boundary between the start and the ceiling; exactly the pages below it are
mapped, for the program to write, in frames of their own; nothing changes outside. The next call
returns, and every page of the task stays as it is or is unmapped, with its frame free again. -/
theorem the_heap_stays_an_interval {m0 m : Machine} {task0 task : task_t} {B : Int}
    (hl : Launched m0 task0)
    (hr : SbrkRun (fun m task delta _ => FramesSuffice m task delta) m0 task0 m task B) :
    HeapShape m0 task0 m task ∧
      ∀ delta, IsInt32 delta → FramesSuffice m task delta →
        ∃ m' task' r, syscall_sbrk m task delta = some (m', task', r) ∧
          HeapShape m0 task0 m' task' ∧ KeptOrFreed m.dir m m' := by
  have h := hr.interval hl fun _ _ _ _ hC => hC.notStuck
  refine ⟨h.shape hl, fun delta hd hf => ?_⟩
  obtain ⟨m', task', r, hcall, hnext, hkept, -⟩ := h.call hl hd hf.notStuck
  refine ⟨m', task', r, hcall, hnext.shape hl, ?_⟩
  rw [h.pages.dir]
  exact hkept

theorem small_launched : Launched smallMachine heapTask where
  toHeapReady := small_heapReady
  user := rfl
  start := rfl
  below := by decide

theorem small_frames_suffice : FramesSuffice smallMachine heapTask 5000 := by
  intro _
  have hcount : freeCount smallMachine = 23 := by decide +kernel
  have hpages : page_need (tablesOf smallMachine smallMachine.dir) (sbrk_pages 5000)
      heapTask.heap_break = 3 := by decide +kernel
  rw [hcount, hpages]
  decide

/-- A call on the small machine. -/
theorem the_small_heap_is_an_interval :
    ∃ m' task' r, syscall_sbrk smallMachine heapTask 5000 = some (m', task', r) ∧
      HeapShape smallMachine heapTask m' task' := by
  obtain ⟨-, hnext⟩ := the_heap_stays_an_interval small_launched SbrkRun.start
  obtain ⟨m', task', r, hcall, hshape, -⟩ :=
    hnext 5000 ⟨by decide, by decide⟩ small_frames_suffice
  exact ⟨m', task', r, hcall, hshape⟩

/-! ## What the program owns -/

/-- The call asks for whole pages, and ends well without getting stuck at a page table. -/
def WholePages (m : Machine) (task : task_t) (delta r : Int) : Prop :=
  ¬ SbrkFailed r ∧ delta % 4096 = 0 ∧ NotStuck m task delta

/-- `sbrk(0)` gives the break. -/
theorem sbrk_zero (m : Machine) {task : task_t} (huser : task.task_is_user = true) :
    syscall_sbrk m task 0 = some (m, task, int32 task.heap_break) := by
  unfold syscall_sbrk
  rw [if_neg (by simp [huser]), if_pos rfl]
  rfl

/-- What the program may count on in a state: the bytes below its break are there, and a call
moves what `sbrk(0)` gives by its argument. -/
structure OwnsItsHeap (C : Machine → task_t → Int → Int → Prop) (m0 m : Machine)
    (task : task_t) (B : Int) : Prop where
  mapped : ∀ a : Nat, task.heap_start ≤ a → (a : Int) < B → ∃ x, m.entry m.dir a = some x
  moves : ∀ delta m' task' r, IsInt32 delta → syscall_sbrk m task delta = some (m', task', r) →
    C m task delta r →
      ∃ b b' : Nat, syscall_sbrk m task 0 = some (m, task, int32 b) ∧
        syscall_sbrk m' task' 0 = some (m', task', int32 b') ∧ (b' : Int) = b + delta

/-- Whole pages are exact: in every run of successful calls that ask for whole pages and never
find the frames gone at a page table, no byte below the program's break is taken back, and each
call moves the break by its argument. -/
theorem whole_pages_stay_with_the_program {m0 m : Machine} {task0 task : task_t} {B : Int}
    (hl : Launched m0 task0) (hr : SbrkRun WholePages m0 task0 m task B) :
    OwnsItsHeap WholePages m0 m task B := by
  have hstuck : ∀ m task delta r, WholePages m task delta r → NotStuck m task delta :=
    fun _ _ _ _ hC => hC.2.2
  -- The break of the program is the kernel's.
  have hB : B = task.heap_break := by
    induction hr with
    | start => rw [hl.start]
    | call hrun hd hc hcond ih =>
      obtain ⟨m1, task1, r1, hcall, -, -, hmove⟩ :=
        (hrun.interval hl hstuck).call hl hd hcond.2.2
      rw [hcall] at hc
      cases hc
      rw [if_neg hcond.1]
      rcases hmove with ⟨hfail, -⟩ | ⟨-, hmove⟩
      · exact absurd hfail hcond.1
      · rw [hmove, sbrk_rounded_whole hd hcond.2.1, ih]
  have h := hr.interval hl hstuck
  constructor
  · intro a h1 h2
    obtain ⟨x, hx, -⟩ := (h.shape hl).mapped a h1 (by omega)
    exact ⟨x, hx⟩
  · intro delta m' task' r hd hc hcond
    obtain ⟨m1, task1, r1, hcall, hnext, -, hmove⟩ := h.call hl hd hcond.2.2
    rw [hcall] at hc
    cases hc
    refine ⟨task.heap_break, task'.heap_break, sbrk_zero m h.user, sbrk_zero m' hnext.user, ?_⟩
    rcases hmove with ⟨hfail, -⟩ | ⟨-, hmove⟩
    · exact absurd hfail hcond.1
    · rw [hmove, sbrk_rounded_whole hd hcond.2.1]

/-- The program asks for 8191 bytes and gives one back: the kernel takes a whole page, with 4094
bytes that the program still owns. -/
theorem sbrk_takes_back_owned_bytes :
    ∃ m task, Launched smallMachine heapTask ∧
      SbrkRun (fun _ _ _ r => ¬ SbrkFailed r) smallMachine heapTask m task
        (0x400000 + 8191 + -1) ∧
      m.entry m.dir 0x401000 = none ∧
      ¬ OwnsItsHeap (fun _ _ _ r => ¬ SbrkFailed r) smallMachine m task (0x400000 + 8191 + -1) := by
  have hbegin := HeapInterval.begin small_launched
  have hneed : page_need (tablesOf smallMachine smallMachine.dir) (sbrk_pages 8191)
      heapTask.heap_break = 3 := by decide +kernel
  have hfree : freeCount smallMachine = 23 := by decide +kernel
  have hgrows : Grows heapTask 8191 := ⟨rfl, by decide, by decide, by decide, by decide⟩
  obtain ⟨m1, task1, r1, hcall1, hnext1, -, hend1⟩ := hbegin.grow small_launched
    ⟨by decide, by decide⟩ hgrows (fun hs => by have := stuck_needs hs; omega)
  rcases hend1 with ⟨-, -, hfew⟩ | ⟨hok1, hmove1⟩
  · omega
  have hbreak1 : task1.heap_break = 0x402000 := by
    have hrounded : sbrk_rounded 8191 = 0x2000 := by decide
    have hstart : heapTask.heap_break = 0x400000 := rfl
    rw [hrounded, hstart] at hmove1
    omega
  have hshrinks : Shrinks task1 (-1) := by
    have hstart := hnext1.start
    have hstart0 : heapTask.heap_start = 0x400000 := rfl
    have hceil : USER_HEAP_VIRTUAL_CEILING = 0xBFEFD000 := by decide
    refine ⟨hnext1.user, by decide, ?_, ?_, ?_⟩ <;> omega
  obtain ⟨m2, task2, hcall2, hnext2, -, hmove2⟩ :=
    hnext1.shrink small_launched ⟨by decide, by decide⟩ hshrinks
  have hok2 := break_not_failed hnext1.aligned
  have hrun := (SbrkRun.start.call ⟨by decide, by decide⟩ hcall1 hok1).call
    (C := fun _ _ _ r => ¬ SbrkFailed r) ⟨by decide, by decide⟩ hcall2 hok2
  rw [if_neg hok1, if_neg hok2] at hrun
  have hshape := hnext2.shape small_launched
  have hbreak2 : task2.heap_break = 0x401000 := by
    have hrounded : sbrk_rounded (-1) = -0x1000 := by decide
    rw [hrounded] at hmove2
    omega
  have hstart2 : task2.heap_start = 0x400000 := hnext2.start
  have hgone := hshape.unmapped 0x401000 (by omega) (by decide)
  refine ⟨m2, task2, small_launched, hrun, hgone, fun howns => ?_⟩
  obtain ⟨x, hx⟩ := howns.mapped 0x401000 (by omega) (by decide)
  rw [hgone] at hx
  cases hx

/-- A page that the small program asks for is its own. -/
theorem a_whole_page_stays_with_the_small_program :
    ∃ m task, SbrkRun WholePages smallMachine heapTask m task (0x400000 + 4096) ∧
      ∃ x, m.entry m.dir 0x400FFF = some x := by
  have hneed : page_need (tablesOf smallMachine smallMachine.dir) (sbrk_pages 4096)
      heapTask.heap_break = 2 := by decide +kernel
  have hfree : freeCount smallMachine = 23 := by decide +kernel
  have hgrows : Grows heapTask 4096 := ⟨rfl, by decide, by decide, by decide, by decide⟩
  have hstuck : NotStuck smallMachine heapTask 4096 := by
    rintro ⟨-, hs⟩
    have := stuck_needs hs
    omega
  obtain ⟨m1, task1, r1, hcall1, hnext1, -, hend1⟩ :=
    (HeapInterval.begin small_launched).grow small_launched ⟨by decide, by decide⟩ hgrows
      (fun hs => hstuck ⟨hgrows, hs⟩)
  rcases hend1 with ⟨-, -, hfew⟩ | ⟨hok1, hmove1⟩
  · omega
  have hrun := SbrkRun.start.call (C := WholePages) ⟨by decide, by decide⟩ hcall1
    ⟨hok1, by decide, hstuck⟩
  rw [if_neg hok1] at hrun
  refine ⟨m1, task1, hrun, ?_⟩
  have hstart : task1.heap_start = 0x400000 := hnext1.start
  exact (whole_pages_stay_with_the_program small_launched hrun).mapped 0x400FFF (by omega) (by decide)

/-! ## The C library -/

/-- `(void*)-1` -/
def VOID_MINUS_ONE : Nat := 0xFFFFFFFF

/-- `_sbrk` of `newlib_glue.c`, on what the call returned. -/
def _sbrk (ret : Int) : Nat := if ret < 0 then VOID_MINUS_ONE else ret.toNat

/-- The call reaches its last `return`: it asks for the break, or passes its checks and, to grow the
heap, finds its pages. -/
def Served (m : Machine) (task : task_t) (delta : Int) : Prop :=
  (task.task_is_user = true ∧ delta = 0) ∨ Shrinks task delta ∨
    (Grows task delta ∧ ∃ r, syscall_sbrk_allocate_physical_memory m task.heap_break delta.toNat =
      some r ∧ r.2 ≠ none)

/-- What the program reads: `(void*)-1` exactly for a failure return, and else the break before the
call. -/
def LibraryReports (task : task_t) (r : Int) : Prop :=
  (_sbrk r = VOID_MINUS_ONE ↔ SbrkFailed r) ∧ (¬ SbrkFailed r → _sbrk r = task.heap_break)

section library

variable {m m' : Machine} {task task' : task_t} {delta r : Int}

/-- A growth as its allocation. -/
theorem sbrk_allocates (hg : Grows task delta) :
    syscall_sbrk m task delta =
      (syscall_sbrk_allocate_physical_memory m task.heap_break delta.toNat).map fun r =>
        match r.2 with
        | none => (r.1, task, -SYSCALL_RESULT_OUT_OF_MEMORY)
        | some heap_break => (r.1, { task with heap_break := heap_break }, int32 task.heap_break) := by
  obtain ⟨huser, hpos, hheap, habove, hbelow⟩ := hg
  have hceil : (USER_HEAP_VIRTUAL_CEILING : Int) < KERNEL_VIRTUAL_SPACE_START := by decide
  unfold syscall_sbrk
  rw [if_neg (by simp [huser]), if_neg (by omega), if_neg hheap]
  simp only
  rw [if_neg (by omega), if_neg (by omega), if_neg (by omega), if_pos hpos]
  cases syscall_sbrk_allocate_physical_memory m task.heap_break delta.toNat with
  | none => rfl
  | some r =>
    obtain ⟨m1, served⟩ := r
    cases served <;> rfl

/-- A call that is served returns the break before it, and any other an error. -/
theorem sbrk_result (hc : syscall_sbrk m task delta = some (m', task', r)) :
    (Served m task delta ∧ r = int32 task.heap_break) ∨
      (¬ Served m task delta ∧ SbrkFailed r) := by
  by_cases hg : Grows task delta
  · have hpos := hg.positive
    have hother : Served m task delta ↔ ∃ r,
        syscall_sbrk_allocate_physical_memory m task.heap_break delta.toNat = some r ∧ r.2 ≠ none := by
      constructor
      · rintro (⟨-, h0⟩ | hs | ⟨-, h⟩)
        · omega
        · have := hs.negative
          omega
        · exact h
      · exact fun h => Or.inr (Or.inr ⟨hg, h⟩)
    rw [sbrk_allocates hg] at hc
    obtain ⟨⟨m1, served⟩, ha, hr⟩ := Option.map_eq_some_iff.mp hc
    rw [hother, ha]
    cases served with
    | none =>
      cases hr
      exact Or.inr ⟨by simp, Or.inr (Or.inr rfl)⟩
    | some b =>
      cases hr
      exact Or.inl ⟨by simp, rfl⟩
  by_cases hs : Shrinks task delta
  · rw [sbrk_shrinks hs] at hc
    obtain ⟨r1, -, hr⟩ := Option.map_eq_some_iff.mp hc
    cases hr
    exact Or.inl ⟨Or.inr (Or.inl hs), rfl⟩
  · by_cases h0 : task.task_is_user = true ∧ delta = 0
    · obtain ⟨huser, rfl⟩ := h0
      rw [sbrk_zero m huser] at hc
      cases hc
      exact Or.inl ⟨Or.inl ⟨huser, rfl⟩, rfl⟩
    · obtain ⟨r1, hr, hcases⟩ := sbrk_stays m hg hs
      rw [hc] at hr
      cases hr
      refine Or.inr ⟨?_, ?_⟩
      · rintro (h | h | ⟨h, -⟩)
        · exact h0 h
        · exact hs h
        · exact hg h
      · rcases hcases with h | ⟨hd, he⟩
        · exact h
        · have huser : (!task.task_is_user) = true := by
            simpa using fun hu => h0 ⟨hu, hd⟩
          unfold syscall_sbrk at hc
          rw [if_pos huser] at hc
          cases hc
          exact Or.inl rfl

theorem failed_below (h : SbrkFailed r) : r < 0 := by
  unfold SbrkFailed SYSCALL_RESULT_FAIL SYSCALL_RESULT_BAD_PARAMETER SYSCALL_RESULT_OUT_OF_MEMORY at h
  omega

/-- No break up to the ceiling reads as an error. -/
theorem low_break_not_failed {b : Nat} (hb : b ≤ USER_HEAP_VIRTUAL_CEILING) :
    ¬ SbrkFailed (int32 b) := by
  have hceil : USER_HEAP_VIRTUAL_CEILING < 0xC0000000 := by decide
  unfold SbrkFailed int32 SYSCALL_RESULT_FAIL SYSCALL_RESULT_BAD_PARAMETER
    SYSCALL_RESULT_OUT_OF_MEMORY
  split <;> omega

/-- The library tells breaks from errors exactly below 2^31: a served call with a higher break is
reported as failed. -/
theorem library_reports_iff (hb : task.heap_break ≤ USER_HEAP_VIRTUAL_CEILING)
    (hc : syscall_sbrk m task delta = some (m', task', r)) :
    LibraryReports task r ↔ task.heap_break < 0x80000000 ∨ ¬ Served m task delta := by
  have hceil : USER_HEAP_VIRTUAL_CEILING < 0xC0000000 := by decide
  unfold LibraryReports
  rcases sbrk_result hc with ⟨hs, rfl⟩ | ⟨hs, hf⟩
  · have hok := low_break_not_failed hb
    have hcast : int32 task.heap_break =
        if task.heap_break < 0x80000000 then (task.heap_break : Int)
        else task.heap_break - 0x100000000 := rfl
    simp only [hs, hok, not_true_eq_false, or_false, iff_false, not_false_eq_true, true_implies]
    unfold _sbrk VOID_MINUS_ONE
    rw [hcast]
    by_cases hlow : task.heap_break < 0x80000000
    · rw [if_pos hlow, if_neg (by omega)]
      omega
    · rw [if_neg hlow, if_pos (by omega)]
      omega
  · have hneg := failed_below hf
    have hval : _sbrk r = VOID_MINUS_ONE := if_pos hneg
    simp [hs, hf, hval]

end library

/-- A program that is loaded at 2 GiB. -/
def highTask : task_t := { smallParent with heap_start := 0x80000000, heap_break := 0x80000000 }

theorem high_launched : Launched smallMachine highTask where
  toHeapReady := { small_heapReady with
    aligned := rfl
    empty := fun v h1 h2 => small_heap_empty v (by have : highTask.heap_break = 0x80000000 := rfl; omega) h2 }
  user := rfl
  start := rfl
  below := by decide

theorem a_low_break_is_reported : ∃ m' task' r,
    syscall_sbrk smallMachine heapTask 0 = some (m', task', r) ∧ LibraryReports heapTask r := by
  have hc := sbrk_zero smallMachine (show heapTask.task_is_user = true from rfl)
  exact ⟨_, _, _, hc, (library_reports_iff (by decide) hc).mpr (Or.inl (by decide))⟩

/-- The program asks for its break, and the library says that there is none. -/
theorem a_high_break_reads_as_a_failure : Launched smallMachine highTask ∧ ∃ m' task' r,
    syscall_sbrk smallMachine highTask 0 = some (m', task', r) ∧ ¬ LibraryReports highTask r := by
  refine ⟨high_launched, _, _, _, sbrk_zero smallMachine rfl, fun h => ?_⟩
  have hok : ¬ SbrkFailed (int32 highTask.heap_break) := low_break_not_failed (by decide)
  exact hok (h.1.mp (by decide))

end alura_os.task_manager
