-- The time slice of the running task: in every run in which no task ends while it has children,
-- the scheduler never counts it below zero, and it ends after 32 ticks at most.
import AluraOs.Selection

namespace alura_os.kernel

open alura_os.memory alura_os.task_manager alura_os.resource chains
open task_state_t task_wait_reason_t task_manager_result_t resource_result_t
open alura_os.elf_executable (loaded_task)

variable {k k' k1 s s' : kernel_t} {i : Interrupt} {scope : Scope} {known : Finset Nat} {n : Nat}
  {rules : Rules}

def kernel_t.slice (k : kernel_t) (a : Nat) : Nat := (k.tasks a).task_time_slice

/-! ## What leaves the slices -/

/-- The tasks that are known have the slices that they had, and no switch is asked for or done. -/
structure SameSlices (known : Finset Nat) (k k' : kernel_t) : Prop where
  slices : ∀ a ∈ known, k'.slice a = k.slice a
  idle_level : k.level k.idle = 0 → k'.level k.idle = 0
  current : k'.current = k.current
  idle : k'.idle = k.idle
  next : k'.task_manager.task_next = k.task_manager.task_next
  needs : k'.task_manager.task_needs_switching = k.task_manager.task_needs_switching

theorem SameSlices.refl (known : Finset Nat) (k : kernel_t) : SameSlices known k k :=
  ⟨fun _ _ => rfl, id, rfl, rfl, rfl, rfl⟩

theorem SameSlices.trans (h : SameSlices known k k1) (h' : SameSlices known k1 k') :
    SameSlices known k k' where
  slices a ha := (h'.slices a ha).trans (h.slices a ha)
  idle_level h0 := by
    have h1 := h.idle_level h0
    rw [← h.idle] at h1 ⊢
    exact h'.idle_level h1
  current := h'.current.trans h.current
  idle := h'.idle.trans h.idle
  next := h'.next.trans h.next
  needs := h'.needs.trans h.needs

theorem SameSlices.runs (h : SameSlices known k k') : k'.runs = k.runs := by
  unfold kernel_t.runs
  rw [h.needs, h.next, h.current]

theorem Stays.same (h : Stays k k') : SameSlices known k k' :=
  ⟨fun a _ => h.slices a, h.idle_level, h.current, h.idle, h.next, h.needs⟩

/-- A change of one task that leaves its slice and its level. -/
theorem SameSlices.setTask {a : Nat} {t : task_t} (hs : t.task_time_slice = k.slice a)
    (hl : t.task_queue_level = k.level a) : SameSlices known k (k.setTask a t) := by
  refine ⟨fun b _ => ?_, fun h0 => ?_, rfl, rfl, rfl, rfl⟩
  · by_cases hb : b = a
    · subst hb
      simpa [kernel_t.slice, kernel_t.setTask] using hs
    · simp [kernel_t.slice, kernel_t.setTask, hb]
  · exact (level_touch hl k.idle).trans h0

/-- A change of fields that the slices do not depend on. -/
theorem SameSlices.of_tasks (ht : k'.tasks = k.tasks) (hm : k'.task_manager = k.task_manager) :
    SameSlices known k k' := by
  have hlevel : k'.level = k.level := by
    unfold kernel_t.level
    rw [ht]
  refine ⟨fun a _ => ?_, fun h0 => ?_, ?_, ?_, by rw [hm], by rw [hm]⟩
  · unfold kernel_t.slice
    rw [ht]
  · rw [hlevel]
    exact h0
  · exact congrArg (fun m => m.task_current) hm
  · exact congrArg (fun m => m.task_idle) hm

theorem same_ticked (k : kernel_t) : SameSlices known k (count_tick k) := by
  unfold count_tick
  dsimp only
  split
  · exact SameSlices.refl known k
  split
  · exact SameSlices.setTask rfl rfl
  · exact SameSlices.setTask rfl rfl

theorem same_called (k : kernel_t) (data : register_interrupt_data_t) :
    SameSlices known k (load_execution k data) := by
  obtain ⟨hst, hm, -, -⟩ := load_execution_rest k data
  exact SameSlices.of_tasks (congrArg (fun s => s.tasks) hst) hm

theorem same_inherited (k : kernel_t) (task : Nat) : SameSlices known k (inherit_ticks k task) := by
  unfold inherit_ticks
  dsimp only
  split
  · exact SameSlices.setTask rfl rfl
  · exact SameSlices.refl known k

/-- Only the scheduler counts slices, and only a new task gets one from elsewhere, where no store goes
astray. -/
theorem Change.same (hc : Change scope k k') (hn : k'.hits (fun _ => true) = k.hits fun _ => true)
    (hb : ∀ child, scope.born child → child ∉ known) (hidle : k.idle ∈ known) :
    SameSlices known k k' ∨ scope.schedules k ∧ task_manager_schedule k = some k' := by
  cases hc with
  | stays h => exact Or.inl h.same
  | scheduled hs h => exact Or.inr ⟨hs, h⟩
  | ticked => exact Or.inl (same_ticked k)
  | called data => exact Or.inl (same_called k data)
  | retries => exact Or.inl (SameSlices.setTask rfl rfl)
  | finished => exact Or.inl (SameSlices.setTask rfl rfl)
  | signalled => exact Or.inl (SameSlices.setTask rfl rfl)
  | returned => exact Or.inl (SameSlices.setTask rfl rfl)
  | handles => exact Or.inl (SameSlices.setTask rfl rfl)
  | loaded => exact Or.inl (SameSlices.setTask rfl rfl)
  | @born child _ hborn _ =>
    have hne : ∀ a ∈ known, a ≠ child := fun a ha he => hb child hborn (he ▸ ha)
    refine Or.inl ⟨fun a ha => ?_, fun h0 => ?_, rfl, rfl, rfl, rfl⟩
    · simp [kernel_t.slice, enrolled, new_task, hne a ha]
    · rw [← h0]
      simp [kernel_t.level, enrolled, new_task, hne _ hidle]
  | inherited task => exact Or.inl (same_inherited k task)
  | freed => exact Or.inl (SameSlices.of_tasks rfl rfl)
  | strayed hs =>
    obtain ⟨task, i, v, k1, hw, -⟩ := hs.hits _ hn
    cases hw

/-- Whatever happens ends with a call of the scheduler and things that leave the slices, or leaves
them all along. -/
theorem Changes.last_call (h : Changes scope k k')
    (hn : k'.hits (fun _ => true) = k.hits fun _ => true)
    (hb : ∀ child, scope.born child → child ∉ known) (hidle : k.idle ∈ known) :
    SameSlices known k k' ∨ ∃ s s', scope.schedules s ∧ task_manager_schedule s = some s' ∧
      SameSlices known s' k' := by
  have hkeep : k'.idle = k.idle ∧ (SameSlices known k k' ∨ ∃ s s', scope.schedules s ∧
      task_manager_schedule s = some s' ∧ SameSlices known s' k') := by
    refine h.keep_unhit (P := fun k1 => k1.idle = k.idle ∧ (SameSlices known k k1 ∨ ∃ s s',
      scope.schedules s ∧ task_manager_schedule s = some s' ∧ SameSlices known s' k1))
      (fun _ => true) ?_ hn ⟨rfl, Or.inl (SameSlices.refl known k)⟩
    rintro k1 k2 hlast hn1 ⟨hid, ih⟩
    obtain hsame | ⟨hs, he⟩ := hlast.same hn1 hb (hid ▸ hidle)
    · refine ⟨hsame.idle.trans hid, ?_⟩
      obtain ih | ⟨s, s', hs, he, ih⟩ := ih
      · exact Or.inl (ih.trans hsame)
      · exact Or.inr ⟨s, s', hs, he, ih.trans hsame⟩
    · exact ⟨(keeps_schedule he).idle.trans hid, Or.inr ⟨_, _, hs, he, SameSlices.refl known _⟩⟩
  exact hkeep.2

/-- Up to the call of the scheduler the slices and the tasks stay. -/
theorem Enters.same (h : Enters k k1) : SameSlices known k k1 := by
  cases h with
  | exception => exact SameSlices.refl known k
  | syscall data => exact same_called k data
  | read data length => exact (same_called k data).trans (SameSlices.of_tasks rfl rfl)
  | roused data hu => exact (same_called k data).trans (stays_unblock hu).same

theorem Enters.live (h : Enters k k1) : k1.live = k.live := by
  have hloaded : ∀ data, (load_execution k data).live = k.live :=
    fun data => congrArg (fun s => s.live) (load_execution_rest k data).1
  cases h with
  | exception => rfl
  | syscall data => exact hloaded data
  | read data length => exact hloaded data
  | roused data hu => exact (stays_unblock hu).live.trans (hloaded data)

theorem Schedules.same (h : Schedules k i s) : SameSlices known k s := by
  cases h with
  | ticks =>
    have h1 : SameSlices known k { k with timer_ticks := (k.timer_ticks + 1) % 2 ^ 64 } :=
      SameSlices.of_tasks rfl rfl
    exact h1.trans (same_ticked _)
  | @sleeps _ _ _ k2 _ _ _ _ he hb =>
    exact he.same.trans ((stays_block hb).trans (stays_setYield k2 k2.current true)).same
  | @ends _ _ k2 _ _ _ _ _ _ he hx =>
    exact he.same.trans ((stays_exit hx).trans (stays_setYield k2 k2.current true)).same

theorem Schedules.live (h : Schedules k i s) : s.live = k.live := by
  cases h with
  | ticks =>
    unfold ticked count_tick
    dsimp only
    split
    · rfl
    split <;> rfl
  | @sleeps _ _ _ k2 _ _ _ _ he hb => exact (stays_block hb).live.trans he.live
  | @ends _ _ k2 _ _ _ _ _ _ he hx => exact (stays_exit hx).live.trans he.live

/-! ## What the scheduler gives -/

theorem slice_of_level {j : Nat} (hj : j < 4) :
    1 ≤ task_manager_calculate_time_slice j ∧ task_manager_calculate_time_slice j ≤ 32 := by
  interval_cases j <;> decide

/-- The picked task gets the slice of its queue. -/
theorem pick_from_slice (m : Nat) : ∀ {k : kernel_t} {i : Nat}, i + m = 4 →
    SameSlices ∅ k (pick_from k m i).1 ∧ ∃ j < 4,
      (pick_from k m i).1.slice (pick_from k m i).2 = task_manager_calculate_time_slice j := by
  have hset : ∀ (k : kernel_t) (a v : Nat), SameSlices ∅ k (k.setSlice a v) ∧
      (k.setSlice a v).slice a = v := by
    intro k a v
    refine ⟨⟨fun _ h => absurd h (Finset.notMem_empty _), fun h0 => ?_, rfl, rfl, rfl, rfl⟩, ?_⟩
    · have hlevel : ∀ b, (k.setSlice a v).level b = k.level b := level_touch rfl
      exact (hlevel k.idle).trans h0
    · simp [kernel_t.slice, kernel_t.setSlice, kernel_t.setTask]
  induction m with
  | zero => exact fun _ => ⟨(hset _ _ _).1, 0, by decide, (hset _ _ _).2⟩
  | succ m ih =>
    intro k i hi
    unfold pick_from
    split
    · dsimp only
      have hd : SameSlices ∅ k (task_manager_dequeue_task k i).1 := (stays_dequeue k i).same
      split
      · exact ⟨hd.trans (hset _ _ _).1, i, by omega, (hset _ _ _).2⟩
      · obtain ⟨h1, h2⟩ := ih (k := (task_manager_dequeue_task k i).1) (i := i + 1) (by omega)
        exact ⟨hd.trans h1, h2⟩
    · exact ih (by omega)

/-- The task that gets the processor has the slice of one of the four levels, or of its own. -/
def Renewed (k : kernel_t) (a : Nat) : Prop :=
  (∃ j < 4, k.slice a = task_manager_calculate_time_slice j) ∨
    k.slice a = task_manager_calculate_time_slice (k.level a)

theorem take_processor_slice (hn : k.task_manager.task_needs_switching = false) :
    Renewed (take_processor k k.current) (take_processor k k.current).runs ∧
      (k.level k.idle = 0 → (take_processor k k.current).level k.idle = 0) := by
  obtain ⟨h1, j, hj, hslice⟩ := pick_from_slice TASK_MANAGER_QUEUE_LEVELS (k := k) (i := 0) rfl
  unfold take_processor task_manager_pick_task
  generalize pick_from k TASK_MANAGER_QUEUE_LEVELS 0 = p at h1 hslice ⊢
  obtain ⟨k2, new⟩ := p
  let k3 := k2.setState new TASK_STATE_RUNNING
  have h3 : SameSlices {new} k2 k3 := (stays_setState _ _ _).same
  have hslice3 : k3.slice new = task_manager_calculate_time_slice j :=
    (h3.slices new (Finset.mem_singleton_self _)).trans hslice
  have hidle3 : k.level k.idle = 0 → k3.level k.idle = 0 := by
    intro h0
    rw [← h1.idle]
    apply h3.idle_level
    rw [h1.idle]
    exact h1.idle_level h0
  dsimp only
  by_cases hnew : new = k.current
  · rw [if_neg (not_not.mpr hnew)]
    let k4 := k3.setSlice new (task_manager_calculate_time_slice (k3.level new))
    have hlevel : ∀ b, k4.level b = k3.level b := level_touch rfl
    have hruns : k4.runs = new := by
      have hneeds : k3.task_manager.task_needs_switching = false :=
        h3.needs.trans (h1.needs.trans hn)
      have hcur : k3.current = k.current := h3.current.trans h1.current
      show (if k3.task_manager.task_needs_switching then _ else k3.current) = new
      rw [hneeds, hcur, hnew]
      rfl
    refine ⟨Or.inr ?_, fun h0 => (hlevel _).trans (hidle3 h0)⟩
    show k4.slice k4.runs = task_manager_calculate_time_slice (k4.level k4.runs)
    rw [hruns, hlevel]
    simp [k4, kernel_t.slice, kernel_t.setSlice, kernel_t.setTask]
  · rw [if_pos hnew]
    exact ⟨Or.inl ⟨j, hj, hslice3⟩, hidle3⟩

/-- The slice that a call of the scheduler leaves to the task that is to run. -/
structure Sliced (s s' : kernel_t) : Prop where
  idle_level : s.level s.idle = 0 → s'.level s.idle = 0
  renewed : Reschedules s → Renewed s' s'.runs
  counted : ¬ Reschedules s → s'.runs = s.current ∧ s'.slice s.current = sub32 (s.slice s.current) 1

theorem use_time_slice_slices (hc : s.current ≠ 0)
    (hn : s.task_manager.task_needs_switching = false) (h : use_time_slice s = some s') :
    Sliced s s' := by
  unfold use_time_slice at h
  rw [if_neg hc] at h
  let s1 := s.setSlice s.current (sub32 (s.tasks s.current).task_time_slice 1)
  have hlevel1 : ∀ b, s1.level b = s.level b := level_touch rfl
  have hself : s1.tasks s.current = { s.tasks s.current with
      task_time_slice := sub32 (s.tasks s.current).task_time_slice 1 } := by
    simp [s1, kernel_t.setSlice, kernel_t.setTask]
  have hcond : (s1.tasks s1.current).task_time_slice = 0 ∨ (s1.tasks s1.current).yield = true ↔
      Reschedules s := by
    show (s1.tasks s.current).task_time_slice = 0 ∨ (s1.tasks s.current).yield = true ↔ _
    rw [hself]
    rfl
  replace h : (if (s1.tasks s1.current).task_time_slice = 0 ∨ (s1.tasks s1.current).yield = true
      then task_manager_reschedule s1 else some s1) = some s' := h
  by_cases hr : Reschedules s
  · rw [if_pos (hcond.mpr hr)] at h
    obtain ⟨s2, he, rfl⟩ := Option.map_eq_some_iff.mp h
    have h2 : SameSlices ∅ s1 s2 := ((stays_setYield s1 s1.current false).trans
      (stays_leave_processor he)).same
    have hcur : s1.current = s2.current := h2.current.symm
    rw [hcur]
    obtain ⟨hrenewed, hidle⟩ := take_processor_slice (h2.needs.trans hn)
    refine ⟨fun h0 => ?_, fun _ => hrenewed, fun hno => absurd hr hno⟩
    have hidle2 : s2.idle = s.idle := h2.idle
    have h0' := h2.idle_level ((hlevel1 s.idle).trans h0)
    rw [← hidle2]
    apply hidle
    rw [hidle2]
    exact h0'
  · rw [if_neg fun hc => hr (hcond.mp hc)] at h
    obtain rfl : s1 = s' := Option.some.inj h
    refine ⟨fun h0 => (hlevel1 _).trans h0, fun hno => absurd hno hr, fun _ => ⟨?_, ?_⟩⟩
    · show (if s.task_manager.task_needs_switching then _ else s.current) = s.current
      rw [hn]
      rfl
    · show (s1.tasks s.current).task_time_slice = _
      rw [hself]
      rfl

theorem reschedules_congr (hc : k'.current = k.current)
    (hs : k'.slice k.current = k.slice k.current)
    (hy : (k'.tasks k.current).yield = (k.tasks k.current).yield) : Reschedules k' ↔ Reschedules k := by
  unfold kernel_t.slice at hs
  unfold Reschedules
  rw [hc, hs, hy]

theorem schedule_slices {q : Nat → List Nat} {cur : Nat} (h : Settled s q cur) (hc : s.current ≠ 0)
    (hn : s.task_manager.task_needs_switching = false) (he : task_manager_schedule s = some s') :
    Sliced s s' := by
  obtain ⟨k2, hboost, huse⟩ := Option.bind_eq_some_iff.mp he
  have h2 : Stays s k2 := (stays_destroy_queued s).trans (stays_boost_if_due hboost)
  obtain ⟨frees, directories, hd⟩ := destroy_queued_eq s
  have h1 : Settled (memory_paging_destroy_queued s) q cur := by
    apply h.congr <;> simp only [hd] <;> rfl
  -- The boost leaves the flag of the running task too.
  obtain ⟨k3, he3, -, hb3, -⟩ := boost_if_due_spec h1
  obtain rfl : k2 = k3 := Option.some.inj (hboost.symm.trans he3)
  have hyield : (k2.tasks s.current).yield = (s.tasks s.current).yield := by
    have ht := congrArg (fun t => t.yield) (bare_task hb3 s.current)
    simp only [hd] at ht
    exact ht
  have hiff := reschedules_congr h2.current (h2.slices _) hyield
  have hsliced := use_time_slice_slices (h2.current.trans_ne hc) (h2.needs.trans hn) huse
  refine ⟨fun h0 => ?_, fun hr => hsliced.renewed (hiff.mpr hr), fun hr => ?_⟩
  · have h0' := h2.idle_level h0
    rw [← h2.idle] at h0' ⊢
    exact hsliced.idle_level h0'
  · obtain ⟨hruns, hslice⟩ := hsliced.counted fun hr2 => hr (hiff.mp hr2)
    rw [h2.current] at hruns hslice
    refine ⟨hruns, hslice.trans ?_⟩
    unfold kernel_t.slice
    rw [h2.slices]

/-- The slice of a task that gets the processor has between 1 and 32 ticks. -/
theorem Renewed.bounds {q : Nat → List Nat} {a : Nat} (h : Renewed k a) (hs : Settled k q a)
    (hidle : k.level k.idle = 0) : 1 ≤ k.slice a ∧ k.slice a ≤ 32 := by
  obtain ⟨j, hj, he⟩ | he := h
  · rw [he]
    exact slice_of_level hj
  · rw [he]
    by_cases ha : a = k.idle
    · rw [ha, hidle]
      exact slice_of_level (by decide)
    · exact slice_of_level (hs.level ha)

/-! ## Runs -/

/-- Where the handler of an interrupt calls the scheduler: nowhere, or in this state. -/
inductive Turn (k : kernel_t) (i : Interrupt) (k1 : kernel_t) : Option kernel_t → Prop
  | quiet : SameSlices k.live k k1 → Turn k i k1 none
  | calls {s s' : kernel_t} : Schedules k i s → task_manager_schedule s = some s' →
      SameSlices k.live s' k1 → Turn k i k1 (some s)

theorem handler_turn (hidle : k.idle ∈ k.live) (hs : k1.strays = k.strays)
    (h : handler k i = some k1) : ∃ call, Turn k i k1 call := by
  have hchanges := handler_changes (Loads.any k i) h
  have hnew : ∀ child, TaskBlock k.live child → child ∉ k.live := fun child hb hm => hb.fresh hm
  have hn : k1.hits (fun _ => true) = k.hits fun _ => true := congrArg (List.countP _) hs
  obtain hsame | ⟨s, s', hs, he, hsame⟩ := hchanges.last_call hn hnew hidle
  · exact ⟨none, .quiet hsame⟩
  · exact ⟨some s, .calls hs he hsame⟩

/-- The queues are in order for a call of the scheduler. -/
def InOrder (s : kernel_t) : Prop := ∃ q cur, Settled s q cur ∧ Holds s cur

/-- The number of ticks counted since the running task was selected, when there were `n` before. -/
def ticks_since (n : Nat) : Option kernel_t → Nat
  | none => n
  | some s => if s.current = 0 ∨ Reschedules s then 0 else n + 1

/-- The kernel between two interrupts, with the number of times that the slice of the running task
was counted down since the scheduler selected it. Any interrupts have come in any order that end no
task with children. -/
inductive Timed : kernel_t → Nat → Prop
  | boot {boot : Boot} {k : kernel_t} : kernel_initialize boot = some k → Timed k 0
  | step {k k1 : kernel_t} {n : Nat} {i : Interrupt} {call : Option kernel_t} : Timed k n →
      Orderly k i → handler k i = some k1 → Turn k i k1 call →
      Timed (leave_interrupt k1 (entry_esp k)) (ticks_since n call)

/-- What holds of the slice of the task that is to run. -/
structure Ticking (k : kernel_t) (n : Nat) : Prop where
  idle_level : k.level k.idle = 0
  positive : 1 ≤ k.slice k.runs
  bound : n + k.slice k.runs ≤ 32

/-- Before the first interrupt ends there is no current task, and after it no switch is pending. -/
def Started (k : kernel_t) (n : Nat) : Prop :=
  k.current = 0 ∧ n = 0 ∧ k.task_manager.task_needs_switching = true ∨
    k.current ≠ 0 ∧ k.task_manager.task_needs_switching = false

theorem Ticking.same (h : Ticking k n) (hs : SameSlices known k k') (hk : k.runs ∈ known) :
    Ticking k' n := by
  have hslice : k'.slice k'.runs = k.slice k.runs := by
    rw [hs.runs]
    exact hs.slices _ hk
  refine ⟨?_, ?_, ?_⟩
  · rw [hs.idle]
    exact hs.idle_level h.idle_level
  · rw [hslice]
    exact h.positive
  · rw [hslice]
    exact h.bound

theorem left_idle (k : kernel_t) (esp : Nat) : (leave_interrupt k esp).idle = k.idle := by
  unfold leave_interrupt
  split
  · exact congrArg (fun m => m.task_idle) (switch_manager _ esp)
  · rfl

theorem Ticking.left (h : Ticking k n) (esp : Nat) : Ticking (leave_interrupt k esp) n := by
  have hslice : ∀ a, (leave_interrupt k esp).slice a = k.slice a := by
    intro a
    obtain ⟨e, he⟩ := left_task k esp a
    exact congrArg (fun t => t.task_time_slice) he
  have hlevel : ∀ a, (leave_interrupt k esp).level a = k.level a := by
    intro a
    obtain ⟨e, he⟩ := left_task k esp a
    exact congrArg (fun t => t.task_queue_level) he
  refine ⟨?_, ?_, ?_⟩
  · rw [left_idle, hlevel]
    exact h.idle_level
  · rw [leave_interrupt_runs, hslice]
    exact h.positive
  · rw [leave_interrupt_runs, hslice]
    exact h.bound

theorem started_left (hp : k.current = 0 → k.task_manager.task_needs_switching = true)
    (hruns : k.runs ≠ 0) (esp m : Nat) : Started (leave_interrupt k esp) m := by
  right
  by_cases hn : k.task_manager.task_needs_switching = true
  · obtain ⟨hcur, hneeds⟩ := leave_interrupt_switch hn esp
    refine ⟨?_, hneeds⟩
    unfold kernel_t.runs at hruns
    rw [if_pos hn] at hruns
    rw [hcur]
    exact hruns
  · unfold leave_interrupt
    rw [if_neg hn]
    exact ⟨fun hc => hn (hp hc), by simpa using hn⟩

theorem sub32_one {x : Nat} (h1 : 1 ≤ x) (h2 : x ≤ 32) : sub32 x 1 = x - 1 := by
  unfold sub32
  omega

/-- Before the first task runs, a call of the scheduler does no more than a boost. -/
theorem schedule_without_task (hc : s.current = 0) (h : task_manager_schedule s = some s') :
    SameSlices known s s' := by
  obtain ⟨k2, hboost, huse⟩ := Option.bind_eq_some_iff.mp h
  have h2 : Stays s k2 := (stays_destroy_queued s).trans (stays_boost_if_due hboost)
  unfold use_time_slice at huse
  rw [if_pos (h2.current.trans hc)] at huse
  cases huse
  exact h2.same

/-- One call of the scheduler counts the slice down, or gives a new one. -/
theorem Ticking.scheduled {q : Nat → List Nat} {cur : Nat} (h : Ticking s n) (hs : Settled s q cur)
    (hcur : Holds s cur) (hc : s.current ≠ 0)
    (hn : s.task_manager.task_needs_switching = false) (he : task_manager_schedule s = some s') :
    Ticking s' (if Reschedules s then 0 else n + 1) := by
  obtain ⟨s2, q', he2, -, hset, -⟩ := schedule_decides hs hcur
  obtain rfl : s' = s2 := Option.some.inj (he.symm.trans he2)
  have hsliced := schedule_slices hs hc hn he
  have hidle : s'.level s'.idle = 0 := by
    rw [(keeps_schedule he).idle]
    exact hsliced.idle_level h.idle_level
  by_cases hr : Reschedules s
  · obtain ⟨h1, h2⟩ := (hsliced.renewed hr).bounds hset hidle
    rw [if_pos hr]
    exact ⟨hidle, h1, by omega⟩
  · obtain ⟨hruns, hslice⟩ := hsliced.counted hr
    have hcurrent : s.runs = s.current := by
      unfold kernel_t.runs
      rw [hn]
      rfl
    have h1 := h.positive
    have h2 := h.bound
    rw [hcurrent] at h1 h2
    have hsub : sub32 (s.slice s.current) 1 = s.slice s.current - 1 := sub32_one h1 (by omega)
    have hne : sub32 (s.slice s.current) 1 ≠ 0 := fun h0 => hr (Or.inl h0)
    rw [if_neg hr]
    refine ⟨hidle, ?_, ?_⟩
    · rw [hruns, hslice]
      omega
    · rw [hruns, hslice]
      omega

theorem Turn.ticking {q : Nat → List Nat} {call : Option kernel_t} (h : Ticking k n)
    (hstart : Started k n) (hs : Settled k q k.runs) (ht : Turn k i k1 call)
    (ho : ∀ s, call = some s → InOrder s) :
    Ticking k1 (ticks_since n call) ∧ k1.runs ≠ 0 ∧
      (k1.current = 0 → k1.task_manager.task_needs_switching = true) := by
  have hneeds : k.current = 0 → k.task_manager.task_needs_switching = true := by
    intro hc
    rcases hstart with ⟨-, -, hn⟩ | ⟨h0, -⟩
    · exact hn
    · exact absurd hc h0
  cases ht with
  | quiet hsame =>
    refine ⟨h.same hsame hs.live, ?_, ?_⟩
    · rw [hsame.runs]
      exact hs.ne_zero
    · rw [hsame.current, hsame.needs]
      exact hneeds
  | @calls s s' hcall he hsame =>
    obtain ⟨q2, cur, hset, hcur⟩ := ho s rfl
    have hbefore : SameSlices k.live k s := hcall.same
    have hticking : Ticking s n := h.same hbefore hs.live
    obtain ⟨s2, q', he2, -, hset', -⟩ := schedule_decides hset hcur
    obtain rfl : s' = s2 := Option.some.inj (he.symm.trans he2)
    have hlive : s'.runs ∈ k.live := by
      have hm := hset'.live
      rwa [(keeps_schedule he).live, hcall.live] at hm
    have hcurrent : k1.current = k.current :=
      hsame.current.trans ((keeps_schedule he).current.trans hbefore.current)
    by_cases hc : s.current = 0
    · have hstill : SameSlices k.live s s' := schedule_without_task hc he
      have hn0 : n = 0 := by
        rcases hstart with ⟨-, h0, -⟩ | ⟨h0, -⟩
        · exact h0
        · exact absurd (hbefore.current.symm.trans hc) h0
      have hcount : ticks_since n (some s) = n := by
        simp [ticks_since, hc, hn0]
      rw [hcount]
      refine ⟨(hticking.same hstill ?_).same hsame hlive, ?_, ?_⟩
      · rw [hbefore.runs]
        exact hs.live
      · rw [hsame.runs]
        exact hset'.ne_zero
      · rw [hcurrent, hsame.needs, hstill.needs, hbefore.needs]
        exact hneeds
    · have hck : k.current ≠ 0 := hbefore.current.symm.trans_ne hc
      have hn : s.task_manager.task_needs_switching = false := by
        rw [hbefore.needs]
        rcases hstart with ⟨h0, -⟩ | ⟨-, hn⟩
        · exact absurd h0 hck
        · exact hn
      have hcount : ticks_since n (some s) = if Reschedules s then 0 else n + 1 := by
        simp [ticks_since, hc]
      rw [hcount]
      refine ⟨(hticking.scheduled hset hcur hc hn he).same hsame hlive, ?_, ?_⟩
      · rw [hsame.runs]
        exact hset'.ne_zero
      · intro h0
        exact absurd (hcurrent.symm.trans h0) hck

/-- The boot gives the idle task the slice of a new task. -/
theorem boot_slices {boot : Boot} (h : kernel_initialize boot = some k) :
    SameSlices {boot.idle_block} (peopled boot) k ∧ k.live = (peopled boot).live := by
  obtain hk | ⟨loaded, task_cr3, -, hk⟩ := boot_changes h
  · exact ⟨hk.same, hk.live⟩
  · refine ⟨SameSlices.trans ?_ hk.same, hk.live⟩
    exact SameSlices.setTask rfl rfl

theorem boot_ticking {boot : Boot} (h : kernel_initialize boot = some k) :
    Ticking k 0 ∧ Started k 0 := by
  have hbooted := boot_spec h
  obtain ⟨hsame, hlive⟩ := boot_slices h
  have hidle : k.idle = boot.idle_block := hsame.idle
  have hne : boot.init_block ≠ boot.idle_block := by
    -- Else the idle task would be the only one, and init is another.
    intro he
    have hinit : k.init ∈ k.live ∧ k.init ≠ k.idle := (hbooted.tree.mem k.init).mp (by simp)
    rw [hlive, peopled_mem, he, or_self, ← hidle] at hinit
    exact hinit.2 hinit.1
  have hslice : k.slice k.runs = TASK_MANAGER_DEFAULT_TIME_SLICE := by
    have hruns : k.runs = boot.idle_block := by
      unfold kernel_t.runs
      rw [hbooted.needs, hbooted.next]
      exact hidle
    rw [hruns, hsame.slices _ (Finset.mem_singleton_self _)]
    simp [kernel_t.slice, peopled, idling, hne.symm, created_record]
  have hlevel : k.level k.idle = 0 := by
    rw [hidle]
    apply hsame.idle_level
    simp [kernel_t.level, kernel_t.idle, peopled, idling, hne.symm, created_record]
  refine ⟨⟨hlevel, ?_, ?_⟩, Or.inl ⟨hbooted.current, rfl, hbooted.needs⟩⟩
  · rw [hslice]
    decide
  · rw [hslice]
    decide

theorem Timed.run (h : Timed k n) : Run anything k := by
  induction h with
  | boot hb => exact Run.boot hb
  | @step k k1 n i call _ ho hr _ ih =>
    refine Run.step ih ho (anything_allows k i) ?_
    rw [interrupt_eq, hr]
    rfl

theorem Timed.ticking (h : Timed k n) : Ticking k n ∧ Started k n := by
  induction h with
  | boot hb => exact boot_ticking hb
  | @step k k1 n i call hprev ho _ ht ih =>
    obtain ⟨q, order, ns, hb⟩ := hprev.run.between
    have horder : ∀ s, call = some s → InOrder s := by
      rintro s rfl
      cases ht with
      | calls hcall _ _ => exact Scheduled.in_order ⟨k, i, hprev.run, ho, hcall⟩
    obtain ⟨h1, hruns, hp⟩ := ht.ticking ih.1 ih.2 hb.settled horder
    exact ⟨h1.left _, started_left hp hruns _ _⟩

/-- Every run in which no task ends while it has children is timed. -/
theorem Run.timed (h : Run rules k) : ∃ n, Timed k n := by
  induction h with
  | boot hb => exact ⟨0, .boot hb⟩
  | @step k k' i hrun ho _ hr ih =>
    obtain ⟨n, ih⟩ := ih
    obtain ⟨q, order, ns, hb⟩ := hrun.between
    rw [interrupt_eq] at hr
    obtain ⟨k1, hk1, rfl⟩ := Option.map_eq_some_iff.mp hr
    obtain ⟨call, ht⟩ := handler_turn hb.settled.idle (hrun.handler_strays ho hk1) hk1
    exact ⟨_, Timed.step ih ho hk1 ht⟩

/-- Init reaps its child while a grandchild waits for a key, and waits. The grandchild forks; its
child ends, and so does the grandchild, whose dead child goes to init in a node of no predecessor: the
unwritten word of it points just before the slice of init. Init reaps the dead child. -/
def sliceOverwritten : List Interrupt :=
  initRuns ++ [forks 2, calls SYSCALL_WAITPID 2 0 0, forks 3, exitsWithChild 4 0, forks 5,
    calls SYSCALL_READ 0 0x8048000 1, calls SYSCALL_WAITPID 2 0 0,
    calls SYSCALL_WAITPID ANY_CHILD 0 0, calls SYSCALL_EXIT 0 0 0, .keyboard 30] ++
  List.replicate 4 .timer ++ [calls SYSCALL_READ 0 0x8048000 1,
    exitsWithChild 6 (taskAt 1 + 16 - 4)] ++
  List.replicate 4 .timer ++ [calls SYSCALL_WAITPID ANY_CHILD 0 0]

end alura_os.kernel
