-- What one call of the scheduler decides: who goes back to a queue, and where, and
-- who has the processor next. It is called with the queues in order, at a tick and
-- when the running task waits or ends.
import AluraOs.KillSignal

namespace alura_os.kernel

open alura_os.memory alura_os.task_manager alura_os.resource chains
open task_state_t task_wait_reason_t task_manager_result_t resource_result_t

variable {k k' : kernel_t} {q b r : Nat → List Nat} {order : List Nat} {ns : Nat → List Nat}
  {rules : Rules} {cur idle new : Nat}

/-! ## The selected task -/

theorem Selects.mem {q' : Nat → List Nat} (h : Selects r idle new q') {i a : Nat} (ha : a ∈ r i) :
    a = new ∨ a ∈ q' i := by
  cases h with
  | idle => exact Or.inr ha
  | @first j new xs hj hempty hr =>
    by_cases hij : i = j
    · subst hij
      rw [hr] at ha
      simpa using ha
    · rw [Function.update_of_ne hij]
      exact Or.inr ha

/-- The queues of the waiting and of the dead tasks stay. -/
theorem Selects.waiting {q' : Nat → List Nat} (h : Selects r idle new q') {i : Nat} (hi : 4 ≤ i) :
    q' i = r i := by
  cases h with
  | idle => rfl
  | first hj => exact Function.update_of_ne (by omega) _ _

theorem Selects.idle_iff {q' : Nat → List Nat} (h : Selects r idle new q')
    (hidle : ∀ i, idle ∉ r i) : new = idle ↔ ∀ i < 4, r i = [] := by
  cases h with
  | idle hempty => exact iff_of_true rfl hempty
  | @first j new xs hj hempty hr =>
    apply iff_of_false
    · rintro rfl
      apply hidle j
      simp [hr]
    · intro hall
      have := hall j hj
      simp [hr] at this

theorem demoted_lt (level : Nat) : demoted level < 4 := by
  unfold demoted
  omega

theorem mem_requeued {i a : Nat} (ha : a ∈ q i) : a ∈ requeued k q i := by
  unfold requeued
  split
  · by_cases hi : i = demoted (k.level k.current)
    · subst hi
      simp [ha]
    · simpa [Function.update_of_ne hi] using ha
  · exact ha

theorem requeued_waiting {i : Nat} (hi : 4 ≤ i) : requeued k q i = q i := by
  have := demoted_lt (k.level k.current)
  unfold requeued
  split
  · exact Function.update_of_ne (by omega) _ _
  · rfl

theorem idle_notMem_requeued (h : ∀ i, k.idle ∉ q i) (i : Nat) : k.idle ∉ requeued k q i := by
  unfold requeued
  split
  · rename_i hl
    by_cases hi : i = demoted (k.level k.current)
    · subst hi
      simpa [h] using Ne.symm hl.1
    · simpa [Function.update_of_ne hi] using h i
  · exact h i

theorem boosted_first (q : Nat → List Nat) : boosted q 0 = q 0 ++ q 1 ++ q 2 ++ q 3 := rfl

theorem boosted_rest {i : Nat} (h0 : 0 < i) (h4 : i < 4) : boosted q i = [] := by
  unfold boosted
  rw [if_neg (by omega), if_pos h4]

theorem boosted_waiting {i : Nat} (hi : 4 ≤ i) : boosted q i = q i := by
  unfold boosted
  rw [if_neg (by omega), if_neg (by omega)]

theorem mem_boosted {i a : Nat} (hi : i < 4) (ha : a ∈ q i) : a ∈ boosted q 0 := by
  rw [boosted_first]
  interval_cases i <;> simp [ha]

theorem boosted_mem {i a : Nat} (ha : a ∈ boosted q i) : ∃ j, a ∈ q j := by
  unfold boosted at ha
  split at ha
  · simp only [List.mem_append] at ha
    rcases ha with ((ha | ha) | ha) | ha <;> exact ⟨_, ha⟩
  · split at ha
    · cases ha
    · exact ⟨i, ha⟩

/-! ## When the scheduler is called -/

/-- The states in which the interrupts of a run call `task_manager_schedule`. -/
def Scheduled (rules : Rules) (s : kernel_t) : Prop :=
  ∃ k i, Run rules k ∧ Orderly k i ∧ Schedules k i s

theorem Calling.enters (h : Calling k q order ns) (he : Enters k k') :
    Calling k' q order ns ∧ k'.current = k.current ∧ k'.tasks = k.tasks := by
  have hloaded : ∀ data, Calling (load_execution k data) q order ns ∧
      (load_execution k data).current = k.current ∧ (load_execution k data).tasks = k.tasks := by
    intro data
    obtain ⟨hst, hm, -, -⟩ := load_execution_rest k data
    exact ⟨h.loaded data, congrArg (fun m => m.task_current) hm, congrArg (fun s => s.tasks) hst⟩
  cases he with
  | exception => exact ⟨h, rfl, rfl⟩
  | syscall data => exact hloaded data
  | read data length =>
    obtain ⟨h1, hcur, ht⟩ := hloaded data
    exact ⟨h1.taken length, hcur, ht⟩
  | roused data hu =>
    obtain ⟨h1, hcur, ht⟩ := hloaded data
    -- The running task does not wait.
    have hb : (load_execution k data).state k.current ≠ TASK_STATE_BLOCKED := by
      rw [← hcur, h1.running]
      decide
    unfold task_manager_unblock_task at hu
    rw [if_pos hb] at hu
    cases hu
    exact ⟨h1, hcur, ht⟩

theorem Calling.sleeps_in_order (h : Calling k q order ns) {r : task_wait_reason_t} {o : Nat}
    (he : task_manager_block_task k k.current r o = some k') :
    ∃ q' cur, Settled (k'.setYield k'.current true) q' cur ∧
      Holds (k'.setYield k'.current true) cur := by
  obtain ⟨k1, q1, he1, hs, hb1⟩ := asleep_spec h r o
  obtain rfl : k1 = k' := Option.some.inj (he1.symm.trans he)
  have hst1 := bare_state hb1
  have hcur1 := bare_current hb1
  have hcur : k1.current = k.current := hcur1
  have hn1 := congrArg (fun k => k.task_manager.task_needs_switching) hb1
  refine ⟨q1, _, hs.yields ?_ (hn1.trans h.needs) (Or.inr ⟨rfl, ?_⟩)⟩
  · rw [hcur]
    exact h.ne_zero
  · rw [hcur, hst1]
    simp [waiting, kernel_t.state, kernel_t.setTask]

theorem Calling.ends_in_order (h : Calling k q order ns) (hc : (k.tasks k.current).children = 0)
    {return_code : Int} {blocks : List (Nat × Nat)} {result : task_manager_result_t}
    (he : task_manager_exit_task k k.current return_code blocks = some (k', result)) :
    ∃ q' cur, Settled (k'.setYield k'.current true) q' cur ∧
      Holds (k'.setYield k'.current true) cur := by
  have hz : k.state k.current ≠ TASK_STATE_ZOMBIE := by
    rw [h.running]
    decide
  have hnodes : ChildNodes k k.current [] := ⟨hc, by simp⟩
  have hblocks : Supplied k.node_blocks [] blocks := trivial
  obtain ⟨k1, q1, he1, hend, hq1, hs1, -, hst1, hn1⟩ :=
    exit_with_children h h.live h.user hz hnodes hblocks return_code
  obtain rfl : k1 = k' := congrArg Prod.fst (Option.some.inj (he1.symm.trans he))
  rw [h.erase_self] at hq1 hst1
  have hset : Settled k1 q1 k1.idle := h.idles hend.idle hend.live hq1 hs1 (hst1 _ (by simp))
  refine ⟨q1, _, hset.yields ?_ (hn1.trans h.needs) (Or.inr ⟨rfl, ?_⟩)⟩
  · rw [hend.current]
    exact h.ne_zero
  · rw [hend.current, hend.zombie]
    decide

/-- The scheduler is always called with the queues in order. -/
theorem Scheduled.in_order (h : Scheduled rules k) : ∃ q cur, Settled k q cur ∧ Holds k cur := by
  obtain ⟨k0, i, hrun, ho, hs⟩ := h
  obtain ⟨q, order, ns, hb⟩ := hrun.between
  cases hs with
  | ticks => exact ⟨q, _, hb.ticks⟩
  | sleeps hc hid he hblock =>
    exact ((hb.calling hc hid).enters he).1.sleeps_in_order hblock
  | ends hc hid hends he hexit =>
    obtain ⟨h1, hcur, ht⟩ := (hb.calling hc hid).enters he
    apply h1.ends_in_order _ hexit
    rw [hcur, ht]
    exact ho _ hends

/-! ## One call -/

/-- The ready tasks stand in the first queue, in their old order and with its level, and no other
queue changes. -/
structure Boosts (k' : kernel_t) (q b : Nat → List Nat) : Prop where
  first : b 0 = q 0 ++ q 1 ++ q 2 ++ q 3
  rest : ∀ i, 0 < i → i < 4 → b i = []
  waiting : ∀ i, 4 ≤ i → b i = q i
  levels : ∀ i < 4, ∀ a ∈ q i, k'.level a = 0

/-- The running task goes to the end of the queue one level down, and is ready unless it comes at
once again. -/
structure Demotes (k k' : kernel_t) (b r : Nat → List Nat) : Prop where
  level : k'.level k.current = min (k.level k.current + 1) 3
  queue : r = Function.update b (k'.level k.current) (b (k'.level k.current) ++ [k.current])
  ready : k'.runs ≠ k.current → k'.state k.current = TASK_STATE_READY

/-- A running task that is not the idle one leaves the processor for a queue, and the first task of
the first queue that is not empty gets it. -/
structure Chooses (k k' : kernel_t) (b r q' : Nat → List Nat) : Prop where
  leaves : Leaves k → Demotes k k' b r
  stays : ¬ Leaves k → r = b
  selects : Selects r k.idle k'.runs q'
  idle : k'.runs = k.idle ↔ ∀ i < 4, r i = []
  running : k'.state k'.runs = TASK_STATE_RUNNING
  waiting : ∀ i, 4 ≤ i → q' i = b i

theorem Decides.chooses {q' : Nat → List Nat} (h : Decides k k' b q' new)
    (hs : Settled k' q' k'.runs) (hidle : ∀ i, k.idle ∉ b i) :
    Chooses k k' b (requeued k b) q' := by
  have hruns := h.runs
  subst hruns
  refine ⟨fun hl => ?_, fun hl => if_neg hl, h.selects, ?_, hs.running, fun i hi => ?_⟩
  · have hlevel := h.level hl
    have hrequeued : requeued k b = Function.update b (demoted (k.level k.current))
        (b (demoted (k.level k.current)) ++ [k.current]) := if_pos hl
    refine ⟨hlevel, by rw [hlevel]; exact hrequeued, fun hne => ?_⟩
    have hm : k.current ∈ requeued k b (demoted (k.level k.current)) := by
      rw [hrequeued]
      simp
    rcases h.selects.mem hm with hc | hm
    · exact absurd hc.symm hne
    · exact (hs.sorted _ _ hm).ready_of_lt (demoted_lt _)
  · exact h.selects.idle_iff (idle_notMem_requeued hidle)
  · rw [h.selects.waiting hi, requeued_waiting hi]

/-- Whoever was in the first queue before the choice has its level after it. -/
theorem Used.level_zero {q' : Nat → List Nat} (h : Used k k' b q') (hs : Settled k' q' k'.runs)
    {a : Nat} (ha : a ∈ b 0) : k'.level a = 0 := by
  by_cases hr : Reschedules k
  · obtain ⟨new, hd⟩ := h.decides hr
    have hm := mem_requeued (k := k) ha
    rcases hd.selects.mem hm with rfl | hq
    · exact hd.place 0 hm
    · exact hs.queues.level 0 a hq
  · obtain ⟨rfl, -⟩ := h.goes_on hr
    exact hs.queues.level 0 a ha

/-- What a call of `task_manager_schedule` does from these queues. It ends with queues in order. If
the boost is due, all ready tasks go to the first queue. If the slice ends or the task has yielded,
the task leaves the processor and another is chosen; if not, the task goes on. -/
def Decided (k : kernel_t) (q : Nat → List Nat) : Prop :=
  ∃ k' b q', task_manager_schedule k = some k' ∧ Settled k' q' k'.runs ∧
    (boost_is_due k = true → Boosts k' q b) ∧ (boost_is_due k = false → b = q) ∧
    (Reschedules k → ∃ r, Chooses k k' b r q') ∧
    (¬ Reschedules k → q' = b ∧ k'.runs = k.current)

theorem schedule_decided (h : Settled k q cur) (hcur : Holds k cur) (hc : k.current ≠ 0) :
    Decided k q := by
  obtain ⟨k', q', he, -, hs, -, hu⟩ := schedule_decides h hcur
  have hused := hu hc
  refine ⟨k', boosted_if_due k q, q', he, hs, fun hd => ?_, fun hd => ?_, fun hr => ?_,
    hused.goes_on⟩
  · have hb : boosted_if_due k q = boosted q := if_pos hd
    rw [hb] at hused ⊢
    exact ⟨boosted_first q, fun i => boosted_rest, fun i => boosted_waiting,
      fun i hi a ha => hused.level_zero hs (mem_boosted hi ha)⟩
  · unfold boosted_if_due
    simp [hd]
  · obtain ⟨new, hd⟩ := hused.decides hr
    refine ⟨_, hd.chooses hs fun i hm => ?_⟩
    have hnot : ∀ j, k.idle ∉ q j := fun j hj => h.queues.inside j _ hj h.queues.idle
    unfold boosted_if_due at hm
    split at hm
    · obtain ⟨j, hj⟩ := boosted_mem hm
      exact hnot j hj
    · exact hnot i hm

end alura_os.kernel
