-- The laws of the scheduler: whatever it picks, the task that runs next is in no
-- queue, every other task is in the queue of its state, and no task starts or
-- ends to wait.
import AluraOs.Loops
import AluraOs.TaskQueues

namespace alura_os.kernel

open alura_os.memory alura_os.task_manager alura_os.resource chains
open task_state_t task_wait_reason_t task_manager_result_t

variable {k k' : kernel_t} {q : Nat → List Nat} {out : Finset Nat}

/-! ## States -/

/-- Every queued task is in a queue of its state. -/
def Sorted (k : kernel_t) (q : Nat → List Nat) : Prop := ∀ i, ∀ a ∈ q i, Belongs (k.state a) i

theorem Belongs.not_running {i : Nat} (h : Belongs TASK_STATE_RUNNING i) : False := by
  rcases h with ⟨h, -⟩ | ⟨h, -⟩ | ⟨h, -⟩ <;> cases h

theorem Belongs.ready_of_lt {s : task_state_t} {i : Nat} (h : Belongs s i) (hi : i < 4) :
    s = TASK_STATE_READY := by
  rcases h with ⟨h, -⟩ | ⟨-, h⟩ | ⟨-, h⟩
  · exact h
  · rw [h] at hi
    exact absurd hi (by decide)
  · rw [h] at hi
    exact absurd hi (by decide)

theorem Belongs.blocked {i : Nat} (h : Belongs TASK_STATE_BLOCKED i) :
    i = TASK_MANAGER_QUEUE_INDEX_BLOCKED := by
  rcases h with ⟨h, -⟩ | ⟨-, h⟩ | ⟨h, -⟩
  · cases h
  · exact h
  · cases h

theorem Belongs.zombie {i : Nat} (h : Belongs TASK_STATE_ZOMBIE i) :
    i = TASK_MANAGER_QUEUE_INDEX_ZOMBIE := by
  rcases h with ⟨h, -⟩ | ⟨h, -⟩ | ⟨-, h⟩
  · cases h
  · cases h
  · exact h

theorem belongs_ready {i : Nat} (h : i < 4) : Belongs TASK_STATE_READY i := Or.inl ⟨rfl, h⟩

theorem Sorted.congr {k k' : kernel_t} {q : Nat → List Nat} (h : Sorted k q)
    (hs : ∀ i, ∀ a ∈ q i, k'.state a = k.state a) : Sorted k' q := by
  intro i a ha
  rw [hs i a ha]
  exact h i a ha

theorem Sorted.append {t i : Nat} (h : Sorted k q) (hs : ∀ j, ∀ a ∈ q j, k'.state a = k.state a)
    (hb : Belongs (k'.state t) i) : Sorted k' (Function.update q i (q i ++ [t])) := by
  intro j a ha
  rcases mem_update_append.mp ha with ha | ⟨rfl, rfl⟩
  · rw [hs j a ha]
    exact h j a ha
  · exact hb

theorem Sorted.take {t i : Nat} (h : Sorted k q) (hq : Queues k q out) (ht : t ∈ q i)
    (hs : ∀ a, a ≠ t → k'.state a = k.state a) :
    Sorted k' (Function.update q i ((q i).erase t)) := by
  intro j a ha
  obtain ⟨ha, hne⟩ := (mem_update_erase hq ht).mp ha
  rw [hs a hne]
  exact h j a ha

@[simp] theorem state_setState (k : kernel_t) (a : Nat) (s : task_state_t) :
    (k.setState a s).state a = s := by
  simp [kernel_t.state, kernel_t.setState, kernel_t.setTask]

theorem state_setTask_ne (k : kernel_t) {a b : Nat} (t : task_t) (h : b ≠ a) :
    (k.setTask a t).state b = k.state b := by
  simp [kernel_t.state, kernel_t.setTask, h]

theorem state_setState_ne (k : kernel_t) {a b : Nat} (s : task_state_t) (h : b ≠ a) :
    (k.setState a s).state b = k.state b := state_setTask_ne k _ h

/-- A change that leaves the link and the level moves nothing. -/
theorem Queues.touch (h : Queues k q out) {a : Nat} {t : task_t} (hn : t.next = k.next a)
    (hl : t.task_queue_level = k.level a) : Queues (k.setTask a t) q out := by
  apply h.congr
  · intro b
    rw [next_setTask]
    by_cases hb : b = a
    · subst hb
      simp [hn]
    · simp [hb]
  · exact fun _ => rfl
  · rfl
  · intro i b _
    by_cases hb : b = a
    · subst hb
      simpa [kernel_t.level, kernel_t.setTask] using hl
    · simp [kernel_t.level, kernel_t.setTask, hb]
  · rfl

theorem state_touch {a : Nat} {t : task_t} (ht : t.task_state = k.state a) (b : Nat) :
    (k.setTask a t).state b = k.state b := by
  by_cases hb : b = a
  · subst hb
    simpa [kernel_t.state, kernel_t.setTask] using ht
  · exact state_setTask_ne k t hb

theorem level_touch {a : Nat} {t : task_t} (ht : t.task_queue_level = k.level a) (b : Nat) :
    (k.setTask a t).level b = k.level b := by
  by_cases hb : b = a
  · subst hb
    simpa [kernel_t.level, kernel_t.setTask] using ht
  · simp [kernel_t.level, kernel_t.setTask, hb]

theorem level_setTask_ne (k : kernel_t) {a b : Nat} (t : task_t) (h : b ≠ a) :
    (k.setTask a t).level b = k.level b := by
  simp [kernel_t.level, kernel_t.setTask, h]

/-- The tasks of `out` keep their levels. -/
def SameLevels (k k' : kernel_t) (out : Finset Nat) : Prop := ∀ a ∈ out, k'.level a = k.level a

theorem SameLevels.trans {k1 k2 k3 : kernel_t} (h : SameLevels k1 k2 out)
    (h' : SameLevels k2 k3 out) : SameLevels k1 k3 out :=
  fun a ha => (h' a ha).trans (h a ha)

theorem level_setState (k : kernel_t) (a : Nat) (s : task_state_t) (b : Nat) :
    (k.setState a s).level b = k.level b := by
  apply level_touch
  rfl

theorem Queues.setState (h : Queues k q out) (t : Nat) (s : task_state_t) :
    Queues (k.setState t s) q out := h.touch rfl rfl

/-- A task that is in no queue is in `out`, and one of `out` is in no queue. -/
theorem Queues.mem_of_state (h : Queues k q out) (hs : Sorted k q) {t : Nat} (ht : t ∈ k.live)
    (hout : t ∉ out) : t ∈ q (k.level t) ∧ Belongs (k.state t) (k.level t) := by
  obtain ⟨i, hi⟩ := h.all t ht hout
  have := h.level i t hi
  subst this
  exact ⟨hi, hs _ t hi⟩

/-! ## Blocking and waking -/

/-- The queues after a task left the blocked ones for the ready ones. -/
def woken (q : Nat → List Nat) (t : Nat) : Nat → List Nat :=
  Function.update (Function.update q 4 ((q 4).erase t)) 0 (q 0 ++ [t])

theorem block_spec (h : Queues k q out) (hs : Sorted k q) {t : Nat} (ht : t ∈ out)
    (hl : t ∈ k.live) (hid : t ≠ k.idle) (hb : k.state t ≠ TASK_STATE_BLOCKED)
    (wait_reason : task_wait_reason_t) (wait_object : Nat) :
    ∃ k', task_manager_block_task k t wait_reason wait_object = some k' ∧
      k'.bare = (k.setTask t { k.tasks t with
        task_state := TASK_STATE_BLOCKED
        wait_object := wait_object
        wait_reason := wait_reason }).bare ∧
      Queues k' (Function.update q 4 (q 4 ++ [t])) (out.erase t) ∧
      Sorted k' (Function.update q 4 (q 4 ++ [t])) ∧ SameLevels k k' (out.erase t) := by
  let k1 := k.setTask t { k.tasks t with
    task_state := TASK_STATE_BLOCKED
    wait_object := wait_object
    wait_reason := wait_reason }
  have h1 : Queues k1 q out := h.setTask ht _ (h.loose t ht)
  have hs1 : ∀ j, ∀ a ∈ q j, k1.state a = k.state a := by
    intro j a ha
    apply state_setTask_ne
    rintro rfl
    exact h.inside j a ha ht
  have hst : k1.state t = TASK_STATE_BLOCKED := by simp [k1, kernel_t.state, kernel_t.setTask]
  have hnot : t ∉ q (k1.level t) := fun hm => h.inside _ t hm ht
  obtain ⟨k', he, hbare, -, hlv, hq'⟩ := enqueue_spec h1 (i := 4) ht hl hid
  refine ⟨k', ?_, hbare, hq', ?_, ?_⟩
  · unfold task_manager_block_task
    rw [if_neg hb]
    show (task_manager_remove_task_from_queue k1 (k1.level t) t).bind _ = _
    rw [remove_absent h1 hnot]
    exact he
  · apply hs.append
    · intro j a ha
      rw [bare_state hbare]
      exact hs1 j a ha
    · rw [bare_state hbare, hst]
      exact Or.inr (Or.inl ⟨rfl, rfl⟩)
  · intro a ha
    have hne := Finset.ne_of_mem_erase ha
    rw [hlv a hne]
    exact level_setTask_ne k _ hne

theorem unblock_spec (h : Queues k q out) (hs : Sorted k q) {t : Nat} (hl : t ∈ k.live)
    (hout : t ∉ out) (hb : k.state t = TASK_STATE_BLOCKED) :
    ∃ k', task_manager_unblock_task k t = some k' ∧
      k'.bare = (k.setState t TASK_STATE_READY).bare ∧ Queues k' (woken q t) out ∧
      Sorted k' (woken q t) ∧ SameLevels k k' out := by
  obtain ⟨hm, hbel⟩ := h.mem_of_state hs hl hout
  have hlevel : k.level t = 4 := by
    rw [hb] at hbel
    exact hbel.blocked
  have h1 : Queues (k.setState t TASK_STATE_READY) q out := h.setState t _
  have hlevel1 : (k.setState t TASK_STATE_READY).level t = 4 := by
    rw [← hlevel]
    simp [kernel_t.level, kernel_t.setState, kernel_t.setTask]
  rw [hlevel] at hm
  obtain ⟨k2, he2, hbare2, hlv2, hq2⟩ := remove_spec h1 hm
  have hl2 : t ∈ k2.live := by
    rw [bare_live hbare2]
    exact hl
  have hid2 : t ≠ k2.idle := by
    rw [bare_idle hbare2]
    intro he
    have he : t = k.idle := he
    exact hout (he ▸ h.idle)
  obtain ⟨k', he, hbare, -, hlv, hq'⟩ :=
    enqueue_spec hq2 (i := 0) (Finset.mem_insert_self _ _) hl2 hid2
  have h0 : Function.update q 4 ((q 4).erase t) 0 = q 0 := Function.update_of_ne (by decide) _ _
  rw [h0, Finset.erase_insert hout] at hq'
  refine ⟨k', ?_, hbare.trans hbare2, hq', ?_, ?_⟩
  · unfold task_manager_unblock_task
    rw [if_neg (not_not.mpr hb)]
    show (task_manager_remove_task_from_queue (k.setState t TASK_STATE_READY)
      ((k.setState t TASK_STATE_READY).level t) t).bind _ = _
    rw [hlevel1, he2]
    exact he
  · have hst : ∀ a, k'.state a = (k.setState t TASK_STATE_READY).state a := by
      intro a
      rw [bare_state hbare, bare_state hbare2]
    have hs2 : Sorted k' (Function.update q 4 ((q 4).erase t)) := by
      apply hs.take h hm
      intro a ha
      rw [hst]
      exact state_setState_ne k _ ha
    have hb' : Belongs (k'.state t) 0 := by
      rw [hst, state_setState]
      exact belongs_ready (by decide)
    have hs3 := hs2.append (fun _ _ _ => rfl) hb'
    rwa [h0] at hs3
  · intro a ha
    have hne : a ≠ t := by
      rintro rfl
      exact hout ha
    rw [hlv a hne, hlv2, level_setState]

/-- A task waits for this. -/
def WaitsOn (t : task_t) (wait_reason : task_wait_reason_t) (wait_object : Nat) : Prop :=
  t.wait_reason = wait_reason ∧ t.wait_object = wait_object

instance (t : task_t) (r : task_wait_reason_t) (o : Nat) : Decidable (WaitsOn t r o) :=
  inferInstanceAs (Decidable (_ ∧ _))

/-- The tasks of a list that wait for this become ready. -/
def wakeAll (k : kernel_t) (r : task_wait_reason_t) (o : Nat) (xs : List Nat) : kernel_t :=
  { k with tasks := fun a =>
      if a ∈ xs ∧ WaitsOn (k.tasks a) r o then { k.tasks a with task_state := TASK_STATE_READY }
      else k.tasks a }

theorem wakeAll_cons {r : task_wait_reason_t} {o x : Nat} {xs : List Nat} (hx : x ∉ xs)
    (hb : k'.bare = if WaitsOn (k.tasks x) r o then (k.setState x TASK_STATE_READY).bare else k.bare) :
    (wakeAll k' r o xs).bare = (wakeAll k r o (x :: xs)).bare := by
  have hrest : k'.rest = k.rest := by
    split at hb
    · exact (bare_rest hb).trans rfl
    · exact bare_rest hb
  have hother : ∀ a, a ≠ x → unlinked (k'.tasks a) = unlinked (k.tasks a) := by
    intro a ha
    split at hb
    · rw [bare_task hb a]
      simp [kernel_t.setState, kernel_t.setTask, ha]
    · exact bare_task hb a
  have hself : unlinked (k'.tasks x) =
      unlinked (if WaitsOn (k.tasks x) r o then { k.tasks x with task_state := TASK_STATE_READY }
        else k.tasks x) := by
    split at hb
    · rename_i hw
      rw [bare_task hb x]
      simp [kernel_t.setState, kernel_t.setTask, hw]
    · rename_i hw
      rw [bare_task hb x, if_neg hw]
  have hrest' : (wakeAll k' r o xs).rest = (wakeAll k r o (x :: xs)).rest := hrest
  apply bare_ext hrest'
  intro a
  by_cases ha : a = x
  · subst ha
    simpa [wakeAll, hx] using hself
  · have hu := hother a ha
    have hw : WaitsOn (k'.tasks a) r o ↔ WaitsOn (k.tasks a) r o := by
      have h1 : (k'.tasks a).wait_reason = (k.tasks a).wait_reason :=
        congrArg (fun t => t.wait_reason) hu
      have h2 : (k'.tasks a).wait_object = (k.tasks a).wait_object :=
        congrArg (fun t => t.wait_object) hu
      unfold WaitsOn
      rw [h1, h2]
    by_cases hc : a ∈ xs ∧ WaitsOn (k.tasks a) r o
    · have h3 := congrArg (fun t : task_t => { t with task_state := TASK_STATE_READY }) hu
      simpa [wakeAll, ha, hc, hw, unlinked] using h3
    · simpa [wakeAll, ha, hc, hw] using hu

theorem wake_from_spec (r : task_wait_reason_t) (o : Nat) {rest : List Nat} {n : Nat}
    (h : Queues k q out) (hs : Sorted k q) {pre : List Nat} (hq : q 4 = pre ++ rest)
    (hn : rest.length < n) :
    ∃ k' q', wake_from r o n k (rest.headD 0) = some k' ∧
      k'.bare = (wakeAll k r o rest).bare ∧ Queues k' q' out ∧ Sorted k' q' ∧
      SameLevels k k' out := by
  induction rest generalizing k q pre n with
  | nil =>
    cases n with
    | zero => omega
    | succ n =>
      refine ⟨k, q, rfl, ?_, h, hs, fun _ _ => rfl⟩
      apply bare_ext (show k.rest = (wakeAll k r o []).rest from rfl)
      intro a
      simp [wakeAll]
  | cons x xs ih =>
    cases n with
    | zero => omega
    | succ n =>
      have hx : x ∈ q 4 := by rw [hq]; simp
      have hx0 : x ≠ 0 := h.ne_zero hx
      have hnodup := h.nodup 4
      rw [hq] at hnodup
      have hxs : x ∉ xs := by
        rw [List.nodup_append] at hnodup
        exact (List.nodup_cons.mp hnodup.2.1).1
      have hxpre : x ∉ pre := by
        intro hm
        rw [List.nodup_append] at hnodup
        exact hnodup.2.2 x hm x (by simp) rfl
      -- The next node is read before the task moves.
      have hnext : k.next x = xs.headD 0 := by
        have hp := path_suffix (hq ▸ h.path 4)
        exact path_start hp.2
      have hlen : xs.length < n := by simpa using hn
      unfold wake_from
      rw [List.headD_cons, if_neg hx0, hnext]
      by_cases hw : WaitsOn (k.tasks x) r o
      · have hb : k.state x = TASK_STATE_BLOCKED := by
          rcases hs 4 x hx with ⟨-, hc⟩ | ⟨hc, -⟩ | ⟨-, hc⟩
          · exact absurd hc (by decide)
          · exact hc
          · exact absurd hc (by decide)
        obtain ⟨k1, he, hbare, hq1, hs1, hl1⟩ :=
          unblock_spec h hs (h.live 4 x hx) (h.inside 4 x hx) hb
        have hq4 : woken q x 4 = pre ++ xs := by
          simp only [woken]
          rw [Function.update_of_ne (by decide), Function.update_self, hq,
            List.erase_append_right _ hxpre]
          simp
        obtain ⟨k', q', he', hb', hq', hs', hl'⟩ := ih hq1 hs1 hq4 hlen
        refine ⟨k', q', ?_, ?_, hq', hs', hl1.trans hl'⟩
        · unfold wake_one
          rw [if_pos (show _ ∧ _ from hw), he]
          exact he'
        · rw [hb']
          apply wakeAll_cons hxs
          rw [if_pos hw]
          exact hbare
      · have hq4 : q 4 = (pre ++ [x]) ++ xs := by
          rw [hq]
          simp
        obtain ⟨k', q', he', hb', hq', hs', hl'⟩ := ih h hs hq4 hlen
        refine ⟨k', q', ?_, ?_, hq', hs', hl'⟩
        · unfold wake_one
          rw [if_neg (show ¬ (_ ∧ _) from hw)]
          exact he'
        · rw [hb']
          apply wakeAll_cons hxs
          rw [if_neg hw]

/-- `task_manager_wake_blocked_on` wakes every task that waits for this, and no other. -/
theorem wake_spec (h : Queues k q out) (hs : Sorted k q) (r : task_wait_reason_t) (o : Nat) :
    ∃ k' q', task_manager_wake_blocked_on k r o = some k' ∧
      k'.bare = (wakeAll k r o (q 4)).bare ∧ Queues k' q' out ∧ Sorted k' q' ∧
      SameLevels k k' out := by
  have hstart : k.queue 4 = (q 4).headD 0 := path_start (h.path 4)
  obtain ⟨k', q', he, hrest⟩ := wake_from_spec r o h hs
    (show q 4 = [] ++ q 4 from rfl) (h.length_lt 4)
  refine ⟨k', q', ?_, hrest⟩
  rw [← he, ← hstart]
  rfl

/-! ## The priority boost -/

/-- The tasks of queue `i` go to the end of the first queue. -/
def moved (q : Nat → List Nat) (i : Nat) : Nat → List Nat :=
  Function.update (Function.update q 0 (q 0 ++ q i)) i []

theorem moved_nil {i : Nat} (hi : i ≠ 0) (hq : q i = []) : moved q i = q := by
  funext j
  unfold moved
  by_cases hj : j = i
  · subst hj
    simp [hq]
  · by_cases h0 : j = 0
    · subst h0
      simp [Function.update_of_ne hj, hq]
    · simp [Function.update_of_ne hj, Function.update_of_ne h0]

theorem moved_cons {i t : Nat} {xs : List Nat} (hi : i ≠ 0) (hq : q i = t :: xs) :
    moved (Function.update (Function.update q i xs) 0 (Function.update q i xs 0 ++ [t])) i =
      moved q i := by
  funext j
  unfold moved
  by_cases hj : j = i
  · subst hj
    simp
  · by_cases h0 : j = 0
    · subst h0
      simp [Function.update_of_ne hj, Function.update_of_ne hi, hq]
    · simp [Function.update_of_ne hj, Function.update_of_ne h0]

theorem boost_queue_spec {i n : Nat} (hi : 0 < i) (hi4 : i < 4) (h : Queues k q out)
    (hs : Sorted k q) (hn : (q i).length < n) :
    ∃ k', boost_queue i n k = some k' ∧ k'.bare = k.bare ∧ Queues k' (moved q i) out ∧
      Sorted k' (moved q i) ∧ SameLevels k k' out := by
  induction n generalizing k q with
  | zero => omega
  | succ n ih =>
    unfold boost_queue
    cases hq : q i with
    | nil =>
      rw [if_pos ((h.empty_iff i).mpr hq), moved_nil (Nat.pos_iff_ne_zero.mp hi) hq]
      exact ⟨k, rfl, rfl, h, hs, fun _ _ => rfl⟩
    | cons t xs =>
      have ht : t ∈ q i := by rw [hq]; simp
      have hne : k.queue i ≠ 0 := by
        rw [Ne, h.empty_iff, hq]
        simp
      have htout : t ∉ out := h.inside i t ht
      have hready : k.state t = TASK_STATE_READY := (hs i t ht).ready_of_lt hi4
      rw [if_neg hne, dequeue_spec h hq]
      have h1 := h.take_head hq
      let k1 := (k.setQueue i (k.next t)).setNext t 0
      let k2 := k1.setTask t { k1.tasks t with task_queue_level := 0 }
      have hbare2 : k2.bare = k.bare := by
        rw [show k2.bare = k1.bare from bare_setTask rfl]
        exact (bare_setNext _ _ _).trans (bare_setQueue _ _ _)
      have h2 : Queues k2 (Function.update q i xs) (insert t out) :=
        h1.setTask (Finset.mem_insert_self _ _) _ (h1.loose t (Finset.mem_insert_self _ _))
      have hl2 : t ∈ k2.live := h.live i t ht
      have hid2 : t ≠ k2.idle := by
        intro he
        have he : t = k.idle := he
        exact htout (he ▸ h.idle)
      obtain ⟨k3, he3, hbare3, -, hlv3, hq3⟩ :=
        enqueue_spec h2 (i := 0) (Finset.mem_insert_self _ _) hl2 hid2
      rw [Finset.erase_insert htout] at hq3
      have hst3 : ∀ a, k3.state a = k.state a := by
        intro a
        rw [bare_state hbare3, bare_state hbare2]
      have herase : (q i).erase t = xs := by rw [hq]; simp
      have hs1 : Sorted k3 (Function.update q i xs) := by
        rw [← herase]
        exact hs.take h ht fun a _ => hst3 a
      have hs3 := hs1.append (fun _ _ _ => rfl)
        (show Belongs (k3.state t) 0 by rw [hst3, hready]; exact belongs_ready (by decide))
      have hi0 : i ≠ 0 := Nat.pos_iff_ne_zero.mp hi
      have hlen : (Function.update (Function.update q i xs) 0
          (Function.update q i xs 0 ++ [t]) i).length < n := by
        rw [Function.update_of_ne hi0, Function.update_self]
        rw [hq] at hn
        simpa using hn
      have hl3 : SameLevels k k3 out := by
        intro a ha
        have hne : a ≠ t := by
          rintro rfl
          exact htout ha
        rw [hlv3 a hne, level_setTask_ne k1 _ hne]
        exact level_setNext _ _ _ _
      obtain ⟨k', he', hb', hq', hs', hl'⟩ := ih hq3 hs3 hlen
      rw [moved_cons hi0 hq] at hq' hs'
      refine ⟨k', ?_, hb'.trans (hbare3.trans hbare2), hq', hs', hl3.trans hl'⟩
      show (task_manager_enqueue_task k2 0 t).bind _ = _
      rw [he3]
      exact he'

/-- The kernel without the time of the last boost. -/
def kernel_t.unboosted (k : kernel_t) : kernel_t :=
  { k with task_manager := { k.task_manager with last_priority_boost_at_ticks := 0 } }

/-- The queues after a boost: all ready tasks are in the first, those of lower priority last. -/
def boosted (q : Nat → List Nat) (i : Nat) : List Nat :=
  if i = 0 then q 0 ++ q 1 ++ q 2 ++ q 3 else if i < 4 then [] else q i

theorem moved_all (q : Nat → List Nat) : moved (moved (moved q 1) 2) 3 = boosted q := by
  funext j
  unfold boosted
  by_cases hj : j < 4
  · interval_cases j <;> simp [moved]
  · rw [if_neg (by omega), if_neg hj]
    simp [moved, Function.update_of_ne (show j ≠ 0 by omega), Function.update_of_ne (show j ≠ 1 by omega),
      Function.update_of_ne (show j ≠ 2 by omega), Function.update_of_ne (show j ≠ 3 by omega)]

theorem boost_spec (h : Queues k q out) (hs : Sorted k q) :
    ∃ k', task_manager_boost_priority_of_all_tasks k = some k' ∧
      k'.unboosted.bare = k.unboosted.bare ∧ Queues k' (boosted q) out ∧ Sorted k' (boosted q) ∧
      SameLevels k k' out := by
  obtain ⟨k1, he1, hb1, h1, hs1, hl1⟩ :=
    boost_queue_spec (i := 1) (by decide) (by decide) h hs (h.length_lt 1)
  obtain ⟨k2, he2, hb2, h2, hs2, hl2⟩ :=
    boost_queue_spec (i := 2) (by decide) (by decide) h1 hs1 (h1.length_lt 2)
  obtain ⟨k3, he3, hb3, h3, hs3, hl3⟩ :=
    boost_queue_spec (i := 3) (by decide) (by decide) h2 hs2 (h2.length_lt 3)
  rw [moved_all] at h3 hs3
  refine ⟨{ k3 with task_manager := { k3.task_manager with
    last_priority_boost_at_ticks := k3.timer_ticks } }, ?_, ?_, ?_, hs3, ?_⟩
  · unfold task_manager_boost_priority_of_all_tasks
    have hrange : List.range' 1 (TASK_MANAGER_QUEUE_LEVELS - 1) = [1, 2, 3] := rfl
    rw [hrange]
    simp only [List.foldlM_cons, List.foldlM_nil, he1, he2, he3, Option.bind_eq_bind,
      Option.bind_some, Option.pure_def]
  · have hb : k3.bare = k.bare := hb3.trans (hb2.trans hb1)
    exact congrArg kernel_t.unboosted hb
  · exact h3.congr (fun _ => rfl) (fun _ => rfl) rfl (fun _ _ _ => rfl) rfl
  · exact (hl1.trans hl2).trans hl3

/-! ## What the scheduler leaves alone -/

/-- A task without the fields that only the scheduler uses. -/
def quiet (t : task_t) : task_t :=
  { t with
    next := 0
    task_queue_level := 0
    task_state := TASK_STATE_READY
    task_time_slice := 0
    yield := false }

/-- The kernel without the state of the scheduler. -/
def kernel_t.calm (k : kernel_t) : kernel_t :=
  { k with
    tasks := fun a => quiet (k.tasks a)
    task_manager := { k.task_manager with
      task_queues := fun _ => 0
      task_next := 0
      task_needs_switching := false
      last_priority_boost_at_ticks := 0 } }

theorem calm_of_bare (h : k'.bare = k.bare) : k'.calm = k.calm := by
  show k'.bare.calm = k.bare.calm
  rw [h]

theorem calm_setTask {a : Nat} {t : task_t} (h : quiet t = quiet (k.tasks a)) :
    (k.setTask a t).calm = k.calm := by
  have hf : (fun b => quiet (Function.update k.tasks a t b)) = fun b => quiet (k.tasks b) := by
    funext b
    by_cases hb : b = a
    · subst hb
      simpa using h
    · simp [hb]
  simp only [kernel_t.calm, kernel_t.setTask, hf]

theorem calm_setSlice (k : kernel_t) (a n : Nat) : (k.setSlice a n).calm = k.calm := by
  apply calm_setTask
  rfl

theorem calm_setYield (k : kernel_t) (a : Nat) (v : Bool) : (k.setYield a v).calm = k.calm := by
  apply calm_setTask
  rfl

theorem calm_task (h : k'.calm = k.calm) (a : Nat) : quiet (k'.tasks a) = quiet (k.tasks a) :=
  congrFun (congrArg (fun k => k.tasks) h) a

/-! ## Picking -/

/-- The level at which a task that used its slice goes on: one lower, down to the last. -/
def demoted (level : Nat) : Nat := min (level + 1) 3

theorem requeue_spec (h : Queues k q out) (hs : Sorted k q) {t : Nat} (ht : t ∈ out)
    (hl : t ∈ k.live) (hid : t ≠ k.idle) (hlevel : k.level t < 4) :
    ∃ k', task_manager_requeue_task k t true = some k' ∧
      k'.bare = (k.setState t TASK_STATE_READY).bare ∧
      Queues k' (Function.update q (demoted (k.level t)) (q (demoted (k.level t)) ++ [t]))
        (out.erase t) ∧
      Sorted k' (Function.update q (demoted (k.level t)) (q (demoted (k.level t)) ++ [t])) ∧
      k'.level t = demoted (k.level t) := by
  have hlt : demoted (k.level t) < 4 := by
    unfold demoted
    omega
  let k1 := k.setTask t { k.tasks t with
    task_queue_level := demoted (k.level t)
    task_state := TASK_STATE_READY }
  have h1 : Queues k1 q out := h.setTask ht _ (h.loose t ht)
  have hbare1 : k1.bare = (k.setState t TASK_STATE_READY).bare := by
    apply bare_ext (show k1.rest = (k.setState t TASK_STATE_READY).rest from rfl)
    intro a
    by_cases ha : a = t
    · subst ha
      simp [k1, kernel_t.setTask, kernel_t.setState, unlinked]
    · simp [k1, kernel_t.setTask, kernel_t.setState, ha]
  obtain ⟨k', he, hbare, hlv, -, hq'⟩ := enqueue_spec h1 (i := demoted (k.level t)) ht hl hid
  have hst : ∀ a, k'.state a = (k.setState t TASK_STATE_READY).state a := by
    intro a
    rw [bare_state hbare, bare_state hbare1]
  have hcode : (if (true : Bool) = true ∧ k.level t < TASK_MANAGER_QUEUE_LEVELS - 1 then k.level t + 1
      else k.level t) = demoted (k.level t) := by
    unfold demoted
    by_cases h3 : k.level t < 3
    · rw [if_pos ⟨rfl, h3⟩]
      omega
    · rw [if_neg fun hc => h3 hc.2]
      omega
  refine ⟨k', ?_, hbare.trans hbare1, hq', ?_, hlv⟩
  · unfold task_manager_requeue_task
    rw [if_neg hid]
    dsimp only
    rw [hcode]
    exact he
  · apply hs.append
    · intro j a ha
      rw [hst]
      apply state_setState_ne
      rintro rfl
      exact h.inside j a ha ht
    · rw [hst, state_setState]
      exact belongs_ready hlt

/-- The first task of the first queue that is not empty leaves it, and if there is none it is the
idle task's turn. -/
inductive Selects (q : Nat → List Nat) (idle : Nat) : Nat → (Nat → List Nat) → Prop
  | idle : (∀ i < 4, q i = []) → Selects q idle idle q
  | first {i new : Nat} {xs : List Nat} : i < 4 → (∀ j < i, q j = []) → q i = new :: xs →
      Selects q idle new (Function.update q i xs)

/-- What `task_manager_pick_task` gives: the idle task, or a ready task that leaves its queue. -/
structure Picked (k k' : kernel_t) (q q' : Nat → List Nat) (out : Finset Nat) (new : Nat) :
    Prop where
  selects : Selects q k.idle new q'
  queues : Queues k' q' (insert new out)
  sorted : Sorted k' q'
  live : k.idle ∈ k.live → new ∈ k.live
  ready : new ≠ k.idle → k.state new = TASK_STATE_READY ∧ k'.level new < 4
  levels : ∀ a, k'.level a = k.level a
  states : ∀ a, k'.state a = k.state a
  calm : k'.calm = k.calm
  needs : k'.task_manager.task_needs_switching = k.task_manager.task_needs_switching

theorem pick_from_spec (h : Queues k q out) (hs : Sorted k q) {n i : Nat} (hi : i + n = 4)
    (hempty : ∀ j < i, q j = []) :
    ∃ k' q' new, pick_from k n i = (k', new) ∧ Picked k k' q q' out new := by
  induction n generalizing i with
  | zero =>
    obtain rfl : i = 4 := hi
    refine ⟨_, q, k.idle, rfl, ⟨.idle hempty, ?_, ?_, id, fun hc => absurd rfl hc, ?_, ?_, ?_, rfl⟩⟩
    · rw [Finset.insert_eq_of_mem h.idle]
      exact h.setTask h.idle _ (h.loose _ h.idle)
    · apply hs.congr
      intro j a ha
      apply state_setTask_ne
      rintro rfl
      exact h.inside j _ ha h.idle
    · exact level_touch rfl
    · exact state_touch rfl
    · exact calm_setTask rfl
  | succ n ih =>
    unfold pick_from
    cases hq : q i with
    | nil =>
      have hz : ¬ k.queue i ≠ 0 := not_not.mpr ((h.empty_iff i).mpr hq)
      rw [if_neg hz]
      refine ih (by omega) fun j hj => ?_
      rcases Nat.lt_succ_iff_lt_or_eq.mp hj with hj | rfl
      · exact hempty j hj
      · exact hq
    | cons t xs =>
      have ht : t ∈ q i := by rw [hq]; simp
      have hne : k.queue i ≠ 0 := by
        rw [Ne, h.empty_iff, hq]
        simp
      have hi4 : i < 4 := by omega
      have hready : k.state t = TASK_STATE_READY := (hs i t ht).ready_of_lt hi4
      let k1 := (k.setQueue i (k.next t)).setNext t 0
      have hbare1 : k1.bare = k.bare := (bare_setNext _ _ _).trans (bare_setQueue _ _ _)
      have hst1 : ∀ a, k1.state a = k.state a := bare_state hbare1
      have hcond : k1.state t ≠ TASK_STATE_READY ∨ k1.state t ≠ TASK_STATE_RUNNING := by
        right
        rw [hst1, hready]
        decide
      let k2 := k1.setSlice t (task_manager_calculate_time_slice i)
      have hst2 : ∀ a, k2.state a = k.state a := by
        intro a
        rw [← hst1 a]
        exact (show ∀ b, k2.state b = k1.state b from state_touch rfl) a
      have hlevels2 : ∀ a, k2.level a = k.level a := by
        intro a
        rw [(show ∀ b, k2.level b = k1.level b from level_touch rfl) a]
        exact level_setNext _ _ _ _
      rw [if_pos hne, dequeue_spec h hq]
      refine ⟨k2, Function.update q i xs, t, if_pos hcond,
        ⟨.first hi4 hempty hq, ?_, ?_, ?_, ?_, hlevels2, hst2, ?_, rfl⟩⟩
      · have h1 := h.take_head hq
        exact h1.setTask (Finset.mem_insert_self _ _) _ (h1.loose t (Finset.mem_insert_self _ _))
      · have herase : (q i).erase t = xs := by rw [hq]; simp
        rw [← herase]
        exact hs.take h ht fun a _ => hst2 a
      · exact fun _ => h.live i t ht
      · intro _
        rw [hlevels2, h.level i t ht]
        exact ⟨hready, hi4⟩
      · exact (show k2.calm = k1.calm from calm_setTask rfl).trans (calm_of_bare hbare1)

theorem pick_spec (h : Queues k q out) (hs : Sorted k q) :
    ∃ k' q' new, task_manager_pick_task k = (k', new) ∧ Picked k k' q q' out new :=
  pick_from_spec h hs rfl nofun

/-! ## The schedule -/

/-- The task that has the processor when the interrupt ends. -/
def kernel_t.runs (k : kernel_t) : Nat :=
  if k.task_manager.task_needs_switching then k.task_manager.task_next else k.current

/-- The task `cur` has the processor, and every other task but the idle one is in the queue of its
state. While no task has the processor, `cur` is the idle task. -/
structure Settled (k : kernel_t) (q : Nat → List Nat) (cur : Nat) : Prop where
  queues : Queues k q {k.idle, cur}
  sorted : Sorted k q
  idle : k.idle ∈ k.live
  idle_runs : k.state k.idle = TASK_STATE_RUNNING
  live : cur ∈ k.live
  running : k.state cur = TASK_STATE_RUNNING
  level : cur ≠ k.idle → k.level cur < 4

/-- No task starts or ends to wait, or dies, and nothing but the state of the scheduler changes. -/
structure Rescheduled (k k' : kernel_t) : Prop where
  calm : k'.calm = k.calm
  blocked : ∀ a, k'.state a = TASK_STATE_BLOCKED ↔ k.state a = TASK_STATE_BLOCKED
  zombie : ∀ a, k'.state a = TASK_STATE_ZOMBIE ↔ k.state a = TASK_STATE_ZOMBIE

theorem Rescheduled.trans {k1 k2 k3 : kernel_t} (h : Rescheduled k1 k2) (h' : Rescheduled k2 k3) :
    Rescheduled k1 k3 :=
  ⟨h'.calm.trans h.calm, fun a => (h'.blocked a).trans (h.blocked a),
    fun a => (h'.zombie a).trans (h.zombie a)⟩

theorem Rescheduled.of_states (hc : k'.calm = k.calm) (hs : ∀ a, k'.state a = k.state a) :
    Rescheduled k k' := by
  refine ⟨hc, ?_, ?_⟩
  · intro a
    rw [hs]
  · intro a
    rw [hs]

/-- A task that is neither waiting nor dead changes its state to another such. -/
theorem Rescheduled.setState {a : Nat} {s : task_state_t}
    (h1 : k.state a ≠ TASK_STATE_BLOCKED) (h2 : k.state a ≠ TASK_STATE_ZOMBIE)
    (h3 : s ≠ TASK_STATE_BLOCKED) (h4 : s ≠ TASK_STATE_ZOMBIE) :
    Rescheduled k (k.setState a s) := by
  refine ⟨calm_setTask rfl, ?_, ?_⟩
  · intro b
    by_cases hb : b = a
    · subst hb
      rw [state_setState]
      exact iff_of_false h3 h1
    · rw [state_setState_ne k s hb]
  · intro b
    by_cases hb : b = a
    · subst hb
      rw [state_setState]
      exact iff_of_false h4 h2
    · rw [state_setState_ne k s hb]

theorem calm_idle (h : k'.calm = k.calm) : k'.idle = k.idle :=
  congrArg (fun k => k.task_manager.task_idle) h

theorem calm_live (h : k'.calm = k.calm) : k'.live = k.live := congrArg (fun k => k.live) h

theorem calm_current (h : k'.calm = k.calm) : k'.current = k.current :=
  congrArg (fun k => k.task_manager.task_current) h

/-- A change of fields that the queues do not depend on. -/
theorem Settled.touch {cur a : Nat} {t : task_t} (h : Settled k q cur) (hn : t.next = k.next a)
    (hl : t.task_queue_level = k.level a) (hs : t.task_state = k.state a) :
    Settled (k.setTask a t) q cur := by
  have hst := state_touch (k := k) hs
  refine ⟨h.queues.touch hn hl, h.sorted.congr fun _ b _ => hst b, h.idle, ?_, h.live, ?_, ?_⟩
  · exact (hst _).trans h.idle_runs
  · exact (hst _).trans h.running
  · intro hc
    rw [level_touch hl]
    exact h.level hc

/-- The running task is to go back to a queue: it neither waits nor is dead. -/
def Leaves (k : kernel_t) : Prop :=
  k.current ≠ k.idle ∧ k.state k.current = TASK_STATE_RUNNING

instance (k : kernel_t) : Decidable (Leaves k) := inferInstanceAs (Decidable (_ ∧ _))

/-- The queues when the running task has left the processor. -/
def requeued (k : kernel_t) (q : Nat → List Nat) : Nat → List Nat :=
  if Leaves k then
    Function.update q (demoted (k.level k.current))
      (q (demoted (k.level k.current)) ++ [k.current])
  else q

/-- The running task goes back to a queue, unless it waits or is dead. -/
theorem leave_processor_spec {cur : Nat} (h : Settled k q cur)
    (hcur : cur = k.current ∨ cur = k.idle ∧ k.state k.current ≠ TASK_STATE_RUNNING) :
    ∃ k', leave_processor k k.current = some k' ∧ Rescheduled k k' ∧
      Queues k' (requeued k q) {k.idle} ∧ Sorted k' (requeued k q) ∧
      k'.state k.idle = TASK_STATE_RUNNING ∧
      k'.task_manager.task_needs_switching = k.task_manager.task_needs_switching ∧
      (Leaves k → k'.level k.current = demoted (k.level k.current)) := by
  unfold leave_processor requeued
  by_cases hc : Leaves k
  · rw [if_pos (show _ ∧ _ from hc), if_pos hc]
    have hcc : cur = k.current := by
      rcases hcur with hcur | hcur
      · exact hcur
      · exact absurd hc.2 hcur.2
    have hl := h.live
    have hlevel := h.level
    have hq := h.queues
    rw [hcc] at hl hlevel hq
    obtain ⟨k', he, hb, hq', hs', hlv⟩ :=
      requeue_spec hq h.sorted (by simp) hl hc.1 (hlevel hc.1)
    refine ⟨k', he, ?_, ?_, hs', ?_, ?_, fun _ => hlv⟩
    · have hready : Rescheduled k (k.setState k.current TASK_STATE_READY) := by
        apply Rescheduled.setState <;> simp [hc.2]
      exact hready.trans (Rescheduled.of_states (calm_of_bare hb) (bare_state hb))
    · have herase : ({k.idle, k.current} : Finset Nat).erase k.current = {k.idle} := by
        rw [Finset.pair_comm, Finset.erase_insert]
        simpa using hc.1
      rwa [herase] at hq'
    · rw [bare_state hb, state_setState_ne k _ (Ne.symm hc.1)]
      exact h.idle_runs
    · exact congrArg (fun k => k.task_manager.task_needs_switching) hb
  · rw [if_neg (show ¬ (_ ∧ _) from hc), if_neg hc]
    refine ⟨k, rfl, Rescheduled.of_states rfl fun _ => rfl, ?_, h.sorted, h.idle_runs, rfl,
      fun hl => absurd hl hc⟩
    have hci : cur = k.idle := by
      rcases hcur with rfl | hcur
      · by_contra hne
        exact hc ⟨hne, h.running⟩
      · exact hcur.1
    have hq := h.queues
    rw [hci, Finset.pair_eq_singleton] at hq
    exact hq

theorem requeued_congr (hc : k'.current = k.current) (hi : k'.idle = k.idle)
    (hs : k'.state k.current = k.state k.current)
    (hl : Leaves k → k'.level k.current = k.level k.current) :
    (Leaves k' ↔ Leaves k) ∧ requeued k' q = requeued k q := by
  have hiff : Leaves k' ↔ Leaves k := by
    unfold Leaves
    rw [hc, hi, hs]
  refine ⟨hiff, ?_⟩
  unfold requeued
  by_cases h : Leaves k
  · rw [if_pos h, if_pos (hiff.mpr h), hc, hl h]
  · rw [if_neg h, if_neg fun h' => h (hiff.mp h')]

/-- What the scheduler decides when the running task leaves the processor: that task goes one level
down, and the first ready task comes, or the idle task. -/
structure Decides (k k' : kernel_t) (q q' : Nat → List Nat) (new : Nat) : Prop where
  selects : Selects (requeued k q) k.idle new q'
  runs : k'.runs = new
  level : Leaves k → k'.level k.current = demoted (k.level k.current)
  place : ∀ i, new ∈ requeued k q i → k'.level new = i

theorem Decides.congr {k1 : kernel_t} {q' : Nat → List Nat} {new : Nat} (h : Decides k1 k' q q' new)
    (hc : k1.current = k.current) (hi : k1.idle = k.idle)
    (hs : k1.state k.current = k.state k.current)
    (hl : Leaves k → k1.level k.current = k.level k.current) : Decides k k' q q' new := by
  obtain ⟨hiff, hq⟩ := requeued_congr (q := q) hc hi hs hl
  refine ⟨?_, h.runs, fun hleave => ?_, hq ▸ h.place⟩
  · have hsel := h.selects
    rwa [hq, hi] at hsel
  · have hlv := h.level (hiff.mpr hleave)
    rwa [hc, hl hleave] at hlv

theorem reschedule_spec {cur : Nat} (h : Settled k q cur)
    (hcur : cur = k.current ∨ cur = k.idle ∧ k.state k.current ≠ TASK_STATE_RUNNING)
    (hneeds : k.task_manager.task_needs_switching = false) :
    ∃ k' q' new, task_manager_reschedule k = some k' ∧ Rescheduled k k' ∧ Settled k' q' new ∧
      Decides k k' q q' new := by
  let k0 := k.setYield k.current false
  have hst0 : ∀ a, k0.state a = k.state a := state_touch rfl
  have hlv0 : ∀ a, k0.level a = k.level a := level_touch rfl
  have h0 : Settled k0 q cur := h.touch rfl rfl rfl
  have hr0 : Rescheduled k k0 := Rescheduled.of_states (calm_setYield _ _ _) hst0
  obtain ⟨hleaves, hrequeued⟩ : (Leaves k0 ↔ Leaves k) ∧ requeued k0 q = requeued k q :=
    requeued_congr rfl rfl (hst0 _) fun _ => hlv0 _
  obtain ⟨k1, he1, hr1, hq1, hs1, hidle1, hn1, hl1⟩ := leave_processor_spec h0 (by
    rcases hcur with hcur | ⟨hci, hcs⟩
    · exact Or.inl hcur
    · exact Or.inr ⟨hci, by rw [show k0.current = k.current from rfl, hst0]; exact hcs⟩)
  rw [hrequeued] at hq1 hs1
  have hid1 : k1.idle = k.idle := calm_idle (hr0.trans hr1).calm
  have hlive1 : k1.live = k.live := calm_live (hr0.trans hr1).calm
  have hidl1 : k1.idle ∈ k1.live := by
    rw [hid1, hlive1]
    exact h.idle
  obtain ⟨k2, q2, new, he2, hp⟩ := pick_spec hq1 hs1
  have hid2 : k2.idle = k1.idle := calm_idle hp.calm
  let k3 := k2.setState new TASK_STATE_RUNNING
  have hlevel3 : Leaves k → k3.level k.current = demoted (k.level k.current) := by
    intro hl
    rw [show k3.level k.current = k2.level k.current from level_setState _ _ _ _, hp.levels,
      ← hlv0 k.current]
    exact hl1 (hleaves.mpr hl)
  have hplace3 : ∀ i, new ∈ requeued k q i → k3.level new = i := by
    intro i hi
    rw [show k3.level new = k2.level new from level_setState _ _ _ _, hp.levels]
    exact hq1.level i new hi
  have hselects : Selects (requeued k q) k.idle new q2 := by
    have hsel := hp.selects
    rwa [hid1] at hsel
  have hnew : k2.state new ≠ TASK_STATE_BLOCKED ∧ k2.state new ≠ TASK_STATE_ZOMBIE := by
    rw [hp.states]
    by_cases hi : new = k1.idle
    · rw [hi, hid1]
      have : k1.state k.idle = TASK_STATE_RUNNING := hidle1
      simp [this]
    · simp [(hp.ready hi).1]
  have hr3 : Rescheduled k k3 := by
    apply (hr0.trans hr1).trans
    apply (Rescheduled.of_states hp.calm hp.states).trans
    exact Rescheduled.setState hnew.1 hnew.2 (by decide) (by decide)
  have hpair : insert new {k.idle} = ({k.idle, new} : Finset Nat) := Finset.pair_comm _ _
  have h3 : Settled k3 q2 new := by
    have hid3 : k3.idle = k.idle := calm_idle hr3.calm
    have hl3 : k3.live = k.live := calm_live hr3.calm
    have hmem : new ∈ insert new ({k.idle} : Finset Nat) := Finset.mem_insert_self _ _
    refine ⟨?_, ?_, ?_, ?_, ?_, state_setState _ _ _, ?_⟩
    · rw [hid3, ← hpair]
      exact hp.queues.setTask hmem _ (hp.queues.loose new hmem)
    · apply hp.sorted.congr
      intro j a ha
      apply state_setState_ne
      rintro rfl
      exact hp.queues.inside j a ha hmem
    · rw [hid3, hl3]
      exact h.idle
    · rw [hid3]
      by_cases hi : k.idle = new
      · rw [hi]
        exact state_setState _ _ _
      · rw [state_setState_ne _ _ hi, hp.states]
        exact hidle1
    · rw [hl3, ← hlive1]
      exact hp.live hidl1
    · intro hne
      rw [hid3, ← hid1] at hne
      rw [show k3.level new = k2.level new from level_setState k2 new _ new]
      exact (hp.ready hne).2
  have hcur3 : k3.current = k.current := calm_current hr3.calm
  have hn3 : k3.task_manager.task_needs_switching = false := by
    rw [show k3.task_manager = k2.task_manager from rfl, hp.needs, hn1]
    exact hneeds
  have he : task_manager_reschedule k = some (take_processor k1 k.current) := by
    show (leave_processor (k.setYield k.current false) k.current).map _ = _
    rw [show leave_processor (k.setYield k.current false) k.current = some k1 from he1]
    rfl
  unfold take_processor at he
  rw [he2] at he
  dsimp only at he
  by_cases hnc : new = k.current
  · rw [if_neg (not_not.mpr hnc)] at he
    let k4 := k3.setSlice new (task_manager_calculate_time_slice (k3.level new))
    have hst4 : ∀ a, k4.state a = k3.state a := state_touch rfl
    have hlv4 : ∀ a, k4.level a = k3.level a := level_touch rfl
    have h4 : Settled k4 q2 new := h3.touch rfl rfl rfl
    have hruns : k4.runs = new := by
      show (if k3.task_manager.task_needs_switching then _ else k3.current) = new
      rw [hn3, hcur3, hnc]
      rfl
    refine ⟨k4, q2, new, he, hr3.trans (Rescheduled.of_states (calm_setSlice _ _ _) hst4), h4,
      hselects, hruns, fun hl => ?_, fun i hi => ?_⟩
    · rw [hlv4]
      exact hlevel3 hl
    · rw [hlv4]
      exact hplace3 i hi
  · rw [if_pos hnc] at he
    refine ⟨_, q2, new, he, hr3.trans (Rescheduled.of_states rfl fun _ => rfl), ?_, hselects, rfl,
      hlevel3, hplace3⟩
    exact ⟨h3.queues.congr (fun _ => rfl) (fun _ => rfl) rfl (fun _ _ _ => rfl) rfl, h3.sorted,
      h3.idle, h3.idle_runs, h3.live, h3.running, h3.level⟩

/-! ## One tick of the scheduler -/

/-- `memory_paging_destroy_queued` changes only what is known of the directories. -/
theorem destroy_queued_eq (k : kernel_t) :
    ∃ frees directories, memory_paging_destroy_queued k =
      { k with frees := frees, directories := directories, page_directories_to_destroy := [] } := by
  have hfold : ∀ (ds : List Nat) (k : kernel_t), ∃ frees directories,
      ds.foldl (fun k d => free_directory k d k.live) k =
        { k with frees := frees, directories := directories } := by
    intro ds
    induction ds with
    | nil => exact fun k => ⟨k.frees, k.directories, rfl⟩
    | cons d ds ih =>
      intro k
      obtain ⟨frees, directories, he⟩ := ih (free_directory k d k.live)
      exact ⟨frees, directories, he⟩
  obtain ⟨frees, directories, he⟩ := hfold k.page_directories_to_destroy k
  refine ⟨frees, directories, ?_⟩
  unfold memory_paging_destroy_queued
  rw [he]

theorem destroy_queued_state (k : kernel_t) (a : Nat) :
    (memory_paging_destroy_queued k).state a = k.state a := by
  obtain ⟨frees, directories, he⟩ := destroy_queued_eq k
  rw [he]
  rfl

/-- Fields outside the tasks and the scheduler do not matter. -/
theorem Settled.congr {cur : Nat} (h : Settled k q cur) (ht : k'.tasks = k.tasks)
    (hl : k'.live = k.live) (hq : k'.queue = k.queue) (hi : k'.idle = k.idle) :
    Settled k' q cur := by
  have hstate : k'.state = k.state := by
    unfold kernel_t.state
    rw [ht]
  have hlevel : k'.level = k.level := by
    unfold kernel_t.level
    rw [ht]
  refine ⟨?_, ?_, ?_, ?_, ?_, ?_, ?_⟩
  · rw [hi]
    apply h.queues.congr
    · intro a
      show (k'.tasks a).next = (k.tasks a).next
      rw [ht]
    · exact congrFun hq
    · exact hl
    · intro i a _
      rw [hlevel]
    · exact hi
  · exact h.sorted.congr fun _ _ _ => by rw [hstate]
  · rw [hi, hl]
    exact h.idle
  · rw [hi, hstate]
    exact h.idle_runs
  · rw [hl]
    exact h.live
  · rw [hstate]
    exact h.running
  · rw [hi, hlevel]
    exact h.level

/-- The queues may change while the running task and the idle task stay. -/
theorem Settled.move {cur : Nat} {q' : Nat → List Nat} (h : Settled k q cur)
    (hi : k'.idle = k.idle) (hl : k'.live = k.live)
    (hst : ∀ a ∈ ({k.idle, cur} : Finset Nat), k'.state a = k.state a)
    (hq : Queues k' q' {k.idle, cur}) (hs : Sorted k' q') (hlv : SameLevels k k' {k.idle, cur}) :
    Settled k' q' cur := by
  refine ⟨?_, hs, ?_, ?_, ?_, ?_, ?_⟩
  · rw [hi]
    exact hq
  · rw [hi, hl]
    exact h.idle
  · rw [hi, hst _ (by simp)]
    exact h.idle_runs
  · rw [hl]
    exact h.live
  · rw [hst _ (by simp)]
    exact h.running
  · rw [hi, hlv cur (by simp)]
    exact h.level

/-- The queues after the boost, if it is due. -/
def boosted_if_due (k : kernel_t) (q : Nat → List Nat) : Nat → List Nat :=
  if boost_is_due k then boosted q else q

theorem boost_if_due_spec {cur : Nat} (h : Settled k q cur) :
    ∃ k', boost_if_due k = some k' ∧ Settled k' (boosted_if_due k q) cur ∧
      k'.unboosted.bare = k.unboosted.bare ∧ SameLevels k k' {k.idle, cur} := by
  unfold boost_if_due boosted_if_due
  by_cases hd : boost_is_due k = true
  · rw [if_pos hd, if_pos hd]
    obtain ⟨k', he, hb, hq, hs, hlv⟩ := boost_spec h.queues h.sorted
    have hst := bare_state hb
    have hi := bare_idle hb
    have hl := bare_live hb
    exact ⟨k', he, h.move hi hl (fun a _ => hst a) hq hs hlv, hb, hlv⟩
  · rw [if_neg hd, if_neg hd]
    exact ⟨k, rfl, h, rfl, fun _ _ => rfl⟩

/-- The task `cur` holds the processor while an interrupt is served. The first interrupt of all
stops no task; a task that waits or died gives the processor to the idle task, and yields. -/
def Holds (k : kernel_t) (cur : Nat) : Prop :=
  k.current = 0 ∧ k.runs = cur ∨
  k.current ≠ 0 ∧ k.task_manager.task_needs_switching = false ∧
    (cur = k.current ∨
      cur = k.idle ∧ k.state k.current ≠ TASK_STATE_RUNNING ∧ (k.tasks k.current).yield = true)

/-- The slice of the running task ends with this decrement, or the task has yielded. -/
def Reschedules (k : kernel_t) : Prop :=
  sub32 (k.tasks k.current).task_time_slice 1 = 0 ∨ (k.tasks k.current).yield = true

instance (k : kernel_t) : Decidable (Reschedules k) := inferInstanceAs (Decidable (_ ∨ _))

/-- The running task goes on, or the scheduler decides. -/
structure Used (k k' : kernel_t) (q q' : Nat → List Nat) : Prop where
  decides : Reschedules k → ∃ new, Decides k k' q q' new
  goes_on : ¬ Reschedules k → q' = q ∧ k'.runs = k.current

theorem use_time_slice_spec {cur : Nat} (h : Settled k q cur) (hcur : Holds k cur) :
    ∃ k' q', use_time_slice k = some k' ∧ Rescheduled k k' ∧ Settled k' q' k'.runs ∧
      (k.current = 0 → k' = k) ∧ (k.current ≠ 0 → Used k k' q q') := by
  unfold use_time_slice
  rcases hcur with ⟨hc, hruns⟩ | ⟨hc, hneeds, hcur⟩
  · rw [if_pos hc]
    refine ⟨k, q, rfl, Rescheduled.of_states rfl fun _ => rfl, ?_, fun _ => rfl, fun h0 => absurd hc h0⟩
    rw [hruns]
    exact h
  · rw [if_neg hc]
    let k1 := k.setSlice k.current (sub32 (k.tasks k.current).task_time_slice 1)
    have hst1 : ∀ a, k1.state a = k.state a := state_touch rfl
    have hlv1 : ∀ a, k1.level a = k.level a := level_touch rfl
    have h1 : Settled k1 q cur := h.touch rfl rfl rfl
    have hr1 : Rescheduled k k1 := Rescheduled.of_states (calm_setSlice _ _ _) hst1
    have hyield : (k1.tasks k1.current).yield = (k.tasks k.current).yield := by
      simp [k1, kernel_t.setSlice, kernel_t.setTask, kernel_t.current]
    have hslice : (k1.tasks k1.current).task_time_slice =
        sub32 (k.tasks k.current).task_time_slice 1 := by
      simp [k1, kernel_t.setSlice, kernel_t.setTask, kernel_t.current]
    show ∃ k' q', (if (k1.tasks k1.current).task_time_slice = 0 ∨ (k1.tasks k1.current).yield = true
      then task_manager_reschedule k1 else some k1) = some k' ∧ _ ∧ _ ∧ _ ∧ _
    rw [hyield, hslice]
    by_cases hgo : Reschedules k
    · rw [if_pos (show _ ∨ _ from hgo)]
      obtain ⟨k', q', new, he, hr, h', hd⟩ := reschedule_spec h1 (by
        rcases hcur with hcur | ⟨hci, hcs, -⟩
        · exact Or.inl hcur
        · exact Or.inr ⟨hci, by rw [show k1.current = k.current from rfl, hst1]; exact hcs⟩) hneeds
      have hd' : Decides k k' q q' new := hd.congr rfl rfl (hst1 _) fun _ => hlv1 _
      refine ⟨k', q', he, hr1.trans hr, ?_, fun h0 => absurd h0 hc,
        fun _ => ⟨fun _ => ⟨new, hd'⟩, fun hno => absurd hgo hno⟩⟩
      rw [hd.runs]
      exact h'
    · rw [if_neg (show ¬ (_ ∨ _) from hgo)]
      have hruns : k1.runs = k.current := by
        show (if k.task_manager.task_needs_switching then _ else k.current) = _
        rw [hneeds]
        rfl
      refine ⟨k1, q, rfl, hr1, ?_, fun h0 => absurd h0 hc,
        fun _ => ⟨fun h0 => absurd h0 hgo, fun _ => ⟨rfl, hruns⟩⟩⟩
      have hcc : cur = k.current := by
        rcases hcur with hcur | ⟨-, -, hy⟩
        · exact hcur
        · exact absurd (Or.inr hy) hgo
      rw [hruns, ← hcc]
      exact h1

theorem calm_of_unboosted (h : k'.unboosted.bare = k.unboosted.bare) : k'.calm = k.calm := by
  show k'.unboosted.bare.calm = k.unboosted.bare.calm
  rw [h]

theorem destroy_queued_calm (k : kernel_t) :
    (memory_paging_destroy_queued k).calm = memory_paging_destroy_queued k.calm := by
  have hfold : ∀ (ds : List Nat) (k : kernel_t),
      (ds.foldl (fun k d => free_directory k d k.live) k).calm =
        ds.foldl (fun k d => free_directory k d k.live) k.calm := by
    intro ds
    induction ds with
    | nil => exact fun _ => rfl
    | cons d ds ih => exact fun k => ih (free_directory k d k.live)
  have := hfold k.page_directories_to_destroy k
  show ({ (k.page_directories_to_destroy.foldl (fun k d => free_directory k d k.live) k).calm with
    page_directories_to_destroy := [] } : kernel_t) = _
  rw [this]
  rfl

theorem Used.congr {k1 : kernel_t} {q' : Nat → List Nat} (h : Used k1 k' q q')
    (hc : k1.current = k.current) (hi : k1.idle = k.idle)
    (hs : k1.state k.current = k.state k.current)
    (hl : Leaves k → k1.level k.current = k.level k.current)
    (hslice : (k1.tasks k.current).task_time_slice = (k.tasks k.current).task_time_slice)
    (hyield : (k1.tasks k.current).yield = (k.tasks k.current).yield) : Used k k' q q' := by
  have hiff : Reschedules k1 ↔ Reschedules k := by
    unfold Reschedules
    rw [hc, hslice, hyield]
  constructor
  · intro hr
    obtain ⟨new, hd⟩ := h.decides (hiff.mpr hr)
    exact ⟨new, hd.congr hc hi hs hl⟩
  · intro hr
    rw [← hc]
    exact h.goes_on fun hr1 => hr (hiff.mp hr1)

/-- A call of `task_manager_schedule`: the boost, then a decrement, and the choice of the task that is
to run. -/
theorem schedule_decides {cur : Nat} (h : Settled k q cur) (hcur : Holds k cur) :
    ∃ k' q', task_manager_schedule k = some k' ∧
      Rescheduled (memory_paging_destroy_queued k) k' ∧ Settled k' q' k'.runs ∧
      (k.current = 0 → k'.task_manager.task_needs_switching =
        k.task_manager.task_needs_switching) ∧
      (k.current ≠ 0 → Used k k' (boosted_if_due k q) q') := by
  obtain ⟨frees, directories, hd⟩ := destroy_queued_eq k
  let k1 := memory_paging_destroy_queued k
  have h1 : Settled k1 q cur := by
    apply h.congr <;> simp only [k1, hd] <;> rfl
  obtain ⟨k2, he2, h2, hb2, hlv2⟩ := boost_if_due_spec h1
  have hst2 : ∀ a, k2.state a = k1.state a := by
    have := bare_state hb2
    exact this
  have htask2 : unlinked (k2.tasks k.current) = unlinked (k1.tasks k.current) :=
    bare_task hb2 k.current
  have hm2 : ∀ {α : Type} (f : kernel_t → α), f k2.unboosted.bare = f k1.unboosted.bare :=
    fun f => congrArg f hb2
  have hc1 : k1.current = k.current := by
    simp only [k1, hd]
    rfl
  have hi1 : k1.idle = k.idle := by
    simp only [k1, hd]
    rfl
  have ht1 : k1.tasks = k.tasks := by
    simp only [k1, hd]
  have hdue : boosted_if_due k1 q = boosted_if_due k q := by
    simp only [k1, hd]
    rfl
  have hc2 : k2.current = k.current := (hm2 fun k => k.current).trans hc1
  have hst : k2.state k.current = k.state k.current :=
    (hst2 _).trans (congrArg (fun tasks => (tasks k.current).task_state) ht1)
  have hyield2 : (k2.tasks k.current).yield = (k.tasks k.current).yield :=
    (congrArg (fun t => t.yield) htask2).trans (congrArg (fun tasks => (tasks k.current).yield) ht1)
  have hslice2 : (k2.tasks k.current).task_time_slice = (k.tasks k.current).task_time_slice :=
    (congrArg (fun t => t.task_time_slice) htask2).trans
      (congrArg (fun tasks => (tasks k.current).task_time_slice) ht1)
  have hcur2 : Holds k2 cur := by
    have hk : Holds k1 cur := by
      simp only [k1, hd]
      exact hcur
    have hn : k2.task_manager.task_needs_switching = k1.task_manager.task_needs_switching :=
      hm2 fun k => k.task_manager.task_needs_switching
    rcases hk with ⟨hk, hr⟩ | ⟨hk, hkn, hk'⟩
    · exact Or.inl ⟨hc2.trans (hc1.symm.trans hk), (hm2 fun k => k.runs).trans hr⟩
    · refine Or.inr ⟨?_, hn.trans hkn, ?_⟩
      · rw [hc2, ← hc1]
        exact hk
      · rw [hc2, hst2, hyield2, show k2.idle = k1.idle from hm2 fun k => k.idle]
        rw [hc1] at hk'
        rcases hk' with hk' | ⟨hi, hs, hy⟩
        · exact Or.inl hk'
        · exact Or.inr ⟨hi, hs, (congrArg (fun tasks => (tasks k.current).yield) ht1).symm.trans hy⟩
  obtain ⟨k', q', he, hr, h', h0, hused⟩ := use_time_slice_spec h2 hcur2
  refine ⟨k', q', ?_, ?_, h', ?_, ?_⟩
  · show (boost_if_due k1).bind use_time_slice = _
    rw [he2]
    exact he
  · exact (Rescheduled.of_states (calm_of_unboosted hb2) hst2).trans hr
  · intro hc
    rw [h0 (hc2.trans hc)]
    refine (hm2 fun k => k.task_manager.task_needs_switching).trans ?_
    simp only [k1, hd]
    rfl
  · intro hc
    have hu := hused (hc2.trans_ne hc)
    rw [hdue] at hu
    refine hu.congr hc2 ((hm2 fun k => k.idle).trans hi1) hst (fun hl => ?_) hslice2 hyield2
    -- A task that goes back to a queue is the one that holds the processor.
    have hcc : k.current = cur := by
      rcases hcur with ⟨hz, -⟩ | ⟨-, -, hcur | ⟨-, hs, -⟩⟩
      · exact absurd hz hc
      · exact hcur.symm
      · exact absurd hl.2 hs
    rw [hcc, hlv2 cur (by simp)]
    exact congrArg (fun tasks => (tasks cur).task_queue_level) ht1

theorem schedule_spec {cur : Nat} (h : Settled k q cur) (hcur : Holds k cur) :
    ∃ k' q', task_manager_schedule k = some k' ∧
      Rescheduled (memory_paging_destroy_queued k) k' ∧ Settled k' q' k'.runs ∧
      (k.current = 0 → k'.task_manager.task_needs_switching =
        k.task_manager.task_needs_switching) := by
  obtain ⟨k', q', he, hr, hs, h0, -⟩ := schedule_decides h hcur
  exact ⟨k', q', he, hr, hs, h0⟩

/-- A task that yields calls the scheduler with the queues in order. -/
theorem Settled.yields {cur : Nat} (h : Settled k q cur) (hc : k.current ≠ 0)
    (hneeds : k.task_manager.task_needs_switching = false)
    (hcur : cur = k.current ∨ cur = k.idle ∧ k.state k.current ≠ TASK_STATE_RUNNING) :
    Settled (k.setYield k.current true) q cur ∧ Holds (k.setYield k.current true) cur := by
  let k1 := k.setYield k.current true
  have hst1 : ∀ a, k1.state a = k.state a := state_touch rfl
  refine ⟨h.touch rfl rfl rfl, Or.inr ⟨hc, hneeds, ?_⟩⟩
  rcases hcur with hcur | ⟨hci, hcs⟩
  · exact Or.inl hcur
  · refine Or.inr ⟨hci, ?_, ?_⟩
    · rw [show k1.current = k.current from rfl, hst1]
      exact hcs
    · simp [kernel_t.setYield, kernel_t.setTask, kernel_t.current]

theorem yield_spec {cur : Nat} (h : Settled k q cur) (hc : k.current ≠ 0)
    (hneeds : k.task_manager.task_needs_switching = false)
    (hcur : cur = k.current ∨ cur = k.idle ∧ k.state k.current ≠ TASK_STATE_RUNNING) :
    ∃ k' q', task_manager_yield_current k = some k' ∧
      Rescheduled (memory_paging_destroy_queued k) k' ∧ Settled k' q' k'.runs := by
  let k1 := k.setYield k.current true
  have hst1 : ∀ a, k1.state a = k.state a := state_touch rfl
  obtain ⟨h1, hcur1⟩ := h.yields hc hneeds hcur
  obtain ⟨k', q', he, hr, h', -⟩ := schedule_spec h1 hcur1
  refine ⟨k', q', ?_, ?_, h'⟩
  · unfold task_manager_yield_current
    rw [if_neg hc]
    exact he
  · refine Rescheduled.trans (Rescheduled.of_states ?_ ?_) hr
    · rw [destroy_queued_calm, destroy_queued_calm, calm_setYield]
    · intro a
      rw [destroy_queued_state, destroy_queued_state]
      exact hst1 a

end alura_os.kernel
