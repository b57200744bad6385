-- What an interrupt does: it ends, the queues are in order again, and what
-- happened to the processes is one of the things that can happen to them.
import AluraOs.ProcessTree

namespace alura_os.kernel

open alura_os.memory alura_os.task_manager alura_os.resource chains
open task_state_t task_wait_reason_t task_manager_result_t resource_result_t resource_type_t

variable {k k' : kernel_t} {q : Nat → List Nat} {order : List Nat} {ns : Nat → List Nat}
  {rules : Rules} {cur : Nat}

/-! ## Queues and states -/

theorem Settled.ne_zero (h : Settled k q cur) : cur ≠ 0 := Spread.ne_zero h.queues.spread h.live

/-- A live task is the idle one, or has the processor, or is in the queue of its level. -/
theorem Settled.cases (h : Settled k q cur) {a : Nat} (ha : a ∈ k.live) :
    a = k.idle ∨ a = cur ∨
      (a ≠ k.idle ∧ a ≠ cur ∧ a ∈ q (k.level a) ∧ Belongs (k.state a) (k.level a)) := by
  by_cases h1 : a = k.idle
  · exact Or.inl h1
  · by_cases h2 : a = cur
    · exact Or.inr (Or.inl h2)
    · exact Or.inr (Or.inr ⟨h1, h2, h.queues.mem_of_state h.sorted ha (by simp [h1, h2])⟩)

theorem Settled.running_iff (h : Settled k q cur) {a : Nat} (ha : a ∈ k.live) :
    k.state a = TASK_STATE_RUNNING ↔ a = k.idle ∨ a = cur := by
  constructor
  · intro hs
    rcases h.cases ha with h1 | h1 | ⟨-, -, -, hb⟩
    · exact Or.inl h1
    · exact Or.inr h1
    · rw [hs] at hb
      exact absurd hb Belongs.not_running
  · rintro (rfl | rfl)
    · exact h.idle_runs
    · exact h.running

/-- A task that does not run is in the queue of its state. -/
theorem Settled.queued (h : Settled k q cur) {a : Nat} (ha : a ∈ k.live)
    (hs : k.state a ≠ TASK_STATE_RUNNING) :
    a ∉ ({k.idle, cur} : Finset Nat) ∧ a ∈ q (k.level a) ∧ Belongs (k.state a) (k.level a) := by
  rcases h.cases ha with rfl | rfl | ⟨h1, h2, h3⟩
  · exact absurd h.idle_runs hs
  · exact absurd h.running hs
  · exact ⟨by simp [h1, h2], h3⟩

/-- The fifth queue holds the tasks that wait. -/
theorem Settled.blocked_iff (h : Settled k q cur) {a : Nat} :
    a ∈ q 4 ↔ a ∈ k.live ∧ k.state a = TASK_STATE_BLOCKED := by
  constructor
  · intro ha
    refine ⟨h.queues.live 4 a ha, ?_⟩
    rcases h.sorted 4 a ha with ⟨-, hi⟩ | ⟨hs, -⟩ | ⟨-, hi⟩
    · exact absurd hi (by decide)
    · exact hs
    · exact absurd hi (by decide)
  · rintro ⟨ha, hs⟩
    obtain ⟨-, hm, hb⟩ := h.queued ha (by rw [hs]; decide)
    rw [hs] at hb
    rwa [show k.level a = 4 from hb.blocked] at hm

/-! ## The keyboard and the timer -/

theorem Settled.wakeAll_eq (h : Settled k q cur) (r : task_wait_reason_t) (o : Nat) :
    wakeAll k r o (q 4) = awakened k r o := by
  unfold wakeAll awakened
  simp only [h.blocked_iff, and_assoc]

theorem bare_runs (h : k'.bare = k.bare) : k'.runs = k.runs := congrArg (fun k => k.runs) h

/-- The interrupt of a key wakes every task that waits for the keyboard. -/
theorem keyboard_spec (h : Settled k q cur) (scancode : Nat) :
    ∃ k' q', keyboard_irq_handler k scancode = some k' ∧
      k'.bare = (awakened (buffered k scancode) TASK_WAIT_REASON_IO k.keyboard_address).bare ∧
      Settled k' q' cur := by
  have h1 : Settled (buffered k scancode) q cur := h.congr rfl rfl rfl rfl
  obtain ⟨k', q', he, hb, hq, hs, hl⟩ :=
    wake_spec h1.queues h1.sorted TASK_WAIT_REASON_IO k.keyboard_address
  rw [h1.wakeAll_eq] at hb
  have hi := bare_idle hb
  have hlive := bare_live hb
  refine ⟨k', q', he, hb, h1.move hi hlive ?_ hq hs hl⟩
  intro a ha
  rw [bare_state hb]
  have hrun : (buffered k scancode).state a = TASK_STATE_RUNNING := by
    rcases Finset.mem_insert.mp ha with rfl | ha
    · exact h1.idle_runs
    · rw [Finset.mem_singleton.mp ha]
      exact h1.running
  show ((awakened (buffered k scancode) TASK_WAIT_REASON_IO k.keyboard_address).tasks a).task_state = _
  rw [awakened_neg]
  · rfl
  · rintro ⟨-, hb, -⟩
    rw [hrun] at hb
    cases hb

/-! ## Calls -/

/-- A task calls the kernel. -/
structure Calling (k : kernel_t) (q : Nat → List Nat) (order : List Nat) (ns : Nat → List Nat) :
    Prop where
  settled : Settled k q k.current
  tree : Tree k order ns
  user : k.current ≠ k.idle
  needs : k.task_manager.task_needs_switching = false

/-- The task that is in the kernel keeps its stack. -/
structure Inside (k k' : kernel_t) : Prop where
  esp0 : k'.esp0 = k.esp0
  user : (k'.tasks k.current).task_is_user = (k.tasks k.current).task_is_user

theorem Inside.refl (k : kernel_t) : Inside k k := ⟨rfl, rfl⟩

theorem Inside.trans {k1 k2 k3 : kernel_t} (h : Inside k1 k2) (hc : k2.current = k1.current)
    (h' : Inside k2 k3) : Inside k1 k3 :=
  ⟨h'.esp0.trans h.esp0, by rw [← hc, h'.user, hc, h.user]⟩

theorem Inside.of_view (h : k'.view = k.view) : Inside k k' := by
  refine ⟨congrArg (fun k => k.esp0) h, ?_⟩
  exact congrArg (fun t => t.task_is_user) (view_task h k.current)

theorem Inside.of_setTask {a : Nat} {t : task_t} (h : t.task_is_user = (k.tasks a).task_is_user) :
    Inside k (k.setTask a t) := by
  refine ⟨rfl, ?_⟩
  by_cases ha : k.current = a
  · subst ha
    simpa [kernel_t.setTask] using h
  · simp [kernel_t.setTask, ha]

theorem Inside.of_slots {s : Store} {t : Nat} (h : OnlySlots t k.toStore s) :
    Inside k { k with toStore := s } := by
  refine ⟨rfl, ?_⟩
  obtain ⟨slots, he⟩ := h.task k.current
  exact congrArg (fun t => t.task_is_user) he

/-- What a handler leaves. -/
structure Served (rules : Rules) (k k' : kernel_t) : Prop where
  acts : Acts rules k k'
  settled : ∃ q', Settled k' q' k'.runs
  current : k'.current = k.current
  inside : Inside k k'

/-- What a syscall leaves: it tries again, or its task is free for another call. -/
structure Called (rules : Rules) (k k' : kernel_t) (eax : Nat) : Prop extends Served rules k k' where
  done : ((caller k).syscall_retry = true → Pending k k.current) →
    eax ≠ word (-SYSCALL_RESULT_BUSY) → (k'.tasks k.current).syscall_retry = false

theorem Calling.live (h : Calling k q order ns) : k.current ∈ k.live := h.settled.live

theorem Calling.running (h : Calling k q order ns) : k.state k.current = TASK_STATE_RUNNING :=
  h.settled.running

theorem Calling.ne_zero (h : Calling k q order ns) : k.current ≠ 0 := h.settled.ne_zero

/-- The caller goes on. -/
theorem Served.stays {q' : Nat → List Nat} (ha : Acts rules k k') (hc : k'.current = k.current)
    (hn : k'.task_manager.task_needs_switching = false) (hs : Settled k' q' k.current)
    (hi : Inside k k') : Served rules k k' := by
  refine ⟨ha, ⟨q', ?_⟩, hc, hi⟩
  have hruns : k'.runs = k.current := by
    unfold kernel_t.runs
    rw [hn, hc]
    rfl
  rw [hruns]
  exact hs

/-- What is written to the caller outside the queues and the tree. -/
theorem Calling.touch (h : Calling k q order ns) {a : Nat} {t : task_t} (hn : t.next = k.next a)
    (hl : t.task_queue_level = k.level a) (hs : t.task_state = k.state a)
    (hu : t.task_is_user = (k.tasks a).task_is_user) (ha : Acts rules k (k.setTask a t)) :
    Served rules k (k.setTask a t) :=
  Served.stays ha rfl h.needs (h.settled.touch hn hl hs) (Inside.of_setTask hu)

theorem Acts.single (h : Act rules k k') : Acts rules k k' := Relation.ReflTransGen.single h

theorem Acts.same (h : k'.view = k.view) : Acts rules k k' := Acts.single (Act.same h)

theorem Acts.refl (k : kernel_t) : Acts rules k k := Relation.ReflTransGen.refl

theorem Acts.trans {k1 k2 k3 : kernel_t} (h : Acts rules k1 k2) (h' : Acts rules k2 k3) :
    Acts rules k1 k3 := Relation.ReflTransGen.trans h h'

theorem Acts.tail {k1 k2 k3 : kernel_t} (h : Acts rules k1 k2) (h' : Act rules k2 k3) :
    Acts rules k1 k3 := Relation.ReflTransGen.tail h h'

theorem view_retry (h : k'.view = k.view) (a : Nat) :
    (k'.tasks a).syscall_retry = (k.tasks a).syscall_retry :=
  congrArg (fun t => t.syscall_retry) (view_task h a)

theorem view_current (h : k'.view = k.view) : k'.current = k.current :=
  congrArg (fun k => k.current) h

/-! ## Waiting -/

/-- The rest of a call after the caller was put in a queue: another task is picked. -/
theorem yields_spec (rules : Rules) {k1 : kernel_t} (h : Settled k1 q k1.idle) (hc : k1.current ≠ 0)
    (hn : k1.task_manager.task_needs_switching = false)
    (hs : k1.state k1.current ≠ TASK_STATE_RUNNING) :
    ∃ k', task_manager_yield_current k1 = some k' ∧ Served rules k1 k' ∧
      k'.view = (memory_paging_destroy_queued k1).view := by
  obtain ⟨k', q', he, hr, hs'⟩ := yield_spec h hc hn (Or.inr ⟨rfl, hs⟩)
  have hv := view_of_rescheduled hr
  obtain ⟨frees, directories, hd⟩ := destroy_queued_eq k1
  refine ⟨k', he, ⟨?_, ⟨q', hs'⟩, ?_, ?_⟩, hv⟩
  · exact (Acts.single (Act.freed k1)).trans (Acts.same hv)
  · rw [view_current hv, hd]
    rfl
  · have hi := Inside.of_view hv
    rw [hd] at hi
    exact ⟨hi.esp0, hi.user⟩

/-- The caller has left for a queue, and the processor is the idle task's. -/
theorem Calling.idles {k1 : kernel_t} {q1 : Nat → List Nat} (h : Calling k q order ns)
    (hi : k1.idle = k.idle) (hl : k1.live = k.live) (hq : Queues k1 q1 {k.idle}) (hs : Sorted k1 q1)
    (hst : k1.state k.idle = k.state k.idle) : Settled k1 q1 k1.idle := by
  have hrun : k1.state k1.idle = TASK_STATE_RUNNING := by
    rw [hi, hst]
    exact h.settled.idle_runs
  have hlive : k1.idle ∈ k1.live := by
    rw [hi, hl]
    exact h.settled.idle
  refine ⟨?_, hs, hlive, hrun, hlive, hrun, fun hc => absurd rfl hc⟩
  rw [hi, Finset.pair_eq_singleton]
  exact hq

theorem Calling.erase_self (h : Calling k q order ns) :
    ({k.idle, k.current} : Finset Nat).erase k.current = {k.idle} := by
  rw [Finset.pair_comm, Finset.erase_insert]
  simpa using h.user

/-- The caller is put to sleep. -/
theorem asleep_spec (h : Calling k q order ns) (r : task_wait_reason_t) (o : Nat) :
    ∃ k1 q1, task_manager_block_task k k.current r o = some k1 ∧ Settled k1 q1 k1.idle ∧
      k1.bare = (waiting k k.current r o).bare := by
  have hb : k.state k.current ≠ TASK_STATE_BLOCKED := by
    rw [h.running]
    decide
  obtain ⟨k1, he1, hb1, hq1, hs1, -⟩ :=
    block_spec h.settled.queues h.settled.sorted (by simp) h.live h.user hb r o
  rw [h.erase_self] at hq1
  have hidle1 := bare_idle hb1
  have hlive1 := bare_live hb1
  refine ⟨k1, _, he1, h.idles hidle1 hlive1 hq1 hs1 ?_, hb1⟩
  rw [bare_state hb1]
  exact state_setTask_ne k _ h.user.symm

/-- A caller that has to wait. -/
theorem sleeps_spec (h : Calling k q order ns) {r : task_wait_reason_t} {o : Nat}
    (hact : Act rules k (waiting k k.current r o)) :
    ∃ k1 k2, task_manager_block_task k k.current r o = some k1 ∧
      task_manager_yield_current k1 = some k2 ∧ Served rules k k2 ∧
      k2.view = (memory_paging_destroy_queued k1).view ∧
      k1.view = (waiting k k.current r o).view := by
  obtain ⟨k1, q1, he1, hs, hb1⟩ := asleep_spec h r o
  have hst1 := bare_state hb1
  have hcur1 := bare_current hb1
  have hcur : k1.current = k.current := hcur1
  obtain ⟨k2, he2, hserved, hv2⟩ := yields_spec rules hs (by rw [hcur]; exact h.ne_zero)
    ((congrArg (fun k => k.task_manager.task_needs_switching) hb1).trans h.needs)
    (by
      rw [hcur, hst1]
      simp [waiting, kernel_t.state, kernel_t.setTask])
  have hv1 := view_of_bare hb1
  have hi : Inside k (waiting k k.current r o) := Inside.of_setTask rfl
  refine ⟨k1, k2, he1, he2, ⟨?_, hserved.settled, hserved.current.trans hcur, ?_⟩, hv2, hv1⟩
  · exact ((Acts.single hact).trans (Acts.same hv1)).trans hserved.acts
  · exact (hi.trans rfl (Inside.of_view hv1)).trans hcur hserved.inside

/-! ## Exit -/

theorem waits_for_congr (h : k'.view = k.view) (parent a : Nat) :
    waits_for k' parent a = waits_for k parent a := by
  have hp := view_task h parent
  have ha := view_task h a
  have hs := view_blocked h parent
  have h1 : (k'.tasks parent).wait_reason = (k.tasks parent).wait_reason :=
    congrArg (fun t => t.wait_reason) hp
  have h2 : (k'.tasks parent).wait_object = (k.tasks parent).wait_object :=
    congrArg (fun t => t.wait_object) hp
  have h3 : (k'.tasks a).task_id = (k.tasks a).task_id := congrArg (fun t => t.task_id) ha
  unfold waits_for
  rw [h1, h2, h3]
  simp only [hs]

/-- The task leaves its queue, if it is in one. -/
theorem leave_queue_spec (h : Settled k q cur) {a : Nat} (ha : a ∈ k.live) (hid : a ≠ k.idle)
    (hz : k.state a ≠ TASK_STATE_ZOMBIE) :
    ∃ k' q', leave_queue k a = some k' ∧ k'.bare = k.bare ∧
      Queues k' q' (insert a {k.idle, cur}) ∧ Sorted k' q' ∧ ∀ b, k'.level b = k.level b := by
  unfold leave_queue
  rcases h.cases ha with rfl | rfl | ⟨-, hne, hm, hb⟩
  · exact absurd rfl hid
  · rw [if_neg (by rw [h.running]; decide), if_neg (by rw [h.running]; decide)]
    refine ⟨k, q, rfl, rfl, ?_, h.sorted, fun _ => rfl⟩
    rw [Finset.insert_eq_of_mem (by simp)]
    exact h.queues
  · have hremove : ∃ k', (task_manager_remove_task_from_queue k (k.level a) a).map Prod.fst = some k' ∧
        k'.bare = k.bare ∧
        Queues k' (Function.update q (k.level a) ((q (k.level a)).erase a)) (insert a {k.idle, cur}) ∧
        Sorted k' (Function.update q (k.level a) ((q (k.level a)).erase a)) ∧
        ∀ b, k'.level b = k.level b := by
      obtain ⟨k', he, hbare, hlv, hq⟩ := remove_spec h.queues hm
      refine ⟨k', by rw [he]; rfl, hbare, hq, ?_, hlv⟩
      exact h.sorted.take h.queues hm fun b _ => bare_state hbare b
    by_cases hr : k.state a = TASK_STATE_READY
    · rw [if_pos hr]
      obtain ⟨k', hk'⟩ := hremove
      exact ⟨k', _, hk'⟩
    · have hblk : k.state a = TASK_STATE_BLOCKED := by
        rcases hb with ⟨hs, -⟩ | ⟨hs, -⟩ | ⟨hs, -⟩
        · exact absurd hs hr
        · exact hs
        · exact absurd hs hz
      rw [hblk] at hb
      rw [if_neg hr, if_pos hblk, ← show k.level a = TASK_MANAGER_QUEUE_INDEX_BLOCKED from hb.blocked]
      obtain ⟨k', hk'⟩ := hremove
      exact ⟨k', _, hk'⟩

/-- The parent of a dead task goes on, if it waits for that. -/
def roused (k : kernel_t) (a : Nat) : kernel_t :=
  if (k.tasks a).parent ≠ 0 ∧ waits_for k (k.tasks a).parent a then
    k.setState (k.tasks a).parent TASK_STATE_READY else k

/-- Only a task that waits is touched. -/
theorem roused_state {a b : Nat} (hb : k.state b ≠ TASK_STATE_BLOCKED) :
    (roused k a).state b = k.state b := by
  unfold roused
  split
  · rename_i hc
    apply state_setState_ne
    rintro rfl
    have hw := hc.2
    simp only [waits_for, decide_eq_true_eq] at hw
    exact hb hw.1
  · rfl

theorem roused_rest (k : kernel_t) (a : Nat) :
    (roused k a).live = k.live ∧ (roused k a).task_manager = k.task_manager := by
  unfold roused
  split <;> exact ⟨rfl, rfl⟩

/-- The parent goes on, if it waits for the task. -/
theorem wake_parent_spec {out : Finset Nat} (h : Queues k q out) (hs : Sorted k q) {a : Nat}
    (hp : (k.tasks a).parent ≠ 0 → (k.tasks a).parent ∈ k.live)
    (hout : ∀ b ∈ out, k.state b ≠ TASK_STATE_BLOCKED) :
    ∃ k' q', wake_parent k a = some k' ∧ k'.bare = (roused k a).bare ∧ Queues k' q' out ∧
      Sorted k' q' ∧ SameLevels k k' out := by
  unfold wake_parent roused
  dsimp only
  split
  · rename_i hc
    have hblk : k.state (k.tasks a).parent = TASK_STATE_BLOCKED := by
      have := hc.2
      simp only [waits_for, decide_eq_true_eq] at this
      exact this.1
    obtain ⟨k', he, hb, hq, hs', hl⟩ := unblock_spec h hs (hp hc.1) (fun hm => hout _ hm hblk) hblk
    exact ⟨k', _, he, hb, hq, hs', hl⟩
  · exact ⟨k, q, rfl, rfl, h, hs, fun _ _ => rfl⟩

theorem reparent_none (blocks : List (Nat × Nat)) (k : kernel_t) :
    reparent_children ADDRESSES blocks k 0 = some (k, true) := by
  rw [show ADDRESSES = 0xFFFFFFFF + 1 from rfl]
  unfold reparent_children
  exact if_pos rfl

/-- A task is dead, and has this code. -/
def condemned (k : kernel_t) (a : Nat) (return_code : Int) : kernel_t :=
  k.setTask a { k.tasks a with
    task_state := TASK_STATE_ZOMBIE
    return_code := return_code }

/-- The children of `a` have another parent. -/
structure Reparented (k k' : kernel_t) (a : Nat) : Prop where
  tasks : ∀ b, ∃ parent children,
    k'.tasks b = { k.tasks b with parent := parent, children := children }
  parent : (k'.tasks a).parent = (k.tasks a).parent
  live : k'.live = k.live
  manager : k'.task_manager = k.task_manager

theorem Reparented.refl (k : kernel_t) (a : Nat) : Reparented k k a :=
  ⟨fun _ => ⟨_, _, rfl⟩, rfl, rfl, rfl⟩

theorem Reparented.trans {k1 k2 k3 : kernel_t} {a : Nat} (h : Reparented k1 k2 a)
    (h' : Reparented k2 k3 a) : Reparented k1 k3 a := by
  refine ⟨?_, h'.parent.trans h.parent, h'.live.trans h.live, h'.manager.trans h.manager⟩
  intro b
  obtain ⟨p, c, hb⟩ := h.tasks b
  obtain ⟨p', c', hb'⟩ := h'.tasks b
  exact ⟨p', c', by rw [hb', hb]⟩

theorem Reparented.setChildren (k : kernel_t) (b v a : Nat) : Reparented k (k.setChildren b v) a := by
  have htask : ∀ x, ∃ children, (k.setChildren b v).tasks x = { k.tasks x with children := children } := by
    intro x
    by_cases hx : x = b
    · subst hx
      exact ⟨v, by simp [kernel_t.setChildren, kernel_t.setTask]⟩
    · exact ⟨(k.tasks x).children, by simp [kernel_t.setChildren, kernel_t.setTask, hx]⟩
  refine ⟨?_, ?_, rfl, rfl⟩
  · intro x
    obtain ⟨c, hc⟩ := htask x
    exact ⟨_, c, hc⟩
  · obtain ⟨c, hc⟩ := htask a
    rw [hc]

theorem Reparented.state {a : Nat} (h : Reparented k k' a) (b : Nat) : k'.state b = k.state b := by
  obtain ⟨p, c, hb⟩ := h.tasks b
  unfold kernel_t.state
  rw [hb]

theorem Reparented.level {a : Nat} (h : Reparented k k' a) (b : Nat) : k'.level b = k.level b := by
  obtain ⟨p, c, hb⟩ := h.tasks b
  unfold kernel_t.level
  rw [hb]

theorem Reparented.queues {a : Nat} {out : Finset Nat} (h : Reparented k k' a) (hq : Queues k q out) :
    Queues k' q out := by
  apply hq.congr
  · intro b
    obtain ⟨p, c, hb⟩ := h.tasks b
    unfold kernel_t.next
    rw [hb]
  · intro i
    unfold kernel_t.queue
    rw [h.manager]
  · exact h.live
  · exact fun _ b _ => h.level b
  · unfold kernel_t.idle
    rw [h.manager]

/-- A task ends, and its children go to another parent without a failure of the heap. -/
theorem exit_general (h : Settled k q cur) {a : Nat} (ha : a ∈ k.live) (hid : a ≠ k.idle)
    (hz : k.state a ≠ TASK_STATE_ZOMBIE)
    (hp : (k.tasks a).parent ≠ 0 → (k.tasks a).parent ∈ k.live) (return_code : Int)
    (blocks : List (Nat × Nat)) {f : kernel_t → kernel_t}
    (hre : ∀ k1, leave_queue k a = some k1 → k1.bare = k.bare →
      reparent_children ADDRESSES blocks (condemned k1 a return_code) (k1.tasks a).children =
        some (f k1, true) ∧ Reparented (condemned k1 a return_code) (f k1) a) :
    ∃ k1 k' q', k1.bare = k.bare ∧
      task_manager_exit_task k a return_code blocks = some (k', TASK_MANAGER_RESULT_OK) ∧
      k'.bare = (roused ((f k1).setChildren a 0) a).bare ∧
      Queues k' q' (({k.idle, cur} : Finset Nat).erase a) ∧
      Sorted k' q' ∧ SameLevels k k' (({k.idle, cur} : Finset Nat).erase a) ∧
      (∀ b ∈ ({k.idle, cur} : Finset Nat).erase a, k'.state b = k.state b) ∧
      k'.state a = TASK_STATE_ZOMBIE ∧ (k'.tasks a).return_code = return_code ∧
      k'.task_manager.task_needs_switching = k.task_manager.task_needs_switching := by
  obtain ⟨k1, q1, he1, hb1, hq1, hs1, hl1⟩ := leave_queue_spec h ha hid hz
  obtain ⟨he2, hr2⟩ := hre k1 he1 hb1
  let k3 := (f k1).setChildren a 0
  have hr3 : Reparented (condemned k1 a return_code) k3 a := hr2.trans (Reparented.setChildren _ a 0 a)
  have hmem : a ∈ insert a ({k.idle, cur} : Finset Nat) := Finset.mem_insert_self _ _
  have hq3 : Queues k3 q1 (insert a {k.idle, cur}) :=
    hr3.queues (hq1.setTask hmem _ (hq1.loose a hmem))
  have hst3 : ∀ b, b ≠ a → k3.state b = k.state b := by
    intro b hb
    rw [hr3.state, ← bare_state hb1]
    exact state_setTask_ne _ _ hb
  have hza : k3.state a = TASK_STATE_ZOMBIE := by
    rw [hr3.state]
    simp [condemned, kernel_t.state, kernel_t.setTask]
  have hs3 : Sorted k3 q1 := by
    apply hs1.congr
    intro i b hb
    have hne : b ≠ a := by
      rintro rfl
      exact hq1.inside i b hb hmem
    rw [hst3 b hne, bare_state hb1]
  have hpar3 : (k3.tasks a).parent = (k.tasks a).parent := by
    refine (hr3.parent.trans ?_).trans (congrArg (fun t => t.parent) (bare_task hb1 a))
    simp [condemned, kernel_t.setTask, unlinked]
  have hrunning : ∀ b ∈ ({k.idle, cur} : Finset Nat), k.state b = TASK_STATE_RUNNING := by
    intro b hb
    rcases Finset.mem_insert.mp hb with rfl | hb
    · exact h.idle_runs
    · rw [Finset.mem_singleton.mp hb]
      exact h.running
  have hlive1 : k1.live = k.live := bare_live hb1
  have hlive3 : k3.live = k.live := hr3.live.trans hlive1
  have hidle1 : k1.idle = k.idle := bare_idle hb1
  have hidle3 : k3.idle = k.idle := (congrArg (fun m => m.task_idle) hr3.manager).trans hidle1
  obtain ⟨k4, q4, he4, hb4, hq4, hs4, hl4⟩ := wake_parent_spec hq3 hs3 (a := a) (by
    rw [hpar3, hlive3]
    exact hp) (by
    intro b hb
    by_cases hba : b = a
    · rw [hba, hza]
      decide
    · rw [hst3 b hba, hrunning b (Finset.mem_of_mem_insert_of_ne hb hba)]
      decide)
  have hlive4 : k4.live = k3.live := (bare_live hb4).trans (roused_rest k3 a).1
  have hidle4 : k4.idle = k3.idle :=
    (bare_idle hb4).trans (congrArg (fun m => m.task_idle) (roused_rest k3 a).2)
  obtain ⟨k5, he5, hb5, -, hl5, hq5⟩ := enqueue_spec hq4 (i := TASK_MANAGER_QUEUE_INDEX_ZOMBIE) hmem
    (by rw [hlive4, hlive3]; exact ha) (by rw [hidle4, hidle3]; exact hid)
  rw [Finset.erase_insert_eq_erase] at hq5
  have hst4 : ∀ b, k3.state b ≠ TASK_STATE_BLOCKED → k4.state b = k3.state b := by
    intro b hb
    rw [bare_state hb4]
    exact roused_state hb
  have hza4 : k4.state a = TASK_STATE_ZOMBIE := by
    rw [hst4 a (by rw [hza]; decide), hza]
  refine ⟨k1, k5, _, hb1, ?_, hb5.trans hb4, hq5, ?_, ?_, ?_, ?_, ?_, ?_⟩
  · unfold task_manager_exit_task
    rw [he1]
    have hch : ((condemned k1 a return_code).tasks a).children = (k1.tasks a).children := by
      simp [condemned, kernel_t.setTask]
    show (reparent_children ADDRESSES blocks (condemned k1 a return_code)
      ((condemned k1 a return_code).tasks a).children).bind _ = _
    rw [hch, he2]
    show (wake_parent k3 a).bind _ = _
    rw [he4]
    show (task_manager_enqueue_task k4 TASK_MANAGER_QUEUE_INDEX_ZOMBIE a).bind _ = _
    rw [he5]
    rfl
  · apply hs4.append
    · exact fun _ b _ => bare_state hb5 b
    · rw [bare_state hb5, hza4]
      exact Or.inr (Or.inr ⟨rfl, rfl⟩)
  · intro b hb
    have hne := Finset.ne_of_mem_erase hb
    have hb' := Finset.mem_insert_of_mem (a := b) (b := a) (Finset.mem_of_mem_erase hb)
    rw [hl5 b hne, hl4 b hb', hr3.level, show (condemned k1 a return_code).level b = k1.level b from
      level_setTask_ne _ _ hne, hl1]
  · intro b hb
    have hne := Finset.ne_of_mem_erase hb
    have hrun := hrunning b (Finset.mem_of_mem_erase hb)
    rw [bare_state hb5, hst4 b (by rw [hst3 b hne, hrun]; decide), hst3 b hne]
  · rw [bare_state hb5, hza4]
  · have hcode : ∀ k : kernel_t, ((roused k a).tasks a).return_code = (k.tasks a).return_code := by
      intro k
      unfold roused
      split
      · by_cases hpa : a = (k.tasks a).parent
        · simp [kernel_t.setState, kernel_t.setTask, ← hpa]
        · simp [kernel_t.setState, kernel_t.setTask, hpa]
      · rfl
    have h5 := congrArg (fun t => t.return_code) (bare_task (hb5.trans hb4) a)
    refine h5.trans ((hcode k3).trans ?_)
    obtain ⟨p, c, ht⟩ := hr3.tasks a
    rw [ht]
    simp [condemned, kernel_t.setTask]
  · have h5 := congrArg (fun k => k.task_manager.task_needs_switching) (hb5.trans hb4)
    have h3 := congrArg (fun m => m.task_needs_switching) ((roused_rest k3 a).2.trans hr3.manager)
    have h1 := congrArg (fun k => k.task_manager.task_needs_switching) hb1
    exact h5.trans (h3.trans h1)

/-- A task without children ends. -/
theorem exit_spec (h : Settled k q cur) (tree : Tree k order ns) {a : Nat} (ha : a ∈ k.live)
    (hid : a ≠ k.idle) (hz : k.state a ≠ TASK_STATE_ZOMBIE) (hc : (k.tasks a).children = 0)
    (return_code : Int) (blocks : List (Nat × Nat)) :
    ∃ k' q', task_manager_exit_task k a return_code blocks = some (k', TASK_MANAGER_RESULT_OK) ∧
      k'.view = (exited k a).view ∧ Queues k' q' (({k.idle, cur} : Finset Nat).erase a) ∧
      Sorted k' q' ∧ SameLevels k k' (({k.idle, cur} : Finset Nat).erase a) ∧
      (∀ b ∈ ({k.idle, cur} : Finset Nat).erase a, k'.state b = k.state b) ∧
      k'.task_manager.task_needs_switching = k.task_manager.task_needs_switching := by
  have hchild : ∀ k1 : kernel_t, k1.bare = k.bare → (k1.tasks a).children = 0 := by
    intro k1 hb1
    rw [← hc]
    exact congrArg (fun t => t.children) (bare_task hb1 a)
  obtain ⟨k1, k', q', hb1, he, hb, hq, hs, hl, hst, -, -, hn⟩ := exit_general h ha hid hz
    (tree.parent_live ha hid) return_code blocks (f := fun k1 => condemned k1 a return_code) (by
      intro k1 _ hb1
      rw [hchild k1 hb1]
      exact ⟨reparent_none _ _, Reparented.refl _ _⟩)
  refine ⟨k', q', he, ?_, hq, hs, hl, hst, hn⟩
  let k3 := (condemned k1 a return_code).setChildren a 0
  have hpar3 : (k3.tasks a).parent = (k.tasks a).parent := by
    have : (k1.tasks a).parent = (k.tasks a).parent :=
      congrArg (fun t => t.parent) (bare_task hb1 a)
    simpa [k3, condemned, kernel_t.setChildren, kernel_t.setTask] using this
  have hview3 : k3.view = (k.setState a TASK_STATE_ZOMBIE).view := by
    have ht : plain { (condemned k1 a return_code).tasks a with children := 0 } =
        plain { k.tasks a with task_state := TASK_STATE_ZOMBIE } := by
      have hu := view_task (view_of_bare hb1) a
      have hp : plain { (condemned k1 a return_code).tasks a with children := 0 } =
          { plain (k1.tasks a) with task_state := TASK_STATE_ZOMBIE, children := 0 } := by
        simp [condemned, kernel_t.setTask, plain, still]
      rw [hp, hu]
      simp [plain, still, hc]
    rw [show k3 = k1.setTask a { (condemned k1 a return_code).tasks a with children := 0 } from
      setTask_setTask _ _ _ _]
    exact view_setTask_congr (view_of_bare hb1) ht
  rw [view_of_bare hb]
  show (roused k3 a).view = _
  unfold roused exited
  dsimp only
  rw [hpar3, waits_for_congr hview3]
  split
  · apply view_setTask_congr hview3
    have := view_task hview3 (k.tasks a).parent
    exact congrArg (fun t => { t with task_state := TASK_STATE_READY }) this
  · exact hview3

theorem exited_retry (k : kernel_t) (a b : Nat) :
    ((exited k a).tasks b).syscall_retry = (k.tasks b).syscall_retry := by
  have hset : ∀ (k : kernel_t) (x : Nat) (s : task_state_t),
      ((k.setState x s).tasks b).syscall_retry = (k.tasks b).syscall_retry := by
    intro k x s
    by_cases hb : b = x
    · subst hb
      simp [kernel_t.setState, kernel_t.setTask]
    · simp [kernel_t.setState, kernel_t.setTask, hb]
  unfold exited
  dsimp only
  split
  · rw [hset, hset]
  · rw [hset]

theorem exited_current (k : kernel_t) (a : Nat) : (exited k a).current = k.current := by
  unfold exited
  dsimp only
  split <;> rfl

theorem exited_inside (k : kernel_t) (a : Nat) : Inside k (exited k a) := by
  obtain ⟨state, he⟩ := exited_task k a k.current
  refine ⟨?_, by rw [he]⟩
  unfold exited
  dsimp only
  split <;> rfl

theorem destroy_queued_task (k : kernel_t) : (memory_paging_destroy_queued k).tasks = k.tasks := by
  obtain ⟨frees, directories, he⟩ := destroy_queued_eq k
  rw [he]

/-- A task without children ends, and the processor goes to another if it was the caller. -/
theorem ends_spec (rules : Rules) (h : Calling k q order ns) {a : Nat} (ha : a ∈ k.live) (hid : a ≠ k.idle)
    (hz : k.state a ≠ TASK_STATE_ZOMBIE) (hc : (k.tasks a).children = 0) (return_code : Int)
    (answers : Answers) :
    ∃ k', exit_and_yield k a return_code answers = some k' ∧ Served rules k k' ∧
      ∀ b, (k'.tasks b).syscall_retry = (k.tasks b).syscall_retry := by
  obtain ⟨k1, q1, he1, hv1, hq1, hs1, hl1, hst1, hn1⟩ :=
    exit_spec h.settled h.tree ha hid hz hc return_code answers.node_blocks
  have hact : Acts rules k k1 := (Acts.single (Act.exited ha hid hc)).trans (Acts.same hv1)
  have hinside : Inside k k1 := (exited_inside k a).trans (exited_current k a) (Inside.of_view hv1)
  have hretry1 : ∀ b, (k1.tasks b).syscall_retry = (k.tasks b).syscall_retry := by
    intro b
    rw [view_retry hv1, exited_retry]
  have hf : ∀ {α : Type} (f : kernel_t → α), f k1.view = f (exited k a).view :=
    fun f => congrArg f hv1
  have hx : (exited k a).idle = k.idle ∧ (exited k a).live = k.live ∧
      (exited k a).current = k.current := by
    unfold exited
    dsimp only
    split <;> exact ⟨rfl, rfl, rfl⟩
  have hidle : k1.idle = k.idle := (hf fun k => k.idle).trans hx.1
  have hlive : k1.live = k.live := (hf fun k => k.live).trans hx.2.1
  have hcur : k1.current = k.current := (hf fun k => k.current).trans hx.2.2
  unfold exit_and_yield
  rw [he1]
  by_cases hself : a = k.current
  · rw [hself, h.erase_self] at hq1 hst1
    have hset : Settled k1 q1 k1.idle := h.idles hidle hlive hq1 hs1 (hst1 _ (by simp))
    have hzombie : k1.state k1.current = TASK_STATE_ZOMBIE := by
      rw [hcur, ← hself, view_zombie hv1]
      unfold exited
      dsimp only
      split
      · rw [state_setState_ne, state_setState]
        exact (h.tree.parent_ne ha hid).symm
      · exact state_setState _ _ _
    obtain ⟨k2, he2, hserved, hv2⟩ := yields_spec rules hset (by rw [hcur]; exact h.ne_zero)
      (hn1.trans h.needs) (by rw [hzombie]; decide)
    refine ⟨k2, ?_, ⟨hact.trans hserved.acts, hserved.settled, hserved.current.trans hcur,
      hinside.trans hcur hserved.inside⟩, ?_⟩
    · show (if a = k.current then _ else _) = _
      rw [if_pos hself]
      exact he2
    · intro b
      rw [view_retry hv2, destroy_queued_task, hretry1]
  · have herase : ({k.idle, k.current} : Finset Nat).erase a = {k.idle, k.current} := by
      apply Finset.erase_eq_of_notMem
      simp [hid, hself]
    rw [herase] at hq1 hst1 hl1
    have hset : Settled k1 q1 k.current := h.settled.move hidle hlive hst1 hq1 hs1 hl1
    refine ⟨k1, ?_, Served.stays hact hcur (hn1.trans h.needs) hset hinside, hretry1⟩
    show (if a = k.current then _ else _) = _
    rw [if_neg hself]
    rfl

/-! ## Reaping -/

/-- A task that is in no queue is freed. -/
theorem Queues.drop {out : Finset Nat} {t : Nat} (h : Queues k q (insert t out)) (ht : t ∉ out)
    (hid : t ≠ k.idle) : Queues { k with toStore := free_task k.toStore t } q out := by
  have hmem : t ∈ insert t out := Finset.mem_insert_self _ _
  refine ⟨h.path, ?_, ?_, h.level, ?_, ?_, h.spread.erase,
    fun a ha => h.loose a (Finset.mem_insert_of_mem ha)⟩
  · intro i a ha
    refine Finset.mem_erase.mpr ⟨?_, h.live i a ha⟩
    rintro rfl
    exact h.inside i a ha hmem
  · intro i a ha hout
    exact h.inside i a ha (Finset.mem_insert_of_mem hout)
  · intro a ha hout
    obtain ⟨hne, ha⟩ := Finset.mem_erase.mp ha
    exact h.all a ha (by simp [hne, hout])
  · exact (Finset.mem_insert.mp h.idle).resolve_left (Ne.symm hid)

theorem free_task_directory_view (k : kernel_t) (a : Nat) :
    (free_task_directory k a).view = free_task_directory k.view a := by
  unfold free_task_directory
  by_cases hc : (k.tasks a).task_cr3 ≠ k.kernel_page_directory_phys
  · rw [if_pos hc, if_pos (show (k.view.tasks a).task_cr3 ≠ k.view.kernel_page_directory_phys from hc)]
    rfl
  · rw [if_neg hc, if_neg (show ¬ (k.view.tasks a).task_cr3 ≠ k.view.kernel_page_directory_phys from hc)]

theorem inherit_ticks_view (k : kernel_t) (a : Nat) : (inherit_ticks k a).view = k.view := by
  unfold inherit_ticks
  dsimp only
  split
  · exact view_touch rfl
  · rfl

theorem Settled.inherit_ticks (h : Settled k q cur) (a : Nat) :
    Settled (inherit_ticks k a) q cur := by
  unfold alura_os.kernel.inherit_ticks
  dsimp only
  split
  · exact h.touch rfl rfl rfl
  · exact h

/-- Slots do not matter to the queues. -/
theorem Settled.of_slots (h : Settled k q cur) {s : Store} {t : Nat}
    (hs : OnlySlots t k.toStore s) : Settled { k with toStore := s } q cur := by
  have ht := hs.task
  have hstate : ∀ a, (s.tasks a).task_state = k.state a := by
    intro a
    obtain ⟨f, hf⟩ := ht a
    rw [hf]
    rfl
  have hlevel : ∀ a, (s.tasks a).task_queue_level = k.level a := by
    intro a
    obtain ⟨f, hf⟩ := ht a
    rw [hf]
    rfl
  have hnext : ∀ a, (s.tasks a).next = k.next a := by
    intro a
    obtain ⟨f, hf⟩ := ht a
    rw [hf]
    rfl
  refine h.move rfl hs.live (fun a _ => hstate a) ?_ ?_ (fun a _ => hlevel a)
  · exact h.queues.congr hnext (fun _ => rfl) hs.live (fun _ a _ => hlevel a) rfl
  · exact h.sorted.congr fun _ a _ => hstate a

theorem Settled.cut (h : Settled k q cur) (p head : Nat) : Settled (cut k p head) q cur := by
  have h1 : Settled (cut_next k p head) q cur := by
    unfold cut_next
    split
    · exact h.touch rfl rfl rfl
    · exact h.congr rfl rfl rfl rfl
  rw [cut_eq]
  split
  · exact (show Settled ((cut_next k p head).setChildrenTail p (k.behind head)) q cur from
      h1.touch rfl rfl rfl).congr rfl rfl rfl rfl
  · exact h1.congr rfl rfl rfl rfl

theorem cut_manager (k : kernel_t) (p head : Nat) : (cut k p head).task_manager = k.task_manager := by
  unfold alura_os.kernel.cut
  dsimp only
  split <;> split <;> rfl

/-- A dead child is reaped. -/
theorem destroy_spec (rules : Rules) (h : Calling k q order ns) {child : Nat} (hl : child ∈ k.live)
    (hz : k.state child = TASK_STATE_ZOMBIE) (hm : child ∈ k.held (ns k.current)) :
    ∃ k', task_manager_destroy_task k child = some k' ∧ Served rules k k' ∧
      k'.task_manager.task_needs_switching = false ∧ ∃ q', Settled k' q' k.current := by
  obtain ⟨hco, hpar⟩ := (h.tree.children _ h.live child).mp hm
  have hid : child ≠ k.idle := ((h.tree.mem child).mp hco).2
  have hne : k.current ≠ child := by
    rw [← hpar]
    exact h.tree.parent_ne hl hid
  -- The counters of time are not in the view.
  let k1 := inherit_ticks k child
  have hv1 : k1.view = k.view := inherit_ticks_view k child
  have hf1 : ∀ {α : Type} (f : kernel_t → α), f k1.view = f k.view := fun f => congrArg f hv1
  have hs1 : Settled k1 q k.current := h.settled.inherit_ticks child
  have ht1 : Tree k1 order ns := h.tree.of_view hv1
  have hcur1 : k1.current = k.current := hf1 fun k => k.current
  have hlive1 : k1.live = k.live := hf1 fun k => k.live
  have hidle1 : k1.idle = k.idle := hf1 fun k => k.idle
  have hpar1 : (k1.tasks child).parent = k.current :=
    (congrArg (fun t => t.parent) (view_task hv1 child)).trans hpar
  have hn1 : k1.task_manager.task_needs_switching = false := by
    rw [← h.needs]
    simp only [k1]
    unfold inherit_ticks
    dsimp only
    split <;> rfl
  obtain ⟨hslots, -⟩ := release_resources_only k1.toStore child
  generalize hr : release_resources k1.toStore child = s at hslots
  let k2 : kernel_t := { k1 with toStore := s }
  have hs2 : Settled k2 q k.current := hs1.of_slots hslots
  have ht2 : Tree k2 order ns := ht1.of_slots hslots
  have hcl2 : k.current ∈ k2.live := by
    rw [show k2.live = k1.live from hslots.live, hlive1]
    exact h.live
  have hpar2 : (k2.tasks child).parent = k.current := by
    rw [show k2.tasks child = s.tasks child from rfl, hslots.own]
    exact hpar1
  obtain ⟨head, hhead, htask, he3⟩ := ht2.remove_child hcl2
    ((ht2.children _ hcl2 child).mpr ⟨hco, hpar2⟩)
  let k3 := cut k2 k.current head
  have hs3 : Settled k3 q k.current := hs2.cut _ _
  have hrest3 := cut_rest k2 k.current head
  have hidle3 : k3.idle = k.idle := hrest3.2.1.trans hidle1
  have hlive3 : k3.live = k.live := (hrest3.1.trans hslots.live).trans hlive1
  have hcur3 : k3.current = k.current := by
    rw [← hcur1]
    exact congrArg (fun m => m.task_current) (cut_manager k2 k.current head)
  have hz3 : k3.state child = TASK_STATE_ZOMBIE := by
    show (k3.tasks child).task_state = _
    rw [cut_task _ _ _ _ hne.symm, show k2.tasks child = s.tasks child from rfl, hslots.own]
    exact (view_zombie hv1 child).mpr hz
  obtain ⟨hout, hmq, -⟩ := hs3.queued (by rw [hlive3]; exact hl) (by rw [hz3]; decide)
  obtain ⟨k4, he4, hb4, hl4, hq4⟩ := remove_spec hs3.queues hmq
  have hsort4 := hs3.sorted.take hs3.queues hmq fun b _ => bare_state hb4 b
  obtain ⟨hstore5, hman5, -, -⟩ := free_task_directory_rest k4 child
  let k5 := free_task_directory k4 child
  let k6 : kernel_t := { k5 with toStore := free_task k5.toStore child }
  have hidle4 := bare_idle hb4
  have hlive4 := bare_live hb4
  have hidle5 : k5.idle = k.idle := by
    show k5.task_manager.task_idle = _
    rw [hman5]
    exact hidle4.trans hidle3
  have hlive6 : k6.live = k.live.erase child := by
    show k5.toStore.live.erase child = _
    rw [hstore5, hlive4, hlive3]
  have htask6 : k6.tasks = k4.tasks := by
    show k5.toStore.tasks = _
    rw [hstore5]
  have hst6 : ∀ a, k6.state a = k3.state a := by
    intro a
    rw [← bare_state hb4]
    unfold kernel_t.state
    rw [htask6]
  have hlv6 : ∀ a, k6.level a = k3.level a := by
    intro a
    rw [← hl4]
    unfold kernel_t.level
    rw [htask6]
  have hset : Settled k6 (Function.update q (k3.level child) ((q (k3.level child)).erase child))
      k.current := by
    have hq5 : Queues k5 (Function.update q (k3.level child) ((q (k3.level child)).erase child))
        (insert child {k3.idle, k.current}) := by
      apply hq4.congr
      · intro a
        show (k5.toStore.tasks a).next = _
        rw [hstore5]
        rfl
      · intro i
        show k5.task_manager.task_queues i = _
        rw [hman5]
        rfl
      · show k5.toStore.live = _
        rw [hstore5]
      · intro i a _
        show (k5.toStore.tasks a).task_queue_level = _
        rw [hstore5]
        rfl
      · show k5.task_manager.task_idle = _
        rw [hman5]
        rfl
    have hidle6 : k6.idle = k.idle := hidle5
    refine ⟨?_, ?_, ?_, ?_, ?_, ?_, ?_⟩
    · rw [hidle6, ← hidle3]
      exact hq5.drop hout (by rw [hidle5]; exact hid)
    · exact hsort4.congr fun _ a _ => (hst6 a).trans (bare_state hb4 a).symm
    · rw [hidle6, hlive6, Finset.mem_erase]
      exact ⟨hid.symm, h.settled.idle⟩
    · rw [hidle6, hst6, ← hidle3]
      exact hs3.idle_runs
    · rw [hlive6, Finset.mem_erase]
      exact ⟨hne, h.live⟩
    · rw [hst6]
      exact hs3.running
    · intro hc
      rw [hlv6]
      apply hs3.level
      rw [hidle3]
      exact h.user
  have hreaped : reaped k1 child head =
      { free_task_directory k3 child with
        toStore := free_task (free_task_directory k3 child).toStore child } := by
    unfold reaped
    dsimp only
    rw [hr, hcur1]
  have hview : k6.view = (reaped k1 child head).view := by
    rw [hreaped]
    have hd : k5.view = (free_task_directory k3 child).view := by
      rw [free_task_directory_view, free_task_directory_view, view_of_bare hb4]
    exact congrArg (fun v : kernel_t => ({ v with toStore := free_task v.toStore child } : kernel_t)) hd
  have hact : Act rules k1 (reaped k1 child head) := by
    apply Act.reaped
    · rw [hcur1, hlive1]
      exact h.live
    · rw [hlive1]
      exact hl
    · exact (view_zombie hv1 child).mpr hz
    · rw [hcur1]
      exact hpar1
    · exact ht2.blocks _ hcl2 head hhead
    · exact htask
  have hacts : Acts rules k k6 := ((Acts.same hv1).tail hact).trans (Acts.same hview)
  have hn6 : k6.task_manager.task_needs_switching = false := by
    show k5.task_manager.task_needs_switching = _
    rw [hman5]
    refine (congrArg (fun k => k.task_manager.task_needs_switching) hb4).trans ?_
    exact (congrArg (fun m => m.task_needs_switching) (cut_manager k2 k.current head)).trans hn1
  have hcur6 : k6.current = k.current := by
    show k5.task_manager.task_current = _
    rw [hman5]
    exact (bare_current hb4).trans hcur3
  have hinside : Inside k1 (reaped k1 child head) := by
    obtain ⟨_, _, _, _, _, hshape⟩ := reaped_shape k1 child head
    have hne1 : k1.current ≠ child := hcur1.trans_ne hne
    obtain ⟨_, _, he⟩ := reaped_others k1 head hne1 hne1
    exact ⟨by rw [hshape], by rw [he]⟩
  have hcur7 : (reaped k1 child head).current = k1.current :=
    (view_current hview).symm.trans (hcur6.trans hcur1.symm)
  have hi := (Inside.of_view hv1).trans hcur1 (hinside.trans hcur7 (Inside.of_view hview))
  refine ⟨k6, ?_, Served.stays hacts hcur6 hn6 hset hi, hn6, _, hset⟩
  have hleave : leave_parent k2 child = some k3 := by
    unfold leave_parent
    rw [hpar2, if_pos h.ne_zero, he3]
    rfl
  unfold task_manager_destroy_task
  show (leave_parent { k1 with toStore := release_resources k1.toStore child } child).bind _ = _
  rw [hr, hleave]
  show (task_manager_remove_task_from_queue k3 (k3.level child) child).bind _ = _
  rw [he4]
  rfl

/-! ## Fork -/

theorem setChildren_setChildrenTail (k : kernel_t) (p b : Nat) :
    (k.setChildren p b).setChildrenTail p b =
      k.setTask p { k.tasks p with children := b, children_tail := b } := by
  unfold kernel_t.setChildrenTail kernel_t.setChildren
  rw [setTask_setTask]
  simp [kernel_t.setTask]

theorem adopted_view (k : kernel_t) (p c b : Nat) :
    (adopted k p c b).view = adopted k.view p c b := by
  unfold adopted
  dsimp only
  by_cases hz : (k.tasks p).children = 0
  · rw [if_pos hz, if_pos (show (k.view.tasks p).children = 0 from hz)]
    rw [setChildren_setChildrenTail, setChildren_setChildrenTail, view_setTask]
    rfl
  · rw [if_neg hz, if_neg (show ¬ (k.view.tasks p).children = 0 from hz)]
    unfold kernel_t.setChildrenTail
    rw [view_setTask]
    rfl

theorem adopted_manager (k : kernel_t) (p c b : Nat) :
    (adopted k p c b).task_manager = k.task_manager := by
  unfold adopted
  dsimp only
  split <;> rfl

theorem Settled.adopted (h : Settled k q cur) (p c b : Nat) : Settled (adopted k p c b) q cur := by
  unfold alura_os.kernel.adopted
  dsimp only
  have h1 : Settled (k.newNode b ⟨c, 0, (k.tasks p).children_tail⟩) q cur := h.congr rfl rfl rfl rfl
  split
  · have h2 : Settled ((k.newNode b ⟨c, 0, (k.tasks p).children_tail⟩).setChildren p b) q cur :=
      h1.touch rfl rfl rfl
    exact h2.touch rfl rfl rfl
  · have h2 : Settled ((k.newNode b ⟨c, 0, (k.tasks p).children_tail⟩).setNode
        (k.tasks p).children_tail
        { (k.newNode b ⟨c, 0, (k.tasks p).children_tail⟩).nodes (k.tasks p).children_tail with
          next := b }) q cur := h1.congr rfl rfl rfl rfl
    exact h2.touch rfl rfl rfl

theorem add_child_eq {p c b : Nat} (hb : Block k.node_blocks b)
    (ht : (k.tasks p).children ≠ 0 → (k.tasks p).children_tail ∈ k.node_blocks) :
    task_manager_add_child_to_task k p c b = some (adopted k p c b) := by
  unfold task_manager_add_child_to_task adopted
  rw [if_pos hb]
  dsimp only
  by_cases hz : (k.tasks p).children = 0
  · rw [if_pos (show ((k.newNode b ⟨c, 0, (k.tasks p).children_tail⟩).tasks p).children = 0 from hz),
      if_pos hz]
  · rw [if_neg (show ¬ ((k.newNode b ⟨c, 0, (k.tasks p).children_tail⟩).tasks p).children = 0 from hz),
      if_neg hz]
    have hmem : (k.tasks p).children_tail ∈
        (k.newNode b ⟨c, 0, (k.tasks p).children_tail⟩).node_blocks :=
      Finset.mem_insert_of_mem (ht hz)
    unfold store_next
    rw [if_pos (show ((k.newNode b ⟨c, 0, (k.tasks p).children_tail⟩).tasks p).children_tail ∈ _
      from hmem)]
    rfl

/-- A new task is in no queue. -/
theorem Queues.born {out : Finset Nat} {child : Nat} (h : Queues k q out)
    (ht : TaskBlock k.live child) (hothers : ∀ a, a ≠ child → k'.tasks a = k.tasks a)
    (hnew : k'.next child = 0) (hlive : k'.live = insert child k.live) (hqueue : k'.queue = k.queue)
    (hidle : k'.idle = k.idle) : Queues k' q (insert child out) := by
  have hne : ∀ i, ∀ a ∈ q i, a ≠ child := by
    rintro i a ha rfl
    exact ht.fresh (h.live i a ha)
  refine ⟨?_, ?_, ?_, ?_, ?_, ?_, ?_, ?_⟩
  · intro i
    rw [hqueue, path_congr]
    · exact h.path i
    · intro a ha
      unfold kernel_t.next
      rw [hothers a (hne i a ha)]
  · intro i a ha
    rw [hlive]
    exact Finset.mem_insert_of_mem (h.live i a ha)
  · intro i a ha
    rw [Finset.mem_insert]
    rintro (hc | hc)
    · exact hne i a ha hc
    · exact h.inside i a ha hc
  · intro i a ha
    unfold kernel_t.level
    rw [hothers a (hne i a ha)]
    exact h.level i a ha
  · intro a ha hout
    rw [hlive, Finset.mem_insert] at ha
    rw [Finset.mem_insert, not_or] at hout
    exact h.all a (ha.resolve_left hout.1) hout.2
  · rw [hidle]
    exact Finset.mem_insert_of_mem h.idle
  · rw [hlive]
    exact h.spread.insert ht
  · intro a ha
    by_cases hac : a = child
    · rw [hac]
      exact hnew
    · unfold kernel_t.next
      rw [hothers a hac]
      exact h.loose a ((Finset.mem_insert.mp ha).resolve_left hac)

/-- A child that is ready, in no queue and in no list. -/
structure Unplaced (k : kernel_t) (child : Nat) (k' : kernel_t) : Prop where
  others : ∀ a, a ≠ child → k'.tasks a = k.tasks a
  ready : k'.state child = TASK_STATE_READY
  top : k'.level child = 0
  unlinked : k'.next child = 0
  live : k'.live = insert child k.live
  manager : k'.task_manager = k.task_manager
  nodes : k'.nodes = k.nodes
  node_blocks : k'.node_blocks = k.node_blocks

theorem unplaced_of_slots {child task_id : Nat} {t : task_t} {s : Store}
    (h : OnlySlots child (new_task k.toStore child t) s) (hs : t.task_state = TASK_STATE_READY)
    (hl : t.task_queue_level = 0) (hn : t.next = 0) :
    Unplaced k child { k with toStore := s, task_id := task_id } := by
  have hnew : (new_task k.toStore child t).tasks child = t := by simp [new_task]
  have hown := h.own
  rw [hnew] at hown
  refine ⟨?_, ?_, ?_, ?_, h.live, rfl, rfl, rfl⟩
  · intro a ha
    refine (h.others a ha).trans ?_
    simp [new_task, ha]
  · show (s.tasks child).task_state = _
    rw [hown]
    exact hs
  · show (s.tasks child).task_queue_level = _
    rw [hown]
    exact hl
  · show (s.tasks child).next = _
    rw [hown]
    exact hn

theorem spawned_unplaced (k : kernel_t) (child task_cr3 : Nat) :
    Unplaced k child (spawned k k.current child task_cr3) :=
  unplaced_of_slots (share_resources_only _ child k.current).1 rfl rfl rfl

/-- The child enters the queue of new tasks. -/
theorem enqueue_child {k2 : kernel_t} {child : Nat} (h : Calling k q order ns)
    (ht : TaskBlock k.live child) (hp : Unplaced k child k2) :
    ∃ k3 q3, task_manager_enqueue_task k2 (k2.level child) child = some k3 ∧ k3.bare = k2.bare ∧
      Settled k3 q3 k.current := by
  have hfresh := ht.fresh
  have hidle2 : k2.idle = k.idle := congrArg (fun m => m.task_idle) hp.manager
  have hqueue2 : k2.queue = k.queue := congrArg (fun m => m.task_queues) hp.manager
  have hcid : child ≠ k.idle := by
    rintro rfl
    exact hfresh h.settled.idle
  have hcc : k.current ≠ child := by
    intro he
    exact hfresh (he ▸ h.live)
  have hq2 := h.settled.queues.born ht hp.others hp.unlinked hp.live hqueue2 hidle2
  obtain ⟨k3, he3, hb3, -, hl3, hq3⟩ := enqueue_spec hq2 (i := k2.level child)
    (Finset.mem_insert_self _ _) (by rw [hp.live]; exact Finset.mem_insert_self _ _)
    (by rw [hidle2]; exact hcid)
  rw [Finset.erase_insert (by simp [hcid, hcc.symm])] at hq3
  have hst3 : ∀ a, a ≠ child → k3.state a = k.state a := by
    intro a ha
    rw [bare_state hb3]
    unfold kernel_t.state
    rw [hp.others a ha]
  have hready : k3.state child = TASK_STATE_READY := by
    rw [bare_state hb3]
    exact hp.ready
  have hsort : Sorted k3 (Function.update q (k2.level child) (q (k2.level child) ++ [child])) := by
    apply h.settled.sorted.append
    · intro j a ha
      apply hst3
      rintro rfl
      exact hfresh (h.settled.queues.live j a ha)
    · rw [hready, hp.top]
      exact belongs_ready (by decide)
  have hidle3 : k3.idle = k.idle := (bare_idle hb3).trans hidle2
  have hlive3 : k3.live = insert child k.live := (bare_live hb3).trans hp.live
  refine ⟨k3, _, he3, hb3, ⟨?_, hsort, ?_, ?_, ?_, ?_, ?_⟩⟩
  · rw [hidle3]
    exact hq3
  · rw [hidle3, hlive3]
    exact Finset.mem_insert_of_mem h.settled.idle
  · rw [hidle3, hst3 _ hcid.symm]
    exact h.settled.idle_runs
  · rw [hlive3]
    exact Finset.mem_insert_of_mem h.live
  · rw [hst3 _ hcc]
    exact h.running
  · intro hc
    rw [hl3 _ hcc]
    unfold kernel_t.level
    rw [hp.others _ hcc]
    exact h.settled.level h.user

/-- The rest of a fork, once the child has its record and its directory. -/
theorem fork_placed (h : Calling k q order ns) {k1 k3 : kernel_t} {page_directory : Option Nat}
    {child task_cr3 block r : Nat} (ht : TaskBlock k.live child)
    (hdir : create_directory k page_directory = some (k1, task_cr3))
    (henq : task_manager_enqueue_task (spawned k1 k.current child task_cr3)
      ((spawned k1 k.current child task_cr3).level child) child = some k3)
    (hr : ((task_manager_add_child_to_task (k3.setParent child k.current) k.current child block).bind
      fun k => some (k, (k.tasks child).task_id)) = some (k', r))
    (hrule : rules.fork k page_directory) :
    Served rules k k' ∧ (k'.tasks k.current).syscall_retry = (caller k).syscall_retry := by
  obtain ⟨directories, hk1⟩ := create_directory_eq hdir
  have hs1 : Settled k1 q k.current := by
    rw [hk1]
    exact h.settled.congr rfl rfl rfl rfl
  have ht1 : Tree k1 order ns := by
    rw [hk1]
    exact h.tree.of_tasks rfl rfl rfl rfl rfl rfl
  have hman1 : k1.task_manager = k.task_manager := by rw [hk1]
  have htasks1 : k1.tasks = k.tasks := by rw [hk1]
  have hlive1 : k1.live = k.live := by rw [hk1]
  have hcur1 : k1.current = k.current := congrArg (fun m => m.task_current) hman1
  have h1 : Calling k1 q order ns := by
    refine ⟨by rw [hcur1]; exact hs1, ht1, ?_, by rw [hman1]; exact h.needs⟩
    rw [hcur1, show k1.idle = k.idle from congrArg (fun m => m.task_idle) hman1]
    exact h.user
  have hcc : k.current ≠ child := by
    intro he
    exact ht.fresh (he ▸ h.live)
  have hp := spawned_unplaced k1 child task_cr3
  rw [hcur1] at hp
  generalize hk2 : spawned k1 k.current child task_cr3 = k2 at hp henq
  obtain ⟨k3', q3, he3, hb3, hs3⟩ := enqueue_child h1 (by rw [hlive1]; exact ht) hp
  obtain rfl : k3' = k3 := Option.some.inj (he3.symm.trans henq)
  rw [hcur1] at hs3
  let k4 := k3'.setParent child k.current
  have hs4 : Settled k4 q3 k.current := hs3.touch rfl rfl rfl
  have hblocks4 : k4.node_blocks = k.node_blocks := by
    have h3 : k3'.node_blocks = k2.node_blocks := congrArg (fun k => k.node_blocks) hb3
    rw [show k4.node_blocks = k3'.node_blocks from rfl, h3, hp.node_blocks, hk1]
  have hcur4 : unlinked (k4.tasks k.current) = unlinked (k.tasks k.current) := by
    rw [show k4.tasks k.current = k3'.tasks k.current by
      simp [k4, kernel_t.setParent, kernel_t.setTask, hcc], bare_task hb3, hp.others _ hcc, htasks1]
  have hchildren4 : (k4.tasks k.current).children = (k.tasks k.current).children :=
    congrArg (fun t => t.children) hcur4
  have htail4 : (k4.tasks k.current).children_tail = (k.tasks k.current).children_tail :=
    congrArg (fun t => t.children_tail) hcur4
  obtain ⟨k5, hadd, hr⟩ := Option.bind_eq_some_iff.mp hr
  cases hr
  by_cases hb : Block k4.node_blocks block
  · rw [add_child_eq hb] at hadd
    · cases hadd
      have hb' : Block k.node_blocks block := by
        rw [← hblocks4]
        exact hb
      have hrunning := h.running
      have hact : Act rules k (forked k1 child task_cr3 block) :=
        Act.forked h.live h.user hrunning hrule hdir ht hb'
      have hview : (adopted k4 k.current child block).view =
          (forked k1 child task_cr3 block).view := by
        have hfork : forked k1 child task_cr3 block =
            adopted (k2.setParent child k.current) k.current child block := by
          unfold forked
          rw [hcur1, hk2]
        have hv4 : k4.view = (k2.setParent child k.current).view :=
          view_setTask_congr (view_of_bare hb3)
            (congrArg (fun t => { t with parent := k.current }) (view_task (view_of_bare hb3) child))
        rw [hfork, adopted_view, adopted_view, hv4]
      have hman4 : (adopted k4 k.current child block).task_manager = k3'.task_manager :=
        adopted_manager _ _ _ _
      have hcur5 : (adopted k4 k.current child block).current = k.current := by
        have h3 : k3'.current = k2.current := bare_current hb3
        have h2 : k2.current = k1.current := congrArg (fun m => m.task_current) hp.manager
        exact (congrArg (fun m => m.task_current) hman4).trans (h3.trans (h2.trans hcur1))
      have hn5 : (adopted k4 k.current child block).task_manager.task_needs_switching = false := by
        rw [hman4]
        refine (congrArg (fun k => k.task_manager.task_needs_switching) hb3).trans ?_
        show k2.task_manager.task_needs_switching = false
        rw [hp.manager, hman1]
        exact h.needs
      have hinside : Inside k (forked k1 child task_cr3 block) := by
        obtain ⟨_, _, _, hshape⟩ := forked_shape k1 child task_cr3 block
        obtain ⟨_, _, he⟩ := forked_others k1 task_cr3 block hcc
        rw [htasks1] at he
        exact ⟨by rw [hshape, hk1], by rw [he]⟩
      have hcur6 : (forked k1 child task_cr3 block).current = k.current :=
        (view_current hview).symm.trans hcur5
      refine ⟨Served.stays ((Acts.single hact).trans (Acts.same hview)) hcur5 hn5
        (hs4.adopted _ _ _) (hinside.trans hcur6 (Inside.of_view hview)), ?_⟩
      rw [adopted_parent]
      exact congrArg (fun t => t.syscall_retry) hcur4
    · rw [hchildren4, htail4, hblocks4]
      intro hz
      have hne : ns k.current ≠ [] := fun hc => hz ((h.tree.children_zero h.live).mpr hc)
      exact h.tree.blocks _ h.live _ ((h.tree.linked _ h.live).tail_mem hne)
  · unfold task_manager_add_child_to_task at hadd
    rw [if_neg hb] at hadd
    cases hadd

/-- The child enters the queue of new tasks, and the list of its parent. -/
theorem fork_spec (h : Calling k q order ns) {answers : Answers} {r : Nat}
    (hr : syscall_fork k answers = some (k', r)) (hrule : rules.fork k answers.page_directory) :
    Served rules k k' ∧ (k'.tasks k.current).syscall_retry = (caller k).syscall_retry := by
  unfold syscall_fork at hr
  obtain ⟨⟨k3, child⟩, hcopy, hr⟩ := Option.bind_eq_some_iff.mp hr
  unfold task_manager_task_copy at hcopy
  dsimp only at hcopy
  split at hcopy
  · rename_i htb
    obtain ⟨⟨k1, task_cr3⟩, hdir, hcopy⟩ := Option.bind_eq_some_iff.mp hcopy
    obtain ⟨k3', henq, hcopy⟩ := Option.bind_eq_some_iff.mp hcopy
    cases hcopy
    exact fork_placed h htb hdir henq hr hrule
  · cases hcopy

end alura_os.kernel
