-- What becomes of a handler that forks, and of a call that a handler interrupts: the
-- child of a fork has nothing put aside, and a call that was to be tried again is not.
import AluraOs.SignalFrames

namespace alura_os.kernel

open alura_os.memory alura_os.task_manager alura_os.resource
open task_state_t

variable {k k' : kernel_t} {scope : Scope} {a : Nat}

/-! ## A fork in a handler -/

theorem dispatch_fork {data : register_interrupt_data_t} {answers : Answers}
    (h : call k = SYSCALL_FORK) : syscall_dispatch k data answers = syscall_fork k answers := by
  unfold syscall_dispatch
  rw [h]
  rfl

/-- The child is a task with nothing put aside, where no store goes astray. -/
theorem fork_aside {answers : Answers} {eax : Nat} (h : syscall_fork k answers = some (k', eax))
    (hs : k'.strays = k.strays) :
    k'.live = insert answers.task_block k.live ∧ (aside k' answers.task_block).2 = false := by
  obtain ⟨⟨k1, child⟩, hcopy, h⟩ := Option.bind_eq_some_iff.mp h
  obtain ⟨k2, hadd, h⟩ := Option.bind_eq_some_iff.mp h
  cases h
  obtain ⟨rfl, -, k0, task_cr3, h0, -, h1⟩ := task_copy_changes hcopy
  have hparent := h1.trans (stays_setParent k1 answers.task_block k.current)
  have hkeep := (hparent.wanders (wanders_add_child hadd)).unstrayed (hs.trans h0.strays.symm)
  refine ⟨?_, ?_⟩
  · rw [hkeep.live, ← h0.live]
    rfl
  · rw [aside_keeps hkeep.keeps]
    simp [aside, enrolled, new_task, child_record, task_t.zeroed]

theorem framed_fork {f f0 : framed_t} {data : register_interrupt_data_t} {answers : Answers}
    (hfork : call (load_execution f.core data) = SYSCALL_FORK)
    (hs : f0.core.strays = f.core.strays)
    (h : framed_handler f (.syscall data answers) = some f0) :
    f0.core.live = insert answers.task_block f.core.live ∧
      (aside f0.core answers.task_block).2 = false := by
  obtain ⟨k0, hk, rfl⟩ := Option.map_eq_some_iff.mp h
  simp only [Event.interrupt, handler] at hk
  split at hk
  · cases hk
  obtain ⟨⟨k2, eax⟩, hr, rfl⟩ := Option.map_eq_some_iff.mp hk
  have hs : k2.strays = (load_execution f.core data).strays :=
    Eq.trans hs (load_execution_strays f.core data).symm
  obtain ⟨hlive, hchild⟩ := fork_aside ((dispatch_fork hfork).symm.trans hr) hs
  refine ⟨?_, hchild⟩
  rw [(load_execution_rest f.core data).1] at hlive
  exact hlive

theorem framed_interrupt_aside {f f1 : framed_t} {e : Event} (h : framed_interrupt f e = some f1) :
    ∃ f0, framed_handler f e = some f0 ∧ f1.core.live = f0.core.live ∧
      f1.core.strays = f0.core.strays ∧ ∀ a, aside f1.core a = aside f0.core a := by
  obtain ⟨f0, h0, rfl⟩ := Option.map_eq_some_iff.mp h
  exact ⟨f0, h0, left_live _ _, left_strays _ _, aside_left _ _⟩

/-- Init forks in its handler. -/
def forksInHandler : Event :=
  .syscall (userRegisters 0x8048810 0xBFFFBFD0 SYSCALL_FORK 0 0) { noAnswers with
    task_block := taskAt 2
    node_block := nodeAt 2
    page_directory := some 0x12000 }

/-- Both processes return from the handler: init first, which then waits for its child. -/
def bothReturn : List Event :=
  [handlerReturns 0xBFFFC000,
    .syscall (userRegisters 0x8048200 0xBFFFC000 SYSCALL_WAITPID 2 0) noAnswers,
    handlerReturns 0xBFFFC000]

/-- What matters of a task that forks in a handler: whether it lives, what it has put aside, and
its call. -/
def forking (f : framed_t) : Nat × Bool × (register_interrupt_data_t × Bool) × Nat :=
  (f.core.current, f.core.current ∈ f.core.live, aside f.core f.core.current,
    call (load_execution f.core forksInHandler.data))

/-- Init at its fork, from which no store goes astray, and the returns of both processes after it. -/
def forkLogs : Option ((Nat × Bool × (register_interrupt_data_t × Bool) × Nat) ×
    List SignalEvent × List SignalEvent) :=
  (run smallBoot initRuns).bind fun k =>
    (strict_trace [taskAt 1] (taskAt 1) ⟨k, emptyFrames⟩
      [setsHandler, kills 1 0x8048200 0xBFFFC000]).bind fun r =>
    ((framed_interrupt r.2 forksInHandler).filter fun f1 => f1.core.strays = r.2.core.strays).bind
      fun f1 => with_frames f1 (fun f1 =>
      (strict_trace [taskAt 1, taskAt 2] (taskAt 1) f1 bothReturn).bind fun p =>
      (strict_trace [taskAt 1, taskAt 2] (taskAt 2) f1 bothReturn).map fun c =>
        (forking r.2, p.1, c.1)) [taskAt 1, taskAt 2]

/-- The run: init comes to its fork in the handler, and both processes return. -/
theorem init_forks_in_handler :
    ∃ k f f1 fp fc, run smallBoot initRuns = some k ∧
      trace (taskAt 1) ⟨k, emptyFrames⟩ [setsHandler, kills 1 0x8048200 0xBFFFC000] =
        some ([.delivered firstKill], f) ∧
      forking f = (taskAt 1, true, (firstKill, true), SYSCALL_FORK) ∧
      framed_interrupt f forksInHandler = some f1 ∧ f1.core.strays = f.core.strays ∧
      trace (taskAt 1) f1 bothReturn = some ([.returned lastReturn firstKill], fp) ∧
      trace (taskAt 2) f1 bothReturn = some ([.returned lastReturn lastReturn], fc) := by
  have hlogs : forkLogs = some ((taskAt 1, true, (firstKill, true), SYSCALL_FORK),
      [.returned lastReturn firstKill], [.returned lastReturn lastReturn]) := by
    decide +kernel
  have hlog : logOf (taskAt 1) initRuns [setsHandler, kills 1 0x8048200 0xBFFFC000] =
      some [.delivered firstKill] := by
    decide +kernel
  obtain ⟨k, hk, h⟩ := Option.bind_eq_some_iff.mp hlogs
  obtain ⟨⟨log, f⟩, hf, h⟩ := Option.bind_eq_some_iff.mp h
  obtain ⟨f1, hf1, h⟩ := Option.bind_eq_some_iff.mp h
  rw [with_frames_eq] at h
  obtain ⟨⟨logp, fp⟩, hp, h⟩ := Option.bind_eq_some_iff.mp h
  obtain ⟨⟨logc, fc⟩, hc, h⟩ := Option.map_eq_some_iff.mp h
  rw [strict_trace_eq] at hf hp hc
  obtain ⟨k', f', hk', ht⟩ := logOf_trace hlog
  obtain rfl := Option.some.inj (hk.symm.trans hk')
  obtain ⟨rfl, rfl⟩ := Prod.mk.inj (Option.some.inj (hf.symm.trans ht))
  obtain ⟨hat, h⟩ := Prod.mk.inj h
  obtain ⟨rfl, rfl⟩ := Prod.mk.inj h
  rw [Option.filter_eq_some_iff] at hf1
  obtain ⟨hf1, hstrays⟩ := hf1
  exact ⟨k, f, f1, fp, fc, hk, hf, hat, hf1, of_decide_eq_true hstrays, hp, hc⟩

/-- Only the calls that wait are tried again. -/
def RetryWaits (a : Nat) (k : kernel_t) : Prop := (k.tasks a).syscall_retry = true → CanWait k a

theorem RetryWaits.of_same (h : RetryWaits a k)
    (hr : (k'.tasks a).syscall_retry = (k.tasks a).syscall_retry)
    (he : k'.syscall_execution = k.syscall_execution) : RetryWaits a k' := by
  intro hretry
  unfold CanWait
  rw [he]
  exact h (hr ▸ hretry)

theorem RetryWaits.setTask {b : Nat} {t : task_t} (h : RetryWaits a k)
    (ht : t.syscall_retry = true → (k.tasks b).syscall_retry = true) :
    RetryWaits a (k.setTask b t) := by
  intro hretry
  apply h
  by_cases hb : a = b
  · subst hb
    apply ht
    simpa [kernel_t.setTask] using hretry
  · simpa [kernel_t.setTask, hb] using hretry

theorem RetryWaits.keeps (h : RetryWaits a k) (hk : Keeps k k') : RetryWaits a k' :=
  h.of_same (congrArg (fun t => t.syscall_retry) (hk.tasks a)) hk.execution

theorem RetryWaits.inherited (h : RetryWaits a k) (task : Nat) :
    RetryWaits a (inherit_ticks k task) := by
  unfold inherit_ticks
  dsimp only
  split
  · exact h.setTask id
  · exact h

theorem RetryWaits.called (h : RetryWaits a k) (data : register_interrupt_data_t) :
    RetryWaits a (load_execution k data) := by
  unfold load_execution
  split
  · exact h
  rename_i hnew
  intro hretry
  by_cases hcur : a = k.current
  · subst hcur
    exact absurd hretry hnew
  · have hsame := h hretry
    unfold CanWait at hsame ⊢
    simpa [Function.update_of_ne hcur] using hsame

theorem Change.retryWaits (hb : ¬ scope.born a) (hc : Change scope k k')
    (hn : k'.hits (words_of a) = k.hits (words_of a)) (h : RetryWaits a k) : RetryWaits a k' := by
  cases hc with
  | stays hk => exact h.keeps hk.keeps
  | scheduled _ he => exact h.keeps (keeps_schedule he)
  | ticked =>
    unfold count_tick
    dsimp only
    split
    · exact h
    split
    · exact h.setTask id
    · exact h.setTask id
  | called data => exact h.called data
  | retries hwait =>
    rename_i b
    intro hretry
    by_cases hab : a = b
    · subst hab
      exact hwait
    · apply h
      simpa [kernel_t.setTask, hab] using hretry
  | finished => exact h.setTask (fun he => by cases he)
  | signalled => exact h.setTask (fun he => by cases he)
  | returned => exact h.setTask id
  | handles => exact h.setTask id
  | born _ hchild _ =>
    have hne : a ≠ _ := fun he => hb (he ▸ hchild)
    refine RetryWaits.of_same h ?_ rfl
    simp [enrolled, new_task, Function.update_of_ne hne]
  | loaded => exact h.setTask id
  | inherited task => exact h.inherited task
  | freed => exact h.of_same rfl rfl
  | strayed hs =>
    obtain ⟨⟨next, ht⟩, he⟩ := hs.spares hn
    intro hretry
    unfold CanWait
    rw [he]
    apply h
    rw [ht] at hretry
    exact hretry

theorem handler_retryWaits {i : Interrupt} (ha : a ∈ k.live)
    (hn : k'.hits (words_of a) = k.hits (words_of a)) (hr : handler k i = some k')
    (h : RetryWaits a k) : RetryWaits a k' := by
  have hb : ¬ TaskBlock k.live a := fun hb => hb.fresh ha
  exact (handler_changes (Loads.any k i) hr).keep_unhit (P := RetryWaits a) (words_of a)
    (fun _ _ hc hn => hc.retryWaits hb hn) hn h

theorem retry_setTask {b : Nat} {t : task_t} (h : t.syscall_retry = (k.tasks b).syscall_retry)
    (a : Nat) : ((k.setTask b t).tasks a).syscall_retry = (k.tasks a).syscall_retry := by
  by_cases hab : a = b
  · subst hab
    simp [kernel_t.setTask, h]
  · simp [kernel_t.setTask, hab]

theorem left_retry (k : kernel_t) (esp a : Nat) :
    ((leave_interrupt k esp).tasks a).syscall_retry = (k.tasks a).syscall_retry := by
  unfold leave_interrupt
  split
  swap
  · rfl
  unfold task_manager_task_switch
  dsimp only
  split
  · rfl
  · apply retry_setTask (k := { k with task_manager := _ })
    rfl

theorem left_execution (k : kernel_t) (esp : Nat) :
    (leave_interrupt k esp).syscall_execution = k.syscall_execution := by
  unfold leave_interrupt
  split
  swap
  · rfl
  unfold task_manager_task_switch
  dsimp only
  split <;> rfl

theorem trace_append (es es' : List Event) : ∀ {f f1 f2 : framed_t} {log log' : List SignalEvent},
    trace a f es = some (log, f1) → trace a f1 es' = some (log', f2) →
      trace a f (es ++ es') = some (log ++ log', f2) := by
  induction es with
  | nil =>
    intro f f1 f2 log log' h h'
    cases h
    exact h'
  | cons e es ih =>
    intro f f1 f2 log log' h h'
    obtain ⟨f0, h0, h⟩ := Option.bind_eq_some_iff.mp h
    split at h
    swap
    · cases h
    rename_i ha
    obtain ⟨⟨log1, f3⟩, hrest, h⟩ := Option.map_eq_some_iff.mp h
    cases h
    simp [trace, h0, ha, ih hrest h']

/-- Another task starts the handler: the frame is the one that the task has left. -/
theorem delivered_frame {f : framed_t} {e : Event} {F : register_interrupt_data_t}
    (hother : f.core.current ≠ a) (hs : signal_event f a e = some (.delivered F)) :
    F = f.frames a := by
  have hpushed : ∀ data, pushed f data a = f.frames a := by
    intro data
    unfold pushed
    split
    · exact if_neg (Ne.symm hother)
    · rfl
  cases e with
  | timer => cases hs
  | keyboard => cases hs
  | exception data interrupt_index answers =>
    simp only [signal_event] at hs
    split at hs
    · cases hs
      exact hpushed data
    · cases hs
  | syscall data answers =>
    simp only [signal_event] at hs
    split at hs
    · cases hs
      exact hpushed data
    split at hs <;> cases hs

/-- A trace of one interrupt. -/
theorem trace_single {f f' : framed_t} {e : Event} {log : List SignalEvent}
    (h : trace a f [e] = some (log, f')) :
    ∃ f1, framed_handler f e = some f1 ∧ a ∈ f1.core.live ∧ log = (signal_event f a e).toList ∧
      f' = framed_leave f1 (entry_esp f.core) := by
  obtain ⟨f1, h1, h⟩ := Option.bind_eq_some_iff.mp h
  split at h
  swap
  · cases h
  rename_i ha
  obtain ⟨r, hr, h⟩ := Option.map_eq_some_iff.mp h
  cases hr
  cases h
  exact ⟨f1, h1, ha.1, by simp, rfl⟩

theorem trace_retryWaits (es : List Event) : ∀ {f f' : framed_t} {log : List SignalEvent},
    a ∈ f.core.live → trace a f es = some (log, f') → RetryWaits a f.core →
      a ∈ f'.core.live ∧ RetryWaits a f'.core := by
  induction es with
  | nil =>
    intro f f' log ha h hw
    cases h
    exact ⟨ha, hw⟩
  | cons e es ih =>
    intro f f' log ha h hw
    obtain ⟨f1, h1, h⟩ := Option.bind_eq_some_iff.mp h
    split at h
    swap
    · cases h
    rename_i ha1
    obtain ⟨⟨log1, f2⟩, hrest, h⟩ := Option.map_eq_some_iff.mp h
    cases h
    obtain ⟨k1, hk1, rfl⟩ := Option.map_eq_some_iff.mp h1
    have hw1 := handler_retryWaits ha ha1.2 hk1 hw
    refine ih ?_ hrest ?_
    · exact (left_live k1 _).symm ▸ ha1.1
    · exact hw1.of_same (left_retry k1 _ a) (left_execution k1 _)

/-- A task waits in `read` or `waitpid`. -/
structure Waiting (k : kernel_t) (a : Nat) : Prop where
  live : a ∈ k.live
  blocked : k.state a = TASK_STATE_BLOCKED
  retry : (k.tasks a).syscall_retry = true
  call : (k.syscall_execution a).index = SYSCALL_READ ∨
    (k.syscall_execution a).index = SYSCALL_WAITPID

theorem Waiting.retryWaits (h : Waiting k a) : RetryWaits a k := by
  intro _
  rcases h.call with hc | hc
  · exact Or.inl hc
  · exact Or.inr (Or.inr hc)

/-- The task has its registers again, and the call is to be tried again as it was. -/
def Resumed (f f' : framed_t) (a : Nat) : Prop :=
  f'.frames a = f.frames a ∧
    (f'.core.tasks a).syscall_retry = (f.core.tasks a).syscall_retry ∧
    f'.core.syscall_execution a = f.core.syscall_execution a

theorem sigreturn_pending (k : kernel_t) (eax a : Nat) :
    ((syscall_sigreturn k eax).1.tasks a).syscall_retry = (k.tasks a).syscall_retry ∧
      (syscall_sigreturn k eax).1.syscall_execution = k.syscall_execution := by
  unfold syscall_sigreturn
  split
  · refine ⟨?_, rfl⟩
    apply retry_setTask
    rfl
  · exact ⟨rfl, rfl⟩

/-- A handler returns: its task has no call to try again, and the last call is the return. -/
theorem return_pending {f f1 : framed_t} {e : Event} {data restored : register_interrupt_data_t}
    (hw : RetryWaits a f.core) (hs : signal_event f a e = some (.returned data restored))
    (h : framed_handler f e = some f1) :
    (f1.core.tasks a).syscall_retry = false ∧
      (f1.core.syscall_execution a).index = SYSCALL_SIGRETURN := by
  obtain ⟨k1, hk, rfl⟩ := Option.map_eq_some_iff.mp h
  cases e with
  | timer => cases hs
  | keyboard => cases hs
  | exception =>
    simp only [signal_event] at hs
    split at hs <;> cases hs
  | syscall data' answers =>
    simp only [signal_event] at hs
    split at hs
    · cases hs
    split at hs
    swap
    · cases hs
    rename_i hret
    obtain ⟨hret, rfl⟩ := hret
    simp only [Event.interrupt, handler] at hk
    split at hk
    · cases hk
    obtain ⟨r, hr, rfl⟩ := Option.map_eq_some_iff.mp hk
    have hr : syscall_dispatch (load_execution f.core data') data' _ = some r := hr
    rw [dispatch_sigreturn hret] at hr
    obtain rfl := Option.some.inj hr
    obtain ⟨hretry, hexec⟩ := sigreturn_pending (load_execution f.core data') data'.eax
      (load_execution f.core data').current
    refine ⟨hretry.trans ?_, ?_⟩
    · rw [← Bool.not_eq_true]
      intro htrue
      have hcan := hw.called data' htrue
      unfold CanWait at hcan
      rw [show (_ : syscall_execution_t).index = SYSCALL_SIGRETURN from hret] at hcan
      revert hcan
      decide
    · show ((syscall_sigreturn _ _).1.syscall_execution _).index = _
      rw [hexec]
      exact hret

/-- Init sets a handler, forks a child and waits for it. -/
def waitsForChild : List Event :=
  [setsHandler,
    .syscall (userRegisters 0x8048180 0xBFFFC000 SYSCALL_FORK 0 0) { noAnswers with
      task_block := taskAt 2
      node_block := nodeAt 2
      page_directory := some 0x12000 },
    .syscall (userRegisters 0x8048200 0xBFFFC000 SYSCALL_WAITPID 2 0) noAnswers]

/-- The running task waits for a key. -/
def readsKey : Event :=
  .syscall { userRegisters 0x8048300 0xBFFFC000 SYSCALL_READ 0 0x8050000 with edx := 1 } noAnswers

/-- Init waits in `waitpid` while its child runs. -/
def init_waits (f : framed_t) : Bool :=
  taskAt 1 ∈ f.core.live ∧ f.core.state (taskAt 1) = TASK_STATE_BLOCKED ∧
    (f.core.tasks (taskAt 1)).syscall_retry = true ∧
    (f.core.syscall_execution (taskAt 1)).index = SYSCALL_WAITPID ∧ f.core.current = taskAt 2

/-- Whether init waits, and whether it has a call to try again after the return of the handler, with
the log of each part. -/
def waitLogs : Option (Bool × Bool × List (List SignalEvent)) :=
  (run smallBoot initRuns).bind fun k =>
    (strict_trace [taskAt 1, taskAt 2] (taskAt 1) ⟨k, emptyFrames⟩ waitsForChild).bind fun r =>
    (strict_trace [taskAt 1, taskAt 2] (taskAt 1) r.2 [kills 1 0x8048280 0xBFFFC000]).bind fun r1 =>
    (strict_trace [taskAt 1, taskAt 2] (taskAt 1) r1.2 [readsKey]).bind fun r2 =>
    (strict_trace [taskAt 1, taskAt 2] (taskAt 1) r2.2 [handlerReturns 0xBFFFC000]).map fun r3 =>
      (init_waits r.2, (r3.2.core.tasks (taskAt 1)).syscall_retry, [r1.1, r2.1, r3.1])

/-- The frame of init in its wait. -/
def waitFrame : register_interrupt_data_t := userRegisters 0x8048200 0xBFFFC000 0xFFFFFFFD 2 0

/-- The run: init waits for its child, which sends it a signal and waits for a key; the handler of
init returns. -/
theorem init_is_signalled :
    ∃ k log f f1 f2 f3, run smallBoot initRuns = some k ∧
      trace (taskAt 1) ⟨k, emptyFrames⟩ waitsForChild = some (log, f) ∧
      Waiting f.core (taskAt 1) ∧ f.core.current = taskAt 2 ∧
      trace (taskAt 1) f [kills 1 0x8048280 0xBFFFC000] = some ([.delivered waitFrame], f1) ∧
      trace (taskAt 1) f1 [readsKey] = some ([], f2) ∧
      trace (taskAt 1) f2 [handlerReturns 0xBFFFC000] = some ([.returned lastReturn waitFrame], f3) ∧
      (f3.core.tasks (taskAt 1)).syscall_retry = false := by
  have hlogs : waitLogs = some (true, false,
      [[.delivered waitFrame], [], [.returned lastReturn waitFrame]]) := by
    decide +kernel
  obtain ⟨k, hk, h⟩ := Option.bind_eq_some_iff.mp hlogs
  obtain ⟨⟨log, f⟩, hf, h⟩ := Option.bind_eq_some_iff.mp h
  obtain ⟨⟨log1, f1⟩, hf1, h⟩ := Option.bind_eq_some_iff.mp h
  obtain ⟨⟨log2, f2⟩, hf2, h⟩ := Option.bind_eq_some_iff.mp h
  obtain ⟨⟨log3, f3⟩, hf3, h⟩ := Option.map_eq_some_iff.mp h
  rw [strict_trace_eq] at hf hf1 hf2 hf3
  simp only [Prod.mk.injEq, List.cons.injEq, and_true] at h
  obtain ⟨hwaits, hlost, rfl, rfl, rfl⟩ := h
  obtain ⟨hlive, hstate, hretry, hcall, hcur⟩ := of_decide_eq_true hwaits
  exact ⟨k, log, f, f1, f2, f3, hk, hf, ⟨hlive, hstate, hretry, Or.inr hcall⟩, hcur, hf1, hf2, hf3,
    hlost⟩

/-- A task that waits in a call handles a signal from another task. The handler returns to the
registers of the call, but the call is not tried again: what delivery has kept of the flag is never
read. -/
theorem handled_signal_ends_the_call (a : Nat) (f f1 f2 f3 : framed_t) (e0 e : Event)
    (es : List Event) (F R G : register_interrupt_data_t) (ha : Waiting f.core a)
    (hother : f.core.current ≠ a) (h1 : trace a f [e0] = some ([.delivered F], f1))
    (h2 : trace a f1 es = some ([], f2)) (h3 : trace a f2 [e] = some ([.returned R G], f3)) :
    G = f.frames a ∧ ¬ Resumed f f3 a := by
  obtain ⟨hlive1, hw1⟩ := trace_retryWaits _ ha.live h1 ha.retryWaits
  obtain ⟨hlive2, hw2⟩ := trace_retryWaits _ hlive1 h2 hw1
  refine ⟨?_, ?_⟩
  · obtain ⟨-, -, -, hlog, -⟩ := trace_single h1
    have hF := delivered_frame hother (Option.toList_eq_singleton_iff.mp hlog.symm)
    have htrace := trace_append _ _ h1 (trace_append _ _ h2 h3)
    obtain ⟨hG, -⟩ := trace_unwinds _ ha.live htrace
    exact Eq.trans hG hF
  · rintro ⟨-, hretry, -⟩
    obtain ⟨f4, h4, -, hlog, rfl⟩ := trace_single h3
    obtain ⟨hfalse, -⟩ := return_pending hw2 (Option.toList_eq_singleton_iff.mp hlog.symm) h4
    rw [ha.retry] at hretry
    have hleft : (f4.core.tasks a).syscall_retry = true := (left_retry f4.core _ a).symm.trans hretry
    rw [hfalse] at hleft
    cases hleft

/-- Init handles a signal of its child while it waits for it. -/
theorem handled_signal_ends_the_wait_of_init :
    ∃ k log f f1 f2 f3 G, run smallBoot initRuns = some k ∧
      trace (taskAt 1) ⟨k, emptyFrames⟩ waitsForChild = some (log, f) ∧
      Waiting f.core (taskAt 1) ∧
      trace (taskAt 1) f [kills 1 0x8048280 0xBFFFC000] = some ([.delivered waitFrame], f1) ∧
      trace (taskAt 1) f1 [readsKey] = some ([], f2) ∧
      trace (taskAt 1) f2 [handlerReturns 0xBFFFC000] = some ([.returned lastReturn G], f3) ∧
      G = f.frames (taskAt 1) ∧ ¬ Resumed f f3 (taskAt 1) := by
  obtain ⟨k, log, f, f1, f2, f3, hk, hf, hw, hcur, h1, h2, h3, -⟩ := init_is_signalled
  have hother : f.core.current ≠ taskAt 1 := by
    rw [hcur]
    decide
  exact ⟨k, log, f, f1, f2, f3, waitFrame, hk, hf, hw, h1, h2, h3,
    handled_signal_ends_the_call (taskAt 1) f f1 f2 f3 _ _ _ _ _ _ hw hother h1 h2 h3⟩

/-- Init was to try `waitpid` again before the signal, and is not to do so after it. -/
theorem interrupted_wait_is_not_resumed :
    ∃ k log f f1 f2 f3, run smallBoot initRuns = some k ∧
      trace (taskAt 1) ⟨k, emptyFrames⟩ waitsForChild = some (log, f) ∧
      Waiting f.core (taskAt 1) ∧ f.core.current ≠ taskAt 1 ∧
      trace (taskAt 1) f [kills 1 0x8048280 0xBFFFC000] = some ([.delivered waitFrame], f1) ∧
      trace (taskAt 1) f1 [readsKey] = some ([], f2) ∧
      trace (taskAt 1) f2 [handlerReturns 0xBFFFC000] =
        some ([.returned lastReturn waitFrame], f3) ∧
      ¬ Resumed f f3 (taskAt 1) := by
  obtain ⟨k, log, f, f1, f2, f3, hk, hf, hw, hcur, h1, h2, h3, hlost⟩ := init_is_signalled
  have hother : f.core.current ≠ taskAt 1 := by
    rw [hcur]
    decide
  refine ⟨k, log, f, f1, f2, f3, hk, hf, hw, hother, h1, h2, h3, ?_⟩
  rintro ⟨-, hretry, -⟩
  rw [hlost, hw.retry] at hretry
  cases hretry

/-! ## A task that signals itself -/

/-- The running task starts a handler of its own by `kill`: what is put aside are the registers of
the call, with its number still in `eax`. -/
theorem self_delivery {f : framed_t} {data : register_interrupt_data_t} {answers : Answers}
    {F : register_interrupt_data_t} (hserves : serves f.core)
    (hretry : (f.core.tasks f.core.current).syscall_retry = false)
    (hs : signal_event f f.core.current (.syscall data answers) = some (.delivered F)) :
    F = data ∧ data.eax = SYSCALL_KILL := by
  have hload : load_execution f.core data = { f.core with
      syscall_execution := Function.update f.core.syscall_execution f.core.current
        { index := data.eax
          parameters := fun i => [data.ebx, data.ecx, data.edx, data.esi, data.edi, 0].getD i 0 } } := by
    unfold load_execution caller
    rw [hretry]
    rfl
  simp only [signal_event] at hs
  split at hs
  · rename_i hkill
    obtain ⟨hcall, -⟩ := hkill
    refine ⟨?_, ?_⟩
    · have hF := SignalEvent.delivered.inj (Option.some.inj hs)
      rw [← hF]
      unfold pushed
      rw [if_pos hserves, set_frame_self]
    · rw [hload] at hcall
      simpa [call, kernel_t.current] using hcall
  · split at hs <;> cases hs

theorem serves_of_handled {f f1 : framed_t} {data : register_interrupt_data_t} {answers : Answers}
    (h : framed_handler f (.syscall data answers) = some f1) : serves f.core := by
  obtain ⟨k1, hk, -⟩ := Option.map_eq_some_iff.mp h
  simp only [Event.interrupt, handler] at hk
  split at hk
  · cases hk
  · rename_i hc
    exact decide_eq_true hc

/-- The call has returned success: the registers are those of the call, with the result in `eax`. -/
def Succeeded (data frame : register_interrupt_data_t) : Prop :=
  frame = { data with eax := word SYSCALL_RESULT_OK }

/-- The log of each part of a run in which init signals itself, and whether it makes the call
itself. -/
def selfLogs : Option (Bool × List (List SignalEvent)) :=
  (run smallBoot initRuns).bind fun k =>
    (strict_trace [taskAt 1] (taskAt 1) ⟨k, emptyFrames⟩ [setsHandler]).bind fun r =>
    (strict_trace [taskAt 1] (taskAt 1) r.2 [kills 1 0x8048200 0xBFFFC000]).bind fun r1 =>
    (strict_trace [taskAt 1] (taskAt 1) r1.2 [handlerReturns 0xBFFFC000]).map fun r2 =>
      (decide (r.2.core.current = taskAt 1 ∧ taskAt 1 ∈ r.2.core.live ∧
        (r.2.core.tasks (taskAt 1)).syscall_retry = false), [r.1, r1.1, r2.1])

theorem init_signals_itself :
    ∃ k f f1 f2, run smallBoot initRuns = some k ∧
      trace (taskAt 1) ⟨k, emptyFrames⟩ [setsHandler] = some ([], f) ∧
      f.core.current = taskAt 1 ∧ taskAt 1 ∈ f.core.live ∧
      (f.core.tasks (taskAt 1)).syscall_retry = false ∧
      trace (taskAt 1) f [kills 1 0x8048200 0xBFFFC000] = some ([.delivered firstKill], f1) ∧
      trace (taskAt 1) f1 [handlerReturns 0xBFFFC000] =
        some ([.returned lastReturn firstKill], f2) := by
  have hlogs : selfLogs = some (true,
      [[], [.delivered firstKill], [.returned lastReturn firstKill]]) := by
    decide +kernel
  obtain ⟨k, hk, h⟩ := Option.bind_eq_some_iff.mp hlogs
  obtain ⟨⟨log, f⟩, hf, h⟩ := Option.bind_eq_some_iff.mp h
  obtain ⟨⟨log1, f1⟩, hf1, h⟩ := Option.bind_eq_some_iff.mp h
  obtain ⟨⟨log2, f2⟩, hf2, h⟩ := Option.map_eq_some_iff.mp h
  rw [strict_trace_eq] at hf hf1 hf2
  simp only [Prod.mk.injEq, List.cons.injEq, and_true, decide_eq_true_eq] at h
  obtain ⟨⟨hcur, hlive, hretry⟩, rfl, rfl, rfl⟩ := h
  exact ⟨k, f, f1, f2, hk, hf, hcur, hlive, hretry, hf1, hf2⟩

end alura_os.kernel
