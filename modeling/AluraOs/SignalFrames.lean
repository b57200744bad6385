-- Signal handlers and the registers of the code that they interrupt: delivery puts the
-- frame of the target aside, `sigreturn` brings it back. A task has room for one frame.
import AluraOs.Changes
import AluraOs.RetryFlag

namespace alura_os.kernel

open alura_os.memory alura_os.task_manager alura_os.resource
open task_state_t task_wait_reason_t resource_result_t resource_type_t
open alura_os.elf_executable (SYSCALL_NSIG SYSCALL_SIG_DFL SYSCALL_SIG_IGN loaded_task first_frame)

variable {k k' k1 : kernel_t} {scope : Scope} {a : Nat}

/-! ## The kernel with its register frames -/

/-- The kernel, with the frame at the top of the kernel stack of each task. -/
structure framed_t where
  core : kernel_t
  frames : Nat → register_interrupt_data_t

/-- An interrupt with the registers of the code that it stops. -/
inductive Event where
  | timer (data : register_interrupt_data_t)
  | keyboard (data : register_interrupt_data_t) (scancode : Nat)
  | syscall (data : register_interrupt_data_t) (answers : Answers)
  | exception (data : register_interrupt_data_t) (interrupt_index : Nat) (answers : Answers)

def Event.data : Event → register_interrupt_data_t
  | .timer data => data
  | .keyboard data _ => data
  | .syscall data _ => data
  | .exception data _ _ => data

/-- The running task is one of user mode: none but the idle task runs in the kernel. -/
def serves (k : kernel_t) : Bool := ¬ (k.current = 0 ∨ k.current = k.idle)

/-- The frame of the task `a` is written. -/
def set_frame (frames : Nat → register_interrupt_data_t) (a : Nat)
    (frame : register_interrupt_data_t) : Nat → register_interrupt_data_t :=
  fun b => if b = a then frame else frames b

@[simp] theorem set_frame_self (frames : Nat → register_interrupt_data_t) (a : Nat)
    (frame : register_interrupt_data_t) : set_frame frames a frame a = frame := if_pos rfl

/-- The frames after the pushes of the stub. -/
def pushed (f : framed_t) (data : register_interrupt_data_t) : Nat → register_interrupt_data_t :=
  if serves f.core then set_frame f.frames f.core.current data else f.frames

/-- What `task_manager_deliver_signal` finds of its target: the frame, and whether the user stack
has room for the 17 bytes. -/
def told (frames : Nat → register_interrupt_data_t) (target : Nat) (answers : Answers) : Answers :=
  { answers with
    frame := frames target
    room := answers.room ∧ trampoline.length + 8 ≤ (frames target).useresp }

/-- The target of a `kill`. -/
def kill_name (k : kernel_t) : Nat := (task_manager_find_task k (parameter k 0)).getD 0

/-- The interrupt as the kernel sees it. -/
def Event.interrupt (f : framed_t) : Event → Interrupt
  | .timer _ => .timer
  | .keyboard _ scancode => .keyboard scancode
  | .syscall data answers =>
    .syscall data (told (pushed f data) (kill_name (load_execution f.core data)) answers)
  | .exception data interrupt_index answers =>
    .exception interrupt_index (told (pushed f data) f.core.current answers)

/-- The registers with which a handler starts. -/
def handler_frame (frame : register_interrupt_data_t) (handler : Nat) : register_interrupt_data_t :=
  { frame with useresp := sub32 frame.useresp (trampoline.length + 8), eip := handler }

/-- The load of an `execve` is successful. -/
def executes (k : kernel_t) (answers : Answers) : Bool :=
  ¬ ((caller k).task_is_user ∧ KERNEL_VIRTUAL_SPACE_START ≤ parameter k 0) ∧
    ¬ ((caller k).task_is_user ∧ parameter k 1 ≠ 0 ∧ KERNEL_VIRTUAL_SPACE_START ≤ parameter k 1) ∧
    ((elf_load_into_task k k.current answers).map Prod.snd).getD false

/-- The frame of a new program, from the stack that its load has prepared. The user stack pointer
is an answer. -/
def program_frame (answers : Answers) : register_interrupt_data_t :=
  let e_entry := (answers.loaded.map Loaded.e_entry).getD 0
  register_interrupt_data_t.ofWords fun i =>
    (first_frame true e_entry (word answers.value)).reverse.getD i 0

/-- The frames after the `switch` of `syscall_handler` on the call of `k`, which leaves `eax`. -/
def call_frames (k : kernel_t) (frames : Nat → register_interrupt_data_t)
    (data : register_interrupt_data_t) (answers : Answers) (eax : Nat) :
    Nat → register_interrupt_data_t :=
  if call k = SYSCALL_SIGRETURN then
    if (caller k).in_signal_handler then
      set_frame frames k.current (caller k).saved_signal_frame
    else frames
  else if call k = SYSCALL_KILL then
    let frames :=
      match kill_delivery k answers with
      | some target => set_frame frames target
          (handler_frame (frames target) ((k.tasks target).signal_handlers (parameter k 1)))
      | none => frames
    set_frame frames k.current { frames k.current with eax := eax }
  else if call k = SYSCALL_FORK then
    set_frame (set_frame frames answers.task_block { data with eax := 0 }) k.current
      { data with eax := eax }
  else if call k = SYSCALL_EXECVE ∧ executes k answers then
    set_frame frames k.current (program_frame answers)
  else if call k = SYSCALL_EXIT then frames
  else set_frame frames k.current { data with eax := eax }

/-- The frames after an exception in user mode. -/
def fault_frames (k : kernel_t) (frames : Nat → register_interrupt_data_t) (interrupt_index : Nat)
    (answers : Answers) : Nat → register_interrupt_data_t :=
  if fault_delivery k interrupt_index answers then
    set_frame frames k.current (handler_frame (frames k.current)
      ((caller k).signal_handlers (exception_signals.getD interrupt_index 6)))
  else frames

/-- The `eax` that a call leaves. -/
def call_eax (k : kernel_t) (data : register_interrupt_data_t) (answers : Answers) : Nat :=
  ((syscall_handler k data answers).map Prod.snd).getD 0

/-- The frames when the handler of an interrupt returns to its stub. -/
def frames_after (f : framed_t) : Event → Nat → register_interrupt_data_t
  | .syscall data answers =>
    let k := load_execution f.core data
    let answers := told (pushed f data) (kill_name k) answers
    call_frames k (pushed f data) data answers (call_eax f.core data answers)
  | .exception data interrupt_index answers =>
    fault_frames f.core (pushed f data) interrupt_index
      (told (pushed f data) f.core.current answers)
  | e => pushed f e.data

/-- The kernel when the handler of an interrupt returns to its stub. -/
def framed_handler (f : framed_t) (e : Event) : Option framed_t :=
  (handler f.core (e.interrupt f)).map fun k => ⟨k, frames_after f e⟩

/-- `task_manager_task_switch` on a task whose call is to be tried again: `eip` goes back to the
`int 0x80`. -/
def rewound (f : framed_t) : Nat → register_interrupt_data_t :=
  let new_task := f.core.task_manager.task_next
  if f.core.task_manager.task_needs_switching ∧
      task_load (f.core.tasks new_task) SYSCALL_RETRY_OFFSET ≠ 0 then
    set_frame f.frames new_task
      { f.frames new_task with eip := sub32 (f.frames new_task).eip 2 }
  else f.frames

/-- The end of an interrupt that came with this stack pointer. -/
def framed_leave (f : framed_t) (esp : Nat) : framed_t :=
  ⟨leave_interrupt f.core esp, rewound f⟩

def framed_interrupt (f : framed_t) (e : Event) : Option framed_t :=
  (framed_handler f e).map fun f' => framed_leave f' (entry_esp f.core)

/-- The frames are only looked at: the kernel goes on as it does without them. -/
theorem framed_interrupt_kernel {f f' : framed_t} {e : Event} (h : framed_interrupt f e = some f') :
    ∃ i, interrupt f.core i = some f'.core := by
  obtain ⟨f1, h1, rfl⟩ := Option.map_eq_some_iff.mp h
  obtain ⟨k1, hk, rfl⟩ := Option.map_eq_some_iff.mp h1
  refine ⟨e.interrupt f, ?_⟩
  rw [interrupt_eq, hk]
  rfl

/-! ## Deliveries and returns -/

/-- What happens to the handlers of a task: one starts, and the frame is put aside; or one calls
`sigreturn` with these registers, and the task goes on with those. -/
inductive SignalEvent where
  | delivered (frame : register_interrupt_data_t)
  | returned (data restored : register_interrupt_data_t)
  deriving DecidableEq

/-- What an interrupt does to the handlers of a task. -/
def signal_event (f : framed_t) (a : Nat) : Event → Option SignalEvent
  | .syscall data answers =>
    let k := load_execution f.core data
    if call k = SYSCALL_KILL ∧
        kill_delivery k (told (pushed f data) (kill_name k) answers) = some a then
      some (.delivered (pushed f data a))
    else if call k = SYSCALL_SIGRETURN ∧ a = k.current then
      some (.returned data (frames_after f (.syscall data answers) a))
    else none
  | .exception data interrupt_index answers =>
    if fault_delivery f.core interrupt_index (told (pushed f data) f.core.current answers) ∧
        a = f.core.current then some (.delivered (pushed f data a))
    else none
  | _ => none

/-- The frame that a task has put aside, and whether it runs a handler. -/
def aside (k : kernel_t) (a : Nat) : register_interrupt_data_t × Bool :=
  ((k.tasks a).saved_signal_frame, (k.tasks a).in_signal_handler)

theorem aside_keeps (h : Keeps k k') (a : Nat) : aside k' a = aside k a := by
  have h1 := congrArg (fun t => t.saved_signal_frame) (h.tasks a)
  have h2 := congrArg (fun t => t.in_signal_handler) (h.tasks a)
  exact Prod.ext h1 h2

theorem aside_setTask {b : Nat} {t : task_t} (h1 : t.saved_signal_frame = (k.tasks b).saved_signal_frame)
    (h2 : t.in_signal_handler = (k.tasks b).in_signal_handler) (a : Nat) :
    aside (k.setTask b t) a = aside k a := by
  unfold aside
  by_cases ha : a = b
  · subst ha
    simp [kernel_t.setTask, h1, h2]
  · simp [kernel_t.setTask, ha]

theorem aside_setTask_ne {b : Nat} (t : task_t) (ha : a ≠ b) :
    aside (k.setTask b t) a = aside k a := by
  unfold aside
  simp [kernel_t.setTask, ha]

theorem aside_ticked (k : kernel_t) (a : Nat) : aside (count_tick k) a = aside k a := by
  unfold count_tick
  dsimp only
  split
  · rfl
  split
  · apply aside_setTask <;> rfl
  · apply aside_setTask <;> rfl

theorem aside_inherited (k : kernel_t) (task a : Nat) : aside (inherit_ticks k task) a = aside k a := by
  unfold inherit_ticks
  dsimp only
  split
  · apply aside_setTask <;> rfl
  · rfl

theorem aside_called (k : kernel_t) (data : register_interrupt_data_t) (a : Nat) :
    aside (load_execution k data) a = aside k a := by
  unfold aside
  rw [(load_execution_rest k data).1]

/-- Only a signal, the birth of the task and a store that hits it touch what it has put aside. -/
theorem Change.aside (hs : ¬ scope.signal a) (hb : ¬ scope.born a)
    (hn : k'.hits (words_of a) = k.hits (words_of a)) (h : Change scope k k') :
    kernel.aside k' a = kernel.aside k a := by
  cases h with
  | stays h => exact aside_keeps h.keeps a
  | scheduled _ h => exact aside_keeps (keeps_schedule h) a
  | ticked => exact aside_ticked k a
  | called data => exact aside_called k data a
  | retries => apply aside_setTask <;> rfl
  | finished => apply aside_setTask <;> rfl
  | signalled _ ht =>
    apply aside_setTask_ne
    rintro rfl
    exact hs ht
  | returned ht =>
    apply aside_setTask_ne
    rintro rfl
    exact hs ht
  | handles => apply aside_setTask <;> rfl
  | born _ hc _ =>
    have hne : a ≠ _ := fun he => hb (he ▸ hc)
    exact aside_setTask_ne _ hne
  | loaded => apply aside_setTask <;> rfl
  | inherited task => exact aside_inherited k task a
  | freed => rfl
  | strayed h =>
    obtain ⟨⟨next, ht⟩, -⟩ := h.spares hn
    unfold kernel.aside
    rw [ht]

theorem aside_left (k : kernel_t) (esp a : Nat) : aside (leave_interrupt k esp) a = aside k a := by
  unfold leave_interrupt
  split
  swap
  · rfl
  unfold task_manager_task_switch
  dsimp only
  split
  · rfl
  · apply aside_setTask (k := { k with task_manager := _ }) <;> rfl

theorem aside_reloaded (k : kernel_t) (a : Nat) : aside (reloaded k) a = aside k a := rfl

/-- An interrupt that neither starts nor ends a handler of a task, and hits no word of it, leaves what
it has put aside. -/
theorem handler_aside {i : Interrupt} (ha : a ∈ k.live) (hs : ¬ Signals k i a)
    (hn : k'.hits (words_of a) = k.hits (words_of a))
    (h : handler k i = some k') : aside k' a = aside k a := by
  have hb : ¬ TaskBlock k.live a := fun hb => hb.fresh ha
  refine (handler_changes (Loads.any k i) h).keep_unhit (P := fun k1 => aside k1 a = aside k a)
    (words_of a) ?_ hn rfl
  intro k1 k2 hc hn1 h1
  exact (hc.aside hs hb hn1).trans h1

theorem kill_name_of_delivery {answers : Answers} (h : kill_delivery k answers = some a) :
    kill_name k = a := by
  unfold kill_delivery at h
  split at h
  · cases h
  split at h
  · cases h
  obtain ⟨target, hf, h⟩ := Option.bind_eq_some_iff.mp h
  dsimp only at h
  split at h
  · cases h
    unfold kill_name
    rw [hf]
    rfl
  · cases h

theorem dispatch_kill {data : register_interrupt_data_t} {answers : Answers}
    (h : call k = SYSCALL_KILL) : syscall_dispatch k data answers = syscall_kill k answers := by
  unfold syscall_dispatch
  rw [h]
  rfl

theorem dispatch_sigreturn {data : register_interrupt_data_t} {answers : Answers}
    (h : call k = SYSCALL_SIGRETURN) :
    syscall_dispatch k data answers = some (syscall_sigreturn k data.eax) := by
  unfold syscall_dispatch
  rw [h]
  rfl

/-- A `kill` that starts a handler puts the frame of its target aside. -/
theorem kill_aside {data : register_interrupt_data_t} {answers : Answers}
    {frames : Nat → register_interrupt_data_t} {r : kernel_t × Nat} (hc : call k = SYSCALL_KILL)
    (hd : kill_delivery k (told frames (kill_name k) answers) = some a)
    (h : syscall_dispatch k data (told frames (kill_name k) answers) = some r) :
    aside r.1 a = (frames a, true) := by
  obtain ⟨k1, eax⟩ := r
  rw [dispatch_kill hc] at h
  obtain ⟨target, k2, hd2, -, rfl⟩ | ⟨hnone, -⟩ :=
    kill_cases (fun _ k1 _ => everything_dies k1) h
  · obtain rfl : a = target := Option.some.inj (hd.symm.trans hd2)
    have hname := kill_name_of_delivery hd
    simp [aside, signalled, kernel_t.setTask, told, hname]
  · rw [hd] at hnone
    cases hnone

/-- A `sigreturn` takes the frame that was put aside, if a handler runs. -/
theorem sigreturn_aside {data : register_interrupt_data_t} {answers : Answers} {r : kernel_t × Nat}
    (hc : call k = SYSCALL_SIGRETURN) (h : syscall_dispatch k data answers = some r) :
    aside r.1 k.current = ((aside k k.current).1, false) := by
  rw [dispatch_sigreturn hc] at h
  obtain rfl := Option.some.inj h
  unfold syscall_sigreturn
  split
  · simp [aside, setCaller, caller, kernel_t.setTask]
  · rename_i hin
    have hflag : (caller k).in_signal_handler = false := by simpa using hin
    exact Prod.ext rfl hflag

theorem sigreturn_frame {frames : Nat → register_interrupt_data_t}
    {data : register_interrupt_data_t} {answers : Answers} {eax : Nat}
    (hc : call k = SYSCALL_SIGRETURN) :
    call_frames k frames data answers eax k.current =
      if (aside k k.current).2 then (aside k k.current).1 else frames k.current := by
  unfold call_frames
  rw [if_pos hc]
  show (if (caller k).in_signal_handler = true then _ else frames) k.current =
    if (caller k).in_signal_handler = true then (caller k).saved_signal_frame else frames k.current
  split
  · simp
  · rfl

/-- What the frame that a task has put aside becomes, and what a `sigreturn` gives. -/
def Follows (before after : register_interrupt_data_t × Bool) : Option SignalEvent → Prop
  | none => after = before
  | some (.delivered frame) => after = (frame, true)
  | some (.returned data restored) =>
    after = (before.1, false) ∧ restored = if before.2 then before.1 else data

theorem pushed_current {f : framed_t} (data : register_interrupt_data_t)
    (h : serves f.core = true) : pushed f data f.core.current = data := by
  unfold pushed
  rw [if_pos h]
  exact set_frame_self _ _ _

/-- One interrupt. -/
theorem framed_handler_follows {f f1 : framed_t} {e : Event} (ha : a ∈ f.core.live)
    (hn : f1.core.hits (words_of a) = f.core.hits (words_of a))
    (h : framed_handler f e = some f1) :
    Follows (aside f.core a) (aside f1.core a) (signal_event f a e) := by
  obtain ⟨k', hk, rfl⟩ := Option.map_eq_some_iff.mp h
  clear h
  have hquiet : ¬ Signals f.core (e.interrupt f) a → aside k' a = aside f.core a :=
    fun hs => handler_aside ha hs hn hk
  cases e with
  | timer => exact hquiet id
  | keyboard => exact hquiet id
  | syscall data answers =>
    simp only [Event.interrupt, handler] at hk
    split at hk
    · cases hk
    rename_i hserves
    obtain ⟨r, hr, rfl⟩ := Option.map_eq_some_iff.mp hk
    have hcur : (load_execution f.core data).current = f.core.current :=
      congrArg (fun m => m.task_current) (load_execution_rest f.core data).2.1
    simp only [signal_event]
    split
    · rename_i hkill
      exact kill_aside hkill.1 hkill.2 hr
    rename_i hkill
    split
    · rename_i hret
      obtain ⟨hret, rfl⟩ := hret
      have haside := aside_called f.core data (load_execution f.core data).current
      refine ⟨?_, ?_⟩
      · rw [aside_reloaded, sigreturn_aside hret hr, haside]
      · simp only [frames_after]
        rw [sigreturn_frame hret, haside, hcur, pushed_current data (decide_eq_true hserves)]
    · rename_i hret
      apply hquiet
      rintro (hs | hs)
      · exact hkill hs
      · exact hret hs
  | exception data interrupt_index answers =>
    simp only [Event.interrupt, handler] at hk
    split at hk
    · cases hk
    obtain ⟨k2, hr, rfl⟩ := Option.map_eq_some_iff.mp hk
    simp only [signal_event]
    split
    · rename_i hfault
      obtain ⟨hfault, rfl⟩ := hfault
      obtain ⟨-, rfl⟩ | ⟨hnone, -⟩ :=
        exception_cases (fun _ => everything_dies _) hr
      · simp [Follows, aside, reloaded, signalled, kernel_t.setTask, told]
      · rw [hfault] at hnone
        cases hnone
    · rename_i hfault
      exact hquiet hfault

/-! ## Runs -/

/-- The task lives on, and no store through a stale node pointer has hit a word of it but its link. -/
def Unharmed (a : Nat) (f f1 : framed_t) : Prop :=
  a ∈ f1.core.live ∧ f1.core.hits (words_of a) = f.core.hits (words_of a)

instance (a : Nat) (f f1 : framed_t) : Decidable (Unharmed a f f1) :=
  inferInstanceAs (Decidable (_ ∧ _))

/-- The kernel after these interrupts, with what they did to the handlers of a task that none of
them harms. -/
def trace (a : Nat) (f : framed_t) : List Event → Option (List SignalEvent × framed_t)
  | [] => some ([], f)
  | e :: es => (framed_handler f e).bind fun f1 =>
    if Unharmed a f f1 then
      (trace a (framed_leave f1 (entry_esp f.core)) es).map fun r =>
        ((signal_event f a e).toList ++ r.1, r.2)
    else none

/-- The frames that a log of deliveries and returns can have, with one frame put aside at a time. -/
def Unwinds : register_interrupt_data_t × Bool → List SignalEvent → Prop
  | _, [] => True
  | _, .delivered frame :: log => Unwinds (frame, true) log
  | s, .returned data restored :: log =>
    (restored = if s.2 then s.1 else data) ∧ Unwinds (s.1, false) log

theorem left_live (k : kernel_t) (esp : Nat) : (leave_interrupt k esp).live = k.live := by
  unfold leave_interrupt
  split
  swap
  · rfl
  unfold task_manager_task_switch
  dsimp only
  split <;> rfl

theorem left_strays (k : kernel_t) (esp : Nat) : (leave_interrupt k esp).strays = k.strays := by
  unfold leave_interrupt
  split
  swap
  · rfl
  unfold task_manager_task_switch
  dsimp only
  split <;> rfl

theorem Follows.unwinds {before after : register_interrupt_data_t × Bool} {e : Option SignalEvent}
    {log : List SignalEvent} (h : Follows before after e) (hlog : Unwinds after log) :
    Unwinds before (e.toList ++ log) := by
  cases e with
  | none =>
    rw [show after = before from h] at hlog
    exact hlog
  | some e =>
    cases e with
    | delivered frame =>
      rw [show after = (frame, true) from h] at hlog
      exact hlog
    | returned data restored =>
      rw [h.1] at hlog
      exact ⟨h.2, hlog⟩

theorem trace_unwinds (es : List Event) : ∀ {f f' : framed_t} {log : List SignalEvent},
    a ∈ f.core.live → trace a f es = some (log, f') → Unwinds (aside f.core a) log := by
  induction es with
  | nil =>
    intro f f' log _ h
    cases h
    trivial
  | cons e es ih =>
    intro f f' log ha h
    obtain ⟨f1, h1, h⟩ := Option.bind_eq_some_iff.mp h
    split at h
    swap
    · cases h
    rename_i ha1
    obtain ⟨⟨log1, f2⟩, hrest, h⟩ := Option.map_eq_some_iff.mp h
    cases h
    apply (framed_handler_follows ha ha1.2 h1).unwinds
    have hlive : a ∈ (framed_leave f1 (entry_esp f.core)).core.live := by
      show a ∈ (leave_interrupt f1.core _).live
      rw [left_live]
      exact ha1.1
    have hrec := ih hlive hrest
    rw [show aside (framed_leave f1 (entry_esp f.core)).core a = aside f1.core a from
      aside_left f1.core _ a] at hrec
    exact hrec

/-! ## Evaluation -/

/-- A number that is computed before it is used. -/
def force {α : Type} (n : Nat) (g : Nat → α) : α :=
  match n with
  | 0 => g 0
  | n + 1 => g (n + 1)

theorem force_eq {α : Type} (n : Nat) (g : Nat → α) : force n g = g n := by
  cases n <;> rfl

/-- A frame whose words are computed before it is used. -/
def with_frame {α : Type} (r : register_interrupt_data_t) (g : register_interrupt_data_t → α) : α :=
  force r.gs fun gs => force r.fs fun fs => force r.es fun es => force r.ds fun ds =>
  force r.edi fun edi => force r.esi fun esi => force r.ebp fun ebp => force r.ebx fun ebx =>
  force r.edx fun edx => force r.ecx fun ecx => force r.eax fun eax =>
  force r.interrupt_index fun interrupt_index => force r.error_code fun error_code =>
  force r.eip fun eip => force r.cs fun cs => force r.eflags fun eflags =>
  force r.useresp fun useresp => force r.ss fun ss =>
    g ⟨gs, fs, es, ds, edi, esi, ebp, ebx, edx, ecx, eax, interrupt_index, error_code, eip, cs,
      eflags, useresp, ss⟩

theorem with_frame_eq {α : Type} (r : register_interrupt_data_t)
    (g : register_interrupt_data_t → α) : with_frame r g = g r := by
  simp only [with_frame, force_eq]

theorem set_frame_same (frames : Nat → register_interrupt_data_t) (a : Nat) :
    set_frame frames a (frames a) = frames := by
  funext b
  unfold set_frame
  split
  · rename_i h
    rw [h]
  · rfl

/-- The same with the frames of these tasks. -/
def with_frames {α : Type} (f : framed_t) (g : framed_t → α) : List Nat → α
  | [] => g f
  | b :: bs => with_frame (f.frames b) fun r =>
      with_frames f (fun f => g { f with frames := set_frame f.frames b r }) bs

theorem with_frames_eq {α : Type} (f : framed_t) (bs : List Nat) :
    ∀ (g : framed_t → α), with_frames f g bs = g f := by
  induction bs with
  | nil => exact fun g => rfl
  | cons b bs ih =>
    intro g
    rw [with_frames, with_frame_eq, ih]
    rw [set_frame_same]

/-- `framed_handler`, with the frame of the target computed first. -/
def strict_handler (f : framed_t) : Event → Option framed_t
  | .syscall data answers =>
    with_frame (pushed f data (kill_name (load_execution f.core data))) fun r =>
      (handler f.core (.syscall data (told (fun _ => r) 0 answers))).map fun k =>
        ⟨k, frames_after f (.syscall data answers)⟩
  | e => framed_handler f e

theorem strict_handler_eq (f : framed_t) (e : Event) : strict_handler f e = framed_handler f e := by
  cases e with
  | syscall data answers =>
    simp only [strict_handler, with_frame_eq]
    rfl
  | _ => rfl

/-- `trace`, with the frames of the tasks `bs` computed after each interrupt. -/
def strict_trace (bs : List Nat) (a : Nat) (f : framed_t) :
    List Event → Option (List SignalEvent × framed_t)
  | [] => some ([], f)
  | e :: es => (strict_handler f e).bind fun f1 =>
    if Unharmed a f f1 then
      (with_frames (framed_leave f1 (entry_esp f.core)) (fun f2 => strict_trace bs a f2 es) bs).map
        fun r => ((signal_event f a e).toList ++ r.1, r.2)
    else none

theorem strict_trace_eq (bs : List Nat) (a : Nat) (es : List Event) :
    ∀ f, strict_trace bs a f es = trace a f es := by
  induction es with
  | nil => exact fun f => rfl
  | cons e es ih =>
    intro f
    simp only [strict_trace, trace, strict_handler_eq, with_frames_eq, ih]

/-- The registers of a program that makes a call. -/
def userRegisters (eip useresp eax ebx ecx : Nat) : register_interrupt_data_t :=
  { registers eax ebx ecx 0 with
    eip := eip
    useresp := useresp
    cs := TASK_MANAGER_USER_CODE_SELECTOR
    ss := TASK_MANAGER_USER_DATA_SELECTOR
    eflags := 0x202 }

/-- The running task sets a handler for signal 10. -/
def setsHandler : Event :=
  .syscall (userRegisters 0x8048100 0xBFFFC000 SYSCALL_SIGACTION 10 0x8050000)
    { noAnswers with value := 0x8048800 }

/-- The running task sends signal 10 to a task. -/
def kills (pid eip useresp : Nat) : Event :=
  .syscall (userRegisters eip useresp SYSCALL_KILL pid 10) noAnswers

/-- A handler that was started on this stack returns through the trampoline. -/
def handlerReturns (useresp : Nat) : Event :=
  .syscall (userRegisters (useresp - 2) (useresp - 13) SYSCALL_SIGRETURN 0 0) noAnswers

def emptyFrames : Nat → register_interrupt_data_t := fun _ => register_interrupt_data_t.ofWords fun _ => 0

/-- The deliveries and returns of a task after the boot and these interrupts. -/
def logOf (a : Nat) (is : List Interrupt) (es : List Event) : Option (List SignalEvent) :=
  (run smallBoot is).bind fun k =>
    (strict_trace [taskAt 1, taskAt 2] a ⟨k, emptyFrames⟩ es).map Prod.fst

theorem logOf_trace {is : List Interrupt} {es : List Event} {log : List SignalEvent}
    (h : logOf a is es = some log) :
    ∃ k f', run smallBoot is = some k ∧ trace a ⟨k, emptyFrames⟩ es = some (log, f') := by
  obtain ⟨k, hk, h⟩ := Option.bind_eq_some_iff.mp h
  rw [strict_trace_eq] at h
  obtain ⟨⟨log, f'⟩, ht, rfl⟩ := Option.map_eq_some_iff.mp h
  exact ⟨k, f', hk, ht⟩

theorem init_lives {k : kernel_t} (h : run smallBoot initRuns = some k) : taskAt 1 ∈ k.live := by
  have heval : (run smallBoot initRuns).map (fun k => decide (taskAt 1 ∈ k.live)) = some true := by
    decide +kernel
  rw [h] at heval
  exact of_decide_eq_true (Option.some.inj heval)

/-- The frames of two calls of `kill` by init, the second one in a handler, and those with which
the two handlers return. -/
def firstKill : register_interrupt_data_t := userRegisters 0x8048200 0xBFFFC000 SYSCALL_KILL 1 10
def secondKill : register_interrupt_data_t := userRegisters 0x8048810 0xBFFFBFD0 SYSCALL_KILL 1 10
def firstReturn : register_interrupt_data_t :=
  userRegisters 0xBFFFBFCE 0xBFFFBFC3 SYSCALL_SIGRETURN 0 0
def lastReturn : register_interrupt_data_t :=
  userRegisters 0xBFFFBFFE 0xBFFFBFF3 SYSCALL_SIGRETURN 0 0

/-! ## Nested handlers -/

theorem Unwinds.deliveries {log : List SignalEvent} (frames : List register_interrupt_data_t) :
    ∀ {s : register_interrupt_data_t × Bool} (hne : frames ≠ []),
      Unwinds s (frames.map SignalEvent.delivered ++ log) →
      Unwinds (frames.getLast hne, true) log := by
  induction frames with
  | nil => exact fun hne => absurd rfl hne
  | cons frame frames ih =>
    intro s hne h
    by_cases hf : frames = []
    · subst hf
      exact h
    · rw [List.getLast_cons hf]
      exact ih hf h

/-- Out of a handler a `sigreturn` leaves the registers. -/
theorem Unwinds.returns (returns : List (register_interrupt_data_t × register_interrupt_data_t)) :
    ∀ {frame : register_interrupt_data_t},
      Unwinds (frame, false) (returns.map fun r => SignalEvent.returned r.1 r.2) →
      returns.map Prod.snd = returns.map Prod.fst := by
  induction returns with
  | nil => exact fun _ => rfl
  | cons r returns ih =>
    intro frame h
    obtain ⟨h1, h2⟩ := h
    simp only [List.map_cons]
    rw [ih h2, h1]
    rfl

end alura_os.kernel
