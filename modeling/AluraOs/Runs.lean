-- Runs of the kernel: any number of interrupts, in any order, from the end of the
-- boot. Between two of them the queues hold exactly the tasks that do not run.
import AluraOs.SyscallLaws

namespace alura_os.kernel

open alura_os.memory alura_os.task_manager alura_os.resource chains
open task_state_t task_wait_reason_t task_manager_result_t resource_result_t resource_type_t

variable {k k' : kernel_t} {q : Nat → List Nat} {order : List Nat} {ns : Nat → List Nat}
  {rules : Rules} {cur : Nat}

/-! ## Between two interrupts -/

/-- Between two interrupts the current task runs. Before the first there is none, and the idle
task is to run next. -/
structure Between (k : kernel_t) (q : Nat → List Nat) (order : List Nat) (ns : Nat → List Nat) :
    Prop where
  settled : Settled k q k.runs
  tree : Tree k order ns
  phase : k.current = 0 ∧ k.task_manager.task_needs_switching = true ∧
      k.task_manager.task_next = k.idle ∨
    k.current ≠ 0 ∧ k.task_manager.task_needs_switching = false

theorem Between.runs_current (h : Between k q order ns) (hc : k.current ≠ 0) : k.runs = k.current := by
  rcases h.phase with ⟨h0, -⟩ | ⟨-, hn⟩
  · exact absurd h0 hc
  · unfold kernel_t.runs
    rw [hn]
    rfl

theorem Between.needs (h : Between k q order ns) (hc : k.current ≠ 0) :
    k.task_manager.task_needs_switching = false := by
  rcases h.phase with ⟨h0, -⟩ | ⟨-, hn⟩
  · exact absurd h0 hc
  · exact hn

theorem Between.calling (h : Between k q order ns) (hc : k.current ≠ 0) (hid : k.current ≠ k.idle) :
    Calling k q order ns := by
  have hs := h.settled
  rw [h.runs_current hc] at hs
  exact ⟨hs, h.tree, hid, h.needs hc⟩

theorem Between.holds (h : Between k q order ns) : Holds k k.runs := by
  by_cases hc : k.current = 0
  · exact Or.inl ⟨hc, rfl⟩
  · exact Or.inr ⟨hc, h.needs hc, Or.inl (h.runs_current hc)⟩

theorem Tree.acts (h : Tree k order ns) (ha : Acts rules k k') : ∃ order' ns', Tree k' order' ns' := by
  induction ha with
  | refl => exact ⟨order, ns, h⟩
  | tail _ hact ih =>
    obtain ⟨order1, ns1, h1⟩ := ih
    exact h1.act hact

/-! ## The end of an interrupt -/

theorem switch_view (k : kernel_t) (esp : Nat) :
    (task_manager_task_switch { k with task_manager := { k.task_manager with
      task_needs_switching := false } } esp).view =
      (switched k k.task_manager.task_next esp).view := by
  by_cases hc : k.current = 0
  · unfold task_manager_task_switch switched
    dsimp only
    rw [if_pos (show ({ k with task_manager := { k.task_manager with
      task_needs_switching := false } } : kernel_t).current = 0 from hc), if_pos hc]
    rfl
  · unfold task_manager_task_switch switched
    dsimp only
    rw [if_neg (show ¬ ({ k with task_manager := { k.task_manager with
      task_needs_switching := false } } : kernel_t).current = 0 from hc), if_neg hc]
    rfl

theorem switch_manager (k : kernel_t) (esp : Nat) :
    (task_manager_task_switch k esp).task_manager =
      { k.task_manager with task_current := k.task_manager.task_next } := by
  unfold task_manager_task_switch
  dsimp only
  split <;> rfl

theorem Settled.switch (h : Settled k q cur) (esp : Nat) :
    Settled (task_manager_task_switch k esp) q cur := by
  have h1 : Settled (if k.current = 0 then k
      else k.setTask k.current { k.tasks k.current with task_esp := esp }) q cur := by
    split
    · exact h
    · exact h.touch rfl rfl rfl
  exact h1.congr rfl rfl rfl rfl

theorem leave_interrupt_switch (hn : k.task_manager.task_needs_switching = true) (esp : Nat) :
    (leave_interrupt k esp).current = k.task_manager.task_next ∧
      (leave_interrupt k esp).task_manager.task_needs_switching = false := by
  unfold leave_interrupt
  rw [if_pos hn]
  have hm := switch_manager
    { k with task_manager := { k.task_manager with task_needs_switching := false } } esp
  exact ⟨congrArg (fun m => m.task_current) hm, congrArg (fun m => m.task_needs_switching) hm⟩

/-- The task that was to run runs. -/
theorem leave_interrupt_runs (k : kernel_t) (esp : Nat) : (leave_interrupt k esp).runs = k.runs := by
  by_cases hn : k.task_manager.task_needs_switching = true
  · obtain ⟨hcur, hneeds⟩ := leave_interrupt_switch hn esp
    unfold kernel_t.runs
    rw [hneeds, hcur, hn]
    rfl
  · unfold leave_interrupt
    rw [if_neg hn]

theorem Settled.left (h : Settled k q k.runs) (esp : Nat) :
    Settled (leave_interrupt k esp) q (leave_interrupt k esp).runs := by
  rw [leave_interrupt_runs]
  unfold leave_interrupt
  split
  · apply Settled.switch
    exact h.congr rfl rfl rfl rfl
  · exact h

/-- The processor goes to the task that was picked. -/
theorem leave_interrupt_spec (rules : Rules) (esp : Nat) (hs : ∃ q', Settled k q' k.runs)
    (hp : k.current = 0 → k.task_manager.task_needs_switching = true)
    (hesp : in_user_mode k → esp = sub32 k.esp0 72) :
    Acts rules k (leave_interrupt k esp) ∧
      (∃ q', Settled (leave_interrupt k esp) q' (leave_interrupt k esp).runs) ∧
      (leave_interrupt k esp).current ≠ 0 ∧
      (leave_interrupt k esp).task_manager.task_needs_switching = false := by
  obtain ⟨q', hs⟩ := hs
  refine ⟨?_, ⟨q', hs.left esp⟩, ?_⟩
  all_goals
    by_cases hn : k.task_manager.task_needs_switching = true
  · have hruns : k.runs = k.task_manager.task_next := by
      unfold kernel_t.runs
      rw [hn]
      rfl
    rw [hruns] at hs
    unfold leave_interrupt
    rw [if_pos hn]
    exact (Acts.single (Act.switched esp hs.live hs.running hesp)).trans (Acts.same (switch_view k esp))
  · unfold leave_interrupt
    rw [if_neg hn]
    exact Acts.refl k
  · obtain ⟨hcur, hneeds⟩ := leave_interrupt_switch hn esp
    refine ⟨?_, hneeds⟩
    have hruns := leave_interrupt_runs k esp
    unfold kernel_t.runs at hruns
    rw [hneeds] at hruns
    rw [show (leave_interrupt k esp).current = k.runs from hruns]
    exact hs.ne_zero
  · unfold leave_interrupt
    rw [if_neg hn]
    exact ⟨fun hc => hn (hp hc), by simpa using hn⟩

/-! ## One interrupt -/

theorem count_tick_spec (h : Settled k q cur) :
    (count_tick k).view = k.view ∧ (count_tick k).task_manager = k.task_manager ∧
      Settled (count_tick k) q cur := by
  unfold count_tick
  dsimp only
  split
  · exact ⟨rfl, rfl, h⟩
  split
  · exact ⟨view_touch rfl, rfl, h.touch rfl rfl rfl⟩
  · exact ⟨view_touch rfl, rfl, h.touch rfl rfl rfl⟩

theorem Holds.congr (h : Holds k cur) (hc : k.current = 0 ∨ cur = k.current)
    (hm : k'.task_manager = k.task_manager) : Holds k' cur := by
  have hcur : k'.current = k.current := congrArg (fun m => m.task_current) hm
  have hruns : k'.runs = k.runs := by
    unfold kernel_t.runs kernel_t.current
    rw [hm]
  rcases h with ⟨h0, hr⟩ | ⟨h0, hn, hcase⟩
  · exact Or.inl ⟨hcur.trans h0, hruns.trans hr⟩
  · refine Or.inr ⟨hcur.trans_ne h0, by rw [hm]; exact hn, Or.inl ?_⟩
    rw [hcur]
    exact hc.resolve_left h0

/-- A tick calls the scheduler with the queues in order. -/
theorem Between.ticks (h : Between k q order ns) :
    Settled (count_tick { k with timer_ticks := (k.timer_ticks + 1) % 2 ^ 64 }) q k.runs ∧
      Holds (count_tick { k with timer_ticks := (k.timer_ticks + 1) % 2 ^ 64 }) k.runs := by
  have hs1 : Settled { k with timer_ticks := (k.timer_ticks + 1) % 2 ^ 64 } q k.runs :=
    h.settled.congr rfl rfl rfl rfl
  obtain ⟨-, hm2, hs2⟩ := count_tick_spec hs1
  refine ⟨hs2, h.holds.congr ?_ hm2⟩
  by_cases hc : k.current = 0
  · exact Or.inl hc
  · exact Or.inr (h.runs_current hc)

theorem timer_spec (rules : Rules) (h : Between k q order ns) :
    ∃ k', timer_irq_handler k = some k' ∧ Acts rules k k' ∧ (∃ q', Settled k' q' k'.runs) ∧
      (k'.current = 0 → k'.task_manager.task_needs_switching = true) ∧ k'.current = k.current ∧
      Inside k k' := by
  let k1 : kernel_t := { k with timer_ticks := (k.timer_ticks + 1) % 2 ^ 64 }
  have hs1 : Settled k1 q k.runs := h.settled.congr rfl rfl rfl rfl
  obtain ⟨hv2, hm2, -⟩ := count_tick_spec hs1
  have hcur2 : (count_tick k1).current = k.current := congrArg (fun m => m.task_current) hm2
  obtain ⟨hs2, hholds⟩ := h.ticks
  obtain ⟨k', q', he, hr, hs', h0⟩ := schedule_spec hs2 hholds
  have hv' := view_of_rescheduled hr
  have hv1 : (count_tick k1).view = k.view := hv2
  obtain ⟨frees, directories, hd⟩ := destroy_queued_eq (count_tick k1)
  have hcur' : k'.current = k.current := by
    rw [view_current hv', hd]
    exact hcur2
  refine ⟨k', he, ?_, ⟨q', hs'⟩, ?_, hcur', ?_⟩
  · exact ((Acts.same hv1).tail (Act.freed _)).trans (Acts.same hv')
  · intro hc
    have hck : k.current = 0 := hcur'.symm.trans hc
    rw [h0 (hcur2.trans hck), hm2]
    rcases h.phase with ⟨-, hn, -⟩ | ⟨hc0, -⟩
    · exact hn
    · exact absurd hck hc0
  · have hi := Inside.of_view hv'
    rw [hd] at hi
    exact (Inside.of_view hv1).trans hcur2 ⟨hi.esp0, hi.user⟩

/-- The stub's pushes lie just below the top of the stack of a user task. -/
theorem Inside.entry_esp {k1 : kernel_t} (h : Inside k k1) (hc : k1.current = k.current)
    (hu : in_user_mode k1 = true) : entry_esp k = sub32 k1.esp0 72 := by
  have huser : in_user_mode k = true := by
    unfold in_user_mode at hu ⊢
    rw [hc, h.user] at hu
    exact hu
  unfold alura_os.kernel.entry_esp
  rw [if_pos huser, h.esp0]

/-- The end of an interrupt, whatever it was. -/
theorem Between.left (h : Tree k order ns) {k1 : kernel_t} (ha : Acts rules k k1)
    (hs : ∃ q', Settled k1 q' k1.runs)
    (hp : k1.current = 0 → k1.task_manager.task_needs_switching = true)
    (hcur : k1.current = k.current) (hi : Inside k k1) :
    Acts rules k (leave_interrupt k1 (entry_esp k)) ∧
      ∃ q' order' ns', Between (leave_interrupt k1 (entry_esp k)) q' order' ns' := by
  obtain ⟨ha2, ⟨q', hs'⟩, hc, hn⟩ :=
    leave_interrupt_spec rules (entry_esp k) hs hp (hi.entry_esp hcur)
  have ha3 := ha.trans ha2
  obtain ⟨order', ns', ht⟩ := h.acts ha3
  exact ⟨ha3, q', order', ns', ⟨hs', ht, Or.inr ⟨hc, hn⟩⟩⟩

/-- The kernel when the handler of an interrupt returns to its stub. -/
def handler (k : kernel_t) : Interrupt → Option kernel_t
  | .timer => timer_irq_handler k
  | .keyboard scancode => keyboard_irq_handler k scancode
  | .syscall data answers =>
    if k.current = 0 ∨ k.current = k.idle then none
    else (syscall_handler k data answers).map fun r => reloaded r.1
  | .exception interrupt_index answers =>
    if k.current = 0 ∨ k.current = k.idle then none
    else (exception_handler k interrupt_index answers).map reloaded

theorem interrupt_eq (k : kernel_t) (i : Interrupt) :
    interrupt k i = (handler k i).map fun k' => leave_interrupt k' (entry_esp k) := by
  cases i with
  | timer => rfl
  | keyboard => rfl
  | syscall =>
    simp only [interrupt, handler]
    split
    · rfl
    · rw [Option.map_map]
      rfl
  | exception =>
    simp only [interrupt, handler]
    split
    · rfl
    · rw [Option.map_map]
      rfl

/-- A handler leaves the queues in order, with the same task in the kernel. -/
theorem handler_spec (h : Between k q order ns) {i : Interrupt} (ho : Orderly k i)
    (ha : rules.Allow k i) (hr : handler k i = some k') :
    Acts rules k k' ∧ (∃ q', Settled k' q' k'.runs) ∧
      (k'.current = 0 → k'.task_manager.task_needs_switching = true) ∧ k'.current = k.current ∧
      Inside k k' := by
  cases i with
  | timer =>
    obtain ⟨k1, he, hspec⟩ := timer_spec rules h
    obtain rfl : k1 = k' := Option.some.inj (he.symm.trans hr)
    exact hspec
  | keyboard scancode =>
    obtain ⟨k1, q1, he, hb, hs⟩ := keyboard_spec h.settled scancode
    obtain rfl : k1 = k' := Option.some.inj (he.symm.trans hr)
    have hm := bare_runs hb
    have hcur := bare_current hb
    have hn := congrArg (fun k => k.task_manager.task_needs_switching) hb
    have hi : Inside k (awakened (buffered k scancode) TASK_WAIT_REASON_IO k.keyboard_address) := by
      refine ⟨rfl, ?_⟩
      rw [(awakened_task (buffered k scancode) _ _ k.current).1]
      rfl
    refine ⟨?_, ⟨q1, by rw [hm]; exact hs⟩, ?_, hcur, hi.trans rfl (Inside.of_view (view_of_bare hb))⟩
    · exact (Acts.single (Act.pressed k scancode)).trans (Acts.same (view_of_bare hb))
    · intro hc
      rcases h.phase with ⟨-, hneeds, -⟩ | ⟨hc0, -⟩
      · exact hn.trans hneeds
      · exact absurd (hcur.symm.trans hc) hc0
  | syscall data answers =>
    simp only [handler] at hr
    split at hr
    · cases hr
    rename_i hc
    rw [not_or] at hc
    obtain ⟨⟨k1, eax⟩, he, rfl⟩ := Option.map_eq_some_iff.mp hr
    have hd := syscall_handled (h.calling hc.1 hc.2) he ho ha
    obtain ⟨q1, hs⟩ := hd.settled
    refine ⟨hd.acts, ⟨q1, hs.congr rfl rfl rfl rfl⟩, ?_, hd.current, ⟨hd.inside.esp0, hd.inside.user⟩⟩
    intro h0
    exact absurd (hd.current.symm.trans h0) hc.1
  | exception interrupt_index answers =>
    simp only [handler] at hr
    split at hr
    · cases hr
    rename_i hc
    rw [not_or] at hc
    obtain ⟨k1, he, rfl⟩ := Option.map_eq_some_iff.mp hr
    have hd : Served rules k k1 := exception_served (h.calling hc.1 hc.2) he ho
    obtain ⟨q1, hs⟩ := hd.settled
    refine ⟨hd.acts.tail (Act.reloaded k1), ⟨q1, hs.congr rfl rfl rfl rfl⟩, ?_, hd.current,
      ⟨hd.inside.esp0, hd.inside.user⟩⟩
    intro h0
    exact absurd (hd.current.symm.trans h0) hc.1

/-- An interrupt leaves the queues and the tree in order. -/
theorem interrupt_spec (h : Between k q order ns) {i : Interrupt} (ho : Orderly k i)
    (ha : rules.Allow k i) (hr : interrupt k i = some k') :
    Acts rules k k' ∧ ∃ q' order' ns', Between k' q' order' ns' := by
  rw [interrupt_eq] at hr
  obtain ⟨k1, he, rfl⟩ := Option.map_eq_some_iff.mp hr
  obtain ⟨hacts, hs, hp, hcur, hi⟩ := handler_spec h ho ha he
  exact Between.left h.tree hacts hs hp hcur hi

end alura_os.kernel
