-- Waiting for children: no task waits for a child that is dead already, as long as no
-- task ends while it has children and no two tasks share an id.
import AluraOs.KernelRuns

namespace alura_os.kernel

open alura_os.memory alura_os.task_manager alura_os.resource chains
open task_state_t task_wait_reason_t resource_result_t resource_type_t

variable {k k' : kernel_t} {order : List Nat} {ns : Nat → List Nat} {rules : Rules}

/-! ## The invariant -/

/-- The child `c` is what the task `a` waits for. -/
def Awaits (k : kernel_t) (a c : Nat) : Prop :=
  (k.tasks a).wait_object = (k.tasks c).task_id ∨ (k.tasks a).wait_object = ANY_CHILD

/-- No task waits for a child while it has a dead one that it waits for. -/
def NoneForgotten (k : kernel_t) : Prop :=
  ∀ a ∈ k.live, k.state a = TASK_STATE_BLOCKED → (k.tasks a).wait_reason = TASK_WAIT_REASON_CHILD →
    ∀ c ∈ k.live, (k.tasks c).parent = a → k.state c = TASK_STATE_ZOMBIE → ¬ Awaits k a c

def IdsDiffer (k : kernel_t) : Prop :=
  ∀ a ∈ k.live, ∀ b ∈ k.live, (k.tasks a).task_id = (k.tasks b).task_id → a = b

/-- A fork gives an id that no task has. The counter of the ids wraps around at 2^32. -/
def freshIds : Rules :=
  { anything with fork := fun k _ => ∀ a ∈ k.live, (k.tasks a).task_id ≠ k.task_id }

/-- Tasks may end, but none starts to wait for a child, and none dies. -/
structure Quieter (k k' : kernel_t) : Prop where
  live : ∀ a ∈ k'.live, a ∈ k.live
  blocked : ∀ a ∈ k'.live, k'.state a = TASK_STATE_BLOCKED →
    (k'.tasks a).wait_reason = TASK_WAIT_REASON_CHILD →
    k.state a = TASK_STATE_BLOCKED ∧ (k.tasks a).wait_reason = TASK_WAIT_REASON_CHILD ∧
      (k'.tasks a).wait_object = (k.tasks a).wait_object
  zombie : ∀ a ∈ k'.live, k'.state a = TASK_STATE_ZOMBIE → k.state a = TASK_STATE_ZOMBIE

/-- The same tasks, which wait and are dead as before. -/
theorem Quieter.of_eq (hl : k'.live = k.live)
    (ht : ∀ a, k'.state a = k.state a ∧ (k'.tasks a).wait_reason = (k.tasks a).wait_reason ∧
      (k'.tasks a).wait_object = (k.tasks a).wait_object) : Quieter k k' := by
  refine ⟨fun a ha => hl ▸ ha, ?_, ?_⟩
  · intro a _ hb hr
    obtain ⟨h1, h2, h3⟩ := ht a
    exact ⟨h1.symm.trans hb, h2.symm.trans hr, h3⟩
  · intro a _ hz
    exact (ht a).1.symm.trans hz

/-- A task changes, and does not start to wait for a child, nor dies. -/
theorem Quieter.of_setTask {a : Nat} {t : task_t}
    (hb : t.task_state = TASK_STATE_BLOCKED → t.wait_reason = TASK_WAIT_REASON_CHILD →
      k.state a = TASK_STATE_BLOCKED ∧ (k.tasks a).wait_reason = TASK_WAIT_REASON_CHILD ∧
        t.wait_object = (k.tasks a).wait_object)
    (hz : t.task_state = TASK_STATE_ZOMBIE → k.state a = TASK_STATE_ZOMBIE) :
    Quieter k (k.setTask a t) := by
  have hself : (k.setTask a t).tasks a = t := Function.update_self _ _ _
  have hother : ∀ {b}, b ≠ a → (k.setTask a t).tasks b = k.tasks b :=
    fun h => Function.update_of_ne h _ _
  refine ⟨fun _ h => h, ?_, ?_⟩
  · intro b _ hbl hr
    unfold kernel_t.state at hbl
    by_cases h : b = a
    · subst h
      rw [hself] at hbl hr ⊢
      exact hb hbl hr
    · rw [hother h] at hbl hr ⊢
      exact ⟨hbl, hr, rfl⟩
  · intro b _ hbz
    unfold kernel_t.state at hbz
    by_cases h : b = a
    · subst h
      rw [hself] at hbz
      exact hz hbz
    · rw [hother h] at hbz
      exact hbz

theorem Act.task_id (ht : Tree k order ns) (hact : Act rules k k') {a : Nat} (ha : a ∈ k.live)
    (ha' : a ∈ k'.live) : (k'.tasks a).task_id = (k.tasks a).task_id :=
  congrArg (fun l => l.1) (hact.lasting ht ha ha')

/-- Ids stay different when no task is new. -/
theorem IdsDiffer.act (h : IdsDiffer k) (ht : Tree k order ns) (hact : Act rules k k')
    (hl : ∀ a ∈ k'.live, a ∈ k.live) : IdsDiffer k' := by
  intro a ha b hb he
  rw [hact.task_id ht (hl a ha) ha, hact.task_id ht (hl b hb) hb] at he
  exact h a (hl a ha) b (hl b hb) he

/-- None is forgotten when no task starts to wait or dies. -/
theorem Quieter.keep (h : Quieter k k') (ht : Tree k order ns) (hact : Act rules k k')
    (hn : NoneForgotten k) : NoneForgotten k' := by
  intro a ha hb hr c hc hp hz haw
  obtain ⟨hb0, hr0, ho⟩ := h.blocked a ha hb hr
  have hpar : (k'.tasks c).parent = (k.tasks c).parent :=
    congrArg (fun l => l.2.1) (hact.lasting ht (h.live c hc) hc)
  apply hn a (h.live a ha) hb0 hr0 c (h.live c hc) (hpar.symm.trans hp) (h.zombie c hc hz)
  unfold Awaits at haw ⊢
  rw [ho, hact.task_id ht (h.live c hc) hc] at haw
  exact haw

/-! ## What starts a wait, and what ends a task -/

/-- A task that starts to wait has no dead child that it would wait for. -/
theorem nobody_waited_for (ht : Tree k order ns) (hi : IdsDiffer k)
    (horphan : (k.tasks k.idle).parent = 0) (hc : k.current ∈ k.live) {pid c : Nat}
    (hf : find_waited k pid = some 0) (hl : c ∈ k.live) (hp : (k.tasks c).parent = k.current)
    (hz : k.state c = TASK_STATE_ZOMBIE) : ¬ (pid = (k.tasks c).task_id ∨ pid = ANY_CHILD) := by
  have hidle : c ≠ k.idle := by
    rintro rfl
    rw [horphan] at hp
    exact Spread.ne_zero ht.spread hc hp.symm
  have hm : c ∈ k.held (ns k.current) :=
    (ht.children _ hc c).mpr ⟨(ht.mem c).mpr ⟨hl, hidle⟩, hp⟩
  unfold find_waited at hf
  split at hf
  · obtain ⟨-, hall⟩ | ⟨h0, -⟩ := ht.find_node_cases hc hf
    · have hnot := hall c hm
      exact absurd hz (of_decide_eq_false hnot)
    · exact absurd rfl h0
  · rename_i hany
    rintro (rfl | h)
    swap
    · exact hany h
    obtain ⟨r, hr, hlast⟩ := Option.bind_eq_some_iff.mp hf
    obtain ⟨rfl, hall⟩ | ⟨h0, hrm, hrid⟩ := ht.find_node_cases hc hr
    · exact of_decide_eq_false (hall c hm) rfl
    · have hrl := ht.held_live hc hrm
      obtain rfl : r = c := hi r hrl c hl (by simpa using hrid)
      rw [if_neg (by simp [hz])] at hlast
      exact h0 (Option.some.inj hlast)

/-- A parent that still waits after an exit did not wait for the task that ended. -/
theorem exited_cases (ht : Tree k order ns) {a : Nat} (ha : a ∈ k.live) (hid : a ≠ k.idle)
    {b : Nat} (hbl : b ∈ k.live) :
    ((exited k a).state b = TASK_STATE_BLOCKED → k.state b = TASK_STATE_BLOCKED ∧ b ≠ a ∧
      ((k.tasks a).parent = b → ¬ waits_for k b a)) ∧
    ((exited k a).state b = TASK_STATE_ZOMBIE → b = a ∨ k.state b = TASK_STATE_ZOMBIE) := by
  have hpar := ht.parent_ne ha hid
  let k1 := k.setState a TASK_STATE_ZOMBIE
  have h1 : ∀ c, c ≠ a → k1.state c = k.state c := fun c hc => state_setState_ne k _ hc
  have hself : k1.state a = TASK_STATE_ZOMBIE := state_setState k a _
  have hwaits : waits_for k1 (k.tasks a).parent a = waits_for k (k.tasks a).parent a := by
    have hother : k1.tasks (k.tasks a).parent = k.tasks (k.tasks a).parent :=
      Function.update_of_ne hpar _ _
    have hid1 : (k1.tasks a).task_id = (k.tasks a).task_id := by
      simp [k1, kernel_t.setState, kernel_t.setTask]
    unfold waits_for
    rw [h1 _ hpar, hother, hid1]
  have hdef : exited k a = if (k.tasks a).parent ≠ 0 ∧ waits_for k1 (k.tasks a).parent a then
      k1.setState (k.tasks a).parent TASK_STATE_READY else k1 := rfl
  rw [hdef]
  split
  · rename_i hw
    by_cases hb : b = (k.tasks a).parent
    · rw [hb, state_setState]
      exact ⟨fun h => (by cases h), fun h => (by cases h)⟩
    · rw [state_setState_ne _ _ hb]
      by_cases hba : b = a
      · rw [hba, hself]
        exact ⟨fun h => (by cases h), fun _ => Or.inl rfl⟩
      · rw [h1 b hba]
        exact ⟨fun h => ⟨h, hba, fun he => absurd he.symm hb⟩, Or.inr⟩
  · rename_i hw
    by_cases hba : b = a
    · rw [hba, hself]
      exact ⟨fun h => (by cases h), fun _ => Or.inl rfl⟩
    · rw [h1 b hba]
      refine ⟨fun h => ⟨h, hba, ?_⟩, Or.inr⟩
      rintro rfl hwait
      rw [← hwaits] at hwait
      exact hw ⟨Spread.ne_zero ht.spread hbl, hwait⟩

/-- What a run keeps: the ids differ, the idle task is nobody's child, and none is forgotten. -/
structure Watchful (k : kernel_t) : Prop where
  ids : IdsDiffer k
  orphan : (k.tasks k.idle).parent = 0
  none_forgotten : NoneForgotten k

theorem Booted.watchful (h : Booted k) : Watchful k := by
  refine ⟨?_, h.orphan, ?_⟩
  · intro a ha b hb he
    obtain ⟨h0, h1, -⟩ := h.ids
    rcases (h.live a).mp ha with rfl | rfl <;> rcases (h.live b).mp hb with rfl | rfl
    · rfl
    · rw [h0, h1] at he
      cases he
    · rw [h0, h1] at he
      cases he
    · rfl
  · intro a ha hb
    obtain ⟨q, hq⟩ := h.settled
    rcases (h.live a).mp ha with rfl | rfl
    · rw [hq.idle_runs] at hb
      cases hb
    · rw [h.ready] at hb
      cases hb

theorem Watchful.waits (h : Watchful k) (ht : Tree k order ns) {pid : Nat} (hc : k.current ∈ k.live)
    (hf : find_waited k pid = some 0) : NoneForgotten (waiting k k.current TASK_WAIT_REASON_CHILD pid) := by
  have hself : (waiting k k.current TASK_WAIT_REASON_CHILD pid).tasks k.current =
      { k.tasks k.current with
        task_state := TASK_STATE_BLOCKED
        wait_object := pid
        wait_reason := TASK_WAIT_REASON_CHILD } := Function.update_self _ _ _
  have hother : ∀ {b}, b ≠ k.current →
      (waiting k k.current TASK_WAIT_REASON_CHILD pid).tasks b = k.tasks b :=
    fun hb => Function.update_of_ne hb _ _
  intro a ha hb hr c hcl hp hz
  have hcne : c ≠ k.current := by
    rintro rfl
    unfold kernel_t.state at hz
    rw [hself] at hz
    cases hz
  unfold kernel_t.state at hb hz
  unfold Awaits
  rw [hother hcne] at hp hz ⊢
  by_cases hac : a = k.current
  · subst hac
    rw [hself]
    exact nobody_waited_for ht h.ids h.orphan hc hf hcl hp hz
  · rw [hother hac] at hb hr ⊢
    exact h.none_forgotten a ha hb hr c hcl hp hz

theorem Watchful.exits (h : Watchful k) (ht : Tree k order ns) {a : Nat} (ha : a ∈ k.live)
    (hid : a ≠ k.idle) : NoneForgotten (exited k a) := by
  have hlive := exited_live k a
  intro b hb hblocked hr c hc hp hz haw
  rw [hlive] at hb hc
  obtain ⟨sb, hsb⟩ := exited_task k a b
  obtain ⟨sc, hsc⟩ := exited_task k a c
  obtain ⟨hb0, -, hnot⟩ := (exited_cases ht ha hid hb).1 hblocked
  unfold Awaits at haw
  rw [hsb] at hr haw
  rw [hsc] at hp haw
  rcases (exited_cases ht ha hid hc).2 hz with rfl | hz0
  · apply hnot hp
    unfold waits_for
    exact decide_eq_true ⟨hb0, hr, haw⟩
  · exact h.none_forgotten b hb hb0 hr c hc hp hz0 haw

theorem Watchful.forks (h : Watchful k) {child task_cr3 block : Nat} (hc : k.current ∈ k.live)
    (ht : TaskBlock k.live child) (hfresh : ∀ a ∈ k.live, (k.tasks a).task_id ≠ k.task_id) :
    IdsDiffer (forked k child task_cr3 block) ∧ NoneForgotten (forked k child task_cr3 block) := by
  have hne : child ≠ k.current := fun he => ht.fresh (he ▸ hc)
  have hlive := forked_live k child task_cr3 block
  obtain ⟨slots, hchild⟩ := forked_child k task_cr3 block hne
  have hother := fun a (ha : a ≠ child) => forked_others k task_cr3 block ha
  refine ⟨?_, ?_⟩
  · intro a ha b hb he
    rw [hlive, Finset.mem_insert] at ha hb
    by_cases hac : a = child <;> by_cases hbc : b = child
    · rw [hac, hbc]
    · obtain ⟨c1, c2, hbt⟩ := hother b hbc
      rw [hac, hchild, hbt] at he
      exact absurd he.symm (hfresh b (hb.resolve_left hbc))
    · obtain ⟨c1, c2, hat⟩ := hother a hac
      rw [hbc, hchild, hat] at he
      exact absurd he (hfresh a (ha.resolve_left hac))
    · obtain ⟨c1, c2, hat⟩ := hother a hac
      obtain ⟨d1, d2, hbt⟩ := hother b hbc
      rw [hat, hbt] at he
      exact h.ids a (ha.resolve_left hac) b (hb.resolve_left hbc) he
  · intro a ha hb hr c hcl hp hz
    rw [hlive, Finset.mem_insert] at ha hcl
    unfold kernel_t.state at hb hz
    have hac : a ≠ child := by
      rintro rfl
      rw [hchild] at hb
      cases hb
    have hcc : c ≠ child := by
      rintro rfl
      rw [hchild] at hz
      cases hz
    obtain ⟨c1, c2, hat⟩ := hother a hac
    obtain ⟨d1, d2, hct⟩ := hother c hcc
    unfold Awaits
    rw [hat] at hb hr ⊢
    rw [hct] at hp hz ⊢
    exact h.none_forgotten a (ha.resolve_left hac) hb hr c (hcl.resolve_left hcc) hp hz

theorem Watchful.of_quieter (h : Watchful k) (hq : Quieter k k') (ht : Tree k order ns)
    (hact : Act freshIds k k') : Watchful k' :=
  ⟨h.ids.act ht hact hq.live, hact.orphan ht h.orphan, hq.keep ht hact h.none_forgotten⟩

theorem Watchful.act (h : Watchful k) (ht : Tree k order ns) (hact : Act freshIds k k') :
    Watchful k' := by
  have hkeep : Quieter k k' → Watchful k' := fun hq => h.of_quieter hq ht hact
  have horphan := hact.orphan ht h.orphan
  have hids : (∀ a ∈ k'.live, a ∈ k.live) → IdsDiffer k' := h.ids.act ht hact
  cases hact with
  | same hv =>
    apply hkeep
    have hlive : k'.live = k.live := congrArg (fun k => k.live) hv
    refine ⟨fun a ha => hlive ▸ ha, ?_, fun a _ => (view_zombie hv a).mp⟩
    intro a _ hb hr
    have hp := view_task hv a
    have hr' : (k'.tasks a).wait_reason = (k.tasks a).wait_reason := congrArg (fun t => t.wait_reason) hp
    have ho : (k'.tasks a).wait_object = (k.tasks a).wait_object := congrArg (fun t => t.wait_object) hp
    exact ⟨(view_blocked hv a).mp hb, hr'.symm.trans hr, ho⟩
  | freed =>
    apply hkeep
    obtain ⟨frees, directories, he⟩ := destroy_queued_eq k
    rw [he]
    exact Quieter.of_eq rfl fun a => ⟨rfl, rfl, rfl⟩
  | pressed scancode =>
    apply hkeep
    refine ⟨fun _ ha => ha, ?_, ?_⟩
    · intro a _ hb hr
      obtain ⟨he, hs⟩ := awakened_task (buffered k scancode) TASK_WAIT_REASON_IO k.keyboard_address a
      rw [he] at hr ⊢
      rcases hs with hs | hs
      · exact ⟨hs.symm.trans hb, hr, rfl⟩
      · rw [hs] at hb
        cases hb
    · intro a _ hz
      obtain ⟨-, hs⟩ := awakened_task (buffered k scancode) TASK_WAIT_REASON_IO k.keyboard_address a
      rcases hs with hs | hs
      · exact hs.symm.trans hz
      · rw [hs] at hz
        cases hz
  | called data =>
    apply hkeep
    obtain ⟨hst, -⟩ := load_execution_rest k data
    refine Quieter.of_eq (by rw [hst]) fun a => ?_
    unfold kernel_t.state
    rw [hst]
    exact ⟨rfl, rfl, rfl⟩
  | @opened s type node flags block index result hl hr =>
    apply hkeep
    have hs := (register_only hr).1
    refine Quieter.of_eq hs.live fun a => ?_
    obtain ⟨slots, ha⟩ := hs.task a
    show (s.tasks a).task_state = _ ∧ (s.tasks a).wait_reason = _ ∧ (s.tasks a).wait_object = _
    rw [ha]
    exact ⟨rfl, rfl, rfl⟩
  | closed i =>
    apply hkeep
    have hs := (remove_only k.toStore k.current i).1
    refine Quieter.of_eq hs.live fun a => ?_
    obtain ⟨slots, ha⟩ := hs.task a
    unfold kernel_t.state
    rw [ha]
    exact ⟨rfl, rfl, rfl⟩
  | flagged => exact hkeep (Quieter.of_eq rfl fun a => ⟨rfl, rfl, rfl⟩)
  | took => exact hkeep (Quieter.of_eq rfl fun a => ⟨rfl, rfl, rfl⟩)
  | waitsKey => exact hkeep (Quieter.of_setTask (fun _ hr => by cases hr) fun hz => by cases hz)
  | waitsChild hc hf => exact ⟨hids fun _ ha => ha, horphan, h.waits ht hc hf⟩
  | retries => exact hkeep (Quieter.of_setTask (fun hb hr => ⟨hb, hr, rfl⟩) id)
  | finished => exact hkeep (Quieter.of_setTask (fun hb hr => ⟨hb, hr, rfl⟩) id)
  | handles => exact hkeep (Quieter.of_setTask (fun hb hr => ⟨hb, hr, rfl⟩) id)
  | @forked k1 child task_cr3 block _ hc _ _ hrule hd hb _ =>
    obtain ⟨directories, rfl⟩ := create_directory_eq hd
    have h1 : Watchful { k with directories := directories } := ⟨h.ids, h.orphan, h.none_forgotten⟩
    obtain ⟨hi, hn⟩ := h1.forks hc hb hrule
    exact ⟨hi, horphan, hn⟩
  | leaked hd =>
    obtain ⟨directories, rfl⟩ := create_directory_eq hd
    exact hkeep (Quieter.of_eq rfl fun a => ⟨rfl, rfl, rfl⟩)
  | @executed k1 task_cr3 _ loaded _ _ hd _ =>
    obtain ⟨directories, rfl⟩ := create_directory_eq hd
    apply hkeep
    refine Quieter.of_eq (executed_live _ _ _) fun a => ?_
    unfold kernel_t.state
    by_cases ha : a = k.current
    · have he := executed_self { k with directories := directories } task_cr3 loaded
      rw [ha, show k.current = ({ k with directories := directories } : kernel_t).current from rfl, he]
      exact ⟨rfl, rfl, rfl⟩
    · rw [executed_others { k with directories := directories } task_cr3 loaded ha]
      exact ⟨rfl, rfl, rfl⟩
  | exited hl hid _ =>
    exact ⟨hids fun a ha => exited_live k _ ▸ ha, horphan, h.exits ht hl hid⟩
  | @reaped child head _ _ _ hp hb hn =>
    apply hkeep
    have hne := ht.reaper_ne hp hb hn
    have hlive := (reaped_gone k head hne).live
    have hsame : ∀ a ∈ (kernel.reaped k child head).live, ∃ children tail,
        (kernel.reaped k child head).tasks a =
          { k.tasks a with children := children, children_tail := tail } := by
      intro a ha
      rw [hlive] at ha
      exact reaped_others k head hne (Finset.ne_of_mem_erase ha)
    refine ⟨fun a ha => Finset.mem_of_mem_erase (hlive ▸ ha), ?_, ?_⟩
    · intro a ha hb hr
      obtain ⟨c1, c2, he⟩ := hsame a ha
      unfold kernel_t.state at hb
      rw [he] at hb hr ⊢
      exact ⟨hb, hr, rfl⟩
    · intro a ha hz
      obtain ⟨c1, c2, he⟩ := hsame a ha
      unfold kernel_t.state at hz
      rw [he] at hz
      exact hz
  | roused => exact hkeep (Quieter.of_setTask (fun hb => by cases hb) fun hz => by cases hz)
  | reloaded => exact hkeep (Quieter.of_eq rfl fun a => ⟨rfl, rfl, rfl⟩)
  | switched esp hl hrun =>
    apply hkeep
    refine Quieter.of_eq (switched_live _ _ _) fun a => ?_
    obtain ⟨esp', he⟩ := switched_task k _ esp a
    unfold kernel_t.state
    rw [he]
    exact ⟨rfl, rfl, rfl⟩

/-! ## Runs -/

/-- A check that a fork gives a new id. -/
def gives_fresh_id (k : kernel_t) : Interrupt → Bool
  | .syscall data _ =>
    let k := load_execution k data
    decide (call k = SYSCALL_FORK → ∀ a ∈ k.live, (k.tasks a).task_id ≠ k.task_id)
  | _ => true

theorem gives_fresh_id_allowed (k : kernel_t) (i : Interrupt) (h : gives_fresh_id k i = true) :
    freshIds.Allow k i := by
  cases i with
  | syscall data =>
    have hfork : call (load_execution k data) = SYSCALL_FORK →
        ∀ a ∈ (load_execution k data).live, ((load_execution k data).tasks a).task_id ≠
          (load_execution k data).task_id := of_decide_eq_true h
    exact ⟨hfork, fun _ _ _ => trivial, fun _ _ => trivial, fun _ => trivial⟩
  | _ => trivial

/-- Init waits for any child, and its child goes on. -/
def initWaits : List Interrupt := initRuns ++ [forks 2, calls SYSCALL_WAITPID ANY_CHILD 0 0]

/-- While init waits for any child, the child of its child ends after a child of its own. -/
def deadGreatGrandchild : List Interrupt :=
  initWaits ++ [forks 3, calls SYSCALL_WAITPID 3 0 0, forks 4] ++ List.replicate 4 .timer ++
    [calls SYSCALL_EXIT 0 0 0, exitsWithChild 5 0]

end alura_os.kernel
