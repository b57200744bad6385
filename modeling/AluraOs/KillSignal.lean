-- A signal that no task can handle, ignore or outlive: `SIGKILL`. What it leaves of a task
-- with children is right as long as the heap has a node for each of them.
import AluraOs.SignalFrames

namespace alura_os.kernel

open alura_os.memory alura_os.task_manager alura_os.resource chains
open task_state_t task_wait_reason_t task_manager_result_t resource_result_t resource_type_t
open alura_os.elf_executable (SYSCALL_NSIG SYSCALL_SIG_DFL SYSCALL_SIG_IGN loaded_task)

variable {k k' : kernel_t} {q : Nat → List Nat} {order : List Nat} {ns : Nat → List Nat}
  {answers : Answers} {scope : Scope} {a : Nat}

/-! ## The handlers -/

/-- No task has a handler for `SIGKILL`. -/
def KillDefault (k : kernel_t) : Prop := ∀ a, (k.tasks a).signal_handlers 9 = SYSCALL_SIG_DFL

theorem KillDefault.keeps (h : KillDefault k) (hk : Keeps k k') : KillDefault k' := by
  intro a
  rw [← h a]
  exact congrArg (fun t => t.signal_handlers 9) (hk.tasks a)

theorem KillDefault.setTask (h : KillDefault k) {b : Nat} {t : task_t}
    (ht : t.signal_handlers 9 = SYSCALL_SIG_DFL) : KillDefault (k.setTask b t) :=
  forall_setTask (P := fun t => t.signal_handlers 9 = SYSCALL_SIG_DFL) h ht

theorem KillDefault.caller (h : KillDefault k) :
    (caller k).signal_handlers 9 = SYSCALL_SIG_DFL := h k.current

theorem KillDefault.inherited (h : KillDefault k) (task : Nat) :
    KillDefault (inherit_ticks k task) := by
  unfold inherit_ticks
  dsimp only
  split
  · exact h.setTask (h _)
  · exact h

theorem loaded_kill {t : task_t} (h : t.signal_handlers 9 = SYSCALL_SIG_DFL)
    (e_entry task_cr3 task_esp heap_start : Nat) :
    (loaded_task t e_entry task_cr3 task_esp heap_start).signal_handlers 9 = SYSCALL_SIG_DFL := by
  simp [loaded_task, h]

/-- The word of the handler for `SIGKILL`, in any task. -/
def kill_word (word : Nat × Nat) : Bool := word.2 = TASK_HANDLERS_WORD + 9

/-- No other word holds the handler. -/
theorem set_task_word_kill {t t' : task_t} {i v : Nat} (hi : i ≠ TASK_HANDLERS_WORD + 9)
    (h : set_task_word t i v = some t') : t'.signal_handlers 9 = t.signal_handlers 9 := by
  have hmap : ∀ {α : Type} {o : Option α} {f : α → task_t}, o.map f = some t' →
      (∀ x, (f x).signal_handlers 9 = t.signal_handlers 9) →
      t'.signal_handlers 9 = t.signal_handlers 9 := by
    intro α o f h hf
    obtain ⟨x, -, rfl⟩ := Option.map_eq_some_iff.mp h
    exact hf x
  have hhandler : TASK_HANDLERS_WORD ≤ i → 9 ≠ i - TASK_HANDLERS_WORD := by omega
  unfold set_task_word at h
  split at h
  case h_4 => exact hmap h fun _ => rfl
  case h_12 =>
    split at h
    · cases h
      rfl
    split at h
    · split at h
      case h_7 => exact hmap h fun _ => rfl
      all_goals
        cases h
        try rfl
    split at h
    · rename_i hlo _
      cases h
      have hne := hhandler (Nat.le_of_not_lt hlo)
      simp only [ne_eq, hne, not_false_eq_true, Function.update_of_ne]
    split at h
    · cases h
      rfl
    split at h
    · cases h
      rfl
    · cases h
  all_goals
    cases h
    rfl

theorem KillDefault.strays (h : KillDefault k) (hs : Strays k k')
    (hn : k'.hits kill_word = k.hits kill_word) : KillDefault k' := by
  obtain ⟨task, i, v, k1, hw, h1, rfl⟩ := hs.hits _ hn
  have hi : i ≠ TASK_HANDLERS_WORD + 9 := of_decide_eq_false hw
  unfold store_task_word at h1
  dsimp only at h1
  split at h1
  · obtain ⟨t, ht, rfl⟩ := Option.map_eq_some_iff.mp h1
    exact h.setTask ((set_task_word_kill hi ht).trans (h task))
  split at h1
  · cases h1
    exact h
  · cases h1
    exact h

theorem Change.killDefault (hc : Change scope k k') (hn : k'.hits kill_word = k.hits kill_word)
    (h : KillDefault k) : KillDefault k' := by
  cases hc with
  | stays hk => exact h.keeps hk.keeps
  | scheduled _ he => exact h.keeps (keeps_schedule he)
  | ticked =>
    unfold count_tick
    dsimp only
    split
    · exact h
    split
    · exact h.setTask (h _)
    · exact h.setTask (h _)
  | called data =>
    intro a
    rw [(load_execution_rest k data).1]
    exact h a
  | retries => exact h.setTask (h _)
  | finished => exact h.setTask (h _)
  | signalled => exact h.setTask (h _)
  | returned => exact h.setTask (h _)
  | handles hsig =>
    apply h.setTask
    simpa [Function.update_of_ne (Ne.symm hsig)] using h.caller
  | born =>
    rename_i child task_cr3 _ _
    exact forall_setTask (P := fun t => t.signal_handlers 9 = SYSCALL_SIG_DFL) (a := child) h
      (h k.current)
  | loaded => exact h.setTask (loaded_kill (h _) _ _ _ _)
  | inherited task => exact h.inherited task
  | freed => exact h
  | strayed hs => exact h.strays hs hn

theorem boot_killDefault {boot : Boot} (h : kernel_initialize boot = some k) : KillDefault k := by
  intro a
  refine boot_tasks (P := fun t => t.signal_handlers 9 = SYSCALL_SIG_DFL) ?_ rfl rfl rfl ?_ h a
  · intro t t' hb ht
    rw [← ht]
    exact congrArg (fun t => t.signal_handlers 9) hb
  · exact fun t loaded task_cr3 _ ht => loaded_kill ht _ _ _ _

theorem killDefault_left (h : KillDefault k) (esp : Nat) : KillDefault (leave_interrupt k esp) := by
  unfold leave_interrupt
  split
  swap
  · exact h
  unfold task_manager_task_switch
  dsimp only
  split
  · exact h
  · exact KillDefault.setTask (k := { k with task_manager := _ }) h (h _)

/-- In every run in which no store has hit the handler itself. -/
theorem AnyRun.killDefault {started : Boot → Prop} {exec : Loaded → Prop}
    {met : kernel_t → Interrupt → Prop} (h : AnyRun started exec met k)
    (hn : k.hits kill_word = 0) : KillDefault k := by
  induction h with
  | boot _ hb => exact boot_killDefault hb
  | step _ _ hl hr ih =>
    rw [interrupt_eq] at hr
    obtain ⟨k1, hk, rfl⟩ := Option.map_eq_some_iff.mp hr
    have hchanges := handler_changes hl hk
    have hn1 : k1.hits kill_word = 0 := (congrArg (List.countP _) (left_strays k1 _)).symm.trans hn
    have hle := hchanges.hits kill_word
    apply killDefault_left
    exact hchanges.keep_unhit kill_word (fun _ _ hc hn => hc.killDefault hn) (by omega)
      (ih (by omega))

theorem Run.any {rules : Rules} (h : Run rules k) :
    AnyRun (fun _ => True) (fun _ => True) (fun _ _ => True) k := by
  induction h with
  | boot hb => exact AnyRun.boot trivial hb
  | step _ _ _ hr ih => exact AnyRun.step ih trivial (Loads.any _ _) hr

/-! ## The children of a killed task -/

/-- The heap gives a node for each child of a list: a block that is not in use. The old node of a
child is freed before the next one is asked for. -/
def Supplied : Finset Nat → List Nat → List (Nat × Nat) → Prop
  | _, [], _ => True
  | _, _ :: _, [] => False
  | node_blocks, n :: nodes, (block, _) :: blocks =>
    Block node_blocks block ∧ Supplied ((insert block node_blocks).erase n) nodes blocks

/-- The child of the node `head` goes to init, in the node `block`. -/
def handed (k : kernel_t) (head block junk : Nat) : kernel_t :=
  let child := (k.nodes head).task
  let k1 := k.setParent child k.init
  ((k1.newNode block ⟨child, (k1.tasks k1.init).children, junk⟩).setChildren k1.init block).freeNode
    head

theorem reparent_step {n head block junk : Nat} {blocks : List (Nat × Nat)} (h0 : head ≠ 0)
    (hb : Block k.node_blocks block) :
    reparent_children (n + 1) ((block, junk) :: blocks) k head =
      reparent_children n blocks (handed k head block junk) (k.after head) := by
  rw [reparent_children, if_neg h0]
  dsimp only
  rw [if_neg hb.1, if_pos (show Block (k.setParent _ _).node_blocks block from hb)]
  rfl

theorem handed_nodes (k : kernel_t) {head block : Nat} (junk : Nat) {x : Nat} (hx : x ≠ block) :
    (handed k head block junk).nodes x = k.nodes x := by
  simp [handed, kernel_t.freeNode, kernel_t.setChildren, kernel_t.newNode, kernel_t.setParent,
    kernel_t.setTask, Function.update_of_ne hx]

theorem handed_reparented (k : kernel_t) (head block junk : Nat) (ha : a ≠ (k.nodes head).task) :
    Reparented k (handed k head block junk) a := by
  have h1 : Reparented k (k.setParent (k.nodes head).task k.init) a := by
    refine ⟨?_, ?_, rfl, rfl⟩
    · intro b
      by_cases hb : b = (k.nodes head).task
      · subst hb
        exact ⟨k.init, (k.tasks (k.nodes head).task).children, by
          simp [kernel_t.setParent, kernel_t.setTask]⟩
      · exact ⟨(k.tasks b).parent, (k.tasks b).children, by
          simp [kernel_t.setParent, kernel_t.setTask, hb]⟩
    · simp [kernel_t.setParent, kernel_t.setTask, ha]
  have h2 := Reparented.setChildren (k.setParent (k.nodes head).task k.init) k.init block a
  have h3 := h1.trans h2
  exact ⟨h3.tasks, h3.parent, h3.live, h3.manager⟩

/-- The nodes of the children of a task, from the first to the last. -/
def ChildNodes (k : kernel_t) (a : Nat) (xs : List Nat) : Prop :=
  Path k.after (k.tasks a).children xs 0 ∧ 0 ∉ xs

theorem reparent_spec (xs : List Nat) : ∀ {n head : Nat} {blocks : List (Nat × Nat)} {k : kernel_t},
    Path k.after head xs 0 → xs.Nodup → (∀ x ∈ xs, x ∈ k.node_blocks) → 0 ∉ xs → xs.length < n →
    a ∉ k.held xs → Supplied k.node_blocks xs blocks →
    ∃ k', reparent_children n blocks k head = some (k', true) ∧ Reparented k k' a := by
  induction xs with
  | nil =>
    intro n head blocks k hp _ _ _ hn _ _
    obtain rfl : head = 0 := hp
    obtain ⟨n, rfl⟩ := Nat.exists_eq_add_of_lt hn
    exact ⟨k, by simp [reparent_children], Reparented.refl k a⟩
  | cons x xs ih =>
    intro n head blocks k hp hnd hin h0 hn ha hs
    obtain ⟨rfl, hp⟩ := hp
    obtain ⟨hx, hnd⟩ := List.nodup_cons.mp hnd
    cases blocks with
    | nil => exact hs.elim
    | cons b blocks =>
      obtain ⟨block, junk⟩ := b
      obtain ⟨hb, hs⟩ := hs
      obtain ⟨n, rfl⟩ : ∃ m, n = m + 1 := ⟨n - 1, by omega⟩
      simp only [List.mem_cons, not_or] at h0
      simp only [kernel_t.held, List.map_cons, List.mem_cons, not_or] at ha
      -- The new node is none of those that are still to be walked.
      have hne : ∀ y ∈ xs, y ≠ block := by
        rintro y hy rfl
        exact hb.2.2 (hin y (List.mem_cons_of_mem _ hy))
      have hsame : ∀ y ∈ xs, (handed k head block junk).nodes y = k.nodes y :=
        fun y hy => handed_nodes k junk (hne y hy)
      have hpath : Path (handed k head block junk).after (k.after head) xs 0 := by
        apply (path_congr _).mpr hp
        intro y hy
        unfold kernel_t.after
        rw [hsame y hy]
      have hblocks : ∀ y ∈ xs, y ∈ (handed k head block junk).node_blocks := by
        intro y hy
        have hyh : y ≠ head := by
          rintro rfl
          exact hx hy
        exact Finset.mem_erase.mpr ⟨hyh, Finset.mem_insert_of_mem (hin y (List.mem_cons_of_mem _ hy))⟩
      have hheld : (handed k head block junk).held xs = k.held xs := by
        unfold kernel_t.held
        apply List.map_congr_left
        intro y hy
        rw [hsame y hy]
      obtain ⟨k', he, hr⟩ := ih (n := n) hpath hnd hblocks h0.2 (by simpa using hn)
        (hheld ▸ ha.2) hs
      rw [reparent_step (Ne.symm h0.1) hb]
      exact ⟨k', he, (handed_reparented k head block junk ha.1).trans hr⟩

/-- What is left of a task that was killed: it is dead with this code, and its parent does not wait
for it any more. -/
structure Ended (k k' : kernel_t) (a : Nat) (return_code : Int) : Prop where
  live : k'.live = k.live
  current : k'.current = k.current
  idle : k'.idle = k.idle
  zombie : k'.state a = TASK_STATE_ZOMBIE
  code : (k'.tasks a).return_code = return_code
  parent : (k.tasks a).parent ≠ 0 → waits_for k (k.tasks a).parent a = true →
    k'.state (k.tasks a).parent ≠ TASK_STATE_BLOCKED

theorem waits_for_reparented {k1 : kernel_t} {return_code : Int} (hb : k1.bare = k.bare)
    (hr : Reparented (condemned k1 a return_code) k' a) {parent : Nat} (hne : parent ≠ a) :
    waits_for k' parent a = waits_for k parent a := by
  obtain ⟨p, c, hp⟩ := hr.tasks parent
  obtain ⟨p', c', ha⟩ := hr.tasks a
  have hpar : k'.tasks parent = { k1.tasks parent with parent := p, children := c } := by
    simpa [condemned, kernel_t.setTask, hne] using hp
  have hid : (k'.tasks a).task_id = (k1.tasks a).task_id := by
    rw [ha]
    simp [condemned, kernel_t.setTask]
  have hbp := bare_task hb parent
  have h0 : (k'.tasks parent).task_state = (k.tasks parent).task_state := by
    rw [hpar]
    exact congrArg (fun t => t.task_state) hbp
  have h1 : (k'.tasks parent).wait_reason = (k.tasks parent).wait_reason := by
    rw [hpar]
    exact congrArg (fun t => t.wait_reason) hbp
  have h2 : (k'.tasks parent).wait_object = (k.tasks parent).wait_object := by
    rw [hpar]
    exact congrArg (fun t => t.wait_object) hbp
  have h3 : (k'.tasks a).task_id = (k.tasks a).task_id :=
    hid.trans (congrArg (fun t => t.task_id) (bare_task hb a))
  unfold waits_for kernel_t.state
  rw [h0, h1, h2, h3]

/-- A task ends, and the heap has a node for each of its children. -/
theorem exit_with_children (h : Calling k q order ns) (ha : a ∈ k.live) (hid : a ≠ k.idle)
    (hz : k.state a ≠ TASK_STATE_ZOMBIE) {xs : List Nat} {blocks : List (Nat × Nat)}
    (hxs : ChildNodes k a xs) (hs : Supplied k.node_blocks xs blocks)
    (return_code : Int) :
    ∃ k' q', task_manager_exit_task k a return_code blocks = some (k', TASK_MANAGER_RESULT_OK) ∧
      Ended k k' a return_code ∧ Queues k' q' (({k.idle, k.current} : Finset Nat).erase a) ∧
      Sorted k' q' ∧ SameLevels k k' (({k.idle, k.current} : Finset Nat).erase a) ∧
      (∀ b ∈ ({k.idle, k.current} : Finset Nat).erase a, k'.state b = k.state b) ∧
      k'.task_manager.task_needs_switching = k.task_manager.task_needs_switching := by
  have hlinked := h.tree.linked a ha
  obtain rfl : ns a = xs := path_unique hlinked.1 hxs.1 (h.tree.no_null ha) hxs.2
  have hown : a ∉ k.held (ns a) := by
    intro hm
    exact h.tree.parent_ne ha hid ((h.tree.children a ha a).mp hm).2
  have hre : ∀ k1, k1.bare = k.bare → ∃ k2,
      reparent_children ADDRESSES blocks (condemned k1 a return_code) (k1.tasks a).children =
        some (k2, true) ∧ Reparented (condemned k1 a return_code) k2 a := by
    intro k1 hb
    have hnodes : (condemned k1 a return_code).nodes = k.nodes := congrArg (fun k => k.nodes) hb
    have hblocks : (condemned k1 a return_code).node_blocks = k.node_blocks :=
      congrArg (fun k => k.node_blocks) hb
    have hchild : (k1.tasks a).children = (k.tasks a).children :=
      congrArg (fun t => t.children) (bare_task hb a)
    rw [hchild]
    apply reparent_spec (ns a)
    · unfold kernel_t.after
      rw [hnodes]
      exact hlinked.1
    · exact h.tree.nodes_nodup ha
    · rw [hblocks]
      exact h.tree.blocks a ha
    · exact h.tree.no_null ha
    · exact h.tree.length_lt ha
    · unfold kernel_t.held
      rw [hnodes]
      exact hown
    · rw [hblocks]
      exact hs
  choose! f hf using hre
  obtain ⟨k1, k', q', hb1, he, hb, hq, hsort, hl, hst, hza, hcode, hn⟩ := exit_general h.settled ha hid
    hz (h.tree.parent_live ha hid) return_code blocks (f := f) (fun k1 _ hb1 => hf k1 hb1)
  have hr := (hf k1 hb1).2.trans (Reparented.setChildren (f k1) a 0 a)
  let k3 := (f k1).setChildren a 0
  have hmanager : k'.task_manager.task_current = k1.task_manager.task_current ∧
      k'.task_manager.task_idle = k1.task_manager.task_idle := by
    have h1 : (roused k3 a).task_manager = k1.task_manager := (roused_rest k3 a).2.trans hr.manager
    rw [← h1]
    exact ⟨bare_current hb, bare_idle hb⟩
  refine ⟨k', q', he, ⟨?_, ?_, ?_, hza, hcode, ?_⟩, hq, hsort, hl, hst, hn⟩
  · have h1 : k1.live = k.live := bare_live hb1
    exact (bare_live hb).trans ((roused_rest k3 a).1.trans (hr.live.trans h1))
  · exact hmanager.1.trans (bare_current hb1)
  · exact hmanager.2.trans (bare_idle hb1)
  · intro hp0 hwaits
    have hne : (k.tasks a).parent ≠ a := h.tree.parent_ne ha hid
    have hpar : (k3.tasks a).parent = (k.tasks a).parent := by
      refine (hr.parent.trans ?_).trans (congrArg (fun t => t.parent) (bare_task hb1 a))
      simp [condemned, kernel_t.setTask, unlinked]
    have hwaits3 : waits_for k3 (k.tasks a).parent a = true :=
      (waits_for_reparented hb1 hr hne).trans hwaits
    rw [bare_state hb]
    show (roused k3 a).state _ ≠ _
    unfold roused
    rw [hpar, if_pos ⟨hp0, hwaits3⟩, state_setState]
    decide

theorem Ended.yielded {k1 k2 : kernel_t} {return_code : Int} (h : Ended k k1 a return_code)
    (hr : Rescheduled (memory_paging_destroy_queued k1) k2) : Ended k k2 a return_code := by
  obtain ⟨frees, directories, he⟩ := destroy_queued_eq k1
  rw [he] at hr
  refine ⟨?_, ?_, ?_, (hr.zombie a).mpr h.zombie, ?_, ?_⟩
  · exact (calm_live hr.calm).trans h.live
  · exact (congrArg (fun k => k.current) hr.calm).trans h.current
  · exact (calm_idle hr.calm).trans h.idle
  · exact (congrArg (fun t => t.return_code) (calm_task hr.calm a)).trans h.code
  · intro hp hwaits hblocked
    exact h.parent hp hwaits ((hr.blocked _).mp hblocked)

/-- The processor goes to another task if the dead one was the caller. -/
theorem ends_with_children (h : Calling k q order ns) (ha : a ∈ k.live) (hid : a ≠ k.idle)
    (hz : k.state a ≠ TASK_STATE_ZOMBIE) {xs : List Nat} (hxs : ChildNodes k a xs)
    (hs : Supplied k.node_blocks xs answers.node_blocks) (return_code : Int) :
    ∃ k', exit_and_yield k a return_code answers = some k' ∧ Ended k k' a return_code ∧
      ∃ q', Settled k' q' k'.runs := by
  obtain ⟨k1, q1, he1, hend, hq1, hs1, hl1, hst1, hn1⟩ :=
    exit_with_children h ha hid hz hxs hs return_code
  unfold exit_and_yield
  rw [he1]
  by_cases hself : a = k.current
  · rw [hself, h.erase_self] at hq1 hst1
    have hset : Settled k1 q1 k1.idle := h.idles hend.idle hend.live hq1 hs1 (hst1 _ (by simp))
    have hdead : k1.state k1.current ≠ TASK_STATE_RUNNING := by
      rw [hend.current, ← hself, hend.zombie]
      decide
    have hc1 : k1.current ≠ 0 := by
      rw [hend.current]
      exact h.ne_zero
    obtain ⟨k2, q2, he2, hr2, hs2⟩ := yield_spec hset hc1 (hn1.trans h.needs) (Or.inr ⟨rfl, hdead⟩)
    refine ⟨k2, ?_, ?_, q2, hs2⟩
    · show (if a = k.current then _ else _) = _
      rw [if_pos hself]
      exact he2
    · exact hend.yielded hr2
  · have herase : ({k.idle, k.current} : Finset Nat).erase a = {k.idle, k.current} := by
      apply Finset.erase_eq_of_notMem
      simp [hid, hself]
    rw [herase] at hq1 hst1 hl1
    have hset : Settled k1 q1 k.current := h.settled.move hend.idle hend.live hst1 hq1 hs1 hl1
    have hruns : k1.runs = k.current := by
      unfold kernel_t.runs
      rw [hn1, h.needs]
      exact hend.current
    refine ⟨k1, ?_, hend, q1, hruns ▸ hset⟩
    show (if a = k.current then _ else _) = _
    rw [if_neg hself]
    rfl

/-! ## The signal -/

/-- The call in progress is `kill(pid, SIGKILL)`, and `pid` is this task, which is not dead. -/
structure KillsForGood (k : kernel_t) (target : Nat) : Prop where
  call : call k = SYSCALL_KILL
  pid : 0 < int32 (parameter k 0)
  sig : parameter k 1 = 9
  found : task_manager_find_task k (parameter k 0) = some target
  some : target ≠ 0
  state : k.state target = TASK_STATE_READY ∨ k.state target = TASK_STATE_RUNNING ∨
    k.state target = TASK_STATE_BLOCKED

theorem kill_ends (h : Calling k q order ns) (hd : KillDefault k) (hk : KillsForGood k a)
    {xs : List Nat} (hxs : ChildNodes k a xs) (hs : Supplied k.node_blocks xs answers.node_blocks) :
    ∃ k' eax, syscall_kill k answers = some (k', eax) ∧ Ended k k' a 9 ∧
      ∃ q', Settled k' q' k'.runs := by
  obtain ⟨t, ht, hfound, -⟩ := h.tree.find_task (parameter k 0)
  obtain rfl : t = a := Option.some.inj (ht.symm.trans hk.found)
  obtain ⟨hl, hid⟩ := (h.tree.mem t).mp (hfound hk.some).1
  have hz : k.state t ≠ TASK_STATE_ZOMBIE := by
    rcases hk.state with hst | hst | hst <;> rw [hst] <;> decide
  have hterm : k.state t ≠ TASK_STATE_TERMINATED := by
    rcases hk.state with hst | hst | hst <;> rw [hst] <;> decide
  obtain ⟨k', he, hend, hset⟩ := ends_with_children h hl hid hz hxs hs 9
  refine ⟨k', word SYSCALL_RESULT_OK, ?_, hend, hset⟩
  have hpid : ¬ int32 (parameter k 0) ≤ 0 := by
    have := hk.pid
    omega
  unfold syscall_kill
  dsimp only
  rw [hk.sig, if_neg hpid, if_neg (by decide), hk.found]
  show (if t = 0 then _ else _) = _
  rw [if_neg hk.some, if_neg (by decide), if_neg (by simp [hz, hterm])]
  unfold kill_target
  dsimp only
  rw [hd t, if_neg (by decide), if_pos rfl]
  show (exit_and_yield k t 9 answers).bind _ = _
  rw [he]
  rfl

/-- What the signal leaves: a dead task with code 9, in the queue of the dead only, and a parent that
does not wait for it any more. -/
structure KilledForGood (k k' : kernel_t) (q : Nat → List Nat) (target : Nat) : Prop where
  order : QueueOrder k' q
  zombie : k'.state target = TASK_STATE_ZOMBIE
  code : (k'.tasks target).return_code = 9
  queued : target ∈ q TASK_MANAGER_QUEUE_INDEX_ZOMBIE
  only : ∀ i < 6, target ∈ q i → i = TASK_MANAGER_QUEUE_INDEX_ZOMBIE
  parent : (k.tasks target).parent ≠ 0 → waits_for k (k.tasks target).parent target = true →
    k'.state (k.tasks target).parent ≠ TASK_STATE_BLOCKED ∧
      (k.tasks target).parent ∉ q TASK_MANAGER_QUEUE_INDEX_BLOCKED

/-- A task in the kernel is as it was, but for the stack pointer. -/
theorem left_task (k : kernel_t) (esp b : Nat) :
    ∃ task_esp, (leave_interrupt k esp).tasks b = { k.tasks b with task_esp := task_esp } := by
  unfold leave_interrupt
  split
  swap
  · exact ⟨_, rfl⟩
  unfold task_manager_task_switch
  dsimp only
  split
  · exact ⟨_, rfl⟩
  · by_cases hb : b = k.current
    · subst hb
      exact ⟨esp, by simp [kernel_t.setTask, kernel_t.current]⟩
    · exact ⟨(k.tasks b).task_esp, Function.update_of_ne hb _ _⟩

theorem Ended.left {k1 : kernel_t} {esp : Nat} (h : Ended k k1 a 9) (hs : Settled k1 q k1.runs)
    (ha : a ∈ k.live) : KilledForGood k (leave_interrupt k1 esp) q a := by
  have hstate : ∀ b, (leave_interrupt k1 esp).state b = k1.state b := by
    intro b
    obtain ⟨task_esp, he⟩ := left_task k1 esp b
    unfold kernel_t.state
    rw [he]
  have horder := (hs.left esp).queue_order
  have hzombie : (leave_interrupt k1 esp).state a = TASK_STATE_ZOMBIE := (hstate a).trans h.zombie
  have hmem : a ∈ q TASK_MANAGER_QUEUE_INDEX_ZOMBIE := by
    apply (horder.zombie a).mpr
    refine ⟨?_, hzombie⟩
    rw [left_live, h.live]
    exact ha
  refine ⟨horder, hzombie, ?_, hmem, fun i hi hm => ?_, fun hp hwaits => ?_⟩
  · obtain ⟨task_esp, he⟩ := left_task k1 esp a
    rw [he]
    exact h.code
  · exact horder.once i hi TASK_MANAGER_QUEUE_INDEX_ZOMBIE (by decide) a hm hmem
  · have hawake : (leave_interrupt k1 esp).state (k.tasks a).parent ≠ TASK_STATE_BLOCKED := by
      rw [hstate]
      exact h.parent hp hwaits
    exact ⟨hawake, fun hm => hawake ((horder.blocked _).mp hm).2⟩

theorem Ended.of_store {k0 k1 : kernel_t} {return_code : Int} (h : Ended k0 k1 a return_code)
    (hs : k0.toStore = k.toStore) (hm : k0.task_manager = k.task_manager) :
    Ended k k1 a return_code := by
  have htasks : k0.tasks = k.tasks := congrArg Store.tasks hs
  have hwaits : ∀ p, waits_for k0 p a = waits_for k p a := by
    intro p
    unfold waits_for kernel_t.state
    rw [htasks]
  refine ⟨?_, ?_, ?_, h.zombie, h.code, ?_⟩
  · rw [h.live, hs]
  · rw [h.current]
    exact congrArg (fun m => m.task_current) hm
  · rw [h.idle]
    exact congrArg (fun m => m.task_idle) hm
  · have hp := h.parent
    rw [htasks, hwaits] at hp
    exact hp

/-- Init forks a child and waits for it, and the child forks. -/
def childForks : List Interrupt :=
  initRuns ++ [forks 2, calls SYSCALL_WAITPID 2 0 0, forks 3]

/-- The child sends itself `SIGKILL`, and the heap gives this node for its own child. -/
def killsItself (block : Nat) : Interrupt :=
  .syscall (registers SYSCALL_KILL 2 9 0) { noAnswers with node_blocks := [(block, 0)] }

/-- The child is on the processor, has the child of the node `nodeAt 3`, and calls `kill` on itself;
init waits for it. -/
def child_kills_itself (k : kernel_t) : Bool :=
  let k1 := load_execution k (registers SYSCALL_KILL 2 9 0)
  k.current = taskAt 2 ∧ k.idle = taskAt 0 ∧ call k1 = SYSCALL_KILL ∧ 0 < int32 (parameter k1 0) ∧
    parameter k1 1 = 9 ∧ task_manager_find_task k1 (parameter k1 0) = some (taskAt 2) ∧
    k1.state (taskAt 2) = TASK_STATE_RUNNING ∧ (k.tasks (taskAt 2)).children = nodeAt 3 ∧
    (k.nodes (nodeAt 3)).next = 0 ∧ nodeAt 4 ∉ k.node_blocks ∧
    (k.tasks (taskAt 2)).parent = taskAt 1 ∧ waits_for k (taskAt 1) (taskAt 2)

theorem child_kills_itself_spec (h : child_kills_itself k = true) :
    k.current ≠ 0 ∧ k.current ≠ k.idle ∧
      KillsForGood (load_execution k (registers SYSCALL_KILL 2 9 0)) (taskAt 2) ∧
      ChildNodes k (taskAt 2) [nodeAt 3] ∧ nodeAt 4 ∉ k.node_blocks := by
  obtain ⟨hcur, hidle, hcall, hpid, hsig, hfound, hstate, hchild, hlast, hfresh, -, -⟩ :=
    of_decide_eq_true h
  refine ⟨?_, ?_, ⟨hcall, hpid, hsig, hfound, by decide, Or.inr (Or.inl hstate)⟩,
    ⟨⟨hchild, hlast⟩, by decide⟩, hfresh⟩
  · rw [hcur]
    decide
  · rw [hcur, hidle]
    decide

end alura_os.kernel
