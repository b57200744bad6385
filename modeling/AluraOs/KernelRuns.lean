-- Runs of the kernel from its boot on. In a run in which no task ends while it has
-- children, the queues and the process tree are in order between all interrupts.
import AluraOs.Boot

namespace alura_os.kernel

open alura_os.memory alura_os.task_manager alura_os.resource chains
open task_state_t task_wait_reason_t resource_result_t resource_type_t
open alura_os.elf_executable (loaded_task)

variable {k k' : kernel_t} {q : Nat → List Nat} {order : List Nat} {ns : Nat → List Nat}
  {rules : Rules}

/-! ## What stays of a task -/

/-- No task reaps itself. -/
theorem Tree.reaper_ne (h : Tree k order ns) {child head : Nat} (hp : (k.tasks child).parent = k.current)
    (hb : head ∈ k.node_blocks) (ht : (k.nodes head).task = child) : k.current ≠ child := by
  obtain ⟨p, hpl, hhead⟩ := h.owned head hb
  obtain ⟨hco, -⟩ := h.parent_of_node hpl hhead
  rw [ht] at hco
  obtain ⟨hl, hid⟩ := (h.mem child).mp hco
  rw [← hp]
  exact h.parent_ne hl hid

/-- The fields that a task keeps as long as it lives. -/
def lasting (t : task_t) : Nat × Nat × Nat × Nat × Bool :=
  (t.task_id, t.parent, t.stack_base, t.stack_top, t.task_is_user)

theorem lasting_setTask {a : Nat} {t : task_t} (h : lasting t = lasting (k.tasks a)) (b : Nat) :
    lasting ((k.setTask a t).tasks b) = lasting (k.tasks b) := by
  by_cases hb : b = a
  · subst hb
    simpa [kernel_t.setTask] using h
  · simp [kernel_t.setTask, hb]

theorem queue_to_destroy_store (k : kernel_t) (d : Nat) :
    (memory_paging_queue_to_destroy k d).toStore = k.toStore := by
  unfold memory_paging_queue_to_destroy
  split <;> rfl

theorem executed_self (k : kernel_t) (task_cr3 : Nat) (loaded : Loaded) :
    (executed k task_cr3 loaded).tasks k.current =
      loaded_task (k.tasks k.current) loaded.e_entry task_cr3 loaded.task_esp loaded.heap_start := by
  unfold executed
  dsimp only
  rw [queue_to_destroy_store]
  exact Function.update_self _ _ _

theorem executed_others (k : kernel_t) (task_cr3 : Nat) (loaded : Loaded) {a : Nat}
    (ha : a ≠ k.current) : (executed k task_cr3 loaded).tasks a = k.tasks a := by
  unfold executed
  dsimp only
  rw [queue_to_destroy_store]
  exact Function.update_of_ne ha _ _

theorem executed_live (k : kernel_t) (task_cr3 : Nat) (loaded : Loaded) :
    (executed k task_cr3 loaded).live = k.live := by
  unfold executed
  dsimp only
  rw [queue_to_destroy_store]
  rfl

theorem switched_live (k : kernel_t) (new_task esp : Nat) :
    (switched k new_task esp).live = k.live := by
  unfold switched
  dsimp only
  split <;> rfl

theorem exited_live (k : kernel_t) (a : Nat) : (exited k a).live = k.live := by
  unfold exited
  dsimp only
  split <;> rfl

theorem switched_task (k : kernel_t) (new_task esp a : Nat) :
    ∃ esp', (switched k new_task esp).tasks a = { k.tasks a with task_esp := esp' } := by
  unfold switched
  dsimp only
  split
  · exact ⟨_, rfl⟩
  · by_cases ha : a = k.current
    · subst ha
      exact ⟨esp, Function.update_self _ _ _⟩
    · exact ⟨_, Function.update_of_ne ha _ _⟩

/-- A dead task stays dead when another exits. -/
theorem exited_zombie {a b : Nat} (h : k.state b = TASK_STATE_ZOMBIE) :
    (exited k a).state b = TASK_STATE_ZOMBIE := by
  have h1 : (k.setState a TASK_STATE_ZOMBIE).state b = TASK_STATE_ZOMBIE := by
    by_cases hb : b = a
    · subst hb
      exact state_setState _ _ _
    · rw [state_setState_ne k _ hb]
      exact h
  unfold exited
  dsimp only
  split
  · rename_i hw
    have hne : b ≠ (k.tasks a).parent := by
      rintro rfl
      have hblocked := (of_decide_eq_true hw.2).1
      rw [h1] at hblocked
      cases hblocked
    rw [state_setState_ne _ _ hne]
    exact h1
  · exact h1

/-- No task goes to sleep when another exits. -/
theorem exited_blocked {a b : Nat} (h : (exited k a).state b = TASK_STATE_BLOCKED) :
    k.state b = TASK_STATE_BLOCKED := by
  have h1 : (k.setState a TASK_STATE_ZOMBIE).state b = TASK_STATE_BLOCKED →
      k.state b = TASK_STATE_BLOCKED := by
    by_cases hb : b = a
    · subst hb
      rw [state_setState]
      exact fun hs => by cases hs
    · rw [state_setState_ne k _ hb]
      exact id
  unfold exited at h
  dsimp only at h
  split at h
  · by_cases hb : b = (k.tasks a).parent
    · subst hb
      rw [state_setState] at h
      cases h
    · rw [state_setState_ne _ _ hb] at h
      exact h1 h
  · exact h1 h

theorem Act.lasting (ht : Tree k order ns) (h : Act rules k k') {a : Nat} (ha : a ∈ k.live)
    (ha' : a ∈ k'.live) : kernel.lasting (k'.tasks a) = kernel.lasting (k.tasks a) := by
  cases h with
  | same hv =>
    have hl := congrArg kernel.lasting (view_task hv a)
    exact hl
  | freed =>
    obtain ⟨frees, directories, he⟩ := destroy_queued_eq k
    rw [he]
  | pressed scancode =>
    rw [(awakened_task (buffered k scancode) _ _ a).1]
    rfl
  | called data => rw [(load_execution_rest k data).1]
  | opened _ hr =>
    obtain ⟨slots, hs⟩ := (register_only hr).1.task a
    rw [hs]
    rfl
  | closed i =>
    obtain ⟨slots, hs⟩ := (remove_only k.toStore k.current i).1.task a
    rw [hs]
    rfl
  | flagged => rfl
  | took => rfl
  | waitsKey =>
    apply lasting_setTask
    rfl
  | waitsChild =>
    apply lasting_setTask
    rfl
  | retries =>
    apply lasting_setTask
    rfl
  | finished =>
    apply lasting_setTask
    rfl
  | handles =>
    apply lasting_setTask
    rfl
  | @forked k1 child task_cr3 block _ _ _ _ _ hd hblock _ =>
    obtain ⟨directories, rfl⟩ := create_directory_eq hd
    have hne : a ≠ child := fun he => hblock.fresh (he ▸ ha)
    obtain ⟨children, tail, hf⟩ := forked_others { k with directories := directories } task_cr3 block hne
    rw [hf]
    rfl
  | leaked hd =>
    obtain ⟨directories, rfl⟩ := create_directory_eq hd
    rfl
  | @executed k1 task_cr3 _ loaded _ _ hd _ =>
    obtain ⟨directories, rfl⟩ := create_directory_eq hd
    by_cases hc : a = k.current
    · have he := executed_self { k with directories := directories } task_cr3 loaded
      rw [hc, show k.current = ({ k with directories := directories } : kernel_t).current from rfl, he]
      rfl
    · rw [executed_others { k with directories := directories } task_cr3 loaded hc]
  | exited =>
    obtain ⟨state, hs⟩ := exited_task k _ a
    rw [hs]
    rfl
  | @reaped child head _ _ _ hp hb hn =>
    have hne := ht.reaper_ne hp hb hn
    rw [(reaped_gone k head hne).live] at ha'
    obtain ⟨children, tail, hr⟩ := reaped_others k head hne (Finset.ne_of_mem_erase ha')
    rw [hr]
    rfl
  | roused =>
    apply lasting_setTask
    rfl
  | reloaded => rfl
  | switched esp =>
    obtain ⟨esp', he⟩ := switched_task k _ esp a
    rw [he]
    rfl

/-- What no interrupt of a run changes. -/
def constant (k : kernel_t) : Nat × Nat × Nat × Nat × List (Nat × Nat) :=
  (k.idle, k.init, k.kernel_page_directory_phys, k.keyboard_address, k.strays)

theorem Act.constant (h : Act rules k k') : kernel.constant k' = kernel.constant k := by
  cases h with
  | same hv =>
    have hc := congrArg kernel.constant hv
    exact hc
  | freed =>
    obtain ⟨frees, directories, he⟩ := destroy_queued_eq k
    rw [he]
    rfl
  | pressed => rfl
  | called =>
    unfold load_execution
    split <;> rfl
  | opened => rfl
  | closed => rfl
  | flagged => rfl
  | took => rfl
  | waitsKey => rfl
  | waitsChild => rfl
  | retries => rfl
  | finished => rfl
  | handles => rfl
  | forked _ _ _ _ hd =>
    obtain ⟨directories, rfl⟩ := create_directory_eq hd
    obtain ⟨_, _, _, he⟩ := forked_shape { k with directories := directories } _ _ _
    rw [he]
    rfl
  | leaked hd =>
    obtain ⟨directories, rfl⟩ := create_directory_eq hd
    rfl
  | executed _ _ hd =>
    obtain ⟨directories, rfl⟩ := create_directory_eq hd
    unfold kernel.executed memory_paging_queue_to_destroy
    dsimp only
    split <;> rfl
  | exited =>
    unfold kernel.exited
    dsimp only
    split <;> rfl
  | reaped =>
    obtain ⟨_, _, _, _, _, he⟩ := reaped_shape k _ _
    rw [he]
    rfl
  | roused => rfl
  | reloaded => rfl
  | switched =>
    unfold kernel.switched
    dsimp only
    split <;> rfl

/-! ## Runs -/

/-- The kernel after any number of interrupts from its boot on. None of them ends a task that has
children, and all keep to the rules. -/
inductive Run (rules : Rules) : kernel_t → Prop
  | boot {boot : Boot} {k : kernel_t} : kernel_initialize boot = some k → Run rules k
  | step {k k' : kernel_t} {i : Interrupt} : Run rules k → Orderly k i → rules.Allow k i →
      interrupt k i = some k' → Run rules k'

theorem Booted.between (h : Booted k) : ∃ q order ns, Between k q order ns := by
  obtain ⟨q, hq⟩ := h.settled
  have hruns : k.runs = k.idle := by
    unfold kernel_t.runs
    rw [h.needs, h.next]
    rfl
  exact ⟨q, _, _, ⟨by rw [hruns]; exact hq, h.tree, Or.inl ⟨h.current, h.needs, h.next⟩⟩⟩

theorem Run.between (h : Run rules k) : ∃ q order ns, Between k q order ns := by
  induction h with
  | boot hb => exact (boot_spec hb).between
  | step _ ho ha hr ih =>
    obtain ⟨q, order, ns, hk⟩ := ih
    exact (interrupt_spec hk ho ha hr).2

theorem Acts.keep {P : kernel_t → Prop} (h : Tree k order ns)
    (hact : ∀ k k' order ns, Tree k order ns → Act rules k k' → P k → P k')
    (ha : Acts rules k k') (hp : P k) : P k' := by
  have hboth : P k' ∧ ∃ order' ns', Tree k' order' ns' := by
    induction ha with
    | refl => exact ⟨hp, order, ns, h⟩
    | tail _ hlast ih =>
      obtain ⟨hp1, order1, ns1, h1⟩ := ih
      exact ⟨hact _ _ _ _ h1 hlast hp1, h1.act hlast⟩
  exact hboth.1

/-- What holds after the boot and through everything that happens holds in every run. -/
theorem Run.keep {P : kernel_t → Prop} (hboot : ∀ k, Booted k → P k)
    (hact : ∀ k k' order ns, Tree k order ns → Act rules k k' → P k → P k') (h : Run rules k) : P k := by
  induction h with
  | boot hb => exact hboot _ (boot_spec hb)
  | step hrun ho ha hr ih =>
    obtain ⟨q, order, ns, hk⟩ := hrun.between
    exact (interrupt_spec hk ho ha hr).1.keep hk.tree hact ih

/-! ## The queues -/

/-- The six queues hold the lists `q`: each ends, no task is in two places, and every task but the
idle one is in the queue of its state or is the one that runs. -/
structure QueueOrder (k : kernel_t) (q : Nat → List Nat) : Prop where
  path : ∀ i < 6, Path k.next (k.queue i) (q i) 0
  acyclic : ∀ i < 6, 0 ∉ q i ∧ (q i).Nodup
  once : ∀ i < 6, ∀ j < 6, ∀ a, a ∈ q i → a ∈ q j → i = j
  level : ∀ i < 6, ∀ a ∈ q i, k.level a = i
  ready : ∀ a, (∃ i < 4, a ∈ q i) ↔ a ∈ k.live ∧ k.state a = TASK_STATE_READY
  blocked : ∀ a, a ∈ q 4 ↔ a ∈ k.live ∧ k.state a = TASK_STATE_BLOCKED
  zombie : ∀ a, a ∈ q 5 ↔ a ∈ k.live ∧ k.state a = TASK_STATE_ZOMBIE
  running : ∀ a ∈ k.live, a ≠ k.idle → (k.state a = TASK_STATE_RUNNING ↔ a = k.runs)
  processor : ∀ i < 6, k.runs ∉ q i
  idle : ∀ i < 6, k.idle ∉ q i

theorem Settled.queue_order (hs : Settled k q k.runs) : QueueOrder k q := by
  have hin : ∀ {i a}, a ∈ q i → a ∈ k.live ∧ Belongs (k.state a) i :=
    fun ha => ⟨hs.queues.live _ _ ha, hs.sorted _ _ ha⟩
  refine ⟨fun i _ => hs.queues.path i, ?_, ?_, fun i _ => hs.queues.level i, ?_,
    fun a => hs.blocked_iff, ?_, ?_, ?_, ?_⟩
  · intro i _
    exact ⟨hs.queues.null i, hs.queues.nodup i⟩
  · intro i _ j _ a hi hj
    exact hs.queues.unique hi hj
  · intro a
    constructor
    · rintro ⟨i, hi, ha⟩
      obtain ⟨hl, hb⟩ := hin ha
      exact ⟨hl, hb.ready_of_lt hi⟩
    · rintro ⟨hl, hr⟩
      obtain ⟨-, hm, hb⟩ := hs.queued hl (by rw [hr]; decide)
      rw [hr] at hb
      rcases hb with ⟨-, hlt⟩ | ⟨hc, -⟩ | ⟨hc, -⟩
      · exact ⟨_, hlt, hm⟩
      · cases hc
      · cases hc
  · intro a
    constructor
    · intro ha
      obtain ⟨hl, hb⟩ := hin ha
      rcases hb with ⟨-, hc⟩ | ⟨-, hc⟩ | ⟨hb, -⟩
      · exact absurd hc (by decide)
      · exact absurd hc (by decide)
      · exact ⟨hl, hb⟩
    · rintro ⟨hl, hr⟩
      obtain ⟨-, hm, hb⟩ := hs.queued hl (by rw [hr]; decide)
      rw [hr] at hb
      rw [hb.zombie] at hm
      exact hm
  · intro a ha hid
    rw [hs.running_iff ha]
    exact ⟨fun hc => hc.resolve_left hid, Or.inr⟩
  · intro i _ hm
    exact hs.queues.inside i _ hm (by simp)
  · intro i _ hm
    exact hs.queues.inside i _ hm (by simp)

/-! ## Runs on fixed interrupts -/

/-- Rules that ask for nothing. -/
def anything : Rules := ⟨fun _ _ => True, fun _ => True, fun _ _ _ => True, fun _ => True⟩

/-- The kernel after these interrupts. -/
def run (boot : Boot) (interrupts : List Interrupt) : Option kernel_t :=
  ( kernel_initialize boot).bind fun k => interrupts.foldlM interrupt k

/-- A check that no task with children ends. -/
def ends_childless (k : kernel_t) : Interrupt → Bool
  | .syscall data _ =>
    let k := load_execution k data
    if call k = SYSCALL_EXIT then (caller k).children = 0
    else if call k = SYSCALL_KILL then
      ((task_manager_find_task k (parameter k 0)).map fun t => (k.tasks t).children).getD 0 = 0
    else true
  | .exception _ _ => (caller k).children = 0
  | _ => true

theorem ends_childless_orderly {i : Interrupt} (h : ends_childless k i = true) : Orderly k i := by
  intro task hends
  cases i with
  | timer => exact hends.elim
  | keyboard => exact hends.elim
  | syscall data answers =>
    obtain ⟨hst, hm, -, -⟩ := load_execution_rest k data
    simp only [ends_childless] at h
    rcases hends with ⟨hcall, rfl⟩ | ⟨hcall, hkill⟩
    · rw [if_pos hcall] at h
      rw [← hst]
      exact of_decide_eq_true h
    · rw [if_neg (by rw [hcall]; decide), if_pos hcall, hkill.2.2.2.1] at h
      rw [← hst]
      exact of_decide_eq_true h
  | exception interrupt_index answers =>
    rw [hends.2]
    exact of_decide_eq_true h

/-- The kernel after these interrupts, as long as each passes the checks. -/
def checked_run (allow : kernel_t → Interrupt → Bool) (boot : Boot) (interrupts : List Interrupt) :
    Option kernel_t :=
  ( kernel_initialize boot).bind fun k => interrupts.foldlM
    (fun k i => if ends_childless k i ∧ allow k i then interrupt k i else none) k

theorem Run.checked {allow : kernel_t → Interrupt → Bool}
    (hallow : ∀ k i, allow k i = true → rules.Allow k i) {boot : Boot} {interrupts : List Interrupt}
    (h : checked_run allow boot interrupts = some k) : Run rules k := by
  obtain ⟨k0, hboot, hfold⟩ := Option.bind_eq_some_iff.mp h
  have hrun : Run rules k0 := Run.boot hboot
  clear h hboot
  induction interrupts generalizing k0 with
  | nil =>
    cases hfold
    exact hrun
  | cons i is ih =>
    rw [List.foldlM_cons] at hfold
    obtain ⟨k1, hstep, hfold⟩ := Option.bind_eq_some_iff.mp hfold
    split at hstep
    · rename_i hc
      exact ih k1 hfold (Run.step hrun (ends_childless_orderly hc.1) (hallow _ _ hc.2) hstep)
    · cases hstep

theorem anything_allows (k : kernel_t) (i : Interrupt) : anything.Allow k i := by
  cases i with
  | syscall => exact ⟨fun _ => trivial, fun _ _ _ => trivial, fun _ _ => trivial, fun _ => trivial⟩
  | _ => trivial

/-- Addresses in the kernel heap for tasks, for nodes and for open files. -/
def taskAt (i : Nat) : Nat := KERNEL_HEAP_VIRTUAL_START + SIZEOF_TASK * i
def nodeAt (i : Nat) : Nat := KERNEL_HEAP_VIRTUAL_START + 0x100000 + 16 * i
def fileAt (i : Nat) : Nat := KERNEL_HEAP_VIRTUAL_START + 0x200000 + 48 * i

def noAnswers : Answers where
  task_block := 0
  node_block := 0
  node_blocks := []
  resource_block := 0
  page_directory := none
  opened := none
  loaded := none
  room := true
  frame := register_interrupt_data_t.ofWords fun _ => 0
  read := 0
  written := none
  value := 0

/-- A boot with the keyboard as the standard input. -/
def smallBoot : Boot where
  kernel_page_directory_phys := 0x1000
  keyboard_address := 0xC0200000
  esp0 := 0
  kernel_esp := 0xC0108000
  idle_entry := 0xC0100000
  idle_block := taskAt 0
  idle_directory := 0x2000
  idle_esp := KERNEL_STACK_TOP - 64
  init_block := taskAt 1
  init_directory := 0x3000
  init_esp := KERNEL_STACK_TOP - 72
  load := { noAnswers with
    page_directory := some 0x4000
    loaded := some ⟨0x8048000, KERNEL_STACK_TOP - 72, 0x8050000⟩ }
  stdin := (some (RESOURCE_TYPE_KEYBOARD, nodeAt 100), fileAt 0)
  stdout := (none, 0)
  stderr := (none, 0)

def registers (eax ebx ecx edx : Nat) : register_interrupt_data_t :=
  { register_interrupt_data_t.ofWords (fun _ => 0) with
    eax := eax
    ebx := ebx
    ecx := ecx
    edx := edx }

/-- The running task makes a call. -/
def calls (eax ebx ecx edx : Nat) : Interrupt := .syscall (registers eax ebx ecx edx) noAnswers

/-- The running task forks; the child is the `i`-th task. -/
def forks (i : Nat) : Interrupt :=
  .syscall (registers SYSCALL_FORK 0 0 0) { noAnswers with
    task_block := taskAt i
    node_block := nodeAt i
    page_directory := some (0x10000 + 0x1000 * i) }

/-- The running task exits, and its child goes to init in this node. -/
def exitsWithChild (i junk : Nat) : Interrupt :=
  .syscall (registers SYSCALL_EXIT 0 0 0) { noAnswers with node_blocks := [(nodeAt i, junk)] }

/-- Init gets the processor. -/
def initRuns : List Interrupt := List.replicate 6 .timer

/-- Init forks a child, which ends, and reaps it. -/
def lifeOfAChild : List Interrupt :=
  initRuns ++ [forks 2, calls SYSCALL_WAITPID 2 0 0, calls SYSCALL_EXIT 0 0 0,
    calls SYSCALL_WAITPID 2 0 0]

/-- A child of init forks and ends, and two others wait for keys. The node that init gets for the
grandchild holds, in the word that is not written, an address just before the link of a task. -/
def reparented : List Interrupt :=
  initRuns ++ [forks 2, forks 3, forks 4, calls SYSCALL_WAITPID ANY_CHILD 0 0, forks 5,
    exitsWithChild 6 (taskAt 3 + TASK_NEXT_OFFSET), calls SYSCALL_READ 0 0x8048000 1,
    calls SYSCALL_READ 0 0x8048000 1, calls SYSCALL_EXIT 0 0 0, calls SYSCALL_WAITPID ANY_CHILD 0 0]

/-- The children of each task stand in a list with links both ways, from `children` to
`children_tail`. A task is in the list of its parent only, all tasks descend from init, and the
search through the tree ends and finds every id. -/
structure FamilyOrder (k : kernel_t) (ns : Nat → List Nat) : Prop where
  linked : ∀ p ∈ k.live,
    Linked k.after k.behind 0 (k.tasks p).children (k.tasks p).children_tail (ns p)
  nodes : ∀ p ∈ k.live, 0 ∉ ns p ∧ (ns p).Nodup
  once : ∀ p ∈ k.live, (k.held (ns p)).Nodup
  children : ∀ p ∈ k.live, ∀ c ∈ k.live, c ∈ k.held (ns p) ↔ (k.tasks c).parent = p
  held : ∀ p ∈ k.live, ∀ c ∈ k.held (ns p), c ∈ k.live
  below : ∀ a ∈ k.live, a ≠ k.idle → Below k k.init a
  found : ∀ a ∈ k.live, a ≠ k.idle → ∃ b ∈ k.live,
    task_manager_find_task k (k.tasks a).task_id = some b ∧
      (k.tasks b).task_id = (k.tasks a).task_id
  search : ∀ pid, (task_manager_find_task k pid).isSome

theorem Tree.family_order (h : Tree k order ns) (hidle : (k.tasks k.idle).parent = 0) :
    FamilyOrder k ns := by
  refine ⟨h.linked, fun p hp => ⟨h.no_null hp, h.nodes_nodup hp⟩, h.once, ?_, ?_, ?_, ?_, ?_⟩
  · intro p hp c hc
    rw [h.children p hp c, h.mem]
    constructor
    · exact fun hb => hb.2
    · intro hpar
      refine ⟨⟨hc, ?_⟩, hpar⟩
      rintro rfl
      rw [hidle] at hpar
      exact Spread.ne_zero h.spread hp hpar.symm
  · intro p hp c hc
    exact ((h.mem c).mp ((h.children p hp c).mp hc).1).1
  · intro a ha hid
    exact h.below_init ((h.mem a).mpr ⟨ha, hid⟩)
  · intro a ha hid
    obtain ⟨r, hr, hfound, hnone⟩ := h.find_task (k.tasks a).task_id
    have hr0 : r ≠ 0 := fun h0 => hnone h0 a ((h.mem a).mpr ⟨ha, hid⟩) rfl
    obtain ⟨hro, hid'⟩ := hfound hr0
    exact ⟨r, ((h.mem r).mp hro).1, hr, hid'⟩
  · intro pid
    obtain ⟨r, hr, -⟩ := h.find_task pid
    rw [hr]
    rfl

theorem Act.orphan (ht : Tree k order ns) (hact : Act rules k k') (hp : (k.tasks k.idle).parent = 0) :
    (k'.tasks k'.idle).parent = 0 := by
  have hidle : k'.idle = k.idle := congrArg Prod.fst hact.constant
  obtain ⟨order', ns', ht'⟩ := ht.act hact
  have hlive := ht'.idle
  rw [hidle] at hlive ⊢
  have hl := hact.lasting ht ht.idle hlive
  exact (congrArg (fun l => l.2.1) hl).trans hp

/-- The idle task has no parent. -/
theorem Run.idle_orphan (h : Run rules k) : (k.tasks k.idle).parent = 0 :=
  h.keep (fun _ hk => hk.orphan) fun _ _ _ _ ht hact hp => hact.orphan ht hp

/-- A child of init forks and ends, while init has no other child. -/
def orphaned : List Interrupt :=
  initRuns ++ [forks 2, calls SYSCALL_WAITPID 2 0 0, forks 3, exitsWithChild 4 0]

end alura_os.kernel
