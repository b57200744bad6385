-- What the scheduler, the lists of children and the files never touch in a task: its
-- number, its stack, its counters and its signals. All but the scheduler leave the time
-- slices too. These facts hold in every run, whatever has happened to the lists before, but
-- for a store through a node pointer that points into a task.
import AluraOs.KernelRuns

namespace alura_os.kernel

open alura_os.memory alura_os.task_manager alura_os.resource chains
open task_state_t task_wait_reason_t task_manager_result_t resource_result_t resource_type_t
open alura_os.elf_executable (SYSCALL_NSIG SYSCALL_SIG_DFL SYSCALL_SIG_IGN loaded_task)

variable {k k' k1 k2 : kernel_t} {task : Nat} {answers : Answers} {rules : Rules}

/-! ## What is kept -/

/-- A task without its place in the queues and in the tree, its files and the break of its heap. -/
def belongings (t : task_t) : task_t :=
  { t with
    task_state := TASK_STATE_READY
    task_time_slice := 0
    task_queue_level := 0
    next := 0
    resources := fun _ => 0
    parent := 0
    children := 0
    children_tail := 0
    return_code := 0
    yield := false
    wait_reason := TASK_WAIT_REASON_NONE
    wait_object := 0
    heap_break := 0 }

/-- All tasks have what they had, and the same task is on the processor. No store has gone astray. -/
structure Keeps (k k' : kernel_t) : Prop where
  tasks : ∀ a, belongings (k'.tasks a) = belongings (k.tasks a)
  live : k'.live = k.live
  current : k'.current = k.current
  idle : k'.idle = k.idle
  esp0 : k'.esp0 = k.esp0
  execution : k'.syscall_execution = k.syscall_execution
  strays : k'.strays = k.strays

theorem Keeps.refl (k : kernel_t) : Keeps k k := ⟨fun _ => rfl, rfl, rfl, rfl, rfl, rfl, rfl⟩

theorem Keeps.trans (h : Keeps k k1) (h' : Keeps k1 k2) : Keeps k k2 where
  tasks a := (h'.tasks a).trans (h.tasks a)
  live := h'.live.trans h.live
  current := h'.current.trans h.current
  idle := h'.idle.trans h.idle
  esp0 := h'.esp0.trans h.esp0
  execution := h'.execution.trans h.execution
  strays := h'.strays.trans h.strays

theorem keeps_setTask {a : Nat} {t : task_t} (h : belongings t = belongings (k.tasks a)) :
    Keeps k (k.setTask a t) := by
  refine ⟨fun b => ?_, rfl, rfl, rfl, rfl, rfl, rfl⟩
  by_cases hb : b = a
  · subst hb
    simpa [kernel_t.setTask] using h
  · simp [kernel_t.setTask, hb]

theorem keeps_setSlice (k : kernel_t) (a n : Nat) : Keeps k (k.setSlice a n) := keeps_setTask rfl

/-- A change outside of the tasks and of the running one. -/
theorem keeps_store (hs : k'.toStore = k.toStore) (hc : k'.current = k.current)
    (hi : k'.idle = k.idle) (he : k'.esp0 = k.esp0)
    (hx : k'.syscall_execution = k.syscall_execution) (hst : k'.strays = k.strays) : Keeps k k' :=
  ⟨fun a => by rw [hs], by rw [hs], hc, hi, he, hx, hst⟩

/-- The slices stay too, and no switch is asked for. -/
structure Stays (k k' : kernel_t) : Prop extends Keeps k k' where
  slices : ∀ a, (k'.tasks a).task_time_slice = (k.tasks a).task_time_slice
  idle_level : k.level k.idle = 0 → k'.level k.idle = 0
  next : k'.task_manager.task_next = k.task_manager.task_next
  needs : k'.task_manager.task_needs_switching = k.task_manager.task_needs_switching

theorem Stays.keeps (h : Stays k k') : Keeps k k' := h.toKeeps

theorem Stays.refl (k : kernel_t) : Stays k k := ⟨Keeps.refl k, fun _ => rfl, id, rfl, rfl⟩

theorem Stays.trans (h : Stays k k1) (h' : Stays k1 k2) : Stays k k2 where
  toKeeps := h.keeps.trans h'.keeps
  slices a := (h'.slices a).trans (h.slices a)
  idle_level h0 := by
    have h1 := h.idle_level h0
    rw [← h.idle] at h1 ⊢
    exact h'.idle_level h1
  next := h'.next.trans h.next
  needs := h'.needs.trans h.needs

theorem stays_setTask {a : Nat} {t : task_t} (h : belongings t = belongings (k.tasks a))
    (hs : t.task_time_slice = (k.tasks a).task_time_slice)
    (hl : a = k.idle → k.level a = 0 → t.task_queue_level = 0) : Stays k (k.setTask a t) := by
  refine ⟨keeps_setTask h, fun b => ?_, fun h0 => ?_, rfl, rfl⟩
  · by_cases hb : b = a
    · subst hb
      simpa [kernel_t.setTask] using hs
    · simp [kernel_t.setTask, hb]
  · by_cases hb : k.idle = a
    · rw [hb] at h0 ⊢
      simpa [kernel_t.level, kernel_t.setTask] using hl hb.symm h0
    · rw [level_setTask_ne k t hb]
      exact h0

theorem stays_setNext (k : kernel_t) (a v : Nat) : Stays k (k.setNext a v) :=
  stays_setTask rfl rfl fun _ => id

theorem stays_setState (k : kernel_t) (a : Nat) (s : task_state_t) : Stays k (k.setState a s) :=
  stays_setTask rfl rfl fun _ => id

theorem stays_setYield (k : kernel_t) (a : Nat) (v : Bool) : Stays k (k.setYield a v) :=
  stays_setTask rfl rfl fun _ => id

theorem stays_setChildren (k : kernel_t) (a v : Nat) : Stays k (k.setChildren a v) :=
  stays_setTask rfl rfl fun _ => id

theorem stays_setChildrenTail (k : kernel_t) (a v : Nat) : Stays k (k.setChildrenTail a v) :=
  stays_setTask rfl rfl fun _ => id

theorem stays_setParent (k : kernel_t) (a v : Nat) : Stays k (k.setParent a v) :=
  stays_setTask rfl rfl fun _ => id

theorem stays_store (hs : k'.toStore = k.toStore) (hm : k'.current = k.current)
    (hi : k'.idle = k.idle) (hn : k'.task_manager.task_next = k.task_manager.task_next)
    (hd : k'.task_manager.task_needs_switching = k.task_manager.task_needs_switching)
    (he : k'.esp0 = k.esp0) (hx : k'.syscall_execution = k.syscall_execution)
    (hst : k'.strays = k.strays) : Stays k k' := by
  refine ⟨keeps_store hs hm hi he hx hst, fun a => by rw [hs], fun h0 => ?_, hn, hd⟩
  unfold kernel_t.level at h0 ⊢
  rw [hs]
  exact h0

theorem stays_setQueue (k : kernel_t) (i v : Nat) : Stays k (k.setQueue i v) :=
  stays_store rfl rfl rfl rfl rfl rfl rfl rfl

theorem stays_newNode (k : kernel_t) (a : Nat) (n : task_node_t) : Stays k (k.newNode a n) :=
  stays_store rfl rfl rfl rfl rfl rfl rfl rfl

theorem stays_freeNode (k : kernel_t) (a : Nat) : Stays k (k.freeNode a) :=
  stays_store rfl rfl rfl rfl rfl rfl rfl rfl

/-! ## Queues and the scheduler -/

theorem stays_enqueue {i : Nat} (h : task_manager_enqueue_task k i task = some k') : Stays k k' := by
  unfold task_manager_enqueue_task at h
  split at h
  · cases h
    exact Stays.refl k
  · rename_i hid
    have h1 : Stays k (k.setTask task { k.tasks task with next := 0, task_queue_level := i }) :=
      stays_setTask rfl rfl fun he => absurd he hid
    dsimp only at h
    split at h
    · cases h
      exact h1.trans (stays_setQueue _ _ _)
    · obtain ⟨head, -, rfl⟩ := Option.map_eq_some_iff.mp h
      exact h1.trans (stays_setNext _ _ _)

theorem stays_dequeue (k : kernel_t) (i : Nat) : Stays k (task_manager_dequeue_task k i).1 := by
  unfold task_manager_dequeue_task
  split
  · exact Stays.refl k
  · exact (stays_setQueue _ _ _).trans (stays_setNext _ _ _)

theorem stays_remove_from_queue {i : Nat} {r : kernel_t × task_manager_result_t}
    (h : task_manager_remove_task_from_queue k i task = some r) : Stays k r.1 := by
  unfold task_manager_remove_task_from_queue at h
  split at h
  · cases h
    exact Stays.refl k
  split at h
  · cases h
    exact (stays_setQueue _ _ _).trans (stays_setNext _ _ _)
  · obtain ⟨head, -, rfl⟩ := Option.map_eq_some_iff.mp h
    split
    · exact Stays.refl k
    · exact (stays_setNext _ _ _).trans (stays_setNext _ _ _)

theorem stays_requeue {used : Bool} (h : task_manager_requeue_task k task used = some k') :
    Stays k k' := by
  unfold task_manager_requeue_task at h
  split at h
  · cases h
    exact Stays.refl k
  · rename_i hid
    refine Stays.trans ?_ (stays_enqueue h)
    exact stays_setTask rfl rfl fun he => absurd he hid

theorem stays_boost_queue (i n : Nat) : ∀ {k k' : kernel_t}, boost_queue i n k = some k' →
    Stays k k' := by
  induction n with
  | zero =>
    intro k k' h
    cases h
  | succ n ih =>
    intro k k' h
    unfold boost_queue at h
    split at h
    · cases h
      exact Stays.refl k
    · obtain ⟨k1, he, hrest⟩ := Option.bind_eq_some_iff.mp h
      refine ((stays_dequeue k i).trans ?_).trans ((stays_enqueue he).trans (ih hrest))
      exact stays_setTask rfl rfl fun _ _ => rfl

theorem stays_boost (h : task_manager_boost_priority_of_all_tasks k = some k') : Stays k k' := by
  obtain ⟨k1, hfold, hr⟩ := Option.bind_eq_some_iff.mp h
  cases hr
  have hloop : ∀ (l : List Nat) (k k1 : kernel_t),
      l.foldlM (fun k i => boost_queue i ADDRESSES k) k = some k1 → Stays k k1 := by
    intro l
    induction l with
    | nil =>
      intro k k1 h
      cases h
      exact Stays.refl k
    | cons i l ih =>
      intro k k1 h
      rw [List.foldlM_cons] at h
      obtain ⟨k2, he, hrest⟩ := Option.bind_eq_some_iff.mp h
      exact (stays_boost_queue _ _ he).trans (ih _ _ hrest)
  exact (hloop _ _ _ hfold).trans (stays_store rfl rfl rfl rfl rfl rfl rfl rfl)

theorem stays_destroy_queued (k : kernel_t) : Stays k (memory_paging_destroy_queued k) := by
  obtain ⟨frees, directories, he⟩ := destroy_queued_eq k
  rw [he]
  exact stays_store rfl rfl rfl rfl rfl rfl rfl rfl

theorem stays_boost_if_due (h : boost_if_due k = some k') : Stays k k' := by
  unfold boost_if_due at h
  split at h
  · exact stays_boost h
  · cases h
    exact Stays.refl k

theorem stays_leave_processor (h : leave_processor k task = some k') : Stays k k' := by
  unfold leave_processor at h
  split at h
  · exact stays_requeue h
  · cases h
    exact Stays.refl k

theorem keeps_pick_from (n : Nat) : ∀ (k : kernel_t) (i : Nat), Keeps k (pick_from k n i).1 := by
  induction n with
  | zero => exact fun k i => keeps_setSlice _ _ _
  | succ n ih =>
    intro k i
    unfold pick_from
    split
    · dsimp only
      split
      · exact (stays_dequeue k i).keeps.trans (keeps_setSlice _ _ _)
      · exact (stays_dequeue k i).keeps.trans (ih _ _)
    · exact ih k (i + 1)

theorem keeps_take_processor (k : kernel_t) (old_task : Nat) : Keeps k (take_processor k old_task) := by
  have h1 : Keeps k (task_manager_pick_task k).1 := keeps_pick_from _ k 0
  have h2 := h1.trans (stays_setState _ (task_manager_pick_task k).2 TASK_STATE_RUNNING).keeps
  unfold take_processor
  dsimp only
  split
  · exact h2.trans (keeps_store rfl rfl rfl rfl rfl rfl)
  · exact h2.trans (keeps_setSlice _ _ _)

theorem keeps_reschedule (h : task_manager_reschedule k = some k') : Keeps k k' := by
  obtain ⟨k1, he, rfl⟩ := Option.map_eq_some_iff.mp h
  have h1 := (stays_setYield k k.current false).trans (stays_leave_processor he)
  exact h1.keeps.trans (keeps_take_processor _ _)

theorem keeps_schedule (h : task_manager_schedule k = some k') : Keeps k k' := by
  obtain ⟨k1, hb, hu⟩ := Option.bind_eq_some_iff.mp h
  have h1 : Keeps k k1 := ((stays_destroy_queued k).trans (stays_boost_if_due hb)).keeps
  unfold use_time_slice at hu
  split at hu
  · cases hu
    exact h1
  · dsimp only at hu
    have h2 := h1.trans (keeps_setSlice k1 k1.current (sub32 (k1.tasks k1.current).task_time_slice 1))
    split at hu
    · exact h2.trans (keeps_reschedule hu)
    · cases hu
      exact h2

/-! ## Blocking -/

theorem stays_block {wait_reason : task_wait_reason_t} {wait_object : Nat}
    (h : task_manager_block_task k task wait_reason wait_object = some k') : Stays k k' := by
  unfold task_manager_block_task at h
  split at h
  · cases h
    exact Stays.refl k
  · obtain ⟨r, he, hrest⟩ := Option.bind_eq_some_iff.mp h
    refine Stays.trans ?_ ((stays_remove_from_queue he).trans (stays_enqueue hrest))
    exact stays_setTask rfl rfl fun _ => id

theorem stays_unblock (h : task_manager_unblock_task k task = some k') : Stays k k' := by
  unfold task_manager_unblock_task at h
  split at h
  · cases h
    exact Stays.refl k
  · obtain ⟨r, he, hrest⟩ := Option.bind_eq_some_iff.mp h
    exact ((stays_setState _ _ _).trans (stays_remove_from_queue he)).trans (stays_enqueue hrest)

theorem stays_wake_from {wait_reason : task_wait_reason_t} {wait_object : Nat} (n : Nat) :
    ∀ {k k' : kernel_t} {head : Nat}, wake_from wait_reason wait_object n k head = some k' →
      Stays k k' := by
  induction n with
  | zero =>
    intro k k' head h
    cases h
  | succ n ih =>
    intro k k' head h
    unfold wake_from at h
    split at h
    · cases h
      exact Stays.refl k
    · obtain ⟨k1, he, hrest⟩ := Option.bind_eq_some_iff.mp h
      unfold wake_one at he
      split at he
      · exact (stays_unblock he).trans (ih hrest)
      · cases he
        exact ih hrest

/-! ## Children -/

/-- A store through a node pointer goes into a task. -/
def Strays (k k' : kernel_t) : Prop :=
  ∃ task i v k1, store_task_word k task i v = some k1 ∧
    k' = { k1 with strays := (task, i) :: k1.strays }

/-- Such a store touches nothing but the task and its call. -/
theorem store_task_word_rest {i v : Nat} (h : store_task_word k task i v = some k') :
    k'.live = k.live ∧ k'.task_manager = k.task_manager ∧ k'.esp0 = k.esp0 ∧
      k'.strays = k.strays ∧
      ∀ a, a ≠ task → k'.tasks a = k.tasks a ∧ k'.syscall_execution a = k.syscall_execution a := by
  unfold store_task_word at h
  dsimp only at h
  split at h
  · obtain ⟨t, -, rfl⟩ := Option.map_eq_some_iff.mp h
    exact ⟨rfl, rfl, rfl, rfl, fun a ha => ⟨Function.update_of_ne ha _ _, rfl⟩⟩
  split at h
  · cases h
    exact ⟨rfl, rfl, rfl, rfl, fun a _ => ⟨rfl, rfl⟩⟩
  · cases h
    exact ⟨rfl, rfl, rfl, rfl, fun a ha => ⟨rfl, Function.update_of_ne ha _ _⟩⟩

/-- The kernel does its work, and at most one of its stores goes astray. -/
def Wanders (k k' : kernel_t) : Prop :=
  Stays k k' ∨ ∃ k1 k2, Stays k k1 ∧ Strays k1 k2 ∧ Stays k2 k'

theorem Stays.wanders (h : Stays k k1) (h' : Wanders k1 k') : Wanders k k' := by
  obtain h' | ⟨k2, k3, h2, hs, h3⟩ := h'
  · exact Or.inl (h.trans h')
  · exact Or.inr ⟨k2, k3, h.trans h2, hs, h3⟩

theorem Wanders.stays (h : Wanders k k1) (h' : Stays k1 k') : Wanders k k' := by
  obtain h | ⟨k2, k3, h2, hs, h3⟩ := h
  · exact Or.inl (h.trans h')
  · exact Or.inr ⟨k2, k3, h2, hs, h3.trans h'⟩

/-- What no store has gone astray in is work. -/
theorem Wanders.unstrayed (h : Wanders k k') (hs : k'.strays = k.strays) : Stays k k' := by
  obtain h | ⟨k1, k2, h1, ⟨task, i, v, k3, h3, rfl⟩, h2⟩ := h
  · exact h
  · have hcons : (task, i) :: k.strays = k.strays := by
      rw [← h1.strays, ← (store_task_word_rest h3).2.2.2.1]
      exact h2.strays.symm.trans (hs.trans (h1.strays.symm.trans
        (store_task_word_rest h3).2.2.2.1.symm))
    exact absurd hcons (List.cons_ne_self _ _)

theorem wanders_store_next {node v : Nat} (h : store_next k node v = some k') : Wanders k k' := by
  unfold store_next at h
  split at h
  · cases h
    exact Or.inl (stays_store rfl rfl rfl rfl rfl rfl rfl rfl)
  · obtain ⟨⟨task, i⟩, -, h⟩ := Option.bind_eq_some_iff.mp h
    obtain ⟨k1, h1, h⟩ := Option.bind_eq_some_iff.mp h
    cases h
    exact Or.inr ⟨k, _, Stays.refl k, ⟨task, i, v, k1, h1, rfl⟩, Stays.refl _⟩

theorem stays_store_previous {node v : Nat} (h : store_previous k node v = some k') :
    Stays k k' := by
  unfold store_previous at h
  split at h
  · cases h
    exact stays_store rfl rfl rfl rfl rfl rfl rfl rfl
  · cases h

theorem wanders_add_child {parent child block : Nat}
    (h : task_manager_add_child_to_task k parent child block = some k') : Wanders k k' := by
  unfold task_manager_add_child_to_task at h
  split at h
  · have h1 : Stays k (k.newNode block ⟨child, 0, (k.tasks parent).children_tail⟩) :=
      stays_newNode _ _ _
    dsimp only at h
    split at h
    · cases h
      exact Or.inl ((h1.trans (stays_setChildren _ _ _)).trans (stays_setChildrenTail _ _ _))
    · obtain ⟨k2, he, rfl⟩ := Option.map_eq_some_iff.mp h
      exact (h1.wanders (wanders_store_next he)).stays (stays_setChildrenTail _ _ _)
  · cases h

theorem wanders_unlink_child {parent head : Nat} (h : unlink_child k parent head = some k') :
    Wanders k k' := by
  obtain ⟨k1, hn, h⟩ := Option.bind_eq_some_iff.mp h
  obtain ⟨k2, hp, h⟩ := Option.bind_eq_some_iff.mp h
  cases h
  have h1 : Wanders k k1 := by
    unfold unlink_next at hn
    split at hn
    · exact wanders_store_next hn
    · cases hn
      exact Or.inl (stays_setChildren _ _ _)
  have h2 : Stays k1 k2 := by
    unfold unlink_previous at hp
    split at hp
    · exact stays_store_previous hp
    · cases hp
      exact stays_setChildrenTail _ _ _
  exact (h1.stays h2).stays (stays_freeNode _ _)

theorem wanders_remove_child_from {parent child : Nat} (n : Nat) :
    ∀ {head : Nat} {r : kernel_t × task_manager_result_t},
      remove_child_from k parent child n head = some r → Wanders k r.1 := by
  induction n with
  | zero =>
    intro head r h
    cases h
  | succ n ih =>
    intro head r h
    unfold remove_child_from at h
    split at h
    · cases h
      exact Or.inl (Stays.refl k)
    split at h
    · obtain ⟨k1, he, rfl⟩ := Option.map_eq_some_iff.mp h
      exact wanders_unlink_child he
    · exact ih h

/-! ## Exit -/

theorem stays_reparent (n : Nat) : ∀ {blocks : List (Nat × Nat)} {k : kernel_t} {head : Nat}
    {r : kernel_t × Bool}, reparent_children n blocks k head = some r → Stays k r.1 := by
  induction n with
  | zero =>
    intro blocks k head r h
    cases h
  | succ n ih =>
    intro blocks k head r h
    unfold reparent_children at h
    split at h
    · cases h
      exact Stays.refl k
    have h1 := stays_setParent k (k.nodes head).task k.init
    dsimp only at h
    split at h
    · cases h
    split at h
    · cases h
      exact h1
    split at h
    · refine Stays.trans (h1.trans (Stays.trans (Stays.trans ?_ (stays_setChildren _ _ _))
        (stays_freeNode _ _))) (ih h)
      exact stays_newNode _ _ _
    · cases h

theorem stays_leave_queue (h : leave_queue k task = some k') : Stays k k' := by
  unfold leave_queue at h
  split at h
  · obtain ⟨r, he, rfl⟩ := Option.map_eq_some_iff.mp h
    exact stays_remove_from_queue he
  split at h
  · obtain ⟨r, he, rfl⟩ := Option.map_eq_some_iff.mp h
    exact stays_remove_from_queue he
  · cases h
    exact Stays.refl k

theorem stays_wake_parent (h : wake_parent k task = some k') : Stays k k' := by
  unfold wake_parent at h
  dsimp only at h
  split at h
  · exact stays_unblock h
  · cases h
    exact Stays.refl k

theorem stays_exit {return_code : Int} {blocks : List (Nat × Nat)}
    {r : kernel_t × task_manager_result_t}
    (h : task_manager_exit_task k task return_code blocks = some r) : Stays k r.1 := by
  obtain ⟨k1, hq, h⟩ := Option.bind_eq_some_iff.mp h
  obtain ⟨⟨k2, served⟩, hc, h⟩ := Option.bind_eq_some_iff.mp h
  have h1 : Stays k k2 := by
    refine ((stays_leave_queue hq).trans ?_).trans (stays_reparent ADDRESSES hc)
    exact stays_setTask rfl rfl fun _ => id
  dsimp only at h
  split at h
  · cases h
    exact h1
  · obtain ⟨k3, hw, h⟩ := Option.bind_eq_some_iff.mp h
    obtain ⟨k4, he, h⟩ := Option.bind_eq_some_iff.mp h
    cases h
    exact (h1.trans ((stays_setChildren _ _ _).trans (stays_wake_parent hw))).trans (stays_enqueue he)

/-- The kernel does its work, and may give up the processor at the end of it. -/
def Yields (schedules : kernel_t → Prop) (k k' : kernel_t) : Prop :=
  Stays k k' ∨ ∃ k1, Stays k k1 ∧ schedules k1 ∧ task_manager_schedule k1 = some k'

theorem Yields.keeps {schedules : kernel_t → Prop} (h : Yields schedules k k') : Keeps k k' := by
  obtain h | ⟨k1, h, -, hs⟩ := h
  · exact h.keeps
  · exact h.keeps.trans (keeps_schedule hs)

theorem Yields.of_stays {schedules : kernel_t → Prop} (h : Stays k k1) (h' : Yields schedules k1 k') :
    Yields schedules k k' := by
  obtain h' | ⟨k2, h', hs⟩ := h'
  · exact Or.inl (h.trans h')
  · exact Or.inr ⟨k2, h.trans h', hs⟩

theorem yields_yield {schedules : kernel_t → Prop} (hs : schedules (k.setYield k.current true))
    (h : task_manager_yield_current k = some k') : Yields schedules k k' := by
  unfold task_manager_yield_current at h
  split at h
  · cases h
    exact Or.inl (Stays.refl k)
  · exact Or.inr ⟨_, stays_setYield _ _ _, hs, h⟩

/-- A task ends, and gives up the processor if it has it. -/
theorem yields_exit {schedules : kernel_t → Prop} {return_code : Int}
    (hs : task = k.current → ∀ k1 result,
      task_manager_exit_task k k.current return_code answers.node_blocks = some (k1, result) →
      schedules (k1.setYield k1.current true))
    (hexit : exit_and_yield k task return_code answers = some k') : Yields schedules k k' := by
  obtain ⟨⟨k1, result⟩, he, h⟩ := Option.bind_eq_some_iff.mp hexit
  have h1 := stays_exit he
  dsimp only at h
  split at h
  · rename_i hself
    subst hself
    exact Yields.of_stays h1 (yields_yield (hs rfl k1 result he) h)
  · cases h
    exact Or.inl h1

end alura_os.kernel
