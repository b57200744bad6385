-- The laws of the queues. Between two calls every task is in one queue, the one
-- that its state and level name, or in `out`: the tasks that are in no queue,
-- such as the idle task and the one that runs. Each operation moves a task
-- between a queue and `out`, and changes nothing but links and levels.
import AluraOs.ResourceLaws
import AluraOs.TaskManager

namespace alura_os.kernel

open alura_os.memory alura_os.task_manager alura_os.resource chains
open task_state_t task_wait_reason_t task_manager_result_t

/-! ## What links and levels leave out -/

/-- A task without its link and its level. -/
def unlinked (t : task_t) : task_t := { t with next := 0, task_queue_level := 0 }

/-- The kernel without the queues. -/
def kernel_t.bare (k : kernel_t) : kernel_t :=
  { k with
    tasks := fun a => unlinked (k.tasks a)
    task_manager := { k.task_manager with task_queues := fun _ => 0 } }

theorem bare_setTask {k : kernel_t} {a : Nat} {t : task_t} (h : unlinked t = unlinked (k.tasks a)) :
    (k.setTask a t).bare = k.bare := by
  have hf : (fun b => unlinked (Function.update k.tasks a t b)) = fun b => unlinked (k.tasks b) := by
    funext b
    by_cases hb : b = a
    · subst hb
      simpa using h
    · simp [hb]
  simp only [kernel_t.bare, kernel_t.setTask, hf]

@[simp] theorem bare_setNext (k : kernel_t) (a v : Nat) : (k.setNext a v).bare = k.bare :=
  bare_setTask rfl

@[simp] theorem bare_setQueue (k : kernel_t) (i v : Nat) : (k.setQueue i v).bare = k.bare := rfl

theorem bare_task {k k' : kernel_t} (h : k'.bare = k.bare) (a : Nat) :
    unlinked (k'.tasks a) = unlinked (k.tasks a) := congrFun (congrArg (fun k => k.tasks) h) a

theorem bare_state {k k' : kernel_t} (h : k'.bare = k.bare) (a : Nat) : k'.state a = k.state a := by
  show (unlinked (k'.tasks a)).task_state = (unlinked (k.tasks a)).task_state
  rw [bare_task h a]

theorem bare_live {k k' : kernel_t} (h : k'.bare = k.bare) : k'.live = k.live :=
  congrArg (fun k => k.live) h

theorem bare_idle {k k' : kernel_t} (h : k'.bare = k.bare) : k'.idle = k.idle :=
  congrArg (fun k => k.task_manager.task_idle) h

theorem bare_current {k k' : kernel_t} (h : k'.bare = k.bare) : k'.current = k.current :=
  congrArg (fun k => k.task_manager.task_current) h

/-- The kernel without its tasks and queues. -/
def kernel_t.rest (k : kernel_t) : kernel_t :=
  { k with
    tasks := fun _ => task_t.zeroed
    task_manager := { k.task_manager with task_queues := fun _ => 0 } }

theorem bare_rest {k k' : kernel_t} (h : k'.bare = k.bare) : k'.rest = k.rest := by
  show k'.bare.rest = k.bare.rest
  rw [h]

theorem bare_ext {k k' : kernel_t} (hr : k'.rest = k.rest)
    (ht : ∀ a, unlinked (k'.tasks a) = unlinked (k.tasks a)) : k'.bare = k.bare := by
  have h1 : k'.bare = { k'.rest with tasks := fun a => unlinked (k'.tasks a) } := rfl
  have h2 : k.bare = { k.rest with tasks := fun a => unlinked (k.tasks a) } := rfl
  rw [h1, h2, hr, funext ht]

@[simp] theorem next_setTask (k : kernel_t) (a : Nat) (t : task_t) :
    (k.setTask a t).next = Function.update k.next a t.next := by
  funext b
  unfold kernel_t.next kernel_t.setTask
  by_cases hb : b = a
  · subst hb
    simp
  · simp [hb]

@[simp] theorem next_setNext (k : kernel_t) (a v : Nat) :
    (k.setNext a v).next = Function.update k.next a v := next_setTask _ _ _

@[simp] theorem next_setQueue (k : kernel_t) (i v : Nat) : (k.setQueue i v).next = k.next := rfl

@[simp] theorem queue_setTask (k : kernel_t) (a : Nat) (t : task_t) :
    (k.setTask a t).queue = k.queue := rfl

@[simp] theorem queue_setNext (k : kernel_t) (a v : Nat) : (k.setNext a v).queue = k.queue := rfl

@[simp] theorem queue_setQueue (k : kernel_t) (i v : Nat) :
    (k.setQueue i v).queue = Function.update k.queue i v := rfl

/-! ## The invariant -/

/-- The queue that a task of this state belongs to. -/
def Belongs (s : task_state_t) (i : Nat) : Prop :=
  s = TASK_STATE_READY ∧ i < TASK_MANAGER_QUEUE_LEVELS ∨
  s = TASK_STATE_BLOCKED ∧ i = TASK_MANAGER_QUEUE_INDEX_BLOCKED ∨
  s = TASK_STATE_ZOMBIE ∧ i = TASK_MANAGER_QUEUE_INDEX_ZOMBIE

/-- The queues hold the lists `q`, and every task is in the one of its level, or in `out` and linked to
no other. -/
structure Queues (k : kernel_t) (q : Nat → List Nat) (out : Finset Nat) : Prop where
  path : ∀ i, Path k.next (k.queue i) (q i) 0
  live : ∀ i, ∀ a ∈ q i, a ∈ k.live
  inside : ∀ i, ∀ a ∈ q i, a ∉ out
  level : ∀ i, ∀ a ∈ q i, k.level a = i
  all : ∀ a ∈ k.live, a ∉ out → ∃ i, a ∈ q i
  idle : k.idle ∈ out
  spread : Spread k.live
  loose : ∀ a ∈ out, k.next a = 0

variable {k k' : kernel_t} {q : Nat → List Nat} {out : Finset Nat}

theorem Spread.ne_zero {live : Finset Nat} (h : Spread live) {a : Nat} (ha : a ∈ live) : a ≠ 0 := by
  have := (h a ha).1
  unfold KERNEL_HEAP_VIRTUAL_START at this
  omega

theorem Queues.ne_zero (h : Queues k q out) {i a : Nat} (ha : a ∈ q i) : a ≠ 0 :=
  Spread.ne_zero h.spread (h.live i a ha)

theorem Queues.null (h : Queues k q out) (i : Nat) : 0 ∉ q i := fun h0 => h.ne_zero h0 rfl

theorem Queues.nodup (h : Queues k q out) (i : Nat) : (q i).Nodup := path_nodup (h.path i) (h.null i)

theorem Queues.empty_iff (h : Queues k q out) (i : Nat) : k.queue i = 0 ↔ q i = [] :=
  path_null_iff (h.path i) (h.null i)

theorem Queues.unique (h : Queues k q out) {i j a : Nat} (hi : a ∈ q i) (hj : a ∈ q j) : i = j :=
  (h.level i a hi).symm.trans (h.level j a hj)

theorem Queues.length_lt (h : Queues k q out) (i : Nat) : (q i).length < ADDRESSES := by
  have h1 : (q i).toFinset.card ≤ k.live.card := by
    apply Finset.card_le_card
    intro a ha
    exact h.live i a (List.mem_toFinset.mp ha)
  rw [List.toFinset_card_of_nodup (h.nodup i)] at h1
  have h2 := h.spread.card_le
  unfold ADDRESSES
  omega

/-- A task in `out` may change in any way, but for its link. -/
theorem Queues.setTask (h : Queues k q out) {t : Nat} (ht : t ∈ out) (r : task_t)
    (hr : r.next = 0) : Queues (k.setTask t r) q out := by
  have hne : ∀ i, ∀ a ∈ q i, a ≠ t := by
    rintro i a ha rfl
    exact h.inside i a ha ht
  have htask : ∀ i, ∀ a ∈ q i, (k.setTask t r).tasks a = k.tasks a := fun i a ha =>
    Function.update_of_ne (hne i a ha) _ _
  refine ⟨?_, h.live, h.inside, ?_, h.all, h.idle, h.spread, ?_⟩
  · intro i
    rw [next_setTask]
    exact (path_update fun hm => hne i t hm rfl).mpr (h.path i)
  · intro i a ha
    unfold kernel_t.level
    rw [htask i a ha]
    exact h.level i a ha
  · intro a ha
    rw [next_setTask]
    by_cases he : a = t
    · rw [he, Function.update_self]
      exact hr
    · rw [Function.update_of_ne he]
      exact h.loose a ha

/-- Nothing but the queues, the links and the levels of the queued tasks matters. -/
theorem Queues.congr (h : Queues k q out) (hn : ∀ a, k'.next a = k.next a)
    (hq : ∀ i, k'.queue i = k.queue i) (hl : k'.live = k.live)
    (hlv : ∀ i, ∀ a ∈ q i, k'.level a = k.level a) (hi : k'.idle = k.idle) : Queues k' q out := by
  refine ⟨?_, ?_, h.inside, ?_, ?_, ?_, ?_, ?_⟩
  · intro i
    rw [hq]
    exact (path_congr fun a _ => hn a).mpr (h.path i)
  · rw [hl]
    exact h.live
  · intro i a ha
    rw [hlv i a ha]
    exact h.level i a ha
  · rw [hl]
    exact h.all
  · rw [hi]
    exact h.idle
  · rw [hl]
    exact h.spread
  · intro a ha
    rw [hn]
    exact h.loose a ha

/-! ## Enqueue -/

theorem mem_update_append {q : Nat → List Nat} {i j t a : Nat} :
    a ∈ Function.update q i (q i ++ [t]) j ↔ a ∈ q j ∨ (j = i ∧ a = t) := by
  by_cases hj : j = i
  · subst hj
    simp
  · simp [hj]

/-- The invariant after a task of `out` was put at the end of a queue. -/
theorem Queues.append (h : Queues k q out) (k' : kernel_t) {t i : Nat} (ht : t ∈ out)
    (hl : t ∈ k.live) (hid : t ≠ k.idle) (hbare : k'.bare = k.bare)
    (hlevel : k'.level t = i) (hlevels : ∀ a, a ≠ t → k'.level a = k.level a)
    (hpath : ∀ j, Path k'.next (k'.queue j) (Function.update q i (q i ++ [t]) j) 0)
    (hloose : ∀ a ∈ out, k'.next a = 0) :
    Queues k' (Function.update q i (q i ++ [t])) (out.erase t) := by
  have hnot : ∀ j, t ∉ q j := fun j hm => h.inside j t hm ht
  have hcase : ∀ {j a : Nat}, a ∈ Function.update q i (q i ++ [t]) j →
      a ∈ q j ∧ a ≠ t ∨ j = i ∧ a = t := by
    intro j a ha
    rcases mem_update_append.mp ha with ha | ha
    · exact Or.inl ⟨ha, fun he => hnot j (he ▸ ha)⟩
    · exact Or.inr ha
  refine ⟨hpath, ?_, ?_, ?_, ?_, ?_, ?_, fun a ha => hloose a (Finset.mem_of_mem_erase ha)⟩
  · intro j a ha
    rw [bare_live hbare]
    rcases hcase ha with ⟨ha, -⟩ | ⟨-, rfl⟩
    · exact h.live j a ha
    · exact hl
  · intro j a ha
    rcases hcase ha with ⟨ha, -⟩ | ⟨-, rfl⟩
    · exact fun hm => h.inside j a ha (Finset.mem_of_mem_erase hm)
    · simp
  · intro j a ha
    rcases hcase ha with ⟨ha, hne⟩ | ⟨rfl, rfl⟩
    · rw [hlevels a hne]
      exact h.level j a ha
    · exact hlevel
  · intro a ha hout
    rw [bare_live hbare] at ha
    by_cases he : a = t
    · exact ⟨i, mem_update_append.mpr (Or.inr ⟨rfl, he⟩)⟩
    · obtain ⟨j, hj⟩ := h.all a ha fun hm => hout (Finset.mem_erase.mpr ⟨he, hm⟩)
      exact ⟨j, mem_update_append.mpr (Or.inl hj)⟩
  · rw [bare_idle hbare]
    exact Finset.mem_erase.mpr ⟨Ne.symm hid, h.idle⟩
  · rw [bare_live hbare]
    exact h.spread

/-- `task_manager_enqueue_task` on a task that is in no queue. -/
theorem enqueue_spec (h : Queues k q out) {t i : Nat} (ht : t ∈ out) (hl : t ∈ k.live)
    (hid : t ≠ k.idle) :
    ∃ k', task_manager_enqueue_task k i t = some k' ∧ k'.bare = k.bare ∧ k'.level t = i ∧
      (∀ a, a ≠ t → k'.level a = k.level a) ∧
      Queues k' (Function.update q i (q i ++ [t])) (out.erase t) := by
  let k1 := k.setTask t { k.tasks t with next := 0, task_queue_level := i }
  have h1 : Queues k1 q out := h.setTask ht _ rfl
  have hbare1 : k1.bare = k.bare := bare_setTask rfl
  have hlevel1 : k1.level t = i := by simp [k1, kernel_t.level, kernel_t.setTask]
  have hlevels1 : ∀ a, a ≠ t → k1.level a = k.level a := by
    intro a ha
    simp [k1, kernel_t.level, kernel_t.setTask, ha]
  have hnext1 : k1.next t = 0 := by simp [k1]
  have hnot : t ∉ q i := fun hm => h.inside i t hm ht
  have ht0 : t ≠ 0 := Spread.ne_zero h.spread hl
  unfold task_manager_enqueue_task
  rw [if_neg hid]
  show ∃ k', (if k1.queue i = 0 then some (k1.setQueue i t)
    else (lastNode k1.next 0 ADDRESSES (k1.queue i)).map fun head => k1.setNext head t) = some k' ∧ _
  rcases List.eq_nil_or_concat (q i) with hempty | ⟨xs, x, hxs⟩
  · have hz : k1.queue i = 0 := (h1.empty_iff i).mpr hempty
    refine ⟨k1.setQueue i t, if_pos hz, hbare1, hlevel1, hlevels1, ?_⟩
    apply h.append (k1.setQueue i t) ht hl hid hbare1 hlevel1 hlevels1 _ h1.loose
    intro j
    by_cases hj : j = i
    · subst hj
      simp [hempty, hnext1]
    · simpa [hj] using h1.path j
  · rw [List.concat_eq_append] at hxs
    have hz : k1.queue i ≠ 0 := by
      rw [Ne, h1.empty_iff, hxs]
      simp
    have hpath := h1.path i
    have hnull := h1.null i
    have hnodup := h1.nodup i
    have hlen := h1.length_lt i
    rw [hxs] at hpath hnull hnodup hlen hnot
    have hx : x ∉ xs := by
      intro hm
      rw [List.nodup_append] at hnodup
      exact hnodup.2.2 x hm x (by simp) rfl
    have hlast : lastNode k1.next 0 ADDRESSES (k1.queue i) = some x := by
      apply lastNode_path hpath hnull
      rw [List.length_append] at hlen
      exact lt_of_le_of_lt (Nat.le_add_right _ _) hlen
    have hlevel2 : ∀ a, (k1.setNext x t).level a = k1.level a := by
      intro a
      by_cases hax : a = x
      · subst hax
        simp [kernel_t.level, kernel_t.setNext, kernel_t.setTask]
      · simp [kernel_t.level, kernel_t.setNext, kernel_t.setTask, hax]
    have hbare2 : (k1.setNext x t).bare = k.bare := (bare_setNext _ _ _).trans hbare1
    have hlevels2 : ∀ a, a ≠ t → (k1.setNext x t).level a = k.level a := fun a ha =>
      (hlevel2 a).trans (hlevels1 a ha)
    refine ⟨k1.setNext x t, by rw [if_neg hz, hlast]; rfl, hbare2, (hlevel2 t).trans hlevel1,
      hlevels2, ?_⟩
    have hloose : ∀ a ∈ out, (k1.setNext x t).next a = 0 := by
      intro a ha
      rw [next_setNext, Function.update_of_ne]
      · exact h1.loose a ha
      · rintro rfl
        exact h1.inside i a (by rw [hxs]; simp) ha
    apply h.append (k1.setNext x t) ht hl hid hbare2 ((hlevel2 t).trans hlevel1) hlevels2 _ hloose
    intro j
    rw [next_setNext, queue_setNext]
    by_cases hj : j = i
    · subst hj
      rw [Function.update_self, hxs]
      exact path_link hpath hx hnot hnext1
    · rw [Function.update_of_ne hj]
      refine (path_update fun hm => hj ?_).mpr (h1.path j)
      exact h1.unique hm (hxs ▸ by simp)

/-! ## Removal -/

theorem mem_update_erase (h : Queues k q out) {i j t a : Nat} (ht : t ∈ q i) :
    a ∈ Function.update q i ((q i).erase t) j ↔ a ∈ q j ∧ a ≠ t := by
  by_cases hj : j = i
  · subst hj
    rw [Function.update_self, (h.nodup j).mem_erase_iff]
    exact and_comm
  · rw [Function.update_of_ne hj]
    constructor
    · intro ha
      refine ⟨ha, ?_⟩
      rintro rfl
      exact hj (h.unique ha ht)
    · exact And.left

/-- The invariant after a task was taken out of its queue. -/
theorem Queues.take (h : Queues k q out) (k' : kernel_t) {t i : Nat} (ht : t ∈ q i)
    (hbare : k'.bare = k.bare) (hlevels : ∀ a, k'.level a = k.level a)
    (hpath : ∀ j, Path k'.next (k'.queue j) (Function.update q i ((q i).erase t) j) 0)
    (hloose : ∀ a ∈ insert t out, k'.next a = 0) :
    Queues k' (Function.update q i ((q i).erase t)) (insert t out) := by
  refine ⟨hpath, ?_, ?_, ?_, ?_, ?_, ?_, hloose⟩
  · intro j a ha
    rw [bare_live hbare]
    exact h.live j a ((mem_update_erase h ht).mp ha).1
  · intro j a ha
    obtain ⟨ha, hne⟩ := (mem_update_erase h ht).mp ha
    simp [hne, h.inside j a ha]
  · intro j a ha
    rw [hlevels]
    exact h.level j a ((mem_update_erase h ht).mp ha).1
  · intro a ha hout
    rw [bare_live hbare] at ha
    rw [Finset.mem_insert, not_or] at hout
    obtain ⟨j, hj⟩ := h.all a ha hout.2
    exact ⟨j, (mem_update_erase h ht).mpr ⟨hj, hout.1⟩⟩
  · rw [bare_idle hbare]
    exact Finset.mem_insert_of_mem h.idle
  · rw [bare_live hbare]
    exact h.spread

/-- A task that leaves its queue is linked to no other. -/
theorem Queues.unlinked_loose (h : Queues k q out) (t : Nat) {next : Nat → Nat}
    (hn : ∀ a ∈ out, next a = k.next a) : ∀ a ∈ insert t out, Function.update next t 0 a = 0 := by
  intro a ha
  by_cases he : a = t
  · rw [he, Function.update_self]
  · rw [Function.update_of_ne he]
    have hout := (Finset.mem_insert.mp ha).resolve_left he
    rw [hn a hout]
    exact h.loose a hout

theorem level_setNext (k : kernel_t) (a v b : Nat) : (k.setNext a v).level b = k.level b := by
  by_cases hb : b = a
  · subst hb
    simp [kernel_t.level, kernel_t.setNext, kernel_t.setTask]
  · simp [kernel_t.level, kernel_t.setNext, kernel_t.setTask, hb]

/-- The head of a queue is taken out. -/
theorem Queues.take_head (h : Queues k q out) {t i : Nat} {xs : List Nat} (hq : q i = t :: xs) :
    Queues ((k.setQueue i (k.next t)).setNext t 0) (Function.update q i xs) (insert t out) := by
  have ht : t ∈ q i := by rw [hq]; simp
  have herase : (q i).erase t = xs := by rw [hq]; simp
  have hpath := h.path i
  have hnodup := h.nodup i
  rw [hq] at hpath hnodup
  rw [← herase]
  apply h.take _ ht
  · rw [bare_setNext]
    rfl
  · intro a
    rw [level_setNext]
    rfl
  · intro j
    rw [next_setNext, queue_setNext, queue_setQueue, next_setQueue]
    by_cases hj : j = i
    · subst hj
      rw [Function.update_self, Function.update_self, herase]
      exact path_unlink_head hpath hnodup
    · rw [Function.update_of_ne hj, Function.update_of_ne hj]
      exact (path_update fun hm => hj (h.unique hm ht)).mpr (h.path j)
  · rw [next_setNext, next_setQueue]
    exact h.unlinked_loose t fun _ _ => rfl

theorem dequeue_spec (h : Queues k q out) {t i : Nat} {xs : List Nat} (hq : q i = t :: xs) :
    task_manager_dequeue_task k i = ((k.setQueue i (k.next t)).setNext t 0, t) := by
  have hpath := h.path i
  rw [hq] at hpath
  have hhead : k.queue i = t := hpath.1
  have ht0 : t ≠ 0 := h.ne_zero (i := i) (by rw [hq]; simp)
  unfold task_manager_dequeue_task
  rw [if_neg (by rw [hhead]; exact ht0), hhead]

/-- `task_manager_remove_task_from_queue` on the queue of the task. -/
theorem remove_spec (h : Queues k q out) {t i : Nat} (ht : t ∈ q i) :
    ∃ k', task_manager_remove_task_from_queue k i t = some (k', TASK_MANAGER_RESULT_OK) ∧
      k'.bare = k.bare ∧ (∀ a, k'.level a = k.level a) ∧
      Queues k' (Function.update q i ((q i).erase t)) (insert t out) := by
  have hz : k.queue i ≠ 0 := by
    rw [Ne, h.empty_iff]
    rintro he
    simp [he] at ht
  have hpath := h.path i
  unfold task_manager_remove_task_from_queue
  rw [if_neg hz]
  by_cases hhead : k.queue i = t
  · rw [if_pos hhead]
    obtain ⟨xs, hxs⟩ : ∃ xs, q i = t :: xs := by
      cases hqi : q i with
      | nil => simp [hqi] at ht
      | cons x xs =>
        rw [hqi] at hpath
        exact ⟨xs, by rw [← hhead, hpath.1]⟩
    refine ⟨_, rfl, ?_, ?_, ?_⟩
    · rw [bare_setNext]
      rfl
    · intro a
      rw [level_setNext]
      rfl
    · rw [show (q i).erase t = xs by rw [hxs]; simp]
      exact h.take_head hxs
  · rw [if_neg hhead]
    obtain ⟨xs, x, ys, hxs⟩ : ∃ xs x ys, q i = xs ++ x :: t :: ys := by
      obtain ⟨l, r, hlr⟩ := List.append_of_mem ht
      rcases List.eq_nil_or_concat l with rfl | ⟨zs, z, rfl⟩
      · rw [hlr] at hpath
        exact absurd hpath.1 hhead
      · exact ⟨zs, z, r, by simpa using hlr⟩
    have hnull := h.null i
    have hnodup := h.nodup i
    have hlen := h.length_lt i
    rw [hxs] at hpath hnull hnodup hlen
    have htx : t ∉ xs ++ [x] := by
      intro hm
      rw [show xs ++ x :: t :: ys = (xs ++ [x]) ++ t :: ys by simp, List.nodup_append] at hnodup
      exact hnodup.2.2 t hm t (by simp) rfl
    have hbefore : nodeBefore k.next 0 t ADDRESSES (k.queue i) = some x := by
      apply nodeBefore_found hpath hnull htx
      rw [List.length_append] at hlen
      exact lt_of_le_of_lt (Nat.le_add_right _ _) hlen
    have hx0 : x ≠ 0 := by
      rintro rfl
      simp at hnull
    have herase : (q i).erase t = xs ++ x :: ys := by
      rw [hxs, show xs ++ x :: t :: ys = (xs ++ [x]) ++ t :: ys by simp,
        List.erase_append_right _ htx]
      simp
    rw [hbefore, Option.map_some, if_neg hx0]
    refine ⟨_, rfl, ?_, ?_, ?_⟩
    · rw [bare_setNext, bare_setNext]
    · intro a
      rw [level_setNext, level_setNext]
    · apply h.take _ ht
      · rw [bare_setNext, bare_setNext]
      · intro a
        rw [level_setNext, level_setNext]
      · intro j
        rw [next_setNext, next_setNext, queue_setNext, queue_setNext]
        by_cases hj : j = i
        · subst hj
          rw [Function.update_self, herase]
          exact path_unlink hpath hnodup
        · have hxm : x ∈ q i := by rw [hxs]; simp
          rw [Function.update_of_ne hj]
          exact (path_update fun hm => hj (h.unique hm ht)).mpr
            ((path_update fun hm => hj (h.unique hm hxm)).mpr (h.path j))
      · rw [next_setNext, next_setNext]
        refine h.unlinked_loose t fun a ha => Function.update_of_ne ?_ _ _
        rintro rfl
        exact h.inside i a (by rw [hxs]; simp) ha

theorem remove_absent (h : Queues k q out) {t i : Nat} (ht : t ∉ q i) :
    task_manager_remove_task_from_queue k i t =
      some (k, TASK_MANAGER_RESULT_QUEUE_TASK_NOT_FOUND) := by
  unfold task_manager_remove_task_from_queue
  by_cases hz : k.queue i = 0
  · rw [if_pos hz]
  · rw [if_neg hz]
    have hpath := h.path i
    have hnull := h.null i
    have hlen := h.length_lt i
    cases hqi : q i with
    | nil => exact absurd ((h.empty_iff i).mpr hqi) hz
    | cons x xs =>
      rw [hqi] at hpath hnull ht hlen
      rw [List.mem_cons, not_or] at ht hnull
      have hhead : k.queue i ≠ t := by
        rw [hpath.1]
        exact Ne.symm ht.1
      have hbefore := nodeBefore_absent hpath hnull.2 ht.2
        (lt_trans (Nat.lt_succ_self _) hlen)
      rw [if_neg hhead, hbefore]
      rfl

end alura_os.kernel
