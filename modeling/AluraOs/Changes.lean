-- All that an interrupt can do to what the tasks have: a tick, a call and its flag, a
-- signal, a child, a program, the end of a dead task. Nothing here asks the lists
-- of the kernel to be in order.
import AluraOs.Belongings

namespace alura_os.kernel

open alura_os.memory alura_os.task_manager alura_os.resource chains
open task_state_t task_wait_reason_t task_manager_result_t resource_result_t resource_type_t
open alura_os.elf_executable (SYSCALL_NSIG SYSCALL_SIG_DFL SYSCALL_SIG_IGN loaded_task)

/-! ## Changes -/

/-- The target is to run its handler: the frame and the flag of its call are put aside. -/
def signalled (k : kernel_t) (target : Nat) (frame : register_interrupt_data_t) : kernel_t :=
  let t := k.tasks target
  k.setTask target { t with
    saved_signal_frame := frame
    in_signal_handler := true
    saved_syscall_retry := t.syscall_retry
    syscall_retry := false }

/-- The handler of the running task has returned. -/
def returned (k : kernel_t) : kernel_t := setCaller k { caller k with in_signal_handler := false }

/-- The record of the child of a fork. -/
def enrolled (k : kernel_t) (child task_cr3 : Nat) : kernel_t :=
  let record := child_record (caller k) k.task_id task_cr3
    (sub32 (caller k).task_esp (caller k).stack_base)
  { k with toStore := new_task k.toStore child { record with resources := fun _ => 0 } }

/-- The call that a task has in progress is one of those that wait. -/
def CanWait (k : kernel_t) (a : Nat) : Prop :=
  (k.syscall_execution a).index = SYSCALL_READ ∨ (k.syscall_execution a).index = SYSCALL_WRITE ∨
    (k.syscall_execution a).index = SYSCALL_WAITPID

/-- The kernel when a tick has been counted. -/
def ticked (k : kernel_t) : kernel_t :=
  count_tick { k with timer_ticks := (k.timer_ticks + 1) % 2 ^ 64 }

/-- What a handler has done to the kernel when its task comes to wait or to end. A write changes
more, but no driver makes a writer wait. -/
inductive Enters (k : kernel_t) : kernel_t → Prop
  | exception : Enters k k
  | syscall (data : register_interrupt_data_t) : Enters k (load_execution k data)
  | read (data : register_interrupt_data_t) (length : Nat) :
      Enters k (taken (load_execution k data) length)
  | roused (data : register_interrupt_data_t) {k1 : kernel_t} :
      task_manager_unblock_task (load_execution k data) k.current = some k1 → Enters k k1

/-- The states in which an interrupt calls `task_manager_schedule`: after a tick was counted, and
when the running task has yielded because it is put to sleep or ends. -/
inductive Schedules (k : kernel_t) : Interrupt → kernel_t → Prop
  | ticks : Schedules k .timer (ticked k)
  | sleeps {data : register_interrupt_data_t} {answers : Answers} {k1 k2 : kernel_t}
      {wait_reason : task_wait_reason_t} {wait_object : Nat} :
      k.current ≠ 0 → k.current ≠ k.idle → Enters k k1 →
      task_manager_block_task k1 k1.current wait_reason wait_object = some k2 →
      Schedules k (.syscall data answers) (k2.setYield k2.current true)
  | ends {i : Interrupt} {k1 k2 : kernel_t} {return_code : Int} {blocks : List (Nat × Nat)}
      {result : task_manager_result_t} :
      k.current ≠ 0 → k.current ≠ k.idle → Ends k k.current i → Enters k k1 →
      task_manager_exit_task k1 k1.current return_code blocks = some (k2, result) →
      Schedules k i (k2.setYield k2.current true)

/-- The bounds of what happens: what a load may leave, whose handlers may start or return, which
addresses may become tasks, and where the scheduler is called. -/
structure Scope where
  exec : Loaded → Prop
  signal : Nat → Prop
  born : Nat → Prop
  schedules : kernel_t → Prop

/-- The scheduler may be called when the running task has been put to sleep. -/
def Scope.Sleeps (scope : Scope) (k : kernel_t) : Prop :=
  ∀ k1 wait_reason wait_object,
    task_manager_block_task k k.current wait_reason wait_object = some k1 →
    scope.schedules (k1.setYield k1.current true)

/-- The scheduler may be called when the running task has ended. -/
def Scope.Dies (scope : Scope) (k : kernel_t) : Prop :=
  ∀ k1 return_code blocks result,
    task_manager_exit_task k k.current return_code blocks = some (k1, result) →
    scope.schedules (k1.setYield k1.current true)

/-- No bounds. -/
def everything : Scope := ⟨fun _ => True, fun _ => True, fun _ => True, fun _ => True⟩

theorem everything_dies (k : kernel_t) : everything.Dies k := fun _ _ _ _ _ => trivial

variable {k k' k1 k2 : kernel_t} {answers : Answers} {r : Nat} {scope : Scope}

/-- One thing that happens to what the tasks have. -/
inductive Change (scope : Scope) : kernel_t → kernel_t → Prop
  | stays {k k' : kernel_t} : Stays k k' → Change scope k k'
  | scheduled {k k' : kernel_t} : scope.schedules k → task_manager_schedule k = some k' →
      Change scope k k'
  | ticked (k : kernel_t) : Change scope k (count_tick k)
  | called (k : kernel_t) (data : register_interrupt_data_t) :
      Change scope k (load_execution k data)
  | retries {k : kernel_t} {a : Nat} : CanWait k a →
      Change scope k (k.setTask a { k.tasks a with syscall_retry := true })
  | finished (k : kernel_t) (a : Nat) : Change scope k (finished k a)
  | signalled {k : kernel_t} {target : Nat} (frame : register_interrupt_data_t) :
      scope.signal target →
      Change scope k (signalled k target frame)
  | returned {k : kernel_t} : scope.signal k.current → Change scope k (returned k)
  | handles {k : kernel_t} {sig handler : Nat} : sig ≠ 9 →
      Change scope k (handles k sig handler)
  | born {k : kernel_t} {child : Nat} (task_cr3 : Nat) : scope.born child → TaskBlock k.live child →
      Change scope k (enrolled k child task_cr3)
  | loaded {k : kernel_t} {loaded : Loaded} (task_cr3 : Nat) : scope.exec loaded →
      Change scope k (setCaller k (loaded_task (caller k) loaded.e_entry task_cr3
        loaded.task_esp loaded.heap_start))
  | inherited (k : kernel_t) (task : Nat) : Change scope k (inherit_ticks k task)
  | freed (k : kernel_t) (task : Nat) :
      Change scope k { k with toStore := free_task k.toStore task }
  | strayed {k k' : kernel_t} : Strays k k' → Change scope k k'

def Changes (scope : Scope) : kernel_t → kernel_t → Prop :=
  Relation.ReflTransGen (Change scope)

theorem Changes.refl (k : kernel_t) : Changes scope k k := Relation.ReflTransGen.refl

theorem Changes.single (h : Change scope k k') : Changes scope k k' :=
  Relation.ReflTransGen.single h

theorem Changes.trans (h : Changes scope k k1) (h' : Changes scope k1 k2) :
    Changes scope k k2 := Relation.ReflTransGen.trans h h'

theorem Stays.changes (h : Stays k k') : Changes scope k k' := Changes.single (.stays h)

theorem Wanders.changes (h : Wanders k k') : Changes scope k k' := by
  obtain h | ⟨k1, k2, h1, hs, h2⟩ := h
  · exact h.changes
  · exact (h1.changes.trans (Changes.single (.strayed hs))).trans h2.changes

theorem Yields.changes (h : Yields scope.schedules k k') : Changes scope k k' := by
  obtain h | ⟨k1, h, hs, he⟩ := h
  · exact h.changes
  · exact h.changes.trans (Changes.single (.scheduled hs he))

theorem count_tick_manager (k : kernel_t) : (count_tick k).task_manager = k.task_manager := by
  unfold count_tick
  dsimp only
  split
  · rfl
  split <;> rfl

theorem inherit_ticks_manager (k : kernel_t) (task : Nat) :
    (inherit_ticks k task).task_manager = k.task_manager := by
  unfold inherit_ticks
  dsimp only
  split <;> rfl

/-! ## Stores that go astray -/

/-- The number of stores that have gone astray into such words of tasks. -/
def kernel_t.hits (k : kernel_t) (words : Nat × Nat → Bool) : Nat := k.strays.countP words

theorem count_tick_strays (k : kernel_t) : (count_tick k).strays = k.strays := by
  unfold count_tick
  dsimp only
  split
  · rfl
  split <;> rfl

theorem load_execution_strays (k : kernel_t) (data : register_interrupt_data_t) :
    (load_execution k data).strays = k.strays := by
  unfold load_execution
  split <;> rfl

theorem inherit_ticks_strays (k : kernel_t) (task : Nat) :
    (inherit_ticks k task).strays = k.strays := by
  unfold inherit_ticks
  dsimp only
  split <;> rfl

/-- No such store is forgotten. -/
theorem Change.strays (h : Change scope k k') : k.strays <:+ k'.strays := by
  have hsame : k'.strays = k.strays → k.strays <:+ k'.strays := fun he => he ▸ List.suffix_rfl
  cases h with
  | stays h => exact hsame h.strays
  | scheduled _ h => exact hsame (keeps_schedule h).strays
  | ticked => exact hsame (count_tick_strays k)
  | called data => exact hsame (load_execution_strays k data)
  | inherited task => exact hsame (inherit_ticks_strays k task)
  | strayed h =>
    obtain ⟨task, i, v, k1, h1, rfl⟩ := h
    show k.strays <:+ (task, i) :: k1.strays
    rw [(store_task_word_rest h1).2.2.2.1]
    exact List.suffix_cons _ _
  | freed => exact List.suffix_rfl
  | retries => exact List.suffix_rfl
  | finished => exact List.suffix_rfl
  | signalled => exact List.suffix_rfl
  | returned => exact List.suffix_rfl
  | handles => exact List.suffix_rfl
  | born => exact List.suffix_rfl
  | loaded => exact List.suffix_rfl

theorem Changes.hits (h : Changes scope k k') (words : Nat × Nat → Bool) :
    k.hits words ≤ k'.hits words := by
  induction h with
  | refl => exact le_rfl
  | tail _ hlast ih => exact ih.trans hlast.strays.sublist.countP_le

/-- What every change keeps that hits none of these words is kept when none is hit at all. -/
theorem Changes.keep_unhit {P : kernel_t → Prop} (words : Nat × Nat → Bool)
    (hchange : ∀ k k', Change scope k k' → k'.hits words = k.hits words → P k → P k')
    (h : Changes scope k k') (hn : k'.hits words = k.hits words) (hp : P k) : P k' := by
  induction h with
  | refl => exact hp
  | @tail k1 k2 hfirst hlast ih =>
    have h1 := Changes.hits hfirst words
    have h2 := (Changes.single hlast).hits words
    exact hchange _ _ hlast (by omega) (ih (by omega))

/-- A store into such a word counts. -/
theorem Strays.hits (h : Strays k k') (words : Nat × Nat → Bool) :
    k'.hits words = k.hits words →
      ∃ task i v k1, words (task, i) = false ∧ store_task_word k task i v = some k1 ∧
        k' = { k1 with strays := (task, i) :: k1.strays } := by
  obtain ⟨task, i, v, k1, h1, rfl⟩ := h
  intro hn
  refine ⟨task, i, v, k1, ?_, h1, rfl⟩
  rw [← Bool.not_eq_true]
  intro hw
  have hold : k1.strays = k.strays := (store_task_word_rest h1).2.2.2.1
  unfold kernel_t.hits at hn
  dsimp only at hn
  rw [List.countP_cons_of_pos hw, hold] at hn
  omega

/-- The words of a task but for its link. -/
def words_of (a : Nat) (word : Nat × Nat) : Bool := word.1 = a ∧ word.2 ≠ TASK_NEXT_WORD

/-- A task that is not hit may have another link. -/
theorem Strays.spares {a : Nat} (h : Strays k k') (hn : k'.hits (words_of a) = k.hits (words_of a)) :
    (∃ next, k'.tasks a = { k.tasks a with next := next }) ∧
      k'.syscall_execution a = k.syscall_execution a := by
  obtain ⟨task, i, v, k1, hw, h1, rfl⟩ := h.hits _ hn
  by_cases ha : a = task
  · subst ha
    obtain rfl : i = TASK_NEXT_WORD := by simpa [words_of] using hw
    cases h1
    exact ⟨⟨v, Function.update_self _ _ _⟩, rfl⟩
  · obtain ⟨ht, he⟩ := (store_task_word_rest h1).2.2.2.2 a ha
    exact ⟨⟨(k.tasks a).next, ht⟩, he⟩

/-! ## Files -/

theorem stays_slots {s : Store} {t : Nat} (h : OnlySlots t k.toStore s) :
    Stays k { k with toStore := s } := by
  have htask : ∀ {α : Type} (f : task_t → α),
      (∀ (t : task_t) slots, f { t with resources := slots } = f t) → ∀ a,
      f (s.tasks a) = f (k.tasks a) := by
    intro α f hf a
    obtain ⟨slots, he⟩ := h.task a
    rw [he]
    exact hf _ _
  refine ⟨⟨htask belongings fun _ _ => rfl, h.live, rfl, rfl, rfl, rfl, rfl⟩, ?_, fun h0 => ?_, rfl,
    rfl⟩
  · exact htask (fun t => t.task_time_slice) fun _ _ => rfl
  · exact (htask (fun t => t.task_queue_level) (fun _ _ => rfl) k.idle).trans h0

theorem stays_setResource (k : kernel_t) (a : Nat) (r : resource_t) : Stays k (k.setResource a r) :=
  ⟨⟨fun _ => rfl, rfl, rfl, rfl, rfl, rfl, rfl⟩, fun _ => rfl, id, rfl, rfl⟩

theorem setRetry_changes (k : kernel_t) : Changes scope k (setRetry k false) :=
  Changes.single (Change.finished k k.current)

theorem open_changes (h : syscall_open k answers = some (k', r)) : Changes scope k k' := by
  unfold syscall_open at h
  split at h
  · cases h
    exact Changes.refl k
  · obtain ⟨⟨s, result, index⟩, he, h⟩ := Option.bind_eq_some_iff.mp h
    cases h
    exact (stays_slots (register_only he).1).changes

theorem close_changes (k : kernel_t) (answers : Answers) :
    Changes scope k (syscall_close k answers).1 := by
  unfold syscall_close
  dsimp only
  split
  · exact Changes.refl k
  · exact (stays_slots (remove_only k.toStore k.current _).1).changes

theorem stays_vfs_read (k : kernel_t) (x : resource_t) (buffer length : Nat) (answers : Answers) :
    Stays k (vfs_read k x buffer length answers).1 := by
  unfold vfs_read
  split
  · exact Stays.refl k
  split
  · exact stays_store rfl rfl rfl rfl rfl rfl rfl rfl
  · exact Stays.refl k
  · exact Stays.refl k

/-- The running task starts to wait, and its call is to be tried again. -/
theorem waits_changes {wait_reason : task_wait_reason_t} {wait_object : Nat}
    (hb : task_manager_block_task k k.current wait_reason wait_object = some k1)
    (hy : task_manager_yield_current k1 = some k2) (hc : CanWait k k.current)
    (hs : scope.Sleeps k) :
    Changes scope k (k2.setTask k.current { k2.tasks k.current with syscall_retry := true }) := by
  have hyields : Yields scope.schedules k k2 :=
    Yields.of_stays (stays_block hb) (yields_yield (hs _ _ _ hb) hy)
  have h := hyields.keeps
  apply hyields.changes.trans
  apply Changes.single
  apply Change.retries
  unfold CanWait
  rw [h.execution]
  exact hc

theorem read_resource_changes {resource : Nat} (hc : call k = SYSCALL_READ)
    (hs : ∀ length, scope.Sleeps (taken k length))
    (h : syscall_read_resource k resource answers = some (k', r)) : Changes scope k k' := by
  unfold syscall_read_resource at h
  dsimp only at h
  have h1 := stays_vfs_read k (k.resources resource) (parameter k 1) (parameter k 2) answers
  have hcases := vfs_read_cases k (k.resources resource) (parameter k 1) (parameter k 2) answers
  generalize vfs_read k (k.resources resource) (parameter k 1) (parameter k 2) answers = v
    at h h1 hcases
  obtain ⟨k1, result, read_bytes⟩ := v
  dsimp only at h h1 hcases
  split at h
  · rename_i hblock
    split at h
    · cases h
      exact h1.changes.trans (setRetry_changes k1)
    · obtain ⟨k2, hb, h⟩ := Option.bind_eq_some_iff.mp h
      obtain ⟨k3, hy, h⟩ := Option.bind_eq_some_iff.mp h
      cases h
      obtain rfl : k1 = taken k (parameter k 2) := by
        rcases hcases with ⟨-, hno⟩ | ⟨-, hk, -⟩
        · exact absurd hblock hno
        · exact hk
      exact h1.changes.trans (waits_changes hb hy (Or.inl hc) (hs _))
  · have h2 : Changes scope k (setRetry k1 false) := h1.changes.trans (setRetry_changes k1)
    split at h
    · cases h
      exact h2
    · cases h
      exact h2.trans (stays_setResource _ _ _).changes

theorem read_changes (hc : call k = SYSCALL_READ) (hs : ∀ length, scope.Sleeps (taken k length))
    (h : syscall_read k answers = some (k', r)) : Changes scope k k' := by
  have hnone : ∀ {r' : Nat}, some (k, r') = some (k', r) → Changes scope k k' := by
    intro r' h
    cases h
    exact Changes.refl k
  unfold syscall_read at h
  dsimp only at h
  split at h
  · exact hnone h
  split at h
  · exact hnone h
  split at h
  · exact hnone h
  split at h
  · exact hnone h
  split at h
  · exact hnone h
  · exact read_resource_changes hc hs h

theorem write_resource_changes {resource : Nat}
    (h : syscall_write_resource k resource answers = some (k', r)) : Changes scope k k' := by
  unfold syscall_write_resource at h
  dsimp only at h
  rw [if_neg (vfs_write_never_blocks _ _ _ _)] at h
  generalize vfs_write (k.resources resource) (u32 (parameter k 1 + k.write_offset k.current))
    (sub32 (parameter k 2) (k.write_offset k.current)) answers = v at h
  obtain ⟨result, written_bytes⟩ := v
  dsimp only at h
  generalize u32 (k.write_offset k.current + written_bytes) = offset at h
  generalize hk1 : ({ k with
    write_offset := Function.update k.write_offset k.current offset } : kernel_t) = k1 at h
  have h1 : Stays k k1 := by
    rw [← hk1]
    exact stays_store rfl rfl rfl rfl rfl rfl rfl rfl
  have h2 : Changes scope k (setRetry k1 false) := h1.changes.trans (setRetry_changes k1)
  split at h
  · cases h
    exact h2.trans (stays_setResource _ _ _).changes
  · cases h
    exact h2.trans (stays_setResource _ _ _).changes

theorem write_changes (h : syscall_write k answers = some (k', r)) : Changes scope k k' := by
  unfold syscall_write at h
  dsimp only at h
  generalize hk1 : (if (caller k).syscall_retry = true then k
    else { k with write_offset := Function.update k.write_offset k.current 0 }) = k1 at h
  have h1 : Stays k k1 := by
    rw [← hk1]
    split
    · exact Stays.refl k
    · exact stays_store rfl rfl rfl rfl rfl rfl rfl rfl
  have hnone : ∀ {r' : Nat}, some (k1, r') = some (k', r) → Changes scope k k' := by
    intro r' h
    cases h
    exact h1.changes
  split at h
  · exact hnone h
  split at h
  · exact hnone h
  split at h
  · exact hnone h
  split at h
  · exact hnone h
  split at h
  · exact hnone h
  · exact h1.changes.trans (write_resource_changes h)

theorem lseek_changes (k : kernel_t) (answers : Answers) :
    Changes scope k (syscall_lseek k answers).1 := by
  unfold syscall_lseek
  dsimp only
  split
  · exact Changes.refl k
  split
  · exact Changes.refl k
  split
  · exact Changes.refl k
  split
  · exact Changes.refl k
  · exact (stays_setResource _ _ _).changes

theorem fcntl_changes (k : kernel_t) : Changes scope k (syscall_fcntl k).1 := by
  unfold syscall_fcntl
  dsimp only
  split
  · exact Changes.refl k
  split
  · exact Changes.refl k
  split
  · exact Changes.refl k
  split
  · exact (stays_setResource _ _ _).changes
  · exact Changes.refl k

/-! ## Tasks -/

theorem stays_create_directory {page_directory : Option Nat} {task_cr3 : Nat}
    (h : create_directory k page_directory = some (k1, task_cr3)) : Stays k k1 := by
  obtain ⟨directories, rfl⟩ := create_directory_eq h
  exact stays_store rfl rfl rfl rfl rfl rfl rfl rfl

/-- The child has its record, then its files and its place in a queue. -/
theorem task_copy_changes {child : Nat}
    (h : task_manager_task_copy k k.current answers = some (k', child)) :
    child = answers.task_block ∧ TaskBlock k.live child ∧
      ∃ k1 task_cr3, Stays k k1 ∧ k1.task_id = k.task_id ∧
        Stays (enrolled k1 child task_cr3) k' := by
  unfold task_manager_task_copy at h
  dsimp only at h
  split at h
  · rename_i hblock
    obtain ⟨⟨k1, task_cr3⟩, hd, h⟩ := Option.bind_eq_some_iff.mp h
    obtain ⟨k2, he, h⟩ := Option.bind_eq_some_iff.mp h
    cases h
    have h1 := stays_create_directory hd
    have hid : k1.task_id = k.task_id := by
      obtain ⟨directories, rfl⟩ := create_directory_eq hd
      rfl
    refine ⟨rfl, hblock, k1, task_cr3, h1, hid, Stays.trans ?_ (stays_enqueue he)⟩
    rw [← h1.current]
    have hs := (share_resources_only (enrolled k1 answers.task_block task_cr3).toStore
      answers.task_block k1.current).1
    exact (stays_slots hs).trans (stays_store rfl rfl rfl rfl rfl rfl rfl rfl)
  · cases h

theorem fork_changes (hborn : ∀ child, TaskBlock k.live child → scope.born child)
    (h : syscall_fork k answers = some (k', r)) : Changes scope k k' := by
  obtain ⟨⟨k1, child⟩, hcopy, h⟩ := Option.bind_eq_some_iff.mp h
  obtain ⟨k2, hadd, h⟩ := Option.bind_eq_some_iff.mp h
  cases h
  obtain ⟨-, hblock, k0, task_cr3, h0, -, h1⟩ := task_copy_changes hcopy
  have hchild : Change scope k0 (enrolled k0 child task_cr3) := by
    apply Change.born _ (hborn child hblock)
    rw [h0.live]
    exact hblock
  apply (h0.changes.trans (Changes.single hchild)).trans
  exact (h1.trans (stays_setParent _ _ _)).changes.trans (wanders_add_child hadd).changes

theorem stays_queue_to_destroy (k : kernel_t) (d : Nat) :
    Stays k (memory_paging_queue_to_destroy k d) := by
  unfold memory_paging_queue_to_destroy
  split
  · exact Stays.refl k
  · exact stays_store rfl rfl rfl rfl rfl rfl rfl rfl

theorem execve_changes {eax : Nat} (hexec : ∀ loaded, answers.loaded = some loaded → scope.exec loaded)
    (h : syscall_execve k eax answers = some (k', r)) : Changes scope k k' := by
  unfold syscall_execve at h
  split at h
  · cases h
    exact Changes.refl k
  split at h
  · cases h
    exact Changes.refl k
  obtain ⟨⟨k2, ok⟩, hload, h⟩ := Option.bind_eq_some_iff.mp h
  cases h
  unfold elf_load_into_task at hload
  obtain ⟨⟨k1, task_cr3⟩, hd, hload⟩ := Option.bind_eq_some_iff.mp hload
  have h1 := stays_create_directory hd
  dsimp only at hload
  split at hload
  · cases hload
    exact h1.changes
  rename_i loaded hl
  split at hload
  · cases hload
    exact h1.changes
  · cases hload
    rw [← h1.current]
    apply h1.changes.trans
    exact (Changes.single (Change.loaded task_cr3 (hexec loaded hl))).trans
      (stays_queue_to_destroy _ _).changes

theorem destroy_changes {child : Nat} (h : task_manager_destroy_task k child = some k') :
    Changes scope k k' := by
  unfold task_manager_destroy_task at h
  dsimp only at h
  have hs := (release_resources_only (inherit_ticks k child).toStore child).1
  generalize release_resources (inherit_ticks k child).toStore child = s at hs h
  obtain ⟨k2, hp, h⟩ := Option.bind_eq_some_iff.mp h
  obtain ⟨⟨k3, result⟩, hq, h⟩ := Option.bind_eq_some_iff.mp h
  cases h
  have h1 := stays_slots hs
  have h2 : Wanders { inherit_ticks k child with toStore := s } k2 := by
    unfold leave_parent at hp
    split at hp
    · obtain ⟨x, he, rfl⟩ := Option.map_eq_some_iff.mp hp
      exact wanders_remove_child_from ADDRESSES he
    · cases hp
      exact Or.inl (Stays.refl _)
  have h3 : Stays k3 (free_task_directory k3 child) := by
    unfold free_task_directory
    split
    · exact stays_store rfl rfl rfl rfl rfl rfl rfl rfl
    · exact Stays.refl _
  have hlast := (h1.wanders h2).stays ((stays_remove_from_queue hq).trans h3)
  exact ((Changes.single (Change.inherited k child)).trans hlast.changes).trans
    (Changes.single (Change.freed _ child))

theorem waitpid_changes (hc : call k = SYSCALL_WAITPID) (hs : scope.Sleeps k)
    (h : syscall_waitpid k = some (k', r)) : Changes scope k k' := by
  obtain ⟨child, -, h⟩ := Option.bind_eq_some_iff.mp h
  dsimp only at h
  split at h
  · obtain ⟨existing, -, h⟩ := Option.bind_eq_some_iff.mp h
    split at h
    · cases h
      exact setRetry_changes k
    · obtain ⟨k1, hb, h⟩ := Option.bind_eq_some_iff.mp h
      obtain ⟨k2, hy, h⟩ := Option.bind_eq_some_iff.mp h
      cases h
      exact waits_changes hb hy (Or.inr (Or.inr hc)) hs
  · obtain ⟨k1, hd, h⟩ := Option.bind_eq_some_iff.mp h
    cases h
    exact (destroy_changes hd).trans (setRetry_changes k1)

/-! ## Signals -/

/-- The task whose handler a `kill` starts, if it starts one. -/
def kill_delivery (k : kernel_t) (answers : Answers) : Option Nat :=
  if int32 (parameter k 0) ≤ 0 then none
  else if int32 (parameter k 1) ≤ 0 ∨ (SYSCALL_NSIG : Int) ≤ int32 (parameter k 1) then none
  else (task_manager_find_task k (parameter k 0)).bind fun target =>
    let handler := (k.tasks target).signal_handlers (parameter k 1)
    if target ≠ 0 ∧ k.state target ≠ TASK_STATE_ZOMBIE ∧ k.state target ≠ TASK_STATE_TERMINATED ∧
        handler ≠ SYSCALL_SIG_IGN ∧ handler ≠ SYSCALL_SIG_DFL ∧ answers.room then some target
    else none

/-- A `kill` starts a handler, or it leaves what the tasks have. -/
theorem kill_cases (hdies : Kills k k.current answers → ∀ k1,
      (k1 = k ∨ task_manager_unblock_task k k.current = some k1) → scope.Dies k1)
    (h : syscall_kill k answers = some (k', r)) :
    (∃ target k1, kill_delivery k answers = some target ∧ Stays k k1 ∧
      k' = signalled k1 target answers.frame) ∨
    kill_delivery k answers = none ∧ Yields scope.schedules k k' := by
  unfold syscall_kill at h
  dsimp only at h
  unfold kill_delivery
  split at h
  · rename_i hp
    cases h
    exact Or.inr ⟨if_pos hp, Or.inl (Stays.refl k)⟩
  rename_i hp
  rw [if_neg hp]
  split at h
  · rename_i hs
    cases h
    exact Or.inr ⟨if_pos (hs.imp le_of_lt id), Or.inl (Stays.refl k)⟩
  rename_i hs
  obtain ⟨target, hf, h⟩ := Option.bind_eq_some_iff.mp h
  rw [hf]
  split at h
  · rename_i h0
    cases h
    refine Or.inr ⟨?_, Or.inl (Stays.refl k)⟩
    simp [h0]
  rename_i h0
  split at h
  · rename_i hs0
    cases h
    exact Or.inr ⟨if_pos (Or.inl hs0.le), Or.inl (Stays.refl k)⟩
  rename_i hs0
  have hsig : ¬ (int32 (parameter k 1) ≤ 0 ∨ (SYSCALL_NSIG : Int) ≤ int32 (parameter k 1)) := by
    omega
  rw [if_neg hsig, Option.bind_some]
  split at h
  · rename_i hz
    cases h
    refine Or.inr ⟨if_neg ?_, Or.inl (Stays.refl k)⟩
    rintro ⟨-, hz1, hz2, -⟩
    exact hz.elim hz1 hz2
  rename_i hz
  rw [not_or] at hz
  obtain ⟨k2, hk, h⟩ := Option.bind_eq_some_iff.mp h
  cases h
  have hkills : EndedBy k target (parameter k 1) answers → Kills k target answers := by
    intro hend
    rw [not_or, Int.not_le, Int.not_le] at hsig
    exact ⟨Int.not_le.mp hp, hsig.1, hsig.2, hf, h0, hz.1, hz.2, hend⟩
  unfold kill_target at hk
  dsimp only at hk
  split at hk
  · rename_i hi
    cases hk
    refine Or.inr ⟨if_neg ?_, Or.inl (Stays.refl _)⟩
    rintro ⟨-, -, -, hn, -⟩
    exact hn hi
  rename_i hi
  split at hk
  · rename_i hd
    refine Or.inr ⟨if_neg ?_, yields_exit (fun hself => ?_) hk⟩
    · rintro ⟨-, -, -, -, hn, -⟩
      exact hn hd
    · subst hself
      exact fun k1 result => hdies (hkills (Or.inl hd)) k (Or.inl rfl) k1 _ _ result
  rename_i hd
  obtain ⟨k1, h1, hwoken, hk⟩ : ∃ k1, Stays k k1 ∧
      (k1 = k ∨ task_manager_unblock_task k target = some k1) ∧
      task_manager_deliver_signal k1 target (parameter k 1) answers = some k' := by
    split at hk
    · obtain ⟨k1, hu, hk⟩ := Option.bind_eq_some_iff.mp hk
      exact ⟨k1, stays_unblock hu, Or.inr hu, hk⟩
    · exact ⟨k, Stays.refl k, Or.inl rfl, hk⟩
  unfold task_manager_deliver_signal at hk
  split at hk
  · rename_i hroom
    refine Or.inr ⟨if_neg ?_, Yields.of_stays h1 (yields_exit (fun hself => ?_) hk)⟩
    · rintro ⟨-, -, -, -, -, hr⟩
      rw [hr] at hroom
      cases hroom
    · rw [h1.current] at hself
      subst hself
      have hno : answers.room = false := by simpa using hroom
      exact fun k2 result => hdies (hkills (Or.inr ⟨hi, hno⟩)) k1 hwoken k2 _ _ result
  · rename_i hroom
    cases hk
    refine Or.inl ⟨target, k1, if_pos ⟨h0, hz.1, hz.2, hi, hd, ?_⟩, h1, rfl⟩
    simpa using hroom

theorem kill_changes (hsig : ∀ target, kill_delivery k answers = some target → scope.signal target)
    (hdies : Kills k k.current answers → ∀ k1,
      (k1 = k ∨ task_manager_unblock_task k k.current = some k1) → scope.Dies k1)
    (h : syscall_kill k answers = some (k', r)) : Changes scope k k' := by
  obtain ⟨target, k1, hd, h1, rfl⟩ | ⟨-, h1⟩ := kill_cases hdies h
  · exact h1.changes.trans (Changes.single (Change.signalled answers.frame (hsig target hd)))
  · exact h1.changes

theorem sigaction_changes (k : kernel_t) (answers : Answers) :
    Changes scope k (syscall_sigaction k answers).1 := by
  unfold syscall_sigaction
  dsimp only
  split
  · exact Changes.refl k
  split
  · exact Changes.refl k
  split
  · exact Changes.refl k
  split
  · exact Changes.refl k
  split
  · rename_i hkill _ _ _
    apply Changes.single
    apply Change.handles
    intro h9
    rw [h9] at hkill
    exact hkill rfl
  · exact Changes.refl k

theorem sigreturn_changes (eax : Nat) (hsig : scope.signal k.current) :
    Changes scope k (syscall_sigreturn k eax).1 := by
  unfold syscall_sigreturn
  split
  · exact Changes.single (Change.returned hsig)
  · exact Changes.refl k

/-- The exception starts a handler of the running task. -/
def fault_delivery (k : kernel_t) (interrupt_index : Nat) (answers : Answers) : Bool :=
  let handler := (caller k).signal_handlers (exception_signals.getD interrupt_index 6)
  handler ≠ SYSCALL_SIG_DFL ∧ handler ≠ SYSCALL_SIG_IGN ∧ answers.room

theorem exception_cases {interrupt_index : Nat}
    (hdies : EndedByFault k interrupt_index answers → scope.Dies k)
    (h : exception_handler k interrupt_index answers = some k') :
    fault_delivery k interrupt_index answers = true ∧ k' = signalled k k.current answers.frame ∨
    fault_delivery k interrupt_index answers = false ∧ Yields scope.schedules k k' := by
  unfold exception_handler at h
  unfold fault_delivery
  dsimp only at h ⊢
  split at h
  · rename_i hh
    unfold task_manager_deliver_signal at h
    split at h
    · rename_i hroom
      have hno : answers.room = false := by simpa using hroom
      refine Or.inr ⟨decide_eq_false ?_, yields_exit (fun _ k1 => ?_) h⟩
      · rintro ⟨-, -, hr⟩
        rw [hr] at hno
        cases hno
      · exact hdies (Or.inr (Or.inr hno)) k1 _ _
    · rename_i hroom
      cases h
      exact Or.inl ⟨decide_eq_true ⟨hh.1, hh.2, by simpa using hroom⟩, rfl⟩
  · rename_i hh
    refine Or.inr ⟨decide_eq_false ?_, yields_exit (fun _ k1 => ?_) h⟩
    · rintro ⟨h1, h2, -⟩
      exact hh ⟨h1, h2⟩
    · refine hdies ?_ k1 _ _
      by_contra hno
      exact hh ⟨fun hd => hno (Or.inl hd), fun hi => hno (Or.inr (Or.inl hi))⟩

/-! ## One interrupt -/

/-- The tasks whose handlers an interrupt starts or ends. -/
def Signals (k : kernel_t) : Interrupt → Nat → Prop
  | .syscall data answers, a =>
    let k := load_execution k data
    call k = SYSCALL_KILL ∧ kill_delivery k answers = some a ∨
      call k = SYSCALL_SIGRETURN ∧ a = k.current
  | .exception interrupt_index answers, a => fault_delivery k interrupt_index answers ∧ a = k.current
  | _, _ => False

/-- What a load may leave. -/
def Loads (exec : Loaded → Prop) (k : kernel_t) : Interrupt → Prop
  | .syscall data answers => call (load_execution k data) = SYSCALL_EXECVE →
      ∀ loaded, answers.loaded = some loaded → exec loaded
  | _ => True

theorem Loads.any (k : kernel_t) (i : Interrupt) : Loads (fun _ => True) k i := by
  cases i with
  | syscall => exact fun _ _ _ => trivial
  | _ => trivial

theorem Changes.of_pair {p : kernel_t × Nat} (h : Changes scope k p.1)
    (hr : some p = some (k', r)) : Changes scope k k' := by
  obtain rfl := Option.some.inj hr
  exact h

theorem dispatch_changes {data : register_interrupt_data_t}
    (hborn : ∀ child, TaskBlock k.live child → scope.born child)
    (hexec : call k = SYSCALL_EXECVE → ∀ loaded, answers.loaded = some loaded → scope.exec loaded)
    (hkill : call k = SYSCALL_KILL → ∀ target, kill_delivery k answers = some target →
      scope.signal target)
    (hreturn : call k = SYSCALL_SIGRETURN → scope.signal k.current)
    (hsleeps : scope.Sleeps k) (htaken : ∀ length, scope.Sleeps (taken k length))
    (hexit : call k = SYSCALL_EXIT → scope.Dies k)
    (hdies : call k = SYSCALL_KILL → Kills k k.current answers → ∀ k1,
      (k1 = k ∨ task_manager_unblock_task k k.current = some k1) → scope.Dies k1)
    (h : syscall_dispatch k data answers = some (k', r)) : Changes scope k k' := by
  unfold syscall_dispatch at h
  by_cases hi : call k = SYSCALL_OPEN
  · rw [if_pos hi] at h
    exact open_changes h
  rw [if_neg hi] at h
  clear hi
  by_cases hi : call k = SYSCALL_CLOSE
  · rw [if_pos hi] at h
    exact (close_changes k answers).of_pair h
  rw [if_neg hi] at h
  clear hi
  by_cases hi : call k = SYSCALL_READ
  · rw [if_pos hi] at h
    exact read_changes hi htaken h
  rw [if_neg hi] at h
  clear hi
  by_cases hi : call k = SYSCALL_WRITE
  · rw [if_pos hi] at h
    exact write_changes h
  rw [if_neg hi] at h
  clear hi
  by_cases hi : call k = SYSCALL_FORK
  · rw [if_pos hi] at h
    exact fork_changes hborn h
  rw [if_neg hi] at h
  clear hi
  by_cases hi : call k = SYSCALL_EXECVE
  · rw [if_pos hi] at h
    exact execve_changes (hexec hi) h
  rw [if_neg hi] at h
  clear hi
  by_cases hi : call k = SYSCALL_EXIT
  · rw [if_pos hi] at h
    obtain ⟨k1, he, h⟩ := Option.map_eq_some_iff.mp h
    cases h
    exact (yields_exit (fun _ k1 => hexit hi k1 _ _) he).changes
  rw [if_neg hi] at h
  clear hi
  by_cases hi : call k = SYSCALL_WAITPID
  · rw [if_pos hi] at h
    exact waitpid_changes hi hsleeps h
  rw [if_neg hi] at h
  clear hi
  by_cases hi : call k = SYSCALL_SBRK
  · rw [if_pos hi] at h
    cases h
    apply Stays.changes
    exact stays_setTask rfl rfl fun _ => id
  rw [if_neg hi] at h
  clear hi
  by_cases hi : call k = SYSCALL_ISATTY
  · rw [if_pos hi] at h
    cases h
    exact Changes.refl k
  rw [if_neg hi] at h
  clear hi
  by_cases hi : call k = SYSCALL_GETPID
  · rw [if_pos hi] at h
    cases h
    exact Changes.refl k
  rw [if_neg hi] at h
  clear hi
  by_cases hi : call k = SYSCALL_LSEEK
  · rw [if_pos hi] at h
    exact (lseek_changes k answers).of_pair h
  rw [if_neg hi] at h
  clear hi
  by_cases hi : call k = SYSCALL_FCNTL
  · rw [if_pos hi] at h
    exact (fcntl_changes k).of_pair h
  rw [if_neg hi] at h
  clear hi
  by_cases hi : call k = SYSCALL_KILL
  · rw [if_pos hi] at h
    exact kill_changes (hkill hi) (hdies hi) h
  rw [if_neg hi] at h
  clear hi
  by_cases hi : call k = SYSCALL_SIGACTION
  · rw [if_pos hi] at h
    exact (sigaction_changes k answers).of_pair h
  rw [if_neg hi] at h
  clear hi
  by_cases hi : call k = SYSCALL_SIGRETURN
  · rw [if_pos hi] at h
    exact (sigreturn_changes data.eax (hreturn hi)).of_pair h
  rw [if_neg hi] at h
  clear hi
  have hnone : ∀ {r'}, some (k, r') = some (k', r) → Changes scope k k' := by
    intro r' h
    cases h
    exact Changes.refl k
  split at h
  · exact hnone h
  split at h
  · exact hnone h
  split at h
  · exact hnone h
  · exact hnone h

theorem stays_reloaded (k : kernel_t) : Stays k (reloaded k) := stays_store rfl rfl rfl rfl rfl rfl rfl rfl

/-- What an interrupt may do. -/
def scopeOf (exec : Loaded → Prop) (k : kernel_t) (i : Interrupt) : Scope :=
  ⟨exec, Signals k i, TaskBlock k.live, Schedules k i⟩

/-- A handler does these things, and no other. -/
theorem handler_changes {exec : Loaded → Prop} {i : Interrupt} (hexec : Loads exec k i) (h : handler k i = some k') :
    Changes (scopeOf exec k i) k k' := by
  cases i with
  | timer =>
    have h1 : Stays k { k with timer_ticks := (k.timer_ticks + 1) % 2 ^ 64 } :=
      stays_store rfl rfl rfl rfl rfl rfl rfl rfl
    exact (h1.changes.trans (Changes.single (Change.ticked _))).trans
      (Changes.single (Change.scheduled Schedules.ticks h))
  | keyboard scancode =>
    unfold handler keyboard_irq_handler at h
    dsimp only at h
    refine Stays.changes (Stays.trans ?_ (stays_wake_from ADDRESSES h))
    exact stays_store rfl rfl rfl rfl rfl rfl rfl rfl
  | syscall data answers =>
    simp only [handler] at h
    split at h
    · cases h
    rename_i hc
    rw [not_or] at hc
    obtain ⟨⟨k1, eax⟩, he, rfl⟩ := Option.map_eq_some_iff.mp h
    obtain ⟨hst, hm, -, -⟩ := load_execution_rest k data
    have hcur : (load_execution k data).current = k.current := congrArg (fun m => m.task_current) hm
    have hsleeps : ∀ k1, Enters k k1 → (scopeOf exec k (.syscall data answers)).Sleeps k1 :=
      fun k1 hk k2 _ _ hb => Schedules.sleeps hc.1 hc.2 hk hb
    have hdies : Ends k k.current (.syscall data answers) → ∀ k1, Enters k k1 →
        (scopeOf exec k (.syscall data answers)).Dies k1 :=
      fun hends k1 hk k2 _ _ _ hx => Schedules.ends hc.1 hc.2 hends hk hx
    have h1 : Changes (scopeOf exec k (.syscall data answers)) (load_execution k data) k1 := by
      refine dispatch_changes (fun child hb => ?_) hexec (fun hi target ht => Or.inl ⟨hi, ht⟩)
        (fun hi => Or.inr ⟨hi, rfl⟩) (hsleeps _ (.syscall data)) (fun n => hsleeps _ (.read data n))
        (fun hi => hdies (Or.inl ⟨hi, hcur.symm⟩) _ (.syscall data)) (fun hi hk k2 h2 => ?_) he
      · rw [hst] at hb
        exact hb
      · rw [hcur] at hk h2
        apply hdies (Or.inr ⟨hi, hk⟩)
        obtain rfl | h2 := h2
        · exact .syscall data
        · exact .roused data h2
    exact ((Changes.single (Change.called k data)).trans h1).trans (stays_reloaded k1).changes
  | exception interrupt_index answers =>
    simp only [handler] at h
    split at h
    · cases h
    rename_i hc
    rw [not_or] at hc
    obtain ⟨k1, he, rfl⟩ := Option.map_eq_some_iff.mp h
    refine Changes.trans ?_ (stays_reloaded k1).changes
    have hdies : EndedByFault k interrupt_index answers →
        (scopeOf exec k (.exception interrupt_index answers)).Dies k :=
      fun hends k1 _ _ _ hx => Schedules.ends hc.1 hc.2 ⟨hends, rfl⟩ .exception hx
    obtain ⟨hf, rfl⟩ | ⟨-, h1⟩ := exception_cases hdies he
    · exact Changes.single (Change.signalled answers.frame ⟨hf, rfl⟩)
    · exact h1.changes

theorem forall_setTask {P : task_t → Prop} {a : Nat} {t : task_t} (h : ∀ b, P (k.tasks b)) (ht : P t)
    (b : Nat) : P ((k.setTask a t).tasks b) := by
  by_cases hb : b = a
  · subst hb
    simpa [kernel_t.setTask] using ht
  · simpa [kernel_t.setTask, hb] using h b

/-! ## The boot -/

theorem stays_vfs_open {task flags : Nat} {file : Option (resource_type_t × Nat) × Nat}
    (h : vfs_open k task file flags = some k') : Stays k k' := by
  unfold vfs_open at h
  split at h
  · cases h
    exact Stays.refl k
  · obtain ⟨⟨s, result, index⟩, he, rfl⟩ := Option.map_eq_some_iff.mp h
    exact stays_slots (register_only he).1

/-- The boot ends with the idle task, and with init that has its program if there was one. -/
theorem boot_changes {boot : Boot} (h : kernel_initialize boot = some k) :
    Stays (peopled boot) k ∨ ∃ loaded task_cr3, boot.load.loaded = some loaded ∧
      Stays ((peopled boot).setTask boot.init_block (loaded_task ((peopled boot).tasks boot.init_block)
        loaded.e_entry task_cr3 loaded.task_esp loaded.heap_start)) k := by
  unfold kernel_initialize at h
  obtain ⟨k1, h1, h⟩ := Option.bind_eq_some_iff.mp h
  obtain ⟨-, -, rfl⟩ := module_init_eq h1
  obtain ⟨k2, h2, h⟩ := Option.bind_eq_some_iff.mp h
  obtain ⟨k3, h3, h⟩ := Option.bind_eq_some_iff.mp h
  obtain ⟨k4, h4, h⟩ := Option.bind_eq_some_iff.mp h
  have hopen := (stays_vfs_open h3).trans ((stays_vfs_open h4).trans (stays_vfs_open h))
  unfold elf_load_and_execute at h2
  obtain ⟨⟨k5, task⟩, hcreate, h2⟩ := Option.bind_eq_some_iff.mp h2
  obtain ⟨-, rfl, -, -, hk⟩ := create_init_eq hcreate
  dsimp only at h2
  rw [hk] at h2
  obtain ⟨⟨k6, ok⟩, hload, rfl⟩ := Option.map_eq_some_iff.mp h2
  unfold elf_load_into_task at hload
  obtain ⟨⟨k7, task_cr3⟩, hd, hload⟩ := Option.bind_eq_some_iff.mp hload
  obtain ⟨directories, rfl⟩ := create_directory_eq hd
  have h7 : Stays (peopled boot) { peopled boot with directories := directories } :=
    stays_store rfl rfl rfl rfl rfl rfl rfl rfl
  dsimp only at hload
  split at hload
  · cases hload
    exact Or.inl (h7.trans hopen)
  rename_i loaded hl
  split at hload
  · cases hload
    exact Or.inl (h7.trans hopen)
  · cases hload
    refine Or.inr ⟨loaded, task_cr3, hl, Stays.trans ?_ ((stays_queue_to_destroy _ _).trans hopen)⟩
    exact stays_store rfl rfl rfl rfl rfl rfl rfl rfl

/-- What holds of an empty record, of the two first tasks and of a load holds of every task after
the boot. -/
theorem boot_tasks {P : task_t → Prop} {boot : Boot}
    (hP : ∀ t t', belongings t' = belongings t → P t → P t') (hzero : P task_t.zeroed)
    (hidle : P (created_record 0 boot.idle_entry boot.idle_directory boot.idle_esp false))
    (hinit : P (created_record 1 0 boot.init_directory boot.init_esp true))
    (hload : ∀ t loaded task_cr3, boot.load.loaded = some loaded → P t →
      P (loaded_task t loaded.e_entry task_cr3 loaded.task_esp loaded.heap_start))
    (h : kernel_initialize boot = some k) (a : Nat) : P (k.tasks a) := by
  have hpeopled : ∀ a, P ((peopled boot).tasks a) := by
    have h1 : ∀ a, P ((idling boot).tasks a) := by
      apply forall_setTask (k := unstarted boot) (fun _ => hzero)
      refine hP (created_record 0 boot.idle_entry boot.idle_directory boot.idle_esp false) _ ?_ hidle
      rfl
    exact forall_setTask (k := idling boot) h1 hinit
  obtain hk | ⟨loaded, task_cr3, hl, hk⟩ := boot_changes h
  · exact hP _ _ (hk.tasks a) (hpeopled a)
  · exact hP _ _ (hk.tasks a) (forall_setTask hpeopled (hload _ _ task_cr3 hl (hpeopled _)) a)

theorem boot_strays {boot : Boot} (h : kernel_initialize boot = some k) : k.strays = [] := by
  obtain hk | ⟨_, _, -, hk⟩ := boot_changes h
  · exact hk.strays
  · exact hk.strays

/-! ## All runs -/

/-- The kernel after any interrupts from its boot on, each of which meets a condition, whatever
happens to its lists. The boot and the loads leave what they may. -/
inductive AnyRun (started : Boot → Prop) (exec : Loaded → Prop)
    (met : kernel_t → Interrupt → Prop) : kernel_t → Prop
  | boot {boot : Boot} {k : kernel_t} : started boot → kernel_initialize boot = some k →
      AnyRun started exec met k
  | step {k k' : kernel_t} {i : Interrupt} : AnyRun started exec met k → met k i →
      Loads exec k i → interrupt k i = some k' → AnyRun started exec met k'

theorem Acts.strays {rules : Rules} (h : Acts rules k k') : k'.strays = k.strays := by
  induction h with
  | refl => rfl
  | tail _ hlast ih =>
    have hc := congrArg (fun c => c.2.2.2.2) hlast.constant
    exact hc.trans ih

theorem AnyRun.run {started : Boot → Prop} {exec : Loaded → Prop}
    (h : AnyRun started exec Orderly k) : Run anything k := by
  induction h with
  | boot _ hb => exact Run.boot hb
  | step _ ho _ hr ih => exact Run.step ih ho (anything_allows _ _) hr

/-- Where no task ends while it has children, no store goes astray. -/
theorem Run.strays {rules : Rules} (h : Run rules k) : k.strays = [] := by
  induction h with
  | boot hb => exact boot_strays hb
  | step hrun ho ha hr ih =>
    obtain ⟨q, order, ns, hb⟩ := hrun.between
    exact (interrupt_spec hb ho ha hr).1.strays.trans ih

theorem Run.handler_strays {rules : Rules} {i : Interrupt} (h : Run rules k) (ho : Orderly k i)
    (hr : handler k i = some k') : k'.strays = k.strays := by
  obtain ⟨q, order, ns, hb⟩ := h.between
  exact (handler_spec hb ho (anything_allows k i) hr).1.strays

end alura_os.kernel
