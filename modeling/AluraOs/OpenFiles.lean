-- Open files over whole runs: the counts of their records, the calls that wait to be
-- tried again, and the modes that the files were opened in.
import AluraOs.KernelRuns

namespace alura_os.kernel

open alura_os.memory alura_os.task_manager alura_os.resource chains
open task_state_t task_wait_reason_t resource_result_t resource_type_t

variable {k k' : kernel_t} {order : List Nat} {ns : Nat → List Nat} {rules : Rules}

/-! ## The counts -/

theorem counted_setTask (h : Counted k.toStore) {a : Nat} {t : task_t}
    (ht : t.resources = (k.tasks a).resources) : Counted (k.setTask a t).toStore :=
  h.step (Step.task ht)

/-- The records of the children do not matter to the counts. -/
theorem counted_lists {s s' : Store} (h : Counted s)
    (ht : ∀ a, ∃ children tail, s'.tasks a =
      { s.tasks a with children := children, children_tail := tail })
    (hl : s'.live = s.live) (hr : s'.resources = s.resources) (hb : s'.blocks = s.blocks)
    (hledger : s'.ledger = s.ledger) : Counted s' := by
  refine h.same ?_ hl (fun r => by rw [hr]; exact ⟨rfl, rfl⟩) hb hledger
  intro a
  obtain ⟨children, tail, he⟩ := ht a
  rw [he]

theorem adopted_store (k : kernel_t) (p c b : Nat) : (∀ a, ∃ children tail,
      (adopted k p c b).tasks a = { k.tasks a with children := children, children_tail := tail }) ∧
    (adopted k p c b).live = k.live ∧ (adopted k p c b).resources = k.resources ∧
    (adopted k p c b).blocks = k.blocks ∧ (adopted k p c b).ledger = k.ledger := by
  refine ⟨?_, (adopted_rest k p c b).1, ?_⟩
  · intro a
    by_cases ha : a = p
    · rw [ha, adopted_parent]
      exact ⟨_, _, rfl⟩
    · rw [adopted_task _ _ _ _ _ ha]
      exact ⟨_, _, rfl⟩
  · obtain ⟨tasks, nodes, node_blocks, he⟩ := adopted_shape k p c b
    rw [he]
    exact ⟨rfl, rfl, rfl⟩

theorem cut_store (k : kernel_t) (p head : Nat) : (∀ a, ∃ children tail,
      (cut k p head).tasks a = { k.tasks a with children := children, children_tail := tail }) ∧
    (cut k p head).live = k.live ∧ (cut k p head).resources = k.resources ∧
    (cut k p head).blocks = k.blocks ∧ (cut k p head).ledger = k.ledger := by
  refine ⟨?_, (cut_rest k p head).1, ?_⟩
  · intro a
    by_cases ha : a = p
    · rw [ha, cut_parent]
      exact ⟨_, _, rfl⟩
    · rw [cut_task _ _ _ _ ha]
      exact ⟨_, _, rfl⟩
  · obtain ⟨tasks, nodes, node_blocks, he⟩ := cut_shape k p head
    rw [he]
    exact ⟨rfl, rfl, rfl⟩

/-- The child shares the files of its parent. -/
theorem counted_forked (h : Counted k.toStore) {child task_cr3 block : Nat} (hc : k.current ∈ k.live)
    (ht : TaskBlock k.live child) : Counted (forked k child task_cr3 block).toStore := by
  have hborn : Counted (unlisted k child task_cr3).toStore := by
    have hshare : Counted (share_resources (new_task k.toStore child
        { child_record (k.tasks k.current) k.task_id task_cr3
            (sub32 (k.tasks k.current).task_esp (k.tasks k.current).stack_base) with
          resources := fun _ => 0 }) child k.current) := h.step (Step.fork hc ht fun _ _ => rfl)
    unfold unlisted spawned
    dsimp only
    generalize share_resources _ child k.current = s at hshare ⊢
    exact hshare.step (Step.task rfl)
  obtain ⟨h1, h2, h3, h4, h5⟩ := adopted_store (unlisted k child task_cr3) k.current child block
  rw [forked_eq]
  exact counted_lists hborn h1 h2 h3 h4 h5

theorem counted_reaped (h : Counted k.toStore) {child : Nat} (head : Nat) (hl : child ∈ k.live) :
    Counted (reaped k child head).toStore := by
  have hr := h.released hl
  unfold reaped
  dsimp only
  generalize release_resources k.toStore child = s at *
  obtain ⟨h1, h2, h3, h4, h5⟩ := cut_store { k with toStore := s } k.current head
  have hcut : Counted (cut { k with toStore := s } k.current head).toStore :=
    counted_lists hr.counted h1 h2 h3 h4 h5
  have hslots : ∀ i < TASK_MAX_RESOURCES,
      (cut { k with toStore := s } k.current head).toStore.slot child i = 0 := by
    intro i hi
    obtain ⟨children, tail, he⟩ := h1 child
    unfold Store.slot
    rw [he]
    exact hr.done i hi
  rw [(free_task_directory_rest _ child).1]
  exact hcut.without_task hslots

theorem counted_act (h : Counted k.toStore) (hact : Act rules k k') : Counted k'.toStore := by
  cases hact with
  | same hv =>
    have hf : ∀ {α : Type} (f : kernel_t → α), f k'.view = f k.view := fun f => congrArg f hv
    refine h.same ?_ (hf fun k => k.live) ?_ (hf fun k => k.blocks) (hf fun k => k.ledger)
    · intro a
      have hp := congrArg (fun t => t.resources) (view_task hv a)
      exact hp
    · intro r
      have hr := congrFun (hf fun k => k.resources) r
      exact ⟨congrArg (fun r => r.ref_count) hr, congrArg (fun r => r.operations) hr⟩
  | freed =>
    obtain ⟨frees, directories, he⟩ := destroy_queued_eq k
    rw [he]
    exact h
  | pressed scancode =>
    refine h.same ?_ rfl (fun _ => ⟨rfl, rfl⟩) rfl rfl
    intro a
    rw [(awakened_task (buffered k scancode) _ _ a).1]
    rfl
  | called data =>
    rw [(load_execution_rest k data).1]
    exact h
  | opened hl hr => exact h.register hl hr
  | closed i hl => exact h.step (Step.remove hl)
  | @flagged i flags =>
    have hs : Step k.toStore (k.toStore.setResource ((caller k).resources i)
        { k.resources ((caller k).resources i) with
          offset := (k.resources ((caller k).resources i)).offset
          flags := flags }) := Step.use
    exact h.step hs
  | took => exact h
  | waitsKey => exact counted_setTask h rfl
  | waitsChild => exact counted_setTask h rfl
  | retries => exact counted_setTask h rfl
  | finished => exact counted_setTask h rfl
  | handles => exact counted_setTask h rfl
  | forked hc _ _ _ hd hb _ =>
    obtain ⟨directories, rfl⟩ := create_directory_eq hd
    have h1 : Counted ({ k with directories := directories } : kernel_t).toStore := h
    exact counted_forked h1 hc hb
  | leaked hd =>
    obtain ⟨directories, rfl⟩ := create_directory_eq hd
    exact h
  | @executed k1 task_cr3 _ loaded _ _ hd _ =>
    obtain ⟨directories, rfl⟩ := create_directory_eq hd
    unfold kernel.executed
    dsimp only
    rw [queue_to_destroy_store]
    exact h.step (Step.task rfl)
  | @exited a _ _ _ =>
    have hrest : (kernel.exited k a).resources = k.resources ∧ (kernel.exited k a).blocks = k.blocks ∧
        (kernel.exited k a).ledger = k.ledger := by
      unfold kernel.exited
      dsimp only
      split <;> exact ⟨rfl, rfl, rfl⟩
    refine h.same ?_ (exited_live k a) (fun r => by rw [hrest.1]; exact ⟨rfl, rfl⟩) hrest.2.1 hrest.2.2
    intro b
    obtain ⟨state, hs⟩ := exited_task k a b
    rw [hs]
  | reaped _ hl => exact counted_reaped h _ hl
  | roused => exact counted_setTask h rfl
  | reloaded => exact h
  | @switched new_task esp =>
    have hrest : (kernel.switched k new_task esp).resources = k.resources ∧
        (kernel.switched k new_task esp).blocks = k.blocks ∧
        (kernel.switched k new_task esp).ledger = k.ledger := by
      unfold kernel.switched
      dsimp only
      split <;> exact ⟨rfl, rfl, rfl⟩
    refine h.same ?_ (switched_live k new_task esp) (fun r => by rw [hrest.1]; exact ⟨rfl, rfl⟩)
      hrest.2.1 hrest.2.2
    intro b
    obtain ⟨esp', he⟩ := switched_task k new_task esp b
    rw [he]

/-! ## Calls that are tried again -/

/-- Every task whose call is to be tried again has one that will pass the checks. -/
structure Resumable (k : kernel_t) : Prop where
  counted : Counted k.toStore
  pending : ∀ a ∈ k.live, k.state a ≠ TASK_STATE_ZOMBIE → (k.tasks a).syscall_retry = true →
    Pending k a

/-- What the calls depend on, in one task. -/
structure SameCall (k k' : kernel_t) (a : Nat) : Prop where
  zombie : k'.state a ≠ TASK_STATE_ZOMBIE → k.state a ≠ TASK_STATE_ZOMBIE
  retry : (k'.tasks a).syscall_retry = true → (k.tasks a).syscall_retry = true
  execution : k'.syscall_execution a = k.syscall_execution a
  user : (k'.tasks a).task_is_user = (k.tasks a).task_is_user
  slots : (k'.tasks a).resources = (k.tasks a).resources

/-- An open file has the same flags and operations. -/
def SameFiles (k k' : kernel_t) : Prop :=
  ∀ r ∈ k.blocks, (k'.resources r).flags = (k.resources r).flags ∧
    (k'.resources r).operations = (k.resources r).operations

theorem SameFiles.of_counts (h : OnlyCounts k.toStore k'.toStore) : SameFiles k k' := by
  intro r _
  rw [h r]
  exact ⟨rfl, rfl⟩

theorem SameFiles.of_eq (h : k'.resources = k.resources) : SameFiles k k' := by
  intro r _
  rw [h]
  exact ⟨rfl, rfl⟩

/-- A task that lived before and whose call is the same. -/
theorem Resumable.resumes (h : Resumable k) {a : Nat} (hf : SameFiles k k') (ha : a ∈ k.live)
    (hs : SameCall k k' a) (hz : k'.state a ≠ TASK_STATE_ZOMBIE)
    (hr : (k'.tasks a).syscall_retry = true) : Pending k' a := by
  apply (h.pending a ha (hs.zombie hz) (hs.retry hr)).congr hs.execution hs.user
  · intro i _
    rw [hs.slots]
  · intro i hi h0
    exact hf _ (h.counted.slots a ha i hi h0)

/-- Nothing happens to any call. -/
theorem Resumable.congr (h : Resumable k) (hc : Counted k'.toStore) (hl : k'.live = k.live)
    (hf : SameFiles k k') (hs : ∀ a ∈ k.live, SameCall k k' a) : Resumable k' := by
  refine ⟨hc, ?_⟩
  intro a ha
  rw [hl] at ha
  exact h.resumes hf ha (hs a ha)

/-- A task that is not dead is to try its read of this file again. -/
def AwaitsRead (k : kernel_t) (a resource : Nat) : Prop :=
  a ∈ k.live ∧ k.state a ≠ TASK_STATE_ZOMBIE ∧ (k.tasks a).syscall_retry = true ∧
    (k.syscall_execution a).index = SYSCALL_READ ∧
    (k.tasks a).resources ((k.syscall_execution a).parameters 0) = resource

/-- No file becomes one for writing only while a read of it is to be tried again. -/
def readersStay : Rules :=
  { anything with
    flags := fun k resource flags => flags &&& SYSCALL_O_ACCMODE = SYSCALL_O_WRONLY →
      ∀ a, ¬ AwaitsRead k a resource }

theorem Resumable.flagged (h : Resumable k) {resource flags : Nat}
    (hc : Counted (k.setResource resource { k.resources resource with flags := flags }).toStore)
    (hrule : readersStay.flags k resource flags) :
    Resumable (k.setResource resource { k.resources resource with flags := flags }) := by
  refine ⟨hc, ?_⟩
  intro a ha hz hr
  rcases h.pending a ha hz hr with hw | ⟨hread, hb, hi, h0, hflags, hop⟩
  · exact Or.inl hw
  · refine Or.inr ⟨hread, hb, hi, h0, ?_⟩
    by_cases hres : (k.tasks a).resources ((k.syscall_execution a).parameters 0) = resource
    · have hnot : ¬ flags &&& SYSCALL_O_ACCMODE = SYSCALL_O_WRONLY :=
        fun hw => hrule hw a ⟨ha, hz, hr, hread, hres⟩
      subst hres
      simp only [kernel_t.setResource, Function.update_self]
      exact ⟨hnot, hop⟩
    · simp only [kernel_t.setResource, Function.update_of_ne hres]
      exact ⟨hflags, hop⟩

/-- A change of one task that leaves its call as it is. -/
theorem SameCall.of_setTask {b : Nat} {t : task_t}
    (hz : t.task_state ≠ TASK_STATE_ZOMBIE → k.state b ≠ TASK_STATE_ZOMBIE)
    (hr : t.syscall_retry = true → (k.tasks b).syscall_retry = true)
    (hu : t.task_is_user = (k.tasks b).task_is_user) (hs : t.resources = (k.tasks b).resources) (a : Nat) :
    SameCall k (k.setTask b t) a := by
  by_cases ha : a = b
  · subst ha
    have ht : (k.setTask a t).tasks a = t := by simp [kernel_t.setTask]
    unfold kernel_t.state at hz
    refine ⟨?_, ?_, rfl, ?_, ?_⟩
    · unfold kernel_t.state
      rw [ht]
      exact hz
    · rw [ht]
      exact hr
    · rw [ht]
      exact hu
    · rw [ht]
      exact hs
  · have ht : (k.setTask b t).tasks a = k.tasks a := by simp [kernel_t.setTask, ha]
    refine ⟨?_, ?_, rfl, ?_, ?_⟩
    · unfold kernel_t.state
      rw [ht]
      exact id
    all_goals rw [ht]
    exact id

theorem Resumable.of_setTask (h : Resumable k) {b : Nat} {t : task_t}
    (hz : t.task_state ≠ TASK_STATE_ZOMBIE → k.state b ≠ TASK_STATE_ZOMBIE)
    (hr : t.syscall_retry = true → (k.tasks b).syscall_retry = true)
    (hu : t.task_is_user = (k.tasks b).task_is_user) (hs : t.resources = (k.tasks b).resources) :
    Resumable (k.setTask b t) :=
  h.congr (counted_setTask h.counted hs) rfl (SameFiles.of_eq rfl)
    fun a _ => SameCall.of_setTask hz hr hu hs a

/-- The running task has other slots, and its call is not one that is tried again. -/
theorem Resumable.slots (h : Resumable k) {s : Store} (hc : Counted s)
    (ho : OnlySlots k.current k.toStore s) (hf : SameFiles k { k with toStore := s })
    (hcall : (caller k).syscall_retry = true → k.current ∈ k.live → k.state k.current ≠ TASK_STATE_ZOMBIE →
      Pending k k.current → Pending { k with toStore := s } k.current) :
    Resumable { k with toStore := s } := by
  refine ⟨hc, ?_⟩
  intro a ha hz hr
  have hl : a ∈ k.live := ho.live ▸ ha
  by_cases hcur : a = k.current
  · subst hcur
    obtain ⟨slots, ht⟩ := ho.task k.current
    have hz' : k.state k.current ≠ TASK_STATE_ZOMBIE := by
      intro hk
      apply hz
      show (s.tasks k.current).task_state = _
      rw [ht]
      exact hk
    have hr' : (caller k).syscall_retry = true := by
      replace hr : (s.tasks k.current).syscall_retry = true := hr
      rw [ht] at hr
      exact hr
    exact hcall hr' hl hz' (h.pending _ hl hz' hr')
  · have ht : ({ k with toStore := s } : kernel_t).tasks a = k.tasks a := ho.others a hcur
    refine h.resumes hf hl ⟨?_, ?_, rfl, by rw [ht], by rw [ht]⟩ hz hr
    · unfold kernel_t.state
      rw [ht]
      exact id
    · rw [ht]
      exact id

theorem Resumable.forks (h : Resumable k) {child task_cr3 block : Nat} (hc : k.current ∈ k.live)
    (ht : TaskBlock k.live child) : Resumable (forked k child task_cr3 block) := by
  have hne : child ≠ k.current := fun he => ht.fresh (he ▸ hc)
  refine ⟨counted_forked h.counted hc ht, ?_⟩
  intro a ha hz hr
  by_cases hac : a = child
  · -- The record of the child is new, so it has no call to try again.
    obtain ⟨slots, hchild⟩ := forked_child k task_cr3 block hne
    rw [hac, hchild] at hr
    cases hr
  · rw [forked_live, Finset.mem_insert] at ha
    obtain ⟨children, tail, he⟩ := forked_others k task_cr3 block hac
    obtain ⟨store, nodes, node_blocks, hshape⟩ := forked_shape k child task_cr3 block
    refine h.resumes (SameFiles.of_counts (forked_files k child task_cr3 block).1) (ha.resolve_left hac)
      ⟨?_, ?_, ?_, ?_, ?_⟩ hz hr
    · unfold kernel_t.state
      rw [he]
      exact id
    · rw [he]
      exact id
    · rw [hshape]
    · rw [he]
    · rw [he]

theorem Resumable.reaps (h : Resumable k) {child : Nat} (head : Nat) (hl : child ∈ k.live)
    (hne : k.current ≠ child) : Resumable (reaped k child head) := by
  refine ⟨counted_reaped h.counted head hl, ?_⟩
  intro a ha hz hr
  rw [(reaped_gone k head hne).live, Finset.mem_erase] at ha
  obtain ⟨children, tail, he⟩ := reaped_others k head hne ha.1
  obtain ⟨store, nodes, node_blocks, directories, frees, hshape⟩ := reaped_shape k child head
  refine h.resumes (SameFiles.of_counts (reaped_files k child head).1) ha.2 ⟨?_, ?_, ?_, ?_, ?_⟩ hz hr
  · unfold kernel_t.state
    rw [he]
    exact id
  · rw [he]
    exact id
  · rw [hshape]
  · rw [he]
  · rw [he]

theorem Resumable.called (h : Resumable k) (data : register_interrupt_data_t) :
    Resumable (load_execution k data) := by
  unfold load_execution
  split
  · exact h
  · rename_i hretry
    refine ⟨h.counted, ?_⟩
    intro a ha hz hr
    have hne : a ≠ k.current := by
      rintro rfl
      exact hretry hr
    refine h.resumes (SameFiles.of_eq rfl) ha ⟨id, id, ?_, rfl, rfl⟩ hz hr
    exact Function.update_of_ne hne _ _

/-- The running task is to try its call again. -/
theorem Resumable.retries (h : Resumable k) (hp : Pending k k.current) :
    Resumable (setRetry k true) := by
  refine ⟨counted_setTask h.counted rfl, ?_⟩
  intro a ha hz hr
  have hkeep : ∀ {b}, Pending k b → Pending (setRetry k true) b := by
    intro b hb
    have ht : ∀ {α : Type} (f : task_t → α),
        (∀ t : task_t, f { t with syscall_retry := true } = f t) →
        f ((setRetry k true).tasks b) = f (k.tasks b) := by
      intro α f hf
      by_cases hbc : b = k.current
      · subst hbc
        simp [setRetry, kernel_t.setTask, hf]
      · simp [setRetry, kernel_t.setTask, hbc]
    refine hb.congr rfl (ht (fun t => t.task_is_user) fun _ => rfl) ?_ fun _ _ _ => ⟨rfl, rfl⟩
    exact fun i _ => ht (fun t => t.resources i) fun _ => rfl
  by_cases hc : a = k.current
  · rw [hc]
    exact hkeep hp
  · have ht : (setRetry k true).tasks a = k.tasks a := by simp [setRetry, kernel_t.setTask, hc]
    unfold kernel_t.state at hz
    rw [ht] at hz hr
    exact hkeep (h.pending a ha hz hr)

theorem Resumable.act (ht : Tree k order ns) (h : Resumable k) (hact : Act readersStay k k') :
    Resumable k' := by
  have hcounted := counted_act h.counted hact
  cases hact with
  | same hv =>
    refine ⟨hcounted, ?_⟩
    intro a ha hz hr
    refine (h.pending a ?_ ?_ ?_).of_view hv
    · have hl := congrArg (fun k => k.live) hv
      exact hl ▸ ha
    · exact fun hk => hz ((view_zombie hv a).mpr hk)
    · rw [← view_retry hv a]
      exact hr
  | freed =>
    obtain ⟨frees, directories, he⟩ := destroy_queued_eq k
    rw [he]
    exact ⟨h.counted, h.pending⟩
  | pressed scancode =>
    refine h.congr hcounted rfl (SameFiles.of_eq rfl) fun a _ => ?_
    have he := (awakened_task (buffered k scancode) TASK_WAIT_REASON_IO k.keyboard_address a).1
    refine ⟨?_, ?_, rfl, ?_, ?_⟩
    · exact fun hz hk => hz (awakened_zombie hk)
    · rw [he]
      exact id
    · rw [he]
      rfl
    · rw [he]
      rfl
  | called data => exact h.called data
  | opened hl hr hn1 hn2 =>
    refine h.slots hcounted (register_only hr).1 ?_ ?_
    · intro r hb
      show (_ = _) ∧ _
      rw [show ({ k with toStore := _ } : kernel_t).resources r = _ from (register_only hr).2 r hb]
      exact ⟨rfl, rfl⟩
    · intro _ _ _ hp
      rcases hp with hw | hw
      · exact absurd hw hn1
      · exact absurd hw.1 hn2
  | closed i hl hn1 hn2 =>
    obtain ⟨hslots, hcounts⟩ := remove_only k.toStore k.current i
    refine h.slots hcounted hslots (SameFiles.of_counts hcounts) ?_
    intro _ _ _ hp
    rcases hp with hw | hw
    · exact absurd hw hn1
    · exact absurd hw.1 hn2
  | flagged _ _ _ hrule => exact h.flagged hcounted hrule
  | took => exact ⟨h.counted, h.pending⟩
  | waitsKey _ _ hrun => exact h.of_setTask (fun _ => by rw [hrun]; decide) id rfl rfl
  | waitsChild _ _ hrun => exact h.of_setTask (fun _ => by rw [hrun]; decide) id rfl rfl
  | retries hp => exact h.retries hp
  | finished a => exact h.of_setTask id (fun hc => by cases hc) rfl rfl
  | handles => exact h.of_setTask id id rfl rfl
  | forked hc _ _ _ hd hb =>
    obtain ⟨directories, rfl⟩ := create_directory_eq hd
    have h1 : Resumable { k with directories := directories } := ⟨h.counted, h.pending⟩
    exact h1.forks hc hb
  | leaked hd =>
    obtain ⟨directories, rfl⟩ := create_directory_eq hd
    exact ⟨h.counted, h.pending⟩
  | @executed k1 task_cr3 _ loaded _ _ hd _ =>
    obtain ⟨directories, rfl⟩ := create_directory_eq hd
    have h1 : Resumable { k with directories := directories } := ⟨h.counted, h.pending⟩
    have h2 := h1.of_setTask (b := k.current) (t := alura_os.elf_executable.loaded_task
      (k.tasks k.current) loaded.e_entry task_cr3 loaded.task_esp loaded.heap_start) id id rfl rfl
    unfold kernel.executed
    dsimp only
    unfold memory_paging_queue_to_destroy
    split <;> exact ⟨h2.counted, h2.pending⟩
  | @exited a _ _ _ =>
    have hrest : (kernel.exited k a).resources = k.resources ∧
        (kernel.exited k a).syscall_execution = k.syscall_execution := by
      unfold kernel.exited
      dsimp only
      split <;> exact ⟨rfl, rfl⟩
    refine h.congr hcounted (exited_live k a) (SameFiles.of_eq hrest.1) fun b _ => ?_
    obtain ⟨state, he⟩ := exited_task k a b
    refine ⟨fun hz hk => hz (exited_zombie hk), ?_, by rw [hrest.2], ?_, ?_⟩
    · rw [he]
      exact id
    · rw [he]
    · rw [he]
  | @reaped child head _ hl _ hp hb hn => exact h.reaps head hl (ht.reaper_ne hp hb hn)
  | roused hl hb => exact h.of_setTask (fun _ => by rw [hb]; decide) id rfl rfl
  | reloaded => exact ⟨h.counted, h.pending⟩
  | @switched new_task esp =>
    have hrest : (kernel.switched k new_task esp).resources = k.resources ∧
        (kernel.switched k new_task esp).syscall_execution = k.syscall_execution := by
      unfold kernel.switched
      dsimp only
      split <;> exact ⟨rfl, rfl⟩
    refine h.congr hcounted (switched_live k new_task esp) (SameFiles.of_eq hrest.1) fun a _ => ?_
    obtain ⟨esp', he⟩ := switched_task k new_task esp a
    refine ⟨?_, ?_, by rw [hrest.2], ?_, ?_⟩
    · unfold kernel_t.state
      rw [he]
      exact id
    · rw [he]
      exact id
    · rw [he]
    · rw [he]

theorem Run.resumable (h : Run readersStay k) : Resumable k := by
  apply h.keep
  · intro k hb
    refine ⟨hb.counted, ?_⟩
    intro a ha _ hr
    rw [hb.retry a ha] at hr
    cases hr
  · exact fun _ _ _ _ ht hact hk => hk.act ht hact

/-- A call that does not tell its task to try again leaves it with nothing to try again. -/
def CompletesCleanly (k : kernel_t) (data : register_interrupt_data_t) (answers : Answers) : Prop :=
  ∀ k' eax, syscall_handler k data answers = some (k', eax) → eax ≠ word (-SYSCALL_RESULT_BUSY) →
    (k'.tasks k.current).syscall_retry = false

/-- A check that flags do not become those for writing only. -/
def stays_readable (k : kernel_t) : Interrupt → Bool
  | .syscall data _ =>
    let k := load_execution k data
    !(call k = SYSCALL_FCNTL ∧ parameter k 2 &&& SYSCALL_O_ACCMODE = SYSCALL_O_WRONLY)
  | _ => true

theorem stays_readable_allowed (k : kernel_t) (i : Interrupt) (h : stays_readable k i = true) :
    readersStay.Allow k i := by
  cases i with
  | syscall data =>
    refine ⟨fun _ => trivial, fun _ _ _ => trivial, ?_, fun _ => trivial⟩
    intro hcall _ hflags
    simp only [stays_readable, hcall, hflags] at h
    cases h
  | _ => trivial

/-- Init waits for a key, and its child makes the file one for writing only. -/
def closedToReaders : List Interrupt :=
  initRuns ++ [forks 2, calls SYSCALL_READ 0 0x8048000 1, calls SYSCALL_FCNTL 0 SYSCALL_F_SETFL
    SYSCALL_O_WRONLY, .keyboard 30, calls SYSCALL_EXIT 0 0 0]

end alura_os.kernel
