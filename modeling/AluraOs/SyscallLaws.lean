-- The laws of the syscalls: each ends with the queues in order, and tells its
-- caller to try again or leaves it free for another call.
import AluraOs.Interrupts

namespace alura_os.kernel

open alura_os.memory alura_os.task_manager alura_os.resource chains
open task_state_t task_wait_reason_t task_manager_result_t resource_result_t resource_type_t
open alura_os.elf_executable (SYSCALL_NSIG SYSCALL_SIG_DFL SYSCALL_SIG_IGN loaded_task)

variable {k k' : kernel_t} {q : Nat → List Nat} {order : List Nat} {ns : Nat → List Nat}
  {rules : Rules} {answers : Answers} {r : Nat}

/-! ## Calls that never wait -/

/-- A call that is never tried again. -/
def NeverWaits (k : kernel_t) : Prop := call k ≠ SYSCALL_WAITPID ∧ call k ≠ SYSCALL_READ

theorem NeverWaits.first (h : NeverWaits k)
    (hp : (caller k).syscall_retry = true → Pending k k.current) : (caller k).syscall_retry = false := by
  cases hr : (caller k).syscall_retry with
  | false => rfl
  | true =>
    rcases hp hr with hw | hw
    · exact absurd hw h.1
    · exact absurd hw.1 h.2

theorem Called.kept (hs : Served rules k k') (h : NeverWaits k) (eax : Nat)
    (hk : (k'.tasks k.current).syscall_retry = (caller k).syscall_retry) : Called rules k k' eax :=
  ⟨hs, fun hp _ => hk.trans (h.first hp)⟩

theorem Calling.nothing (h : Calling k q order ns) : Served rules k k :=
  Served.stays (Acts.refl k) rfl h.needs h.settled (Inside.refl k)

theorem slots_retry {s s' : Store} {t : Nat} (h : OnlySlots t s s') (a : Nat) :
    (s'.tasks a).syscall_retry = (s.tasks a).syscall_retry := by
  obtain ⟨slots, ht⟩ := h.task a
  rw [ht]

theorem open_called (h : Calling k q order ns) (hn : NeverWaits k) (hrule : rules.opens (parameter k 1))
    (hr : syscall_open k answers = some (k', r)) : Called rules k k' r := by
  unfold syscall_open at hr
  split at hr
  · cases hr
    exact Called.kept h.nothing hn _ rfl
  · obtain ⟨⟨s, result, index⟩, hreg, hr⟩ := Option.bind_eq_some_iff.mp hr
    cases hr
    have hslots := (register_only hreg).1
    refine Called.kept ?_ hn _ (slots_retry hslots _)
    exact Served.stays (Acts.single (Act.opened h.live hreg hn.1 hn.2 hrule)) rfl h.needs
      (h.settled.of_slots hslots) (Inside.of_slots hslots)

theorem close_called (h : Calling k q order ns) (hn : NeverWaits k) (answers : Answers) :
    Called rules k (syscall_close k answers).1 (syscall_close k answers).2 := by
  unfold syscall_close
  dsimp only
  split
  · exact Called.kept h.nothing hn _ rfl
  · have hslots := (remove_only k.toStore k.current (parameter k 0)).1
    refine Called.kept ?_ hn _ (slots_retry hslots _)
    exact Served.stays (Acts.single (Act.closed _ h.live hn.1 hn.2)) rfl h.needs
      (h.settled.of_slots hslots) (Inside.of_slots hslots)

/-- Offsets of files are not in the view. -/
theorem view_offset (k : kernel_t) (a offset : Nat) :
    (k.setResource a { k.resources a with offset := offset }).view = k.view := by
  have hf : (fun x => { Function.update k.resources a { k.resources a with offset := offset } x with
      offset := 0 }) = fun x => { k.resources x with offset := 0 } := by
    funext x
    by_cases hx : x = a
    · subst hx
      simp
    · simp [hx]
  simp only [kernel_t.view, kernel_t.setResource, hf]

theorem Calling.offset (h : Calling k q order ns) (a offset : Nat) :
    Served rules k (k.setResource a { k.resources a with offset := offset }) :=
  Served.stays (Acts.same (view_offset k a offset)) rfl h.needs (h.settled.congr rfl rfl rfl rfl)
    (Inside.of_view (view_offset k a offset))

theorem lseek_called (h : Calling k q order ns) (hn : NeverWaits k) (answers : Answers) :
    Called rules k (syscall_lseek k answers).1 (syscall_lseek k answers).2 := by
  have hnone : ∀ r, Called rules k k r := fun r => Called.kept h.nothing hn r rfl
  unfold syscall_lseek
  dsimp only
  split
  · exact hnone _
  split
  · exact hnone _
  split
  · exact hnone _
  split
  · exact hnone _
  · exact Called.kept (h.offset _ _) hn _ rfl

theorem fcntl_called (h : Calling k q order ns) (hn : NeverWaits k)
    (hrule : parameter k 1 = SYSCALL_F_SETFL →
      rules.flags k ((caller k).resources (parameter k 0)) (parameter k 2)) :
    Called rules k (syscall_fcntl k).1 (syscall_fcntl k).2 := by
  have hnone : ∀ r, Called rules k k r := fun r => Called.kept h.nothing hn r rfl
  unfold syscall_fcntl
  dsimp only
  split
  · exact hnone _
  split
  · exact hnone _
  split
  · exact hnone _
  split
  · rename_i hi h0 _ hset
    refine Called.kept ?_ hn _ rfl
    exact Served.stays (Acts.single (Act.flagged h.live (Nat.lt_of_not_le hi) h0 (hrule hset))) rfl
      h.needs (h.settled.congr rfl rfl rfl rfl) ⟨rfl, rfl⟩
  · exact hnone _

theorem fork_called (h : Calling k q order ns) (hn : NeverWaits k)
    (hr : syscall_fork k answers = some (k', r)) (hrule : rules.fork k answers.page_directory) :
    Called rules k k' r := by
  obtain ⟨hs, hk⟩ := fork_spec h hr hrule
  exact Called.kept hs hn _ hk

/-! ## Exec -/

/-- What the handler leaves, once the directory of the caller is loaded. -/
structure Handled (rules : Rules) (k k' : kernel_t) (eax : Nat) : Prop where
  acts : Acts rules k (reloaded k')
  settled : ∃ q', Settled k' q' k'.runs
  current : k'.current = k.current
  inside : Inside k k'
  done : ((caller k).syscall_retry = true → Pending k k.current) →
    eax ≠ word (-SYSCALL_RESULT_BUSY) → (k'.tasks k.current).syscall_retry = false

theorem Called.handled (h : Called rules k k' r) : Handled rules k k' r :=
  ⟨h.acts.tail (Act.reloaded k'), h.settled, h.current, h.inside, h.done⟩

theorem execve_handled (h : Calling k q order ns) (hn : NeverWaits k) {eax : Nat}
    (hrule : ∀ loaded, answers.loaded = some loaded → rules.exec loaded)
    (hr : syscall_execve k eax answers = some (k', r)) : Handled rules k k' r := by
  have hnone : ∀ r, Handled rules k k r := fun r => (Called.kept h.nothing hn r rfl).handled
  unfold syscall_execve at hr
  split at hr
  · cases hr
    exact hnone _
  split at hr
  · cases hr
    exact hnone _
  obtain ⟨⟨k2, loaded⟩, hload, hr⟩ := Option.bind_eq_some_iff.mp hr
  cases hr
  unfold elf_load_into_task at hload
  obtain ⟨⟨k1, task_cr3⟩, hdir, hload⟩ := Option.bind_eq_some_iff.mp hload
  obtain ⟨directories, hk1⟩ := create_directory_eq hdir
  have hs1 : Settled k1 q k.current := by
    rw [hk1]
    exact h.settled.congr rfl rfl rfl rfl
  have hman1 : k1.task_manager = k.task_manager := by rw [hk1]
  have hcur1 : k1.current = k.current := congrArg (fun m => m.task_current) hman1
  have hn1 : k1.task_manager.task_needs_switching = false := by
    rw [hman1]
    exact h.needs
  have htasks1 : k1.tasks = k.tasks := by rw [hk1]
  have hinside1 : Inside k k1 := ⟨by rw [hk1], by rw [htasks1]⟩
  have hfail : ∀ r, Handled rules k k1 r := fun r =>
    (Called.kept (Served.stays (Acts.single (Act.leaked hdir)) hcur1 hn1 hs1 hinside1) hn r
      (by rw [htasks1]; rfl)).handled
  dsimp only at hload
  cases hl : answers.loaded with
  | none =>
    rw [hl] at hload
    cases hload
    exact hfail _
  | some img =>
  rw [hl] at hload
  dsimp only at hload
  split at hload
  · cases hload
    exact hfail _
  rename_i hne
  cases hload
  let k2 := k1.setTask k.current (loaded_task (k1.tasks k.current) img.e_entry task_cr3 img.task_esp
    img.heap_start)
  have hs2 : Settled k2 q k.current := hs1.touch rfl rfl rfl
  have hqueue : ∀ d, (memory_paging_queue_to_destroy k2 d).toStore = k2.toStore ∧
      (memory_paging_queue_to_destroy k2 d).task_manager = k2.task_manager ∧
      (memory_paging_queue_to_destroy k2 d).esp0 = k2.esp0 := by
    intro d
    unfold memory_paging_queue_to_destroy
    split <;> exact ⟨rfl, rfl, rfl⟩
  obtain ⟨hst, hm, hesp0⟩ := hqueue k2.cr3
  have hs3 : Settled (memory_paging_queue_to_destroy k2 k2.cr3) q k.current := by
    apply hs2.congr
    · rw [hst]
    · rw [hst]
    · exact congrArg (fun m => m.task_queues) hm
    · exact congrArg (fun m => m.task_idle) hm
  have hcur3 : (memory_paging_queue_to_destroy k2 k2.cr3).current = k.current :=
    (congrArg (fun m => m.task_current) hm).trans hcur1
  have hn3 : (memory_paging_queue_to_destroy k2 k2.cr3).task_manager.task_needs_switching = false := by
    rw [hm]
    exact hn1
  have htask3 : (memory_paging_queue_to_destroy k2 k2.cr3).tasks k.current =
      loaded_task (k1.tasks k.current) img.e_entry task_cr3 img.task_esp img.heap_start := by
    rw [show (memory_paging_queue_to_destroy k2 k2.cr3).tasks = k2.tasks by rw [hst]]
    simp [k2, kernel_t.setTask]
  have hreload : reloaded (memory_paging_queue_to_destroy k2 k2.cr3) = executed k1 task_cr3 img := by
    unfold reloaded executed
    rw [hcur3, htask3, hcur1]
    rfl
  have hruns : (memory_paging_queue_to_destroy k2 k2.cr3).runs = k.current := by
    unfold kernel_t.runs
    rw [hn3, hcur3]
    rfl
  refine ⟨?_, ⟨q, by rw [hruns]; exact hs3⟩, hcur3, ⟨?_, ?_⟩, ?_⟩
  · rw [hreload]
    exact Acts.single (Act.executed h.live (hrule img hl) hdir hne)
  · exact hesp0.trans hinside1.esp0
  · rw [htask3, htasks1]
    rfl
  · intro hp _
    rw [htask3, htasks1]
    exact hn.first hp

/-! ## Signals -/

/-- The signal ends its target: it has no handler, or no room on its stack. -/
def EndedBy (k : kernel_t) (target sig : Nat) (answers : Answers) : Prop :=
  (k.tasks target).signal_handlers sig = SYSCALL_SIG_DFL ∨
  (k.tasks target).signal_handlers sig ≠ SYSCALL_SIG_IGN ∧ answers.room = false

/-- The call of `kill` in progress ends this task. -/
def Kills (k : kernel_t) (target : Nat) (answers : Answers) : Prop :=
  0 < int32 (parameter k 0) ∧ 0 < int32 (parameter k 1) ∧
    int32 (parameter k 1) < (SYSCALL_NSIG : Int) ∧
    task_manager_find_task k (parameter k 0) = some target ∧ target ≠ 0 ∧
    k.state target ≠ TASK_STATE_ZOMBIE ∧ k.state target ≠ TASK_STATE_TERMINATED ∧
    EndedBy k target (parameter k 1) answers

/-- A task that waits goes on. -/
theorem rouse_spec (rules : Rules) (h : Calling k q order ns) {a : Nat} (ha : a ∈ k.live)
    (hb : k.state a = TASK_STATE_BLOCKED) :
    ∃ k1 q1, task_manager_unblock_task k a = some k1 ∧ Calling k1 q1 order ns ∧ Acts rules k k1 ∧
      k1.current = k.current ∧ k1.bare = (k.setState a TASK_STATE_READY).bare := by
  obtain ⟨hout, -, -⟩ := h.settled.queued ha (by rw [hb]; decide)
  obtain ⟨k1, he, hb1, hq1, hs1, hl1⟩ := unblock_spec h.settled.queues h.settled.sorted ha hout hb
  have hidle := bare_idle hb1
  have hlive := bare_live hb1
  have hcur := bare_current hb1
  have hst := bare_state hb1
  have hset : Settled k1 (woken q a) k.current := by
    apply h.settled.move hidle hlive _ hq1 hs1 hl1
    intro b hbm
    rw [hst]
    apply state_setState_ne
    rintro rfl
    exact hout hbm
  have hv := view_of_bare hb1
  refine ⟨k1, woken q a, he, ⟨?_, ?_, ?_, ?_⟩, ?_, hcur, hb1⟩
  · rw [hcur]
    exact hset
  · have ht : Tree (k.setState a TASK_STATE_READY) order ns :=
      h.tree.touch rfl rfl rfl fun hs => by cases hs
    exact ht.of_view hv
  · rw [hcur, hidle]
    exact h.user
  · exact (congrArg (fun k => k.task_manager.task_needs_switching) hb1).trans h.needs
  · exact (Acts.single (Act.roused ha hb)).trans (Acts.same hv)

/-- A signal is delivered to a task that does not wait. -/
theorem deliver_spec (h : Calling k q order ns) {target sig : Nat} (ht : target ∈ k.live)
    (hid : target ≠ k.idle) (hz : k.state target ≠ TASK_STATE_ZOMBIE)
    (hc : answers.room = false → (k.tasks target).children = 0)
    (hr : task_manager_deliver_signal k target sig answers = some k') :
    Served rules k k' ∧
      ∀ b, (k'.tasks b).syscall_retry = (k.tasks b).syscall_retry ∨ (k'.tasks b).syscall_retry = false := by
  unfold task_manager_deliver_signal at hr
  split at hr
  · rename_i hroom
    obtain ⟨k1, he, hs, hk⟩ := ends_spec rules h ht hid hz (hc (by simpa using hroom))
      (sig % 128 : Nat) answers
    obtain rfl : k1 = k' := Option.some.inj (he.symm.trans hr)
    exact ⟨hs, fun b => Or.inl (hk b)⟩
  · cases hr
    refine ⟨h.touch rfl rfl rfl rfl ?_, ?_⟩
    · apply (Acts.single (Act.finished k target)).trans
      apply Acts.same
      apply view_setTask_congr rfl
      rfl
    · intro b
      by_cases hb : b = target
      · subst hb
        right
        simp [kernel_t.setTask]
      · left
        simp [kernel_t.setTask, hb]

theorem kill_target_spec (h : Calling k q order ns) {target sig : Nat} (ht : target ∈ k.live)
    (hid : target ≠ k.idle) (hz : k.state target ≠ TASK_STATE_ZOMBIE)
    (hc : EndedBy k target sig answers → (k.tasks target).children = 0)
    (hr : kill_target k target sig answers = some k') :
    Served rules k k' ∧
      ∀ b, (k'.tasks b).syscall_retry = (k.tasks b).syscall_retry ∨ (k'.tasks b).syscall_retry = false := by
  unfold kill_target at hr
  dsimp only at hr
  split at hr
  · cases hr
    exact ⟨h.nothing, fun _ => Or.inl rfl⟩
  rename_i hign
  split at hr
  · rename_i hdfl
    obtain ⟨k1, he, hs, hk⟩ := ends_spec rules h ht hid hz (hc (Or.inl hdfl)) (sig % 128 : Nat) answers
    obtain rfl : k1 = k' := Option.some.inj (he.symm.trans hr)
    exact ⟨hs, fun b => Or.inl (hk b)⟩
  have hroom : answers.room = false → (k.tasks target).children = 0 :=
    fun hr => hc (Or.inr ⟨hign, hr⟩)
  by_cases hb : k.state target = TASK_STATE_BLOCKED
  · rw [if_pos hb] at hr
    obtain ⟨k1, q1, he1, h1, hacts, hcur, hb1⟩ := rouse_spec rules h ht hb
    rw [he1] at hr
    have hlive := bare_live hb1
    have hidle := bare_idle hb1
    have hready : k1.state target = TASK_STATE_READY := by
      rw [bare_state hb1, state_setState]
    have hch : (k1.tasks target).children = (k.tasks target).children := by
      refine (congrArg (fun t => t.children) (bare_task hb1 target)).trans ?_
      simp [kernel_t.setState, kernel_t.setTask, unlinked]
    have hk1 : ∀ b, (k1.tasks b).syscall_retry = (k.tasks b).syscall_retry := by
      intro b
      refine (congrArg (fun t => t.syscall_retry) (bare_task hb1 b)).trans ?_
      by_cases hbt : b = target
      · subst hbt
        simp [kernel_t.setState, kernel_t.setTask, unlinked]
      · simp [kernel_t.setState, kernel_t.setTask, unlinked, hbt]
    obtain ⟨hs, hk⟩ := deliver_spec h1 (by rw [hlive]; exact ht)
      (by rw [hidle]; exact hid) (by rw [hready]; decide) (by rw [hch]; exact hroom) hr
    have hinside : Inside k k1 := by
      have hi : Inside k (k.setState target TASK_STATE_READY) := Inside.of_setTask rfl
      exact hi.trans rfl (Inside.of_view (view_of_bare hb1))
    refine ⟨⟨hacts.trans hs.acts, hs.settled, hs.current.trans hcur, hinside.trans hcur hs.inside⟩, ?_⟩
    intro b
    rw [← hk1 b]
    exact hk b
  · rw [if_neg hb] at hr
    exact deliver_spec h ht hid hz hroom hr

theorem kill_called (h : Calling k q order ns) (hn : NeverWaits k)
    (hc : ∀ target, Kills k target answers → (k.tasks target).children = 0)
    (hr : syscall_kill k answers = some (k', r)) : Called rules k k' r := by
  have hnone : ∀ r, Called rules k k r := fun r => Called.kept h.nothing hn r rfl
  unfold syscall_kill at hr
  dsimp only at hr
  split at hr
  · cases hr
    exact hnone _
  rename_i hpid
  split at hr
  · cases hr
    exact hnone _
  rename_i hsig
  obtain ⟨target, hfind, hr⟩ := Option.bind_eq_some_iff.mp hr
  split at hr
  · cases hr
    exact hnone _
  rename_i h0
  split at hr
  · cases hr
    exact hnone _
  rename_i hsig0
  split at hr
  · cases hr
    exact hnone _
  rename_i hdead
  obtain ⟨k1, hkill, hr⟩ := Option.bind_eq_some_iff.mp hr
  cases hr
  obtain ⟨t, ht, hfound, -⟩ := h.tree.find_task (parameter k 0)
  obtain rfl : t = target := Option.some.inj (ht.symm.trans hfind)
  obtain ⟨hl, hid⟩ := (h.tree.mem t).mp (hfound h0).1
  have hends : EndedBy k t (parameter k 1) answers → (k.tasks t).children = 0 := by
    intro he
    rw [not_or] at hsig hdead
    exact hc t ⟨by omega, by omega, by omega, hfind, h0, hdead.1, hdead.2, he⟩
  obtain ⟨hs, hk⟩ := kill_target_spec h hl hid (fun hz => hdead (Or.inl hz)) hends hkill
  refine ⟨hs, ?_⟩
  intro hp _
  rcases hk k.current with hk | hk
  · exact hk.trans (hn.first hp)
  · exact hk

theorem exit_called (h : Calling k q order ns) (hn : NeverWaits k)
    (hc : (caller k).children = 0) (hr : syscall_exit k answers = some k') (eax : Nat) :
    Called rules k k' eax := by
  obtain ⟨k1, he, hs, hk⟩ := ends_spec rules h h.live h.user (by rw [h.running]; decide) hc
    (parameter k 0 % 256 * 256 : Nat) answers
  obtain rfl : k1 = k' := Option.some.inj (he.symm.trans hr)
  exact Called.kept hs hn _ (hk k.current)

/-- The caller's own record changes in fields that are not in the view. -/
theorem caller_called (h : Calling k q order ns) (hn : NeverWaits k) {t : task_t}
    (hp : plain t = plain (caller k)) (hnext : t.next = (caller k).next)
    (hlevel : t.task_queue_level = (caller k).task_queue_level)
    (hstate : t.task_state = (caller k).task_state) (eax : Nat) :
    Called rules k (setCaller k t) eax := by
  have hserved : Served rules k (k.setTask k.current t) :=
    h.touch hnext hlevel hstate (congrArg (fun t => t.task_is_user) hp) (Acts.same (view_touch hp))
  refine Called.kept hserved hn _ ?_
  rw [show (k.setTask k.current t).tasks k.current = t by simp [kernel_t.setTask]]
  exact congrArg (fun t => t.syscall_retry) hp

theorem sigaction_called (h : Calling k q order ns) (hn : NeverWaits k) (answers : Answers) :
    Called rules k (syscall_sigaction k answers).1 (syscall_sigaction k answers).2 := by
  have hnone : ∀ r, Called rules k k r := fun r => Called.kept h.nothing hn r rfl
  unfold syscall_sigaction
  dsimp only
  split
  · exact hnone _
  split
  · exact hnone _
  split
  · exact hnone _
  split
  · exact hnone _
  split
  · rename_i hkill _ _ _
    have hsig : parameter k 0 ≠ 9 := by
      intro h9
      rw [h9] at hkill
      exact hkill rfl
    refine Called.kept ?_ hn _ ?_
    · exact h.touch rfl rfl rfl rfl (Acts.single (Act.handles hsig))
    · simp [setCaller, caller, kernel_t.setTask]
  · exact hnone _

theorem sigreturn_called (h : Calling k q order ns) (hn : NeverWaits k) (eax : Nat) :
    Called rules k (syscall_sigreturn k eax).1 (syscall_sigreturn k eax).2 := by
  unfold syscall_sigreturn
  split
  · apply caller_called h hn <;> rfl
  · exact Called.kept h.nothing hn _ rfl

theorem sbrk_called (h : Calling k q order ns) (hn : NeverWaits k) (heap_break eax : Nat) :
    Called rules k (setCaller k { caller k with heap_break := heap_break }) eax := by
  apply caller_called h hn <;> rfl

/-! ## Write -/

theorem vfs_write_never_blocks (r : resource_t) (buffer length : Nat) (answers : Answers) :
    (vfs_write r buffer length answers).1 ≠ RESOURCE_RESULT_WILL_BLOCK := by
  unfold vfs_write
  split
  · decide
  · split <;> simp

/-- A call that may have been tried before is done. -/
theorem Called.finish {k1 : kernel_t} (ha : Acts rules k k1) (hc : k1.current = k.current)
    (hn : k1.task_manager.task_needs_switching = false) (hs : Settled k1 q k.current)
    (hi : Inside k k1) (eax : Nat) : Called rules k (setRetry k1 false) eax := by
  have hs2 : Settled (k1.setTask k1.current { k1.tasks k1.current with syscall_retry := false }) q
      k.current := hs.touch rfl rfl rfl
  have hi2 : Inside k (setRetry k1 false) := hi.trans hc (Inside.of_setTask rfl)
  refine ⟨Served.stays (ha.tail (Act.finished k1 k1.current)) hc hn hs2 hi2, ?_⟩
  intro _ _
  rw [← hc]
  simp [setRetry, kernel_t.setTask, kernel_t.current]

/-- The offset of a file that the call has moved is not in the view. -/
theorem Called.moved {k1 : kernel_t} (h : Called rules k k1 r) (a offset : Nat) :
    Called rules k (k1.setResource a { k1.resources a with offset := offset }) r := by
  obtain ⟨q1, hs⟩ := h.settled
  refine ⟨⟨h.acts.trans (Acts.same (view_offset k1 a offset)), ⟨q1, ?_⟩, h.current, ?_⟩, h.done⟩
  · exact hs.congr rfl rfl rfl rfl
  · exact h.inside.trans h.current (Inside.of_view (view_offset k1 a offset))

theorem write_called (h : Calling k q order ns) (hn : NeverWaits k)
    (hr : syscall_write k answers = some (k', r)) : Called rules k k' r := by
  unfold syscall_write at hr
  dsimp only at hr
  -- The bytes that a retried write has written are not in the view.
  generalize hk1 : (if (caller k).syscall_retry = true then k
    else { k with write_offset := Function.update k.write_offset k.current 0 }) = k1 at hr
  have hsame : k1.view = k.view ∧ k1.tasks = k.tasks ∧ k1.resources = k.resources ∧
      k1.task_manager = k.task_manager ∧ Settled k1 q k.current := by
    rw [← hk1]
    split
    · exact ⟨rfl, rfl, rfl, rfl, h.settled⟩
    · exact ⟨rfl, rfl, rfl, rfl, h.settled.congr rfl rfl rfl rfl⟩
  obtain ⟨hv1, ht1, hr1, hm1, hs1⟩ := hsame
  have hcur1 : k1.current = k.current := congrArg (fun m => m.task_current) hm1
  have hn1 : k1.task_manager.task_needs_switching = false := by
    rw [hm1]
    exact h.needs
  have hnone : ∀ r, Called rules k k1 r := fun r =>
    Called.kept (Served.stays (Acts.same hv1) hcur1 hn1 hs1 (Inside.of_view hv1)) hn r
      (by rw [ht1]; rfl)
  split at hr
  · cases hr
    exact hnone _
  split at hr
  · cases hr
    exact hnone _
  split at hr
  · cases hr
    exact hnone _
  split at hr
  · cases hr
    exact hnone _
  split at hr
  · cases hr
    exact hnone _
  unfold syscall_write_resource at hr
  dsimp only at hr
  rw [if_neg (vfs_write_never_blocks _ _ _ _)] at hr
  have hdone : ∀ n a offset r, Called rules k
      ((setRetry { k1 with write_offset := n } false).setResource a
        { k1.resources a with offset := offset }) r := by
    intro n a offset r
    have hs2 : Settled { k1 with write_offset := n } q k.current := hs1.congr rfl rfl rfl rfl
    have hv2 : ({ k1 with write_offset := n } : kernel_t).view = k.view := hv1
    exact (Called.finish (Acts.same hv2) hcur1 hn1 hs2 (Inside.of_view hv2) r).moved a offset
  split at hr
  · cases hr
    exact hdone _ _ _ _
  · cases hr
    exact hdone _ _ _ _

/-! ## Waiting calls -/

theorem user_buffer_ok_congr (h : (caller k').task_is_user = (caller k).task_is_user)
    (buffer length : Nat) : user_buffer_ok k' buffer length = user_buffer_ok k buffer length := by
  unfold user_buffer_ok
  simp only [h]

/-- What a pending call depends on. -/
theorem Pending.congr {a : Nat} (h : Pending k a)
    (he : k'.syscall_execution a = k.syscall_execution a)
    (hu : (k'.tasks a).task_is_user = (k.tasks a).task_is_user)
    (hs : ∀ i < TASK_MAX_RESOURCES, (k'.tasks a).resources i = (k.tasks a).resources i)
    (hf : ∀ i < TASK_MAX_RESOURCES, (k.tasks a).resources i ≠ 0 →
      (k'.resources ((k.tasks a).resources i)).flags = (k.resources ((k.tasks a).resources i)).flags ∧
      (k'.resources ((k.tasks a).resources i)).operations =
        (k.resources ((k.tasks a).resources i)).operations) : Pending k' a := by
  rcases h with h | ⟨h, hb, hi, h0, hw, hr⟩
  · exact Or.inl (by rw [he]; exact h)
  · refine Or.inr ⟨by rw [he]; exact h, ?_⟩
    unfold Readable
    dsimp only at hb hi h0 hw hr ⊢
    rw [he, hs _ hi, (hf _ hi h0).1, (hf _ hi h0).2]
    refine ⟨?_, hi, h0, hw, hr⟩
    rw [← hb]
    apply user_buffer_ok_congr
    exact hu

theorem Pending.of_view {a : Nat} (h : Pending k a) (hv : k'.view = k.view) : Pending k' a := by
  have ht := view_task hv a
  have hres : ∀ x, ({ k'.resources x with offset := 0 } : resource_t) =
      { k.resources x with offset := 0 } := fun x => congrFun (congrArg (fun k => k.resources) hv) x
  apply h.congr
  · exact congrFun (congrArg (fun k => k.syscall_execution) hv) a
  · exact congrArg (fun t => t.task_is_user) ht
  · exact fun i _ => congrFun (congrArg (fun t => t.resources) ht) i
  · intro i _ _
    exact ⟨congrArg (fun r => r.flags) (hres _), congrArg (fun r => r.operations) (hres _)⟩

theorem Pending.of_waiting {a : Nat} (h : Pending k a) (b : Nat) (w : task_wait_reason_t) (o : Nat) :
    Pending (waiting k b w o) a := by
  have ht : ∀ {α : Type} (f : task_t → α),
      (∀ t : task_t, f { t with
        task_state := TASK_STATE_BLOCKED
        wait_object := o
        wait_reason := w } = f t) → f ((waiting k b w o).tasks a) = f (k.tasks a) := by
    intro α f hf
    by_cases ha : a = b
    · subst ha
      simp [waiting, kernel_t.setTask, hf]
    · simp [waiting, kernel_t.setTask, ha]
  refine h.congr rfl (ht (fun t => t.task_is_user) fun _ => rfl) ?_ fun _ _ _ => ⟨rfl, rfl⟩
  exact fun i _ => ht (fun t => t.resources i) fun _ => rfl

theorem Pending.of_destroyed {a : Nat} (h : Pending k a) :
    Pending (memory_paging_destroy_queued k) a := by
  obtain ⟨frees, directories, he⟩ := destroy_queued_eq k
  rw [he]
  exact h

/-- The caller waits, and will try its call again. -/
theorem sleep_called (h : Calling k q order ns) {w : task_wait_reason_t} {o : Nat}
    (hact : Act rules k (waiting k k.current w o)) (hp : Pending k k.current)
    (hr : ((task_manager_block_task k k.current w o).bind fun k1 =>
      (task_manager_yield_current k1).bind fun k2 =>
        some (k2.setTask k.current { k2.tasks k.current with syscall_retry := true },
          word (-SYSCALL_RESULT_BUSY))) = some (k', r)) : Called rules k k' r := by
  obtain ⟨k1, k2, he1, he2, hs, hv2, hv1⟩ := sleeps_spec h hact
  rw [he1] at hr
  replace hr : (task_manager_yield_current k1).bind _ = some (k', r) := hr
  rw [he2] at hr
  cases hr
  have hpend : Pending k2 k2.current := by
    rw [hs.current]
    exact (((hp.of_waiting k.current w o).of_view hv1).of_destroyed).of_view hv2
  have hact2 : Act rules k2 (setRetry k2 true) := Act.retries hpend
  unfold setRetry at hact2
  rw [hs.current] at hact2
  obtain ⟨q2, hset⟩ := hs.settled
  have hset2 : Settled (k2.setTask k.current { k2.tasks k.current with syscall_retry := true }) q2
      k2.runs := hset.touch rfl rfl rfl
  have hinside : Inside k (k2.setTask k.current { k2.tasks k.current with syscall_retry := true }) :=
    hs.inside.trans hs.current (Inside.of_setTask rfl)
  exact ⟨⟨hs.acts.tail hact2, ⟨q2, hset2⟩, hs.current, hinside⟩, fun _ hne => absurd rfl hne⟩

/-! ## Read -/

/-- A read that takes nothing leaves an empty buffer as it is. -/
theorem keyboard_take_nil {keyboard keyboard' : keyboard_t} {length : Nat} (hl : length ≠ 0)
    (h : keyboard_take length keyboard = ([], keyboard')) :
    keyboard.buffer_count = 0 ∧ keyboard' = keyboard := by
  cases length with
  | zero => exact absurd rfl hl
  | succ n =>
    unfold keyboard_take at h
    split at h
    · rename_i hc
      exact ⟨hc, (Prod.mk.inj h).2.symm⟩
    · cases h

theorem keyboard_read_blocks {keyboard : keyboard_t} {length : Nat} (hl : length ≠ 0)
    (h : (keyboard_read keyboard length).2.1 = RESOURCE_RESULT_WILL_BLOCK) :
    keyboard.buffer_count = 0 ∧ keyboard_read keyboard length = (keyboard, RESOURCE_RESULT_WILL_BLOCK, []) := by
  unfold keyboard_read at h ⊢
  cases ht : keyboard_take length keyboard with
  | mk out rest =>
    rw [ht] at h
    dsimp only at h ⊢
    by_cases ho : out = []
    · subst ho
      obtain ⟨hc, hk⟩ := keyboard_take_nil hl ht
      exact ⟨hc, by rw [hk]; rfl⟩
    · rw [if_neg ho] at h
      cases h

/-- Where a read reads, the bytes leave the buffer. -/
theorem vfs_read_cases (k : kernel_t) (res : resource_t) (buffer length : Nat) (answers : Answers) :
    ((vfs_read k res buffer length answers).1 = k ∧
      (vfs_read k res buffer length answers).2.1 ≠ RESOURCE_RESULT_WILL_BLOCK) ∨
    (length ≠ 0 ∧ (vfs_read k res buffer length answers).1 = taken k length ∧
      (vfs_read k res buffer length answers).2.1 = (keyboard_read k.keyboard length).2.1) := by
  unfold vfs_read
  split
  · exact Or.inl ⟨rfl, by simp⟩
  · rename_i hb
    split
    · exact Or.inr ⟨fun hl => hb (Or.inr hl), rfl, rfl⟩
    · exact Or.inl ⟨rfl, by simp⟩
    · exact Or.inl ⟨rfl, by simp⟩

/-- A check that fails in a read, fails for the first time. -/
theorem Called.checked (h : Calling k q order ns) (hc : call k = SYSCALL_READ)
    (hno : ¬ Readable k k.current) (eax : Nat) : Called rules k k eax := by
  refine ⟨h.nothing, ?_⟩
  intro hp _
  cases hr : (caller k).syscall_retry with
  | false => exact hr
  | true =>
    rcases hp hr with hw | hw
    · rw [show (k.syscall_execution k.current).index = SYSCALL_READ from hc] at hw
      cases hw
    · exact absurd hw.2 hno

theorem Calling.taken (h : Calling k q order ns) (length : Nat) :
    Calling (taken k length) q order ns :=
  ⟨h.settled.congr rfl rfl rfl rfl, h.tree.of_tasks rfl rfl rfl rfl rfl rfl, h.user, h.needs⟩

/-- The end of a read, after the bytes were taken. -/
theorem read_resource_called {k1 : kernel_t} {resource : Nat} {result : resource_result_t}
    {read_bytes : Nat} (h : Calling k1 q order ns)
    (hblock : result = RESOURCE_RESULT_WILL_BLOCK → k1.keyboard.buffer_count = 0)
    (hp : Pending k1 k1.current) (flags : Nat)
    (hr : (if result = RESOURCE_RESULT_WILL_BLOCK then
        if flags &&& SYSCALL_O_NONBLOCK ≠ 0 then
          some (setRetry k1 false, word (-SYSCALL_RESULT_WOULD_BLOCK))
        else
          (task_manager_block_task k1 k1.current TASK_WAIT_REASON_IO k1.keyboard_address).bind fun k2 =>
            (task_manager_yield_current k2).bind fun k3 =>
              some (k3.setTask k1.current { k3.tasks k1.current with syscall_retry := true },
                word (-SYSCALL_RESULT_BUSY))
      else
        if result ≠ RESOURCE_RESULT_OK then some (setRetry k1 false, word (-SYSCALL_RESULT_FAIL))
        else some ((setRetry k1 false).setResource resource { k1.resources resource with
          offset := u32 ((k1.resources resource).offset + read_bytes) }, read_bytes)) = some (k', r)) :
    Called rules k1 k' r := by
  have hdone : ∀ eax, Called rules k1 (setRetry k1 false) eax :=
    Called.finish (Acts.refl k1) rfl h.needs h.settled (Inside.refl k1)
  split at hr
  · rename_i hb
    split at hr
    · cases hr
      exact hdone _
    · exact sleep_called h (Act.waitsKey h.live (hblock hb) h.running) hp hr
  · split at hr
    · cases hr
      exact hdone _
    · cases hr
      exact (hdone _).moved _ _

theorem readable_caller (k : kernel_t) :
    Readable k k.current ↔
      user_buffer_ok k (parameter k 1) (parameter k 2) = true ∧ parameter k 0 < TASK_MAX_RESOURCES ∧
      (caller k).resources (parameter k 0) ≠ 0 ∧
      (k.resources ((caller k).resources (parameter k 0))).flags &&& SYSCALL_O_ACCMODE ≠
        SYSCALL_O_WRONLY ∧
      (k.resources ((caller k).resources (parameter k 0))).operations.read = true := Iff.rfl

theorem Pending.of_taken {a : Nat} (h : Pending k a) (length : Nat) : Pending (taken k length) a := h

theorem read_called (h : Calling k q order ns) (hc : call k = SYSCALL_READ)
    (hr : syscall_read k answers = some (k', r)) : Called rules k k' r := by
  have hcheck : ∀ {p : Prop}, (Readable k k.current → p) → ¬ p → ∀ eax, Called rules k k eax :=
    fun hp hn => Called.checked h hc fun hd => hn (hp hd)
  rw [readable_caller] at hcheck
  unfold syscall_read at hr
  dsimp only at hr
  split at hr
  · rename_i hb
    cases hr
    exact hcheck (fun hd => hd.1) (by simpa using hb) _
  rename_i hbuf
  split at hr
  · rename_i hi
    cases hr
    exact hcheck (fun hd => hd.2.1) (Nat.not_lt.mpr hi) _
  rename_i hi
  split at hr
  · rename_i h0
    cases hr
    exact hcheck (fun hd => hd.2.2.1) (not_not.mpr h0) _
  rename_i h0
  split at hr
  · rename_i hw
    cases hr
    exact hcheck (fun hd => hd.2.2.2.1) (not_not.mpr hw) _
  rename_i hw
  split at hr
  · rename_i hop
    cases hr
    exact hcheck (fun hd => hd.2.2.2.2) (by simpa using hop) _
  rename_i hop
  have hread : Readable k k.current :=
    (readable_caller k).mpr ⟨by simpa using hbuf, Nat.lt_of_not_le hi, h0, hw, by simpa using hop⟩
  have hp : Pending k k.current := Or.inr ⟨hc, hread⟩
  unfold syscall_read_resource at hr
  dsimp only at hr
  generalize hres : (caller k).resources (parameter k 0) = resource at hr
  obtain ⟨hk, hnb⟩ | ⟨hl, hk, hresult⟩ :=
    vfs_read_cases k (k.resources resource) (parameter k 1) (parameter k 2) answers
  · rw [hk] at hr
    exact read_resource_called h (fun hb => absurd hb hnb) hp _ hr
  · rw [hk] at hr
    have hcalled : Called rules (taken k (parameter k 2)) k' r := by
      refine read_resource_called (h.taken (parameter k 2)) ?_ (hp.of_taken _) _ hr
      intro hb
      rw [hresult] at hb
      obtain ⟨hcount, he⟩ := keyboard_read_blocks hl hb
      show (keyboard_read k.keyboard (parameter k 2)).1.buffer_count = 0
      rw [he]
      exact hcount
    refine ⟨⟨?_, hcalled.settled, hcalled.current, ⟨hcalled.inside.esp0, hcalled.inside.user⟩⟩, ?_⟩
    · exact (Acts.single (Act.took k (parameter k 2))).trans hcalled.acts
    · exact fun _ => hcalled.done fun _ => hp.of_taken _

/-! ## Waitpid -/

/-- The child that `waitpid` finds is dead. -/
theorem Calling.find_waited (h : Calling k q order ns) {pid child : Nat}
    (hf : find_waited k pid = some child) (h0 : child ≠ 0) :
    child ∈ k.held (ns k.current) ∧ k.state child = TASK_STATE_ZOMBIE := by
  unfold alura_os.kernel.find_waited at hf
  split at hf
  · rcases h.tree.find_node_cases h.live hf with ⟨hz, -⟩ | ⟨-, hm, ht⟩
    · exact absurd hz h0
    · exact ⟨hm, of_decide_eq_true ht⟩
  · obtain ⟨c, hc, hf⟩ := Option.bind_eq_some_iff.mp hf
    split at hf
    · cases hf
      exact absurd rfl h0
    · rename_i hcond
      cases hf
      rcases h.tree.find_node_cases h.live hc with ⟨hz, -⟩ | ⟨-, hm, -⟩
      · exact absurd hz h0
      · exact ⟨hm, not_not.mp fun hz => hcond ⟨h0, hz⟩⟩

theorem waitpid_called (h : Calling k q order ns) (hc : call k = SYSCALL_WAITPID)
    (hr : syscall_waitpid k = some (k', r)) : Called rules k k' r := by
  have hdone : ∀ eax, Called rules k (setRetry k false) eax :=
    Called.finish (Acts.refl k) rfl h.needs h.settled (Inside.refl k)
  unfold syscall_waitpid at hr
  obtain ⟨child, hfind, hr⟩ := Option.bind_eq_some_iff.mp hr
  split at hr
  · rename_i h0
    obtain ⟨existing, -, hr⟩ := Option.bind_eq_some_iff.mp hr
    split at hr
    · cases hr
      exact hdone _
    · exact sleep_called h (Act.waitsChild h.live (by rw [hfind, h0]) h.running) (Or.inl hc) hr
  · rename_i h0
    obtain ⟨hm, hz⟩ := h.find_waited hfind h0
    obtain ⟨k1, he, hs, hn1, q1, hs1⟩ := destroy_spec rules h (h.tree.held_live h.live hm) hz hm
    rw [he] at hr
    cases hr
    exact Called.finish hs.acts hs.current hn1 hs1 hs.inside _

/-! ## The handlers -/

/-- The exception ends the task: it has no handler for its signal, or no room on its stack. -/
def EndedByFault (k : kernel_t) (interrupt_index : Nat) (answers : Answers) : Prop :=
  let handler := (caller k).signal_handlers (exception_signals.getD interrupt_index 6)
  handler = SYSCALL_SIG_DFL ∨ handler = SYSCALL_SIG_IGN ∨ answers.room = false

/-- The interrupt ends this task. -/
def Ends (k : kernel_t) (task : Nat) : Interrupt → Prop
  | .timer => False
  | .keyboard _ => False
  | .syscall data answers =>
    let k := load_execution k data
    call k = SYSCALL_EXIT ∧ task = k.current ∨ call k = SYSCALL_KILL ∧ Kills k task answers
  | .exception interrupt_index answers =>
    EndedByFault k interrupt_index answers ∧ task = k.current

/-- No task ends while it still has children. -/
def Orderly (k : kernel_t) (i : Interrupt) : Prop :=
  ∀ task, Ends k task i → (k.tasks task).children = 0

/-- What the rules ask of a call. -/
def Rules.Allow (rules : Rules) (k : kernel_t) : Interrupt → Prop
  | .syscall data answers =>
    let k := load_execution k data
    (call k = SYSCALL_FORK → rules.fork k answers.page_directory) ∧
    (call k = SYSCALL_EXECVE → ∀ loaded, answers.loaded = some loaded → rules.exec loaded) ∧
    (call k = SYSCALL_FCNTL → parameter k 1 = SYSCALL_F_SETFL →
      rules.flags k ((caller k).resources (parameter k 0)) (parameter k 2)) ∧
    (call k = SYSCALL_OPEN → rules.opens (parameter k 1))
  | _ => True

theorem load_execution_rest (k : kernel_t) (data : register_interrupt_data_t) :
    (load_execution k data).toStore = k.toStore ∧
      (load_execution k data).task_manager = k.task_manager ∧
      (load_execution k data).nodes = k.nodes ∧
      (load_execution k data).node_blocks = k.node_blocks := by
  unfold load_execution
  split <;> exact ⟨rfl, rfl, rfl, rfl⟩

theorem Calling.loaded (h : Calling k q order ns) (data : register_interrupt_data_t) :
    Calling (load_execution k data) q order ns := by
  unfold load_execution
  split
  · exact h
  · exact ⟨h.settled.congr rfl rfl rfl rfl, h.tree.of_tasks rfl rfl rfl rfl rfl rfl, h.user, h.needs⟩

theorem Handled.of_pair {p : kernel_t × Nat} (h : Handled rules k p.1 p.2)
    (hr : some p = some (k', r)) : Handled rules k k' r := by
  obtain rfl := Option.some.inj hr
  exact h

theorem dispatched (h : Calling k q order ns) {data : register_interrupt_data_t}
    (hr : syscall_dispatch k data answers = some (k', r))
    (hexit : call k = SYSCALL_EXIT → (caller k).children = 0)
    (hkill : call k = SYSCALL_KILL → ∀ target, Kills k target answers →
      (k.tasks target).children = 0)
    (hfork : call k = SYSCALL_FORK → rules.fork k answers.page_directory)
    (hexec : call k = SYSCALL_EXECVE → ∀ loaded, answers.loaded = some loaded → rules.exec loaded)
    (hfcntl : call k = SYSCALL_FCNTL → parameter k 1 = SYSCALL_F_SETFL →
      rules.flags k ((caller k).resources (parameter k 0)) (parameter k 2))
    (hopen : call k = SYSCALL_OPEN → rules.opens (parameter k 1)) : Handled rules k k' r := by
  have hn : ∀ {i}, call k = i → i ≠ SYSCALL_WAITPID → i ≠ SYSCALL_READ → NeverWaits k :=
    fun hi h1 h2 => ⟨by rw [hi]; exact h1, by rw [hi]; exact h2⟩
  unfold syscall_dispatch at hr
  by_cases hi : call k = SYSCALL_OPEN
  · rw [if_pos hi] at hr
    exact (open_called h (hn hi (by decide) (by decide)) (hopen hi) hr).handled
  rw [if_neg hi] at hr
  clear hi
  by_cases hi : call k = SYSCALL_CLOSE
  · rw [if_pos hi] at hr
    exact (close_called h (hn hi (by decide) (by decide)) answers).handled.of_pair hr
  rw [if_neg hi] at hr
  clear hi
  by_cases hread : call k = SYSCALL_READ
  · rw [if_pos hread] at hr
    exact (read_called h hread hr).handled
  rw [if_neg hread] at hr
  by_cases hi : call k = SYSCALL_WRITE
  · rw [if_pos hi] at hr
    exact (write_called h (hn hi (by decide) (by decide)) hr).handled
  rw [if_neg hi] at hr
  clear hi
  by_cases hi : call k = SYSCALL_FORK
  · rw [if_pos hi] at hr
    exact (fork_called h (hn hi (by decide) (by decide)) hr (hfork hi)).handled
  rw [if_neg hi] at hr
  clear hi
  by_cases hi : call k = SYSCALL_EXECVE
  · rw [if_pos hi] at hr
    exact execve_handled h (hn hi (by decide) (by decide)) (hexec hi) hr
  rw [if_neg hi] at hr
  clear hi
  by_cases hi : call k = SYSCALL_EXIT
  · rw [if_pos hi] at hr
    obtain ⟨k1, he, hr⟩ := Option.map_eq_some_iff.mp hr
    cases hr
    exact (exit_called h (hn hi (by decide) (by decide)) (hexit hi) he _).handled
  rw [if_neg hi] at hr
  clear hi
  by_cases hwait : call k = SYSCALL_WAITPID
  · rw [if_pos hwait] at hr
    exact (waitpid_called h hwait hr).handled
  rw [if_neg hwait] at hr
  by_cases hi : call k = SYSCALL_SBRK
  · rw [if_pos hi] at hr
    cases hr
    exact (sbrk_called h (hn hi (by decide) (by decide)) _ _).handled
  rw [if_neg hi] at hr
  clear hi
  by_cases hi : call k = SYSCALL_ISATTY
  · rw [if_pos hi] at hr
    cases hr
    exact (Called.kept h.nothing (hn hi (by decide) (by decide)) _ rfl).handled
  rw [if_neg hi] at hr
  clear hi
  by_cases hi : call k = SYSCALL_GETPID
  · rw [if_pos hi] at hr
    cases hr
    exact (Called.kept h.nothing (hn hi (by decide) (by decide)) _ rfl).handled
  rw [if_neg hi] at hr
  clear hi
  by_cases hi : call k = SYSCALL_LSEEK
  · rw [if_pos hi] at hr
    exact (lseek_called h (hn hi (by decide) (by decide)) answers).handled.of_pair hr
  rw [if_neg hi] at hr
  clear hi
  by_cases hi : call k = SYSCALL_FCNTL
  · rw [if_pos hi] at hr
    exact (fcntl_called h (hn hi (by decide) (by decide)) (hfcntl hi)).handled.of_pair hr
  rw [if_neg hi] at hr
  clear hi
  by_cases hi : call k = SYSCALL_KILL
  · rw [if_pos hi] at hr
    exact (kill_called h (hn hi (by decide) (by decide)) (hkill hi) hr).handled
  rw [if_neg hi] at hr
  clear hi
  by_cases hi : call k = SYSCALL_SIGACTION
  · rw [if_pos hi] at hr
    exact (sigaction_called h (hn hi (by decide) (by decide)) answers).handled.of_pair hr
  rw [if_neg hi] at hr
  clear hi
  by_cases hi : call k = SYSCALL_SIGRETURN
  · rw [if_pos hi] at hr
    exact (sigreturn_called h (hn hi (by decide) (by decide)) _).handled.of_pair hr
  rw [if_neg hi] at hr
  clear hi
  have hnone : ∀ r, Handled rules k k r := fun r =>
    (Called.kept h.nothing ⟨hwait, hread⟩ r rfl).handled
  split at hr
  · cases hr
    exact hnone _
  split at hr
  · cases hr
    exact hnone _
  split at hr
  · cases hr
    exact hnone _
  · cases hr
    exact hnone _

/-- Every call is served. -/
theorem syscall_handled (h : Calling k q order ns) {data : register_interrupt_data_t}
    (hr : syscall_handler k data answers = some (k', r)) (ho : Orderly k (.syscall data answers))
    (ha : rules.Allow k (.syscall data answers)) : Handled rules k k' r := by
  obtain ⟨hst, hm, -, -⟩ := load_execution_rest k data
  have hcur : (load_execution k data).current = k.current := congrArg (fun m => m.task_current) hm
  have hcaller : caller (load_execution k data) = caller k := by
    unfold caller
    rw [hcur, hst]
  have hexit : call (load_execution k data) = SYSCALL_EXIT →
      (caller (load_execution k data)).children = 0 := by
    intro hc
    rw [hcaller]
    exact ho _ (Or.inl ⟨hc, hcur.symm⟩)
  have hkill : call (load_execution k data) = SYSCALL_KILL → ∀ target,
      Kills (load_execution k data) target answers →
      ((load_execution k data).tasks target).children = 0 := by
    intro hc target hk
    rw [hst]
    exact ho target (Or.inr ⟨hc, hk⟩)
  have hd := dispatched (h.loaded data) hr hexit hkill ha.1 ha.2.1 ha.2.2.1 ha.2.2.2
  have hinside : Inside k (load_execution k data) := by
    refine ⟨?_, by rw [hst]⟩
    unfold load_execution
    split <;> rfl
  refine ⟨(Acts.single (Act.called k data)).trans hd.acts, hd.settled, hd.current.trans hcur,
    hinside.trans hcur hd.inside, ?_⟩
  intro hp
  rw [← hcur]
  apply hd.done
  rw [hcaller, hcur]
  intro hretry
  rw [show load_execution k data = k by unfold load_execution; rw [if_pos hretry]]
  exact hp hretry

theorem exception_served (h : Calling k q order ns) {interrupt_index : Nat}
    (hr : exception_handler k interrupt_index answers = some k')
    (ho : Orderly k (.exception interrupt_index answers)) : Served rules k k' := by
  have hz : k.state k.current ≠ TASK_STATE_ZOMBIE := by
    rw [h.running]
    decide
  unfold exception_handler at hr
  dsimp only at hr
  split at hr
  · exact (deliver_spec h h.live h.user hz (fun hroom => ho _ ⟨Or.inr (Or.inr hroom), rfl⟩) hr).1
  · rename_i hcond
    have hends : EndedByFault k interrupt_index answers := by
      by_cases hd : (caller k).signal_handlers (exception_signals.getD interrupt_index 6) =
          SYSCALL_SIG_DFL
      · exact Or.inl hd
      · exact Or.inr (Or.inl (not_not.mp fun hi => hcond ⟨hd, hi⟩))
    obtain ⟨k1, he, hs, -⟩ := ends_spec rules h h.live h.user hz (ho _ ⟨hends, rfl⟩)
      (exception_signals.getD interrupt_index 6 % 128 : Nat) answers
    obtain rfl : k1 = k' := Option.some.inj (he.symm.trans hr)
    exact hs

end alura_os.kernel
