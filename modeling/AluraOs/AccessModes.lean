-- The access modes of open files: in every run in which no flags grant more than
-- those of the open, a file is read and written only as it was opened.
import AluraOs.OpenFiles

namespace alura_os.kernel

open alura_os.memory alura_os.task_manager alura_os.resource chains
open task_state_t task_wait_reason_t resource_result_t resource_type_t

variable {k k' : kernel_t} {order : List Nat} {ns : Nat → List Nat} {rules : Rules}

/-! ## The resource that a call reaches -/

/-- The resource whose write operation `syscall_write` calls. -/
def written_resource (k : kernel_t) : Option Nat :=
  let resource := (caller k).resources (parameter k 0)
  if user_buffer_ok k (parameter k 1) (parameter k 2) ∧ parameter k 0 < TASK_MAX_RESOURCES ∧
      resource ≠ 0 ∧ (k.resources resource).flags &&& SYSCALL_O_ACCMODE ≠ SYSCALL_O_RDONLY ∧
      (k.resources resource).operations.write then some resource
  else none

/-- The resource whose read operation `syscall_read` calls. -/
def read_resource (k : kernel_t) : Option Nat :=
  let resource := (caller k).resources (parameter k 0)
  if user_buffer_ok k (parameter k 1) (parameter k 2) ∧ parameter k 0 < TASK_MAX_RESOURCES ∧
      resource ≠ 0 ∧ (k.resources resource).flags &&& SYSCALL_O_ACCMODE ≠ SYSCALL_O_WRONLY ∧
      (k.resources resource).operations.read then some resource
  else none

/-- A read that reaches no resource fails, whatever the files would answer. -/
theorem syscall_read_reaches (k : kernel_t) :
    (∀ r, read_resource k = some r →
      ∀ answers, syscall_read k answers = syscall_read_resource k r answers) ∧
    (read_resource k = none → ∃ eax, ∀ answers, syscall_read k answers = some (k, eax)) := by
  unfold read_resource
  dsimp only
  constructor
  · intro r hr answers
    split at hr
    · rename_i hc
      obtain ⟨hb, hi, h0, hf, ho⟩ := hc
      cases hr
      unfold syscall_read
      simp [hb, Nat.not_le.mpr hi, h0, hf, ho]
    · cases hr
  · intro hr
    split at hr
    · cases hr
    · rename_i hc
      unfold syscall_read
      dsimp only
      split
      · exact ⟨_, fun _ => rfl⟩
      split
      · exact ⟨_, fun _ => rfl⟩
      split
      · exact ⟨_, fun _ => rfl⟩
      split
      · exact ⟨_, fun _ => rfl⟩
      split
      · exact ⟨_, fun _ => rfl⟩
      · simp_all

/-- The bytes that a first write has written are none. -/
def write_started (k : kernel_t) : kernel_t :=
  if (caller k).syscall_retry then k
  else { k with write_offset := Function.update k.write_offset k.current 0 }

theorem write_started_same (k : kernel_t) : (write_started k).toStore = k.toStore ∧
    (write_started k).task_manager = k.task_manager ∧
    (write_started k).syscall_execution = k.syscall_execution := by
  unfold write_started
  split <;> exact ⟨rfl, rfl, rfl⟩

theorem syscall_write_reaches (k : kernel_t) :
    (∀ r, written_resource k = some r →
      ∀ answers, syscall_write k answers = syscall_write_resource (write_started k) r answers) ∧
    (written_resource k = none →
      ∃ eax, ∀ answers, syscall_write k answers = some (write_started k, eax)) := by
  obtain ⟨hs, hm, he⟩ := write_started_same k
  have hsame : written_resource (write_started k) = written_resource k := by
    unfold written_resource user_buffer_ok caller parameter kernel_t.current
    rw [hs, hm, he]
  have hindex : parameter k 0 = parameter (write_started k) 0 := by
    unfold parameter kernel_t.current
    rw [hm, he]
  rw [← hsame]
  unfold syscall_write
  dsimp only
  rw [hindex]
  generalize hk1 : (if (caller k).syscall_retry = true then k
    else { k with write_offset := Function.update k.write_offset k.current 0 }) = k1
  obtain rfl : write_started k = k1 := hk1
  generalize write_started k = k1
  unfold written_resource
  dsimp only
  constructor
  · intro r hr answers
    split at hr
    · rename_i hc
      obtain ⟨hb, hi, h0, hf, ho⟩ := hc
      cases hr
      simp [hb, Nat.not_le.mpr hi, h0, hf, ho]
    · cases hr
  · intro hr
    split at hr
    · cases hr
    split
    · exact ⟨_, fun _ => rfl⟩
    split
    · exact ⟨_, fun _ => rfl⟩
    split
    · exact ⟨_, fun _ => rfl⟩
    split
    · exact ⟨_, fun _ => rfl⟩
    split
    · exact ⟨_, fun _ => rfl⟩
    · simp_all

/-! ## The modes -/

def SYSCALL_O_RDWR : Nat := 2

/-- Flags that open a file for writing. -/
def ForWriting (flags : Nat) : Prop :=
  flags &&& SYSCALL_O_ACCMODE = SYSCALL_O_WRONLY ∨ flags &&& SYSCALL_O_ACCMODE = SYSCALL_O_RDWR

/-- Flags that open a file not for writing only. -/
def ForReading (flags : Nat) : Prop := flags &&& SYSCALL_O_ACCMODE ≠ SYSCALL_O_WRONLY

/-- The flags let a file be read and written only if it was opened for that. -/
def Within (opened flags : Nat) : Prop :=
  (flags &&& SYSCALL_O_ACCMODE ≠ SYSCALL_O_RDONLY → ForWriting opened) ∧
    (flags &&& SYSCALL_O_ACCMODE ≠ SYSCALL_O_WRONLY → ForReading opened)

instance (flags : Nat) : Decidable (ForWriting flags) := inferInstanceAs (Decidable (_ ∨ _))

instance (flags : Nat) : Decidable (ForReading flags) := inferInstanceAs (Decidable (_ ≠ _))

instance (opened flags : Nat) : Decidable (Within opened flags) :=
  inferInstanceAs (Decidable ((_ → _) ∧ (_ → _)))

/-- The mode that is neither of the three lets a file be written. -/
theorem within_self (flags : Nat) :
    Within flags flags ↔ flags &&& SYSCALL_O_ACCMODE ≠ SYSCALL_O_ACCMODE := by
  have hlt : flags &&& SYSCALL_O_ACCMODE ≤ 3 := Nat.and_le_right
  unfold Within ForWriting ForReading SYSCALL_O_RDONLY SYSCALL_O_WRONLY SYSCALL_O_RDWR
  generalize flags &&& SYSCALL_O_ACCMODE = mode at *
  unfold SYSCALL_O_ACCMODE
  omega

/-- The flags of an open file grant no more than those of its open, and no file is opened in the mode
that is neither of the three. -/
def openModes : Rules :=
  { anything with
    flags := fun k resource flags => Within (k.opened_flags resource) flags
    opens := fun flags => flags &&& SYSCALL_O_ACCMODE ≠ SYSCALL_O_ACCMODE }

/-- Every open file has flags within those of its open. -/
structure Moded (k : kernel_t) : Prop where
  counted : Counted k.toStore
  within : ∀ r ∈ k.blocks, Within (k.opened_flags r) (k.resources r).flags

theorem Moded.congr (h : Moded k) (hc : Counted k'.toStore)
    (ho : NothingOpened k.toStore k'.toStore) (hf : SameFiles k k') : Moded k' := by
  refine ⟨hc, ?_⟩
  intro r hr
  have hold := ho.blocks hr
  rw [ho.opened_flags, (hf r hold).1]
  exact h.within r hold

theorem Moded.opened (h : Moded k) {s : Store} {type : resource_type_t} {node flags block index : Nat}
    {result : resource_result_t} (hc : Counted s) (hflags : flags &&& SYSCALL_O_ACCMODE ≠ SYSCALL_O_ACCMODE)
    (hr : resource_register k.toStore k.current type node vfs_operations flags block =
      some (s, result, index)) : Moded { k with toStore := s } := by
  refine ⟨hc, ?_⟩
  intro r hb
  show Within (s.opened_flags r) (s.resources r).flags
  rcases register_flags hr r hb with ⟨hold, ho⟩ | ⟨ho, hf⟩
  · rw [ho, (register_only hr).2 r hold]
    exact h.within r hold
  · rw [ho, hf]
    exact (within_self flags).mpr hflags

theorem Moded.flagged (h : Moded k) {resource flags : Nat}
    (hc : Counted (k.setResource resource { k.resources resource with flags := flags }).toStore)
    (hrule : Within (k.opened_flags resource) flags) :
    Moded (k.setResource resource { k.resources resource with flags := flags }) := by
  refine ⟨hc, ?_⟩
  intro r hr
  show Within (k.opened_flags r) (Function.update k.resources resource _ r).flags
  by_cases he : r = resource
  · subst he
    rw [Function.update_self]
    exact hrule
  · rw [Function.update_of_ne he]
    exact h.within r hr

theorem Moded.act (h : Moded k) (hact : Act openModes k k') : Moded k' := by
  have hcounted := counted_act h.counted hact
  have hsame : k'.blocks = k.blocks → k'.opened_flags = k.opened_flags →
      k'.resources = k.resources → Moded k' :=
    fun hb ho hr => h.congr hcounted ⟨hb ▸ Finset.Subset.refl _, ho⟩ (SameFiles.of_eq hr)
  cases hact with
  | same hv =>
    have hf : ∀ {α : Type} (f : kernel_t → α), f k'.view = f k.view := fun f => congrArg f hv
    refine h.congr hcounted ⟨?_, hf fun k => k.opened_flags⟩ fun r _ => ?_
    · have hb := hf fun k => k.blocks
      exact hb ▸ Finset.Subset.refl _
    · have hr := congrFun (hf fun k => k.resources) r
      exact ⟨congrArg (fun r => r.flags) hr, congrArg (fun r => r.operations) hr⟩
  | freed =>
    obtain ⟨frees, directories, he⟩ := destroy_queued_eq k
    rw [he]
    exact ⟨h.counted, h.within⟩
  | pressed => exact hsame rfl rfl rfl
  | called data =>
    have hst := (load_execution_rest k data).1
    exact hsame (by rw [hst]) (by rw [hst]) (by rw [hst])
  | opened _ hr _ _ hrule => exact h.opened hcounted hrule hr
  | closed i =>
    exact h.congr hcounted (remove_opens_nothing k.toStore k.current i)
      (SameFiles.of_counts (remove_only k.toStore k.current i).2)
  | flagged _ _ _ hrule => exact h.flagged hcounted hrule
  | took => exact hsame rfl rfl rfl
  | waitsKey => exact hsame rfl rfl rfl
  | waitsChild => exact hsame rfl rfl rfl
  | retries => exact hsame rfl rfl rfl
  | finished => exact hsame rfl rfl rfl
  | handles => exact hsame rfl rfl rfl
  | @forked k1 child task_cr3 block _ _ _ _ _ hd _ _ =>
    obtain ⟨directories, rfl⟩ := create_directory_eq hd
    obtain ⟨hc, ho⟩ := forked_files { k with directories := directories } child task_cr3 block
    exact h.congr hcounted ho (SameFiles.of_counts hc)
  | leaked hd =>
    obtain ⟨directories, rfl⟩ := create_directory_eq hd
    exact ⟨h.counted, h.within⟩
  | executed _ _ hd =>
    obtain ⟨directories, rfl⟩ := create_directory_eq hd
    apply hsame <;>
    · unfold kernel.executed
      dsimp only
      rw [queue_to_destroy_store]
      rfl
  | exited =>
    apply hsame <;>
    · unfold kernel.exited
      dsimp only
      split <;> rfl
  | @reaped child head _ _ _ _ _ _ =>
    obtain ⟨hc, ho⟩ := reaped_files k child head
    exact h.congr hcounted ho (SameFiles.of_counts hc)
  | roused => exact hsame rfl rfl rfl
  | reloaded => exact hsame rfl rfl rfl
  | switched =>
    apply hsame <;>
    · unfold kernel.switched
      dsimp only
      split <;> rfl

/-! ## Runs -/

/-- The call that the running task makes now reads and writes only as its file was opened. -/
def ModeHonored (k : kernel_t) (data : register_interrupt_data_t) : Prop :=
  let k := load_execution k data
  (call k = SYSCALL_WRITE → ∀ r, written_resource k = some r → ForWriting (k.opened_flags r)) ∧
    (call k = SYSCALL_READ → ∀ r, read_resource k = some r → ForReading (k.opened_flags r))

theorem Run.moded (h : Run openModes k) : Moded k := by
  apply h.keep
  · intro k hb
    refine ⟨hb.counted, ?_⟩
    intro r hr
    obtain ⟨ho, hf⟩ := hb.opened r hr
    rw [ho]
    exact (within_self _).mpr hf
  · exact fun _ _ _ _ _ hact hk => hk.act hact

/-- In every run in which the flags of a file grant no more than those of its open, no call reads or
writes a file that was not opened for it. -/
theorem files_are_used_as_opened (k : kernel_t) (h : Run openModes k)
    (hc : k.current ≠ 0 ∧ k.current ≠ k.idle) (data : register_interrupt_data_t) : ModeHonored k data := by
  obtain ⟨q, order, ns, hb⟩ := h.between
  have hm : Moded (load_execution k data) := h.moded.act (Act.called k data)
  have hlive : (load_execution k data).current ∈ (load_execution k data).live :=
    ((hb.calling hc.1 hc.2).loaded data).live
  unfold ModeHonored
  dsimp only
  generalize load_execution k data = k1 at *
  constructor
  · intro _ r hr
    unfold written_resource at hr
    dsimp only at hr
    split at hr
    · rename_i hw
      obtain ⟨-, hi, h0, hf, -⟩ := hw
      cases hr
      exact (hm.within _ (hm.counted.slots _ hlive _ hi h0)).1 hf
    · cases hr
  · intro _ r hr
    unfold read_resource at hr
    dsimp only at hr
    split at hr
    · rename_i hw
      obtain ⟨-, hi, h0, hf, -⟩ := hw
      cases hr
      exact (hm.within _ (hm.counted.slots _ hlive _ hi h0)).2 hf
    · cases hr

/-- A check of the modes that a call sets. -/
def keeps_modes (k : kernel_t) : Interrupt → Bool
  | .syscall data _ =>
    let k := load_execution k data
    decide (call k = SYSCALL_FCNTL → parameter k 1 = SYSCALL_F_SETFL →
      Within (k.opened_flags ((caller k).resources (parameter k 0))) (parameter k 2)) &&
    decide (call k = SYSCALL_OPEN → parameter k 1 &&& SYSCALL_O_ACCMODE ≠ SYSCALL_O_ACCMODE)
  | _ => true

theorem keeps_modes_allowed (k : kernel_t) (i : Interrupt) (h : keeps_modes k i = true) :
    openModes.Allow k i := by
  cases i with
  | syscall data =>
    simp only [keeps_modes, Bool.and_eq_true, decide_eq_true_eq] at h
    exact ⟨fun _ => trivial, fun _ _ _ => trivial, h.1, h.2⟩
  | _ => trivial

/-- Init makes its reads of the keyboard return at once, and writes to it in vain. -/
theorem the_keyboard_is_not_written :
    ∃ k, checked_run keeps_modes smallBoot (initRuns ++
      [calls SYSCALL_FCNTL 0 SYSCALL_F_SETFL SYSCALL_O_NONBLOCK]) = some k ∧
      ModeHonored k (registers SYSCALL_WRITE 0 0x8048000 1) := by
  have heval : (checked_run keeps_modes smallBoot (initRuns ++
      [calls SYSCALL_FCNTL 0 SYSCALL_F_SETFL SYSCALL_O_NONBLOCK])).map (fun k => (k.current, k.idle)) =
      some (taskAt 1, taskAt 0) := by
    decide +kernel
  obtain ⟨k, hk, hp⟩ := Option.map_eq_some_iff.mp heval
  simp only [Prod.mk.injEq] at hp
  have hc : k.current ≠ 0 ∧ k.current ≠ k.idle := by
    rw [hp.1, hp.2]
    decide
  exact ⟨k, hk, files_are_used_as_opened k (Run.checked keeps_modes_allowed hk) hc _⟩

/-- The keyboard was opened for reading only, and a call of `fcntl` lets it be written. -/
theorem fcntl_lets_the_keyboard_be_written :
    ∃ k, run smallBoot (initRuns ++ [calls SYSCALL_FCNTL 0 SYSCALL_F_SETFL SYSCALL_O_RDWR]) = some k ∧
      ¬ ModeHonored k (registers SYSCALL_WRITE 0 0x8048000 1) := by
  have heval : (run smallBoot (initRuns ++ [calls SYSCALL_FCNTL 0 SYSCALL_F_SETFL SYSCALL_O_RDWR])).map
      (fun k =>
        let k := load_execution k (registers SYSCALL_WRITE 0 0x8048000 1)
        (call k, written_resource k, k.opened_flags (fileAt 0))) =
      some (SYSCALL_WRITE, some (fileAt 0), SYSCALL_O_RDONLY) := by
    decide +kernel
  obtain ⟨k, hk, hp⟩ := Option.map_eq_some_iff.mp heval
  simp only [Prod.mk.injEq] at hp
  obtain ⟨hcall, hreaches, hopened⟩ := hp
  refine ⟨k, hk, fun h => ?_⟩
  have hw := h.1 hcall _ hreaches
  rw [hopened] at hw
  exact absurd hw (by decide)

end alura_os.kernel
