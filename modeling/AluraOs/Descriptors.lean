-- The calls on descriptors: what they do with a descriptor that is not open, and
-- what `lseek` reports of the offset that it stores.
import AluraOs.FileBounds

namespace alura_os.kernel

open alura_os.memory alura_os.task_manager alura_os.resource
open resource_result_t resource_type_t

/-- The descriptor of the call in progress is open. -/
def IsOpen (k : kernel_t) : Prop :=
  parameter k 0 < TASK_MAX_RESOURCES ∧ (caller k).resources (parameter k 0) ≠ 0

instance (k : kernel_t) : Decidable (IsOpen k) := inferInstanceAs (Decidable (_ ∧ _))

/-! ## Words as results -/

theorem word_lt (n : Int) : word n < 0x100000000 := by
  unfold word
  omega

theorem int32_word {n : Int} (h1 : -0x80000000 ≤ n) (h2 : n < 0x80000000) : int32 (word n) = n := by
  unfold int32 word
  omega

/-! ## Seeks -/

/-- What the offset of a seek counts from. -/
def seek_base (k : kernel_t) (answers : Answers) : Int :=
  if parameter k 2 = SYSCALL_LSEEK_SET then 0
  else if parameter k 2 = SYSCALL_LSEEK_CUR then (called_resource k).offset
  else answers.read

/-- The sum of base and offset, as integers. -/
def seek_target (k : kernel_t) (answers : Answers) : Int :=
  seek_base k answers + int32 (parameter k 1)

/-- The `whence` of the call is one that the resource has. -/
def HasBase (k : kernel_t) (answers : Answers) : Prop :=
  parameter k 2 = SYSCALL_LSEEK_SET ∨ parameter k 2 = SYSCALL_LSEEK_CUR ∨
    (parameter k 2 = SYSCALL_LSEEK_END ∧ (called_resource k).type = RESOURCE_TYPE_FILE ∧
      answers.value = 0)

/-- The checks of `syscall_lseek` before the sum pass. -/
def Seeks (k : kernel_t) (answers : Answers) : Prop := IsOpen k ∧ HasBase k answers

theorem lseek_offset_of_base {k : kernel_t} {answers : Answers} (h : HasBase k answers) :
    lseek_offset k (called_resource k) answers = .ok (seek_target k answers) := by
  unfold lseek_offset seek_target seek_base
  rcases h with h | h | ⟨h, ht, hv⟩
  · simp [h]
  · simp [h, SYSCALL_LSEEK_SET, SYSCALL_LSEEK_CUR]
  · simp [h, ht, hv, SYSCALL_LSEEK_SET, SYSCALL_LSEEK_CUR, SYSCALL_LSEEK_END]

theorem lseek_offset_of_no_base {k : kernel_t} {answers : Answers} (h : ¬ HasBase k answers) :
    ∃ e, lseek_offset k (called_resource k) answers = .error e ∧ -3 < e ∧ e < 0 := by
  unfold HasBase at h
  push Not at h
  obtain ⟨hset, hcur, hend⟩ := h
  unfold lseek_offset
  rw [if_neg hset, if_neg hcur]
  split
  · rename_i he
    split
    · exact ⟨_, rfl, by decide, by decide⟩
    · rename_i ht
      rw [if_pos (hend he (not_not.mp ht))]
      exact ⟨_, rfl, by decide, by decide⟩
  · exact ⟨_, rfl, by decide, by decide⟩

/-- A seek that is refused leaves the kernel as it is and returns a negated error. -/
theorem lseek_refused {k : kernel_t} {answers : Answers}
    (h : Seeks k answers → seek_target k answers < 0) :
    ∃ e, syscall_lseek k answers = (k, word e) ∧ -3 < e ∧ e < 0 := by
  unfold syscall_lseek
  dsimp only
  split
  · exact ⟨_, rfl, by decide, by decide⟩
  split
  · exact ⟨_, rfl, by decide, by decide⟩
  rename_i hlt hne
  by_cases hb : HasBase k answers
  · have hneg := h ⟨⟨Nat.lt_of_not_le hlt, hne⟩, hb⟩
    have ho := lseek_offset_of_base hb
    unfold called_resource at ho
    simp only [ho, if_pos hneg]
    exact ⟨_, rfl, by decide, by decide⟩
  · obtain ⟨e, he, hbounds⟩ := lseek_offset_of_no_base hb
    unfold called_resource at he
    simp only [he]
    exact ⟨e, rfl, hbounds⟩

/-- A seek to a target that is not negative stores its low 32 bits and returns them. -/
theorem lseek_stored {k : kernel_t} {answers : Answers} (h : Seeks k answers)
    (hpos : 0 ≤ seek_target k answers) :
    syscall_lseek k answers =
      (k.setResource ((caller k).resources (parameter k 0))
        { called_resource k with offset := word (seek_target k answers) },
        word (seek_target k answers)) := by
  obtain ⟨⟨hlt, hne⟩, hb⟩ := h
  have ho := lseek_offset_of_base hb
  unfold called_resource at ho
  unfold syscall_lseek
  simp only [ho, if_neg hne, if_neg (Nat.not_le.mpr hlt), if_neg (not_lt.mpr hpos)]
  rfl

/-- The offset of the resource of the call in progress, after the call. -/
def offset_after (k k' : kernel_t) : Nat :=
  (k'.resources ((caller k).resources (parameter k 0))).offset

/-- A result that is not negative is the exact target, and the offset of the resource now; with a
negative one the offset is as it was. -/
def Reports (k : kernel_t) (answers : Answers) : Prop :=
  let r := syscall_lseek k answers
  (0 ≤ int32 r.2 → (offset_after k r.1 : Int) = int32 r.2 ∧ int32 r.2 = seek_target k answers) ∧
    (int32 r.2 < 0 → offset_after k r.1 = (called_resource k).offset)

instance (k : kernel_t) (answers : Answers) : Decidable (Reports k answers) :=
  inferInstanceAs (Decidable (_ ∧ _))

/-- The seek is refused, or its target is below 2^31, or it returns to an offset of 2^31 and
more. -/
def SeekFits (k : kernel_t) (answers : Answers) : Prop :=
  Seeks k answers → seek_target k answers < 0x80000000 ∨
    (0x80000000 ≤ (called_resource k).offset ∧
      seek_target k answers % 0x100000000 = (called_resource k).offset)

theorem reports_of_refused {k : kernel_t} {answers : Answers}
    (h : Seeks k answers → seek_target k answers < 0) : Reports k answers := by
  obtain ⟨e, he, h1, h2⟩ := lseek_refused h
  have hint : int32 (word e) = e := int32_word (by omega) (by omega)
  unfold Reports
  rw [he]
  constructor
  · intro hpos
    rw [hint] at hpos
    omega
  · exact fun _ => rfl

theorem offset_after_stored (k : kernel_t) (offset : Nat) :
    offset_after k (k.setResource ((caller k).resources (parameter k 0))
      { called_resource k with offset := offset }) = offset := by
  simp [offset_after, kernel_t.setResource]

/-- A seek that stores its target reports it exactly when the target fits. -/
theorem reports_stored {k : kernel_t} {answers : Answers} (h : Seeks k answers)
    (hpos : 0 ≤ seek_target k answers) :
    Reports k answers ↔ seek_target k answers < 0x80000000 ∨
      (0x80000000 ≤ (called_resource k).offset ∧
        seek_target k answers % 0x100000000 = (called_resource k).offset) := by
  have hword : (word (seek_target k answers) : Int) = seek_target k answers % 0x100000000 := by
    unfold word
    omega
  have hlt := word_lt (seek_target k answers)
  have hint : int32 (word (seek_target k answers)) =
      if word (seek_target k answers) < 0x80000000 then (word (seek_target k answers) : Int)
      else word (seek_target k answers) - 0x100000000 := rfl
  unfold Reports
  rw [lseek_stored h hpos]
  dsimp only
  rw [offset_after_stored, hint]
  generalize word (seek_target k answers) = w at hword hlt ⊢
  generalize seek_target k answers = n at hpos hword ⊢
  split <;> omega

/-- `lseek` reports what it did exactly when the seek fits. -/
theorem lseek_reports_iff (k : kernel_t) (answers : Answers) :
    Reports k answers ↔ SeekFits k answers := by
  by_cases h : Seeks k answers → seek_target k answers < 0
  · have hfits : SeekFits k answers := fun hs => Or.inl (by have := h hs; omega)
    exact iff_of_true (reports_of_refused h) hfits
  · push Not at h
    obtain ⟨hs, hpos⟩ := h
    rw [reports_stored hs hpos]
    unfold SeekFits
    exact ⟨fun hf _ => hf, fun hf => hf hs⟩

/-- A descriptor at the offset 2^31 - 1, one byte further. -/
def seeksFurther : List Interrupt :=
  opensFile ++ [.syscall (registers SYSCALL_LSEEK 1 0x7FFFFFFF SYSCALL_LSEEK_SET) noAnswers]

/-- The offset becomes 2^31, and the result is negative. -/
theorem a_seek_past_the_sign_bit_is_reported_as_failed : ∃ k, run smallBoot seeksFurther = some k ∧
    ¬ Reports (load_execution k (registers SYSCALL_LSEEK 1 1 SYSCALL_LSEEK_CUR)) noAnswers := by
  have heval : (run smallBoot seeksFurther).map (fun k =>
      decide (Reports (load_execution k (registers SYSCALL_LSEEK 1 1 SYSCALL_LSEEK_CUR)) noAnswers)) =
        some false := by
    decide +kernel
  obtain ⟨k, hk, hr⟩ := Option.map_eq_some_iff.mp heval
  exact ⟨k, hk, of_decide_eq_false hr⟩

/-! ## Descriptors that are not open -/

/-- The calls that take a descriptor. -/
def TakesDescriptor (k : kernel_t) : Prop :=
  call k ∈ [SYSCALL_CLOSE, SYSCALL_READ, SYSCALL_WRITE, SYSCALL_ISATTY, SYSCALL_LSEEK, SYSCALL_FCNTL,
    SYSCALL_IOCTL, SYSCALL_FSTAT]

/-- The indices at which such a call reads the table of its caller, one after another. -/
def indexed (k : kernel_t) (answers : Answers) : List Nat :=
  let resource_index := parameter k 0
  if call k = SYSCALL_CLOSE then
    -- `syscall_close`, and `resource_remove` behind its own check.
    if slot_word k resource_index answers = 0 ∨ TASK_MAX_RESOURCES ≤ resource_index then
      [resource_index]
    else [resource_index, resource_index]
  else if TASK_MAX_RESOURCES ≤ resource_index then []
  else if (call k = SYSCALL_READ ∨ call k = SYSCALL_WRITE) ∧
      !user_buffer_ok k (parameter k 1) (parameter k 2) then []
  else if call k = SYSCALL_FSTAT ∧ !user_buffer_ok k (parameter k 1) sizeof_stat then []
  else [resource_index]

/-- The result of a call that failed. -/
def Fails (k : kernel_t) (eax : Nat) : Prop :=
  if call k = SYSCALL_ISATTY then eax = 0 else int32 eax < 0

/-- The call fails, and leaves the kernel as it is up to the progress that `write` notes. -/
def Refuses (k : kernel_t) (r : Option (kernel_t × Nat)) : Prop :=
  ∃ k' eax, r = some (k', eax) ∧ Fails k eax ∧ k' = { k with write_offset := k'.write_offset }

/-- The checks of a call that takes a descriptor. -/
structure Validates (k : kernel_t) (data : register_interrupt_data_t) (answers : Answers) : Prop where
  below : ∀ i ∈ indexed k answers, i < TASK_MAX_RESOURCES
  refuses : ¬ IsOpen k → Refuses k (syscall_dispatch k data answers)
  /-- No write reaches a file. -/
  unwritten : ¬ IsOpen k → call k = SYSCALL_WRITE → write_request k = none
  closes : call k = SYSCALL_CLOSE → ∃ k' eax, syscall_dispatch k data answers = some (k', eax) ∧
    (eax = word SYSCALL_RESULT_OK ↔ IsOpen k) ∧
    (eax = word SYSCALL_RESULT_OK → (k'.tasks k.current).resources (parameter k 0) = 0)

section calls

variable {k : kernel_t} {answers : Answers}

theorem Refuses.failed {e : Int} (hc : call k ≠ SYSCALL_ISATTY) (h1 : -0x80000000 ≤ e) (h2 : e < 0) :
    Refuses k (some (k, word e)) := by
  refine ⟨k, word e, rfl, ?_, rfl⟩
  unfold Fails
  rw [if_neg hc, int32_word h1 (by omega)]
  exact h2

/-- The first two checks of the calls: the index, then the slot. -/
theorem refused_by_checks {r : Option (kernel_t × Nat)} (hc : call k ≠ SYSCALL_ISATTY)
    (ho : ¬ IsOpen k) :
    Refuses k (if TASK_MAX_RESOURCES ≤ parameter k 0 then some (k, word (-SYSCALL_RESULT_BAD_PARAMETER))
      else if (caller k).resources (parameter k 0) = 0 then some (k, word (-SYSCALL_RESULT_FAIL))
      else r) := by
  split
  · exact Refuses.failed hc (by decide) (by decide)
  split
  · exact Refuses.failed hc (by decide) (by decide)
  · rename_i hlt hne
    exact absurd ⟨Nat.lt_of_not_le hlt, hne⟩ ho

theorem close_refused (hlt : parameter k 0 < TASK_MAX_RESOURCES)
    (ho : ¬ IsOpen k) : syscall_close k answers = (k, word (-SYSCALL_RESULT_FAIL)) := by
  have h0 : (caller k).resources (parameter k 0) = 0 := by
    by_contra hne
    exact ho ⟨hlt, hne⟩
  unfold syscall_close slot_word
  simp only [if_pos hlt, if_pos h0]

theorem read_refused (hc : call k = SYSCALL_READ) (ho : ¬ IsOpen k) :
    Refuses k (syscall_read k answers) := by
  have hcall : call k ≠ SYSCALL_ISATTY := by
    rw [hc]
    decide
  unfold syscall_read
  dsimp only
  split
  · exact Refuses.failed hcall (by decide) (by decide)
  · exact refused_by_checks hcall ho

theorem lseek_not_open (hc : call k = SYSCALL_LSEEK) (ho : ¬ IsOpen k) :
    Refuses k (some (syscall_lseek k answers)) := by
  have hno : Seeks k answers → seek_target k answers < 0 := fun hs => absurd hs.1 ho
  obtain ⟨e, he, h1, h2⟩ := lseek_refused hno
  rw [he]
  exact Refuses.failed (by rw [hc]; decide) (by omega) h2

/-- A first call of `write` notes that it has written nothing yet. -/
theorem write_progress (k : kernel_t) : ∃ w, (if (caller k).syscall_retry then k else
    { k with write_offset := Function.update k.write_offset k.current 0 }) =
      { k with write_offset := w } := by
  split
  · exact ⟨_, rfl⟩
  · exact ⟨_, rfl⟩

theorem write_refused (hc : call k = SYSCALL_WRITE) (ho : ¬ IsOpen k) :
    Refuses k (syscall_write k answers) := by
  -- What a first call notes of its progress is not read by the checks.
  have hfails : ∀ (w : Nat → Nat) (e : Int), -0x80000000 ≤ e → e < 0 →
      Refuses k (some ({ k with write_offset := w }, word e)) := by
    intro w e h1 h2
    refine ⟨_, word e, rfl, ?_, rfl⟩
    unfold Fails
    rw [if_neg (by rw [hc]; decide), int32_word h1 (by omega)]
    exact h2
  obtain ⟨w, hw⟩ := write_progress k
  unfold syscall_write
  rw [hw]
  dsimp only
  split
  · exact hfails w _ (by decide) (by decide)
  split
  · exact hfails w _ (by decide) (by decide)
  rename_i hlt
  split
  · exact hfails w _ (by decide) (by decide)
  · rename_i hne
    exact absurd ⟨Nat.lt_of_not_le hlt, hne⟩ ho

theorem write_request_refused (ho : ¬ IsOpen k) : write_request k = none := by
  unfold write_request
  dsimp only
  split
  · rfl
  split
  · rfl
  rename_i hlt
  rw [if_pos (by_contra fun hne => ho ⟨Nat.lt_of_not_le hlt, hne⟩)]

theorem isatty_refused (hc : call k = SYSCALL_ISATTY) (ho : ¬ IsOpen k) :
    Refuses k (some (k, syscall_isatty k)) := by
  refine ⟨k, _, rfl, ?_, rfl⟩
  unfold Fails
  rw [if_pos hc]
  unfold syscall_isatty
  dsimp only
  split
  · rfl
  rename_i hlt
  exact if_pos (by_contra fun hne => ho ⟨Nat.lt_of_not_le hlt, hne⟩)

theorem fcntl_refused (hc : call k ≠ SYSCALL_ISATTY) (ho : ¬ IsOpen k) :
    Refuses k (some (syscall_fcntl k)) := by
  unfold syscall_fcntl
  simp only [apply_ite some]
  exact refused_by_checks hc ho

theorem ioctl_refused (hc : call k ≠ SYSCALL_ISATTY) (ho : ¬ IsOpen k) :
    Refuses k (some (k, syscall_ioctl k answers)) := by
  unfold syscall_ioctl
  simp only [apply_ite (Prod.mk k), apply_ite some]
  exact refused_by_checks hc ho

theorem fstat_refused (hc : call k ≠ SYSCALL_ISATTY) (ho : ¬ IsOpen k) :
    Refuses k (some (k, syscall_fstat k)) := by
  unfold syscall_fstat
  dsimp only
  split
  · exact Refuses.failed hc (by decide) (by decide)
  split
  · exact Refuses.failed hc (by decide) (by decide)
  split
  · exact Refuses.failed hc (by decide) (by decide)
  · rename_i hlt _ hne
    exact absurd ⟨Nat.lt_of_not_le hlt, hne⟩ ho

/-- Closing an open descriptor succeeds, and its slot is empty. -/
theorem close_open (ho : IsOpen k) (answers : Answers) : ∃ k', syscall_close k answers = (k', word SYSCALL_RESULT_OK) ∧
    (k'.tasks k.current).resources (parameter k 0) = 0 := by
  obtain ⟨hlt, hne⟩ := ho
  unfold syscall_close slot_word
  simp only [if_pos hlt, if_neg hne]
  refine ⟨_, rfl, ?_⟩
  have hslot := remove_slot (s := k.toStore) (t := k.current) hlt k.current (parameter k 0)
  rwa [if_pos ⟨rfl, rfl⟩] at hslot

theorem dispatch_close {data : register_interrupt_data_t} (h : call k = SYSCALL_CLOSE) :
    syscall_dispatch k data answers = some (syscall_close k answers) := by
  unfold syscall_dispatch
  rw [h]
  rfl

/-- All eight calls check their descriptor, `close` for the indices of the table. -/
theorem dispatch_refused {data : register_interrupt_data_t} (ht : TakesDescriptor k)
    (hlt : call k = SYSCALL_CLOSE → parameter k 0 < TASK_MAX_RESOURCES) (ho : ¬ IsOpen k) :
    Refuses k (syscall_dispatch k data answers) := by
  unfold TakesDescriptor at ht
  simp only [List.mem_cons, List.not_mem_nil, or_false] at ht
  rcases ht with hc | hc | hc | hc | hc | hc | hc | hc
  · rw [dispatch_close hc, close_refused (hlt hc) ho]
    exact Refuses.failed (by rw [hc]; decide) (by decide) (by decide)
  all_goals
    unfold syscall_dispatch
    rw [hc]
  · exact read_refused hc ho
  · exact write_refused hc ho
  · exact isatty_refused hc ho
  · exact lseek_not_open hc ho
  · exact fcntl_refused (by rw [hc]; decide) ho
  · exact ioctl_refused (by rw [hc]; decide) ho
  · exact fstat_refused (by rw [hc]; decide) ho

/-- The kernel with another word in the slot of the call. -/
def withSlot (k : kernel_t) (w : Nat) : kernel_t :=
  k.setTask k.current { caller k with
    resources := Function.update (caller k).resources (parameter k 0) w }

@[simp] theorem parameter_withSlot (w i : Nat) : parameter (withSlot k w) i = parameter k i := rfl

@[simp] theorem call_withSlot (w : Nat) : call (withSlot k w) = call k := rfl

@[simp] theorem current_withSlot (w : Nat) : (withSlot k w).current = k.current := rfl

theorem caller_withSlot (w : Nat) : caller (withSlot k w) = { caller k with
    resources := Function.update (caller k).resources (parameter k 0) w } :=
  Function.update_self k.current _ k.tasks

@[simp] theorem user_buffer_withSlot (w a n : Nat) :
    user_buffer_ok (withSlot k w) a n = user_buffer_ok k a n := by
  unfold user_buffer_ok
  rw [caller_withSlot]

theorem write_of_bad_buffer (hb : user_buffer_ok k (parameter k 1) (parameter k 2) = false) :
    (syscall_write k answers).map Prod.snd = some (word (-SYSCALL_RESULT_BAD_PARAMETER)) := by
  obtain ⟨w, hw⟩ := write_progress k
  have hbad : user_buffer_ok { k with write_offset := w } (parameter k 1) (parameter k 2) = false := hb
  unfold syscall_write
  rw [hw]
  change Option.map Prod.snd (if (!user_buffer_ok { k with write_offset := w } (parameter k 1)
    (parameter k 2)) = true then _ else _) = _
  rw [hbad]
  rfl

/-- A slot that a call does not read has no part in its result. -/
theorem result_of_unread {data : register_interrupt_data_t} (ht : TakesDescriptor k)
    (hi : parameter k 0 ∉ indexed k answers) (w : Nat) :
    (syscall_dispatch (withSlot k w) data answers).map Prod.snd =
      (syscall_dispatch k data answers).map Prod.snd := by
  have hclose : call k ≠ SYSCALL_CLOSE := by
    intro hc
    apply hi
    unfold indexed
    dsimp only
    rw [if_pos hc]
    split <;> simp
  unfold indexed at hi
  dsimp only at hi
  rw [if_neg hclose] at hi
  unfold TakesDescriptor at ht
  simp only [List.mem_cons, List.not_mem_nil, or_false, hclose, false_or] at ht
  unfold syscall_dispatch
  rw [call_withSlot]
  -- Out of the table, or at a bad buffer, a call returns before its slot counts.
  by_cases hlt : TASK_MAX_RESOURCES ≤ parameter k 0
  · rcases ht with hc | hc | hc | hc | hc | hc | hc
    all_goals rw [hc]
    · change (syscall_read _ _).map _ = (syscall_read _ _).map _
      simp [syscall_read, hlt]
    · change (syscall_write _ _).map _ = (syscall_write _ _).map _
      simp [syscall_write, hlt]
    · change some (syscall_isatty _) = some (syscall_isatty _)
      simp [syscall_isatty, hlt]
    · change some (syscall_lseek _ _).2 = some (syscall_lseek _ _).2
      simp [syscall_lseek, hlt]
    · change some (syscall_fcntl _).2 = some (syscall_fcntl _).2
      simp [syscall_fcntl, hlt]
    · change some (syscall_ioctl _ _) = some (syscall_ioctl _ _)
      simp [syscall_ioctl, hlt]
    · change some (syscall_fstat _) = some (syscall_fstat _)
      simp [syscall_fstat, hlt]
  · rw [if_neg hlt] at hi
    rcases ht with hc | hc | hc | hc | hc | hc | hc
    all_goals rw [hc] at hi ⊢
    · have hb : user_buffer_ok k (parameter k 1) (parameter k 2) = false := by
        by_contra hb
        simp [SYSCALL_READ, SYSCALL_FSTAT, hb] at hi
      change (syscall_read _ _).map _ = (syscall_read _ _).map _
      simp [syscall_read, hb]
    · have hb : user_buffer_ok k (parameter k 1) (parameter k 2) = false := by
        by_contra hb
        simp [SYSCALL_WRITE, SYSCALL_FSTAT, hb] at hi
      change (syscall_write _ _).map _ = (syscall_write _ _).map _
      rw [write_of_bad_buffer hb, write_of_bad_buffer (by simpa using hb)]
    · simp [SYSCALL_ISATTY, SYSCALL_READ, SYSCALL_WRITE, SYSCALL_FSTAT] at hi
    · simp [SYSCALL_LSEEK, SYSCALL_READ, SYSCALL_WRITE, SYSCALL_FSTAT] at hi
    · simp [SYSCALL_FCNTL, SYSCALL_READ, SYSCALL_WRITE, SYSCALL_FSTAT] at hi
    · simp [SYSCALL_IOCTL, SYSCALL_READ, SYSCALL_WRITE, SYSCALL_FSTAT] at hi
    · have hb : user_buffer_ok k (parameter k 1) sizeof_stat = false := by
        by_contra hb
        simp [SYSCALL_FSTAT, SYSCALL_READ, SYSCALL_WRITE, hb] at hi
      change some (syscall_fstat _) = some (syscall_fstat _)
      simp [syscall_fstat, hb]

end calls

theorem indexed_below {k : kernel_t} {answers : Answers}
    (hlt : call k = SYSCALL_CLOSE → parameter k 0 < TASK_MAX_RESOURCES) :
    ∀ i ∈ indexed k answers, i < TASK_MAX_RESOURCES := by
  intro i hi
  unfold indexed at hi
  dsimp only at hi
  by_cases hc : call k = SYSCALL_CLOSE
  · rw [if_pos hc] at hi
    have hl := hlt hc
    split at hi <;> simp_all
  · rw [if_neg hc] at hi
    by_cases hb : TASK_MAX_RESOURCES ≤ parameter k 0
    · rw [if_pos hb] at hi
      cases hi
    · rw [if_neg hb] at hi
      split at hi
      · cases hi
      split at hi
      · cases hi
      · rw [List.mem_singleton.mp hi]
        exact Nat.lt_of_not_le hb

/-- The calls on descriptors validate them, except for `close` with an index that is past the
table. -/
theorem descriptors_are_validated_iff {k : kernel_t} (data : register_interrupt_data_t)
    (answers : Answers) (ht : TakesDescriptor k) :
    Validates k data answers ↔
      (call k = SYSCALL_CLOSE → parameter k 0 < TASK_MAX_RESOURCES) := by
  constructor
  · intro h hc
    refine h.below (parameter k 0) ?_
    unfold indexed
    dsimp only
    rw [if_pos hc]
    split <;> simp
  · intro hlt
    refine ⟨indexed_below hlt, dispatch_refused ht hlt, fun ho _ => write_request_refused ho, ?_⟩
    intro hc
    rw [dispatch_close hc]
    by_cases ho : IsOpen k
    · obtain ⟨k', hk, hslot⟩ := close_open ho answers
      rw [hk]
      exact ⟨k', _, rfl, iff_of_true rfl ho, fun _ => hslot⟩
    · rw [close_refused (hlt hc) ho]
      exact ⟨k, _, rfl, iff_of_false (by decide) ho, fun h => absurd h (by decide)⟩


/-- The check that a call takes a descriptor. -/
instance (k : kernel_t) : Decidable (TakesDescriptor k) := inferInstanceAs (Decidable (_ ∈ _))

theorem an_open_descriptor_is_closed : ∃ k, run smallBoot opensFile = some k ∧
    Validates (load_execution k (registers SYSCALL_CLOSE 1 0 0)) (registers SYSCALL_CLOSE 1 0 0)
      noAnswers := by
  have heval : (run smallBoot opensFile).map (fun k =>
      let k := load_execution k (registers SYSCALL_CLOSE 1 0 0)
      decide (TakesDescriptor k ∧ parameter k 0 < TASK_MAX_RESOURCES)) = some true := by
    decide +kernel
  obtain ⟨k, hk, hr⟩ := Option.map_eq_some_iff.mp heval
  obtain ⟨ht, hlt⟩ := of_decide_eq_true hr
  exact ⟨k, hk, (descriptors_are_validated_iff _ _ ht).mpr fun _ => hlt⟩

/-- A call of `close` with the first index past the table. -/
def closesPast (k : kernel_t) : kernel_t :=
  load_execution k (registers SYSCALL_CLOSE TASK_MAX_RESOURCES 0 0)

/-- The word there is the address that the task started at: `close` takes it for an open file. -/
theorem close_past_the_table_succeeds : ∃ k, run smallBoot opensFile = some k ∧
    ¬ Validates (closesPast k) (registers SYSCALL_CLOSE TASK_MAX_RESOURCES 0 0)
      { noAnswers with read := 0x8048000 } := by
  have heval : (run smallBoot opensFile).map (fun k =>
      (decide (call (closesPast k) = SYSCALL_CLOSE), decide (IsOpen (closesPast k)),
        (syscall_close (closesPast k) { noAnswers with read := 0x8048000 }).2)) =
        some (true, false, word SYSCALL_RESULT_OK) := by
    decide +kernel
  obtain ⟨k, hk, hr⟩ := Option.map_eq_some_iff.mp heval
  simp only [Prod.mk.injEq, decide_eq_true_eq, decide_eq_false_iff_not] at hr
  obtain ⟨hc, ho, heax⟩ := hr
  refine ⟨k, hk, fun h => ?_⟩
  obtain ⟨k', eax, hd, hiff, -⟩ := h.closes hc
  rw [dispatch_close hc] at hd
  rw [Option.some.inj hd] at heax
  exact ho (hiff.mp heax)

end alura_os.kernel
