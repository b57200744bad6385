-- Seeks and writes on files: when a write of a user program stays inside the
-- buffer of the file, over runs of `lseek`, `read` and `write`.
import AluraOs.FileContents
import AluraOs.KernelRuns

namespace alura_os.kernel

open alura_os.memory alura_os.task_manager alura_os.resource alura_os.vfs
open resource_result_t resource_type_t

/-! ## Writes -/

/-- One call of `ramfs_write`, with the file systems before and after it. -/
structure Write where
  before : fs_t
  after : fs_t
  inode : Nat
  offset : Nat
  length : Nat
  result : resource_result_t

namespace Write

/-- The write fails and changes nothing, or it changes bytes of a buffer of at least
`offset + length` bytes: those of its range in the buffer that the file had, or those up to the end
of its range in a new one. -/
def Contained (w : Write) : Prop :=
  (w.result ≠ RESOURCE_RESULT_OK ∧ w.after.memory = w.before.memory ∧
      w.after.inodes = w.before.inodes) ∨
    (w.result = RESOURCE_RESULT_OK ∧ ∃ block,
      ((w.after.inodes w.inode).data, block) ∈ w.after.data_blocks ∧
      w.offset + w.length ≤ block ∧
      ∀ b, (b < (w.after.inodes w.inode).data +
            (if (w.after.inodes w.inode).data = (w.before.inodes w.inode).data then w.offset else 0) ∨
          (w.after.inodes w.inode).data + w.offset + w.length ≤ b) →
        w.after.memory b = w.before.memory b)

/-- The range ends inside the data of the file, or neither its end nor the rounding of that to
whole headers wraps, or the kernel heap has no block for the new size. -/
def Fits (w : Write) : Prop :=
  w.offset + w.length ≤ (w.before.inodes w.inode).data_size ∨
    w.offset + w.length + 7 < 0x100000000 ∨
    Refused w.before w.inode (u32 (w.offset + w.length))

/-- The record is of a call, which `vfs_write` makes for at least one byte. -/
def Happens (w : Write) : Prop :=
  0 < w.length ∧ ∃ file buffer n, (w.before.nodes file).fs_data = w.inode ∧
    ramfs_write w.before file w.offset buffer w.length = .ok (w.after, w.result, n)

end Write

theorem block_length_wrapped {size : Nat} (h : 0x100000000 ≤ size + 7) (hs : size < 0x100000000) :
    block_length size = 0 := by
  unfold block_length kernel_heap.kernel_heap_headers_for u32
  omega

variable {w : Write}

/-- In place, a write of a range inside the data stays there. -/
theorem contained_in_place (h : Stored w.before) (ha : IsFile w.before w.inode)
    (hle : w.offset + w.length ≤ (w.before.inodes w.inode).data_size) {buffer : Nat → Nat}
    (hafter : w.after = filled w.before w.inode w.offset buffer w.length)
    (hok : w.result = RESOURCE_RESULT_OK) (hpos : 0 < w.offset + w.length) : w.Contained := by
  have hd : (w.before.inodes w.inode).data ≠ 0 := by
    intro hz
    have := h.empty _ ha hz
    omega
  obtain ⟨block, hm, hb⟩ := h.block _ ha hd
  have hend := h.data_end ha
  refine Or.inr ⟨hok, block, ?_, by omega, ?_⟩
  · rw [hafter]
    exact hm
  · intro b hout
    rw [hafter] at hout ⊢
    rw [filled_inodes, if_pos rfl] at hout
    rw [filled_memory buffer (by omega), if_neg (by omega)]

theorem contained_grown (hg : Grows w.before w.inode (w.offset + w.length))
    (hl : w.offset + w.length ≤ block_length (w.offset + w.length)) {buffer : Nat → Nat}
    (hafter : w.after = filled (grown w.before w.inode w.offset (w.offset + w.length)) w.inode
      w.offset buffer w.length) (hok : w.result = RESOURCE_RESULT_OK)
    (hfresh : w.before.next_block ≠ (w.before.inodes w.inode).data) : w.Contained := by
  obtain ⟨hs, hz, hend, -⟩ := hg
  have hdata : (w.after.inodes w.inode).data = w.before.next_block := by
    rw [hafter, filled_inodes, grown_inode_self]
  refine Or.inr ⟨hok, block_length (w.offset + w.length), ?_, hl, ?_⟩
  · rw [hdata, hafter]
    exact List.mem_cons_self
  · intro b hout
    rw [hdata, if_neg hfresh] at hout
    rw [hafter, filled_memory buffer (by rw [grown_inode_self]; dsimp only; omega),
      grown_inode_self, if_neg (by dsimp only; omega)]
    have hinside : w.before.next_block + (w.offset + w.length) ≤ 0x100000000 := by omega
    exact grown_memory_outside hinside (by omega) (by omega) (by omega)

/-- The cases of a write in which the range does not fit: there is no buffer that long. -/
theorem not_contained (h : Stored w.before) (hw : w.Happens) (hf : ¬ w.Fits) : ¬ w.Contained := by
  obtain ⟨-, file, buffer, n, hfile, hcall⟩ := hw
  have hcases := ramfs_write_cases hcall
  rw [hfile] at hcases
  simp only [Write.Fits, not_or, Nat.not_le, Nat.not_lt] at hf
  obtain ⟨hsize, hround, hrefused⟩ := hf
  rcases hcases with ⟨hle, hafter, hok, -⟩ | ⟨hr, -⟩ | ⟨hg, hafter, hok, -⟩
  · rintro (⟨herr, -⟩ | ⟨-, block, hm, hlen, -⟩)
    · exact herr hok
    · rw [hafter] at hm
      have hin := h.inside _ hm
      dsimp only at hin
      have hwrap : 0x100000000 ≤ w.offset + w.length := by
        by_contra hlt
        rw [u32_of_lt (by omega)] at hle
        omega
      omega
  · exact absurd hr hrefused
  · rintro (⟨herr, -⟩ | ⟨-, block, hm, hlen, -⟩)
    · exact herr hok
    · rw [hafter, filled_inodes, grown_inode_self] at hm
      -- Only the new block starts at the address of the new data.
      have hblock : block = block_length (u32 (w.offset + w.length)) := by
        rcases List.mem_cons.mp hm with he | hm
        · exact congrArg Prod.snd he
        · exact absurd rfl (hg.2.2.2 _ (mem_other_blocks.mp hm).1).1
      have hlt := block_length_lt (u32 (w.offset + w.length))
      have hzero : w.offset + w.length < 0x100000000 → block = 0 := by
        intro hnowrap
        rw [hblock, u32_of_lt hnowrap, block_length_wrapped hround hnowrap]
      omega

/-- A write whose range fits is contained, and every file still has a block of its own. -/
theorem contained_of_fits (h : Stored w.before) (ha : IsFile w.before w.inode) (hw : w.Happens)
    (hf : w.Fits) : w.Contained ∧ Stored w.after := by
  obtain ⟨hpos, file, buffer, n, hfile, hcall⟩ := hw
  have hcases := ramfs_write_cases hcall
  rw [hfile] at hcases
  have hsize := h.data_size_lt ha
  rcases hcases with ⟨hle, hafter, hok, -⟩ | ⟨hr, hafter, herr, -⟩ | ⟨hg, hafter, hok, -⟩
  · have hin : w.offset + w.length ≤ (w.before.inodes w.inode).data_size := by
      rcases hf with hf | hf | hf
      · exact hf
      · rwa [u32_of_lt (by omega)] at hle
      · exact absurd hf.1 (Nat.not_lt.mpr hle)
    refine ⟨contained_in_place h ha hin hafter hok (by omega), ?_⟩
    rw [hafter]
    exact h.congr rfl rfl rfl
  · refine ⟨Or.inl ?_, ?_⟩
    · rw [hafter, herr]
      exact ⟨by decide, rfl, rfl⟩
    · rw [hafter]
      exact h.congr rfl rfl rfl
  · have hround : w.offset + w.length + 7 < 0x100000000 := by
      rcases hf with hf | hf | hf
      · have hlt := hg.1
        rw [u32_of_lt (by omega)] at hlt
        omega
      · exact hf
      · exact absurd hf.2 hg.2.1
    rw [u32_of_lt (by omega)] at hg hafter
    have hl := le_block_length hround
    have hfresh : w.before.next_block ≠ (w.before.inodes w.inode).data := by
      intro he
      obtain ⟨block, hm, -⟩ := h.block _ ha (he ▸ hg.2.1)
      exact (hg.2.2.2 _ hm).1 he.symm
    refine ⟨contained_grown hg hl hafter hok hfresh, ?_⟩
    rw [hafter]
    exact (h.grown w.offset ha hg hl).congr rfl rfl rfl

/-- A write stays inside the buffer exactly when its range fits. -/
theorem contained_iff_fits (h : Stored w.before) (ha : IsFile w.before w.inode)
    (hw : w.Happens) : w.Contained ↔ w.Fits := by
  constructor
  · intro hc
    by_contra hf
    exact not_contained h hw hf hc
  · exact fun hf => (contained_of_fits h ha hw hf).1

/-! ## Seeks, reads and writes -/

/-- The call of `ramfs_write` that `syscall_write` makes through `vfs_write`, if its checks pass:
the node, the offset and the length. -/
def write_request (k : kernel_t) : Option (Nat × Nat × Nat) :=
  let resource_index := parameter k 0
  let offset := if (caller k).syscall_retry then k.write_offset k.current else 0
  let resource := (caller k).resources resource_index
  let r := k.resources resource
  if !user_buffer_ok k (parameter k 1) (parameter k 2) then none
  else if TASK_MAX_RESOURCES ≤ resource_index then none
  else if resource = 0 then none
  else if r.flags &&& SYSCALL_O_ACCMODE = SYSCALL_O_RDONLY then none
  else if !r.operations.write then none
  else if u32 (parameter k 1 + offset) = 0 ∨ sub32 (parameter k 2) offset = 0 then none
  else some (r.data, u32 (r.offset + offset), sub32 (parameter k 2) offset)

/-- A syscall with the registers at its entry, what the rest of the kernel answers, and the bytes of
its buffer. -/
structure FileSyscall where
  data : register_interrupt_data_t
  answers : Answers
  buffer : Nat → Nat

/-- The open file that the call in progress is about. -/
def called_resource (k : kernel_t) : resource_t :=
  k.resources ((caller k).resources (parameter k 0))

/-- What the ramfs answers to the call in progress, and the write that it does. -/
def file_answers (k : kernel_t) (fs : fs_t) (c : FileSyscall) :
    Except fault_t (Answers × fs_t × List Write) := do
  let r := called_resource k
  if call k = SYSCALL_LSEEK then
    return ({ c.answers with read := ← ramfs_size fs r.data, value := 0 }, fs, [])
  else if call k = SYSCALL_READ then
    let (_, bytes) ← ramfs_read fs r.data r.offset (parameter k 2)
    return ({ c.answers with read := bytes.length }, fs, [])
  else
    match write_request k with
    | none => return (c.answers, fs, [])
    | some (node, offset, length) =>
      let (fs', result, n) ← ramfs_write fs node offset c.buffer length
      return ({ c.answers with written := if result = RESOURCE_RESULT_OK then some n else none },
        fs', [⟨fs, fs', (fs.nodes node).fs_data, offset, length, result⟩])

/-- A syscall on a file: the kernel with the answers of the ramfs. -/
def file_syscall (k : kernel_t) (fs : fs_t) (c : FileSyscall) :
    Option (kernel_t × fs_t × List Write) := do
  let (answers, fs, writes) ← (file_answers (load_execution k c.data) fs c).toOption
  let (k, _) ← syscall_handler k c.data answers
  return (k, fs, writes)

/-- The call is one of the three, and its descriptor is that of a file of the ramfs. -/
def OnFile (k : kernel_t) (fs : fs_t) (c : FileSyscall) : Prop :=
  let k := load_execution k c.data
  (call k = SYSCALL_LSEEK ∨ call k = SYSCALL_READ ∨ call k = SYSCALL_WRITE) ∧
    parameter k 0 < TASK_MAX_RESOURCES ∧ (caller k).resources (parameter k 0) ≠ 0 ∧
    (called_resource k).type = RESOURCE_TYPE_FILE ∧
    IsFile fs (fs.nodes (called_resource k).data).fs_data

/-- Calls one after another on descriptors of files, with the writes that they do. -/
inductive SeekRun : kernel_t → fs_t → List Write → kernel_t → fs_t → Prop
  | nil (k : kernel_t) (fs : fs_t) : SeekRun k fs [] k fs
  | cons {k k1 k2 : kernel_t} {fs fs1 fs2 : fs_t} {c : FileSyscall} {writes rest : List Write} :
      OnFile k fs c → file_syscall k fs c = some (k1, fs1, writes) →
      SeekRun k1 fs1 rest k2 fs2 → SeekRun k fs (writes ++ rest) k2 fs2

theorem write_request_spec {k : kernel_t} {node offset length : Nat}
    (h : write_request k = some (node, offset, length)) :
    node = (called_resource k).data ∧ 0 < length := by
  unfold write_request at h
  dsimp only at h
  generalize (if (caller k).syscall_retry = true then k.write_offset k.current else 0) = start at h
  by_cases hb : (!user_buffer_ok k (parameter k 1) (parameter k 2)) = true
  · rw [if_pos hb] at h
    cases h
  by_cases hi : TASK_MAX_RESOURCES ≤ parameter k 0
  · rw [if_neg hb, if_pos hi] at h
    cases h
  by_cases hr : (caller k).resources (parameter k 0) = 0
  · rw [if_neg hb, if_neg hi, if_pos hr] at h
    cases h
  rw [if_neg hb, if_neg hi, if_neg hr] at h
  split at h
  · cases h
  split at h
  · cases h
  split at h
  · cases h
  rename_i hz
  cases h
  exact ⟨rfl, Nat.pos_of_ne_zero fun h0 => hz (Or.inr h0)⟩

/-- One call writes nothing, or does one write on its file. -/
theorem file_syscall_cases {k k1 : kernel_t} {fs fs1 : fs_t} {c : FileSyscall}
    {writes : List Write} (hc : OnFile k fs c)
    (h : file_syscall k fs c = some (k1, fs1, writes)) :
    (writes = [] ∧ fs1 = fs) ∨
      ∃ w : Write, writes = [w] ∧ w.before = fs ∧ w.after = fs1 ∧ w.Happens ∧
        IsFile fs w.inode := by
  obtain ⟨⟨answers, fs2, ws⟩, ha, h⟩ := Option.bind_eq_some_iff.mp h
  obtain ⟨⟨k2, eax⟩, -, h⟩ := Option.bind_eq_some_iff.mp h
  cases h
  have ha : file_answers (load_execution k c.data) fs c = .ok (answers, fs1, writes) := by
    cases hx : file_answers (load_execution k c.data) fs c with
    | error e =>
      rw [hx] at ha
      cases ha
    | ok r =>
      rw [hx] at ha
      cases ha
      rfl
  unfold file_answers at ha
  dsimp only at ha
  split at ha
  · obtain ⟨size, -, ha⟩ := faults.bind_ok.mp ha
    cases ha
    exact Or.inl ⟨rfl, rfl⟩
  · split at ha
    · obtain ⟨r, -, ha⟩ := faults.bind_ok.mp ha
      cases ha
      exact Or.inl ⟨rfl, rfl⟩
    · split at ha
      · cases ha
        exact Or.inl ⟨rfl, rfl⟩
      · rename_i node offset length hreq
        obtain ⟨hnode, hpos⟩ := write_request_spec hreq
        obtain ⟨⟨fs3, result, n⟩, hw, ha⟩ := faults.bind_ok.mp ha
        cases ha
        refine Or.inr ⟨_, rfl, rfl, rfl, ⟨hpos, node, c.buffer, n, rfl, hw⟩, ?_⟩
        rw [hnode]
        exact hc.2.2.2.2

/-- Init opens a file for reading and writing. -/
def opensFile : List Interrupt :=
  initRuns ++ [.syscall (registers SYSCALL_OPEN 0 2 0) { noAnswers with
    opened := some (RESOURCE_TYPE_FILE, 16)
    resource_block := fileAt 5 }]

def seeks (offset whence : Nat) : FileSyscall :=
  ⟨registers SYSCALL_LSEEK 1 offset whence, noAnswers, fun _ => 0⟩

def writesTwo : FileSyscall := ⟨registers SYSCALL_WRITE 1 0x8048000 2, noAnswers, fun i => i + 1⟩

/-- A check that a call is on a file. -/
def on_file (k : kernel_t) (fs : fs_t) (c : FileSyscall) : Bool :=
  let k := load_execution k c.data
  let a := (fs.nodes (called_resource k).data).fs_data
  (call k = SYSCALL_LSEEK || call k = SYSCALL_READ || call k = SYSCALL_WRITE) &&
    (parameter k 0 < TASK_MAX_RESOURCES && ((caller k).resources (parameter k 0) ≠ 0 &&
    ((called_resource k).type = RESOURCE_TYPE_FILE &&
    (decide (a ∈ fs.inode_blocks) && (fs.inodes a).type = .VFS_NODE_TYPE_FILE))))

theorem onFile_of_check {k : kernel_t} {fs : fs_t} {c : FileSyscall}
    (h : on_file k fs c = true) : OnFile k fs c := by
  simp only [on_file, Bool.and_eq_true, Bool.or_eq_true, decide_eq_true_eq] at h
  obtain ⟨hcall, hp, hr, ht, ha, hf⟩ := h
  exact ⟨by tauto, hp, hr, ht, ha, hf⟩

/-- The calls in turn, if all are on files. -/
def file_calls (k : kernel_t) (fs : fs_t) : List FileSyscall → Option (kernel_t × fs_t × List Write)
  | [] => some (k, fs, [])
  | c :: cs =>
    if on_file k fs c then do
      let (k, fs, writes) ← file_syscall k fs c
      let (k, fs, rest) ← file_calls k fs cs
      return (k, fs, writes ++ rest)
    else none

theorem SeekRun.of_calls {cs : List FileSyscall} {k k' : kernel_t} {fs fs' : fs_t}
    {writes : List Write} (h : file_calls k fs cs = some (k', fs', writes)) :
    SeekRun k fs writes k' fs' := by
  induction cs generalizing k fs writes with
  | nil =>
    cases h
    exact .nil _ _
  | cons c cs ih =>
    unfold file_calls at h
    split at h
    · rename_i hc
      obtain ⟨⟨k1, fs1, ws⟩, hs, h⟩ := Option.bind_eq_some_iff.mp h
      obtain ⟨⟨k2, fs2, rest⟩, hrest, h⟩ := Option.bind_eq_some_iff.mp h
      cases h
      exact .cons (onFile_of_check hc) hs (ih hrest)
    · cases h

end alura_os.kernel
