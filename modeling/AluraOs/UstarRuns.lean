-- Runs of the tar parser: when its loop comes to an end, and when it reads nothing but the archive.
import AluraOs.Ustar

namespace alura_os.ustar

open alura_os.memory alura_os.vfs
open vfs_node_type ramfs_result_t

variable {fs fs1 fs2 : fs_t} {root tar_data tar_size tar_end p q : Nat}

/-- The headers that the loop comes to, with the file systems as they are then. -/
inductive Visits (fs : fs_t) (tar_data tar_size root : Nat) : fs_t → Nat → Prop
  | start {fs1 : fs_t} :
      ramfs_create_node fs VFS_NODE_TYPE_DIRECTORY 0 9 = .ok (fs1, RAMFS_RESULT_OK, root) →
      Visits fs tar_data tar_size root fs1 tar_data
  | next {fs1 fs2 : fs_t} {p q : Nat} :
      Visits fs tar_data tar_size root fs1 p →
      (tar_turn root (u32 (tar_data + tar_size)) fs1 p).outcome = .ok (some (fs2, q)) →
      Visits fs tar_data tar_size root fs2 q

/-! ## The end of the loop -/

/-- The size of the member whose header is at `p`. -/
def size_at (fs : fs_t) (p : Nat) : Nat :=
  (tar_get_size_from_octal 0 (p + SIZE_OFFSET) SIZE_LENGTH fs.memory).1

theorem tar_header_size (fs : fs_t) (p : Nat) : (tar_header p fs.memory).1.file_size = size_at fs p :=
  rfl

/-- A turn that goes on goes to the place after its member. -/
theorem turn_next (h : (tar_turn root tar_end fs1 p).outcome = .ok (some (fs2, q))) :
    u32 (p + TAR_BLOCK_SIZE) ≤ tar_end ∧ q = next_header p (size_at fs1 p) := by
  unfold tar_turn at h
  split at h
  · exact absurd h (by simp)
  · rename_i hend
    simp only at h
    split at h
    · exact absurd h (by simp)
    · refine ⟨by omega, ?_⟩
      simp only [tar_header_size] at h
      cases hm : (tar_member root fs1 (tar_header p fs1.memory).1
          (u32 (p + TAR_BLOCK_SIZE))).2 with
      | error f =>
        rw [hm] at h
        exact absurd h (by simp [Except.map])
      | ok fs' =>
        rw [hm] at h
        simp only [Except.map, Except.ok.injEq, Option.some.injEq, Prod.mk.injEq] at h
        exact h.2.symm

theorem data_length_le (n : Nat) : data_length n ≤ 0x100000000 - 512 := by
  unfold data_length TAR_BLOCK_SIZE u32
  omega

/-- The step to the next header goes forward exactly if it does not wrap. -/
theorem next_header_lt (p n : Nat) :
    p < next_header p n ↔ p + TAR_BLOCK_SIZE + data_length n < 0x100000000 := by
  have hle := data_length_le n
  unfold next_header
  generalize data_length n = d at *
  unfold TAR_BLOCK_SIZE u32
  omega

theorem Visits.lt (ht : tar_data < 0x100000000) (h : Visits fs tar_data tar_size root fs1 p) :
    p < 0x100000000 := by
  cases h with
  | start _ => exact ht
  | next _ hturn =>
    rw [(turn_next hturn).2]
    exact u32_lt _

/-- A loop whose turns all go forward below some address ends: no address comes twice. -/
theorem loop_ends {n top : Nat} (hn : top ≤ n + p)
    (hlow : ∀ fs1 p, Visits fs tar_data tar_size root fs1 p → p < top)
    (hforward : ∀ fs1 p fs2 q, Visits fs tar_data tar_size root fs1 p →
      (tar_turn root (u32 (tar_data + tar_size)) fs1 p).outcome = .ok (some (fs2, q)) → p < q)
    (hv : Visits fs tar_data tar_size root fs1 p) :
    ∃ r, tar_loop root (u32 (tar_data + tar_size)) n fs1 p = some r := by
  induction n generalizing fs1 p with
  | zero =>
    have hlt := hlow fs1 p hv
    omega
  | succ n ih =>
    rw [tar_loop]
    split
    · exact ⟨_, rfl⟩
    · exact ⟨_, rfl⟩
    · rename_i fs2 q hturn
      have hlt := hforward fs1 p fs2 q hv hturn
      exact ih (by omega) (.next hv hturn)

/-- The loop ends and goes forward in every turn, exactly if no step over a member wraps at the end of
the address space. -/
theorem the_import_ends (ht : tar_data < 0x100000000) (fs : fs_t) (tar_size : Nat) :
    ((∃ fuel r, tar_create_ramfs_node fuel fs tar_data tar_size = some r) ∧
      ∀ root fs1 p fs2 q, Visits fs tar_data tar_size root fs1 p →
        (tar_turn root (u32 (tar_data + tar_size)) fs1 p).outcome = .ok (some (fs2, q)) → p < q) ↔
    ∀ root fs1 p fs2 q, Visits fs tar_data tar_size root fs1 p →
      (tar_turn root (u32 (tar_data + tar_size)) fs1 p).outcome = .ok (some (fs2, q)) →
      p + TAR_BLOCK_SIZE + data_length (size_at fs1 p) < 0x100000000 := by
  constructor
  · rintro ⟨-, h⟩ root fs1 p fs2 q hv hturn
    rw [← next_header_lt, ← (turn_next hturn).2]
    exact h root fs1 p fs2 q hv hturn
  · intro h
    have hforward : ∀ root fs1 p fs2 q, Visits fs tar_data tar_size root fs1 p →
        (tar_turn root (u32 (tar_data + tar_size)) fs1 p).outcome = .ok (some (fs2, q)) →
        p < q := by
      intro root fs1 p fs2 q hv hturn
      rw [(turn_next hturn).2, next_header_lt]
      exact h root fs1 p fs2 q hv hturn
    refine ⟨⟨0x100000000, ?_⟩, hforward⟩
    unfold tar_create_ramfs_node
    split
    · exact ⟨_, rfl⟩
    · rename_i fs1 result root hcreate
      split
      · exact ⟨_, rfl⟩
      · rename_i hok
        push Not at hok
        rw [hok] at hcreate
        obtain ⟨r, hr⟩ := loop_ends (Nat.le_add_right 0x100000000 tar_data)
          (fun fs1 p hv => hv.lt ht) (hforward root) (.start hcreate)
        rw [hr]
        exact ⟨_, rfl⟩

/-- A byte of a header: the name, the mode `0000644`, the octal digits of the size, the type. -/
def header_byte (name size : List Nat) (type i : Nat) : Nat :=
  if i < 100 then name.getD i 0
  else if i < 107 then [48, 48, 48, 48, 54, 52, 52].getD (i - 100) 0
  else if 124 ≤ i ∧ i < 135 then size.getD (i - 124) 0
  else if i = 156 then type
  else 0

/-- The heap of the files below: a block at every multiple of eight. -/
def eights (n : Nat) : Nat := 8 * (n + 1)

/-- `./d/` -/
def directory_name : List Nat := [46, 47, 100, 47]

/-- `./d/f` -/
def file_name : List Nat := [46, 47, 100, 47, 102]

/-- An archive at 4096: a directory, a file in it with the bytes `hi`, and a block of zeros. -/
def small_archive (a : Nat) : Nat :=
  if a < 4608 then header_byte directory_name (List.replicate 11 48) 53 (a - 4096)
  else if a < 5120 then header_byte file_name (List.replicate 10 48 ++ [50]) 48 (a - 4608)
  else [104, 105].getD (a - 5120) 0

def small_fs : fs_t := { unmounted small_archive eights with data_blocks := [(4096, 2048)] }

theorem the_import_ends_at_4096 :
    ((∃ fuel r, tar_create_ramfs_node fuel small_fs 4096 2048 = some r) ∧
      ∀ root fs1 p fs2 q, Visits small_fs 4096 2048 root fs1 p →
        (tar_turn root (u32 (4096 + 2048)) fs1 p).outcome = .ok (some (fs2, q)) → p < q) ↔
    ∀ root fs1 p fs2 q, Visits small_fs 4096 2048 root fs1 p →
      (tar_turn root (u32 (4096 + 2048)) fs1 p).outcome = .ok (some (fs2, q)) →
      p + TAR_BLOCK_SIZE + data_length (size_at fs1 p) < 0x100000000 :=
  the_import_ends (by decide) small_fs 2048

/-! ### A directory of 0xFFFFFE00 bytes -/

/-- `37777777000` -/
def endless_size : List Nat := [51, 55, 55, 55, 55, 55, 55, 55, 48, 48, 48]

/-- An archive at 4096 with the directory `./`, whose size is 37777777000 in octal. -/
def endless_memory (a : Nat) : Nat :=
  if a = 4096 then 46
  else if a = 4097 then 47
  else if a = 4252 then 53
  else if 4220 ≤ a then endless_size.getD (a - 4220) 0
  else 0

def endless : fs_t := unmounted endless_memory fun n => 8 * (n + 1)

theorem endless_header : (tar_header 4096 endless_memory).1 =
    ⟨0xFFFFFE00, VFS_NODE_TYPE_DIRECTORY, ['.', '/']⟩ := by
  decide +kernel

/-- The turn at the archive's start goes on there. -/
theorem endless_turn (root : Nat) (h : fs.memory = endless_memory) :
    (tar_turn root 5120 fs 4096).outcome = .ok (some (fs, 4096)) := by
  have hend : ¬ 5120 < u32 (4096 + TAR_BLOCK_SIZE) := by decide
  have hzero : (tar_is_zero_block 4096 TAR_BLOCK_SIZE endless_memory).1 = false := by decide +kernel
  have hnext : next_header 4096 0xFFFFFE00 = 4096 := by decide
  unfold tar_turn
  rw [if_neg hend, h]
  simp only [hzero, endless_header, hnext, Bool.false_eq_true, if_false]
  rfl

theorem endless_loop (root : Nat) (h : fs.memory = endless_memory) (fuel : Nat) :
    tar_loop root 5120 fuel fs 4096 = none := by
  induction fuel with
  | zero => rfl
  | succ fuel ih =>
    rw [tar_loop, endless_turn root h]
    exact ih

/-- The import of the archive never ends. -/
theorem a_large_directory_is_endless :
    ¬ ∃ fuel r, tar_create_ramfs_node fuel endless 4096 1024 = some r := by
  rintro ⟨fuel, r, h⟩
  have hcreate : ∃ fs1, ramfs_create_node endless VFS_NODE_TYPE_DIRECTORY 0 9 =
      .ok (fs1, RAMFS_RESULT_OK, 8) ∧ fs1.memory = endless_memory :=
    ⟨_, rfl, rfl⟩
  obtain ⟨fs1, hfs1, hmemory⟩ := hcreate
  unfold tar_create_ramfs_node at h
  rw [hfs1] at h
  have hend : u32 (4096 + 1024) = 5120 := by decide
  simp [hend, endless_loop 8 hmemory fuel] at h

end alura_os.ustar
