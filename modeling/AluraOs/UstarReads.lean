-- What the tar parser reads: its reads stay in the archive, and the node of a file is set before it is
-- used, exactly if every member that the loop comes to lies in the archive and gets its node.
import AluraOs.RamfsPaths
import AluraOs.UstarRuns

namespace alura_os.ustar

open alura_os.memory alura_os.vfs faults
open vfs_node_type ramfs_result_t

variable {fs fs1 fs2 : fs_t} {memory : Nat → Nat} {root tar_data tar_size tar_end p q a : Nat}

/-! ## Reads of the parts of a header -/

theorem reading_bind {α β : Type} (x : Reading α) (f : α → Reading β) (memory : Nat → Nat) :
    (x >>= f) memory =
      ((f (x memory).1 memory).1, (x memory).2 ++ (f (x memory).1 memory).2) := rfl

theorem reading_pure {α : Type} (x : α) (memory : Nat → Nat) :
    (pure x : Reading α) memory = (x, []) := rfl

theorem byte_bind {α : Type} (a : Nat) (f : Nat → Reading α) (memory : Nat → Nat) :
    (byte a >>= f) memory =
      ((f (memory (u32 a)) memory).1, u32 a :: (f (memory (u32 a)) memory).2) := rfl

theorem byte_reads (a : Nat) (memory : Nat → Nat) : (byte a memory).2 = [u32 a] := rfl

theorem zero_block_reads {block : Nat} {n : Nat} (h : a ∈ (tar_is_zero_block block n memory).2) :
    ∃ i < n, a = u32 (block + i) := by
  induction n generalizing block with
  | zero => simp [tar_is_zero_block, reading_pure] at h
  | succ n ih =>
    simp only [tar_is_zero_block, byte_bind, List.mem_cons] at h
    rcases h with rfl | h
    · exact ⟨0, by omega, rfl⟩
    · by_cases hc : memory (u32 block) ≠ 0
      · rw [if_pos hc] at h
        simp [reading_pure] at h
      · rw [if_neg hc] at h
        obtain ⟨i, hi, rfl⟩ := ih h
        exact ⟨i + 1, by omega, by congr 1; omega⟩

theorem zero_block_reads_first (block n : Nat) (memory : Nat → Nat) :
    u32 block ∈ (tar_is_zero_block block (n + 1) memory).2 := by
  simp [tar_is_zero_block, byte_bind]

theorem size_reads {text value n : Nat} (h : a ∈ (tar_get_size_from_octal value text n memory).2) :
    ∃ i < n, a = u32 (text + i) := by
  induction n generalizing text value with
  | zero => simp [tar_get_size_from_octal, reading_pure] at h
  | succ n ih =>
    simp only [tar_get_size_from_octal, byte_bind, List.mem_cons] at h
    rcases h with rfl | h
    · exact ⟨0, by omega, rfl⟩
    · by_cases hc : memory (u32 text) < 48 ∨ 55 < memory (u32 text)
      · rw [if_pos hc] at h
        simp [reading_pure] at h
      · rw [if_neg hc] at h
        obtain ⟨i, hi, rfl⟩ := ih h
        exact ⟨i + 1, by omega, by congr 1; omega⟩

theorem strncpy_reads {src n : Nat} (h : a ∈ (strncpy src n memory).2) :
    ∃ i < n, a = u32 (src + i) := by
  induction n generalizing src with
  | zero => simp [strncpy, reading_pure] at h
  | succ n ih =>
    simp only [strncpy, byte_bind, List.mem_cons] at h
    rcases h with rfl | h
    · exact ⟨0, by omega, rfl⟩
    · by_cases hc : memory (u32 src) = 0
      · rw [if_pos hc] at h
        simp [reading_pure] at h
      · rw [if_neg hc] at h
        simp only [reading_bind, reading_pure, List.append_nil] at h
        obtain ⟨i, hi, rfl⟩ := ih h
        exact ⟨i + 1, by omega, by congr 1; omega⟩

/-- A copy of characters reads up to the first zero, or one byte more than there is room for. -/
theorem copy_chars_reads {src room : Nat} :
    a ∈ (copy_chars src room memory).2 ↔
      ∃ i ≤ room, (∀ j < i, memory (u32 (src + j)) ≠ 0) ∧ a = u32 (src + i) := by
  induction room generalizing src with
  | zero =>
    simp only [copy_chars, byte_bind, reading_pure, List.mem_singleton]
    constructor
    · rintro rfl
      exact ⟨0, by omega, by simp, rfl⟩
    · rintro ⟨i, hi, -, rfl⟩
      obtain rfl : i = 0 := by omega
      rfl
  | succ room ih =>
    simp only [copy_chars, byte_bind, List.mem_cons]
    constructor
    · rintro (rfl | h)
      · exact ⟨0, by omega, by simp, rfl⟩
      · by_cases hc : memory (u32 src) = 0
        · rw [if_pos hc] at h
          simp [reading_pure] at h
        · rw [if_neg hc] at h
          simp only [reading_bind, reading_pure, List.append_nil] at h
          obtain ⟨i, hi, hj, rfl⟩ := ih.mp h
          refine ⟨i + 1, by omega, ?_, by congr 1; omega⟩
          intro j hjlt
          cases j with
          | zero => exact hc
          | succ j =>
            have := hj j (by omega)
            rwa [Nat.add_right_comm, Nat.add_assoc] at this
    · rintro ⟨i, hi, hj, rfl⟩
      cases i with
      | zero => exact Or.inl rfl
      | succ i =>
        have hc : memory (u32 src) ≠ 0 := hj 0 (by omega)
        refine Or.inr ?_
        rw [if_neg hc]
        simp only [reading_bind, reading_pure, List.append_nil]
        refine ih.mpr ⟨i, by omega, ?_, by congr 1; omega⟩
        intro j hjlt
        have := hj (j + 1) (by omega)
        rwa [Nat.add_right_comm, Nat.add_assoc]

/-! ## Reads of a turn -/

theorem header_reads :
    a ∈ (tar_header p memory).2 ↔
      a ∈ (tar_get_size_from_octal 0 (p + SIZE_OFFSET) SIZE_LENGTH memory).2 ∨
        a = u32 (p + TYPE_OFFSET) ∨ a ∈ (tar_full_name p memory).2 := by
  simp [tar_header, reading_bind, byte_reads, reading_pure]

/-- The characters of `filename_prefix` that are read, and those of `name`. -/
theorem full_name_reads (h : a ∈ (tar_full_name p memory).2) :
    (∃ i < 256, (∀ j < i, memory (u32 (p + FILENAME_PREFIX_OFFSET + j)) ≠ 0) ∧
      a = u32 (p + FILENAME_PREFIX_OFFSET + i)) ∨ ∃ i < 256, a = u32 (p + i) := by
  simp only [tar_full_name, byte_bind, List.mem_cons] at h
  rcases h with rfl | h
  · exact Or.inl ⟨0, by omega, by simp, rfl⟩
  · by_cases hc : memory (u32 (p + FILENAME_PREFIX_OFFSET)) ≠ 0
    · rw [if_pos hc] at h
      simp only [tar_build_path, reading_bind, reading_pure, List.append_nil, List.mem_append,
        copy_chars_reads, VFS_NODE_NAME_LENGTH] at h
      rcases h with ⟨i, hi, hj, rfl⟩ | ⟨i, hi, -, rfl⟩
      · exact Or.inl ⟨i, by omega, hj, rfl⟩
      · exact Or.inr ⟨i, by omega, rfl⟩
    · rw [if_neg hc] at h
      obtain ⟨i, hi, rfl⟩ := strncpy_reads h
      exact Or.inr ⟨i, by unfold VFS_NODE_NAME_LENGTH at hi; omega, rfl⟩

theorem filename_prefix_reads {i : Nat} (hi : i < 256)
    (hj : ∀ j < i, memory (u32 (p + FILENAME_PREFIX_OFFSET + j)) ≠ 0) :
    u32 (p + FILENAME_PREFIX_OFFSET + i) ∈ (tar_full_name p memory).2 := by
  simp only [tar_full_name, byte_bind, List.mem_cons]
  by_cases hz : i = 0
  · exact Or.inl (by rw [hz]; rfl)
  · have hc : memory (u32 (p + FILENAME_PREFIX_OFFSET)) ≠ 0 := hj 0 (by omega)
    rw [if_pos hc]
    simp only [tar_build_path, reading_bind, List.mem_append]
    refine Or.inr (Or.inl (copy_chars_reads.mpr ⟨i, ?_, hj, rfl⟩))
    unfold VFS_NODE_NAME_LENGTH
    omega

theorem turn_past (h : tar_end < u32 (p + TAR_BLOCK_SIZE)) :
    tar_turn root tar_end fs p = ⟨[], .ok none⟩ := by
  unfold tar_turn
  rw [if_pos h]

theorem turn_zero (h : ¬ tar_end < u32 (p + TAR_BLOCK_SIZE))
    (hz : (tar_is_zero_block p TAR_BLOCK_SIZE fs.memory).1 = true) :
    tar_turn root tar_end fs p = ⟨(tar_is_zero_block p TAR_BLOCK_SIZE fs.memory).2, .ok none⟩ := by
  unfold tar_turn
  rw [if_neg h]
  simp [hz]

/-- The member whose header is at `p`. -/
def member_at (root : Nat) (fs : fs_t) (p : Nat) : List Nat × Except tar_fault_t fs_t :=
  tar_member root fs (tar_header p fs.memory).1 (u32 (p + TAR_BLOCK_SIZE))

theorem turn_member (h : ¬ tar_end < u32 (p + TAR_BLOCK_SIZE))
    (hz : (tar_is_zero_block p TAR_BLOCK_SIZE fs.memory).1 = false) :
    tar_turn root tar_end fs p =
      ⟨(tar_is_zero_block p TAR_BLOCK_SIZE fs.memory).2 ++ (tar_header p fs.memory).2 ++
        (member_at root fs p).1,
        (member_at root fs p).2.map fun fs' => some (fs', next_header p (size_at fs p))⟩ := by
  unfold tar_turn
  rw [if_neg h]
  simp [hz, member_at, tar_header_size]

/-! ## Members -/

theorem tar_copy_data_linked {node : Nat} {data : List Nat} (hl : Linked fs)
    (h : tar_copy_data fs node data = .ok fs1) :
    Linked fs1 ∧ fs1.inode_blocks = fs.inode_blocks := by
  obtain ⟨i, hi, h⟩ := bind_ok.mp h
  obtain ⟨hm, rfl⟩ := inode_ok.mp hi
  split at h
  · obtain rfl := Except.ok.inj h
    refine ⟨?_, rfl⟩
    apply hl.setInode
    exact hl.targets node hm
  · dsimp only at h
    split at h
    · exact absurd h (by simp [throw, throwThe, MonadExceptOf.throw, bind, Except.bind])
    · split at h
      · exact absurd h (by simp [throw, throwThe, MonadExceptOf.throw, bind, Except.bind])
      · obtain rfl := Except.ok.inj h
        refine ⟨?_, rfl⟩
        apply Linked.setInode
        · exact ⟨hl.pop.unused, hl.pop.distinct, hl.pop.targets⟩
        · exact hl.targets node hm

/-- The member is a file, and its path is one that is not passed over. -/
def IsFile (header : header_t) : Prop :=
  header.type = VFS_NODE_TYPE_FILE ∧ tar_path header.full_name ≠ [] ∧
    tar_path header.full_name ≠ ['/']

variable {header : header_t} {data : Nat}

theorem tar_member_skipped (h : tar_path header.full_name = [] ∨ tar_path header.full_name = ['/']) :
    tar_member root fs header data = ([], .ok fs) := by
  unfold tar_member
  exact if_pos h

theorem tar_member_directory (hl : Linked fs) (hr : root ∈ fs.inode_blocks)
    (hn : ¬ (tar_path header.full_name = [] ∨ tar_path header.full_name = ['/']))
    (ht : header.type = VFS_NODE_TYPE_DIRECTORY) (data : Nat) :
    ∃ fs1, tar_member root fs header data = ([], .ok fs1) ∧ Linked fs1 ∧
      fs.inode_blocks ⊆ fs1.inode_blocks := by
  unfold tar_member
  dsimp only
  rw [if_neg hn, ht]
  dsimp only
  obtain ⟨fs1, r, heq, hl1, hsub, -⟩ := ramfs_create_path_refused hl hr
    (if (tar_path header.full_name).getLast? = some '/' then (tar_path header.full_name).dropLast
      else tar_path header.full_name) VFS_NODE_TYPE_DIRECTORY
  rw [heq]
  exact ⟨fs1, rfl, hl1, hsub⟩

/-- A file whose path is refused has no node. -/
theorem tar_member_unset (hl : Linked fs) (hr : root ∈ fs.inode_blocks) (hf : IsFile header)
    (hp : PathRefused fs root (tar_path header.full_name)) :
    tar_member root fs header data = ([], .error .unset) := by
  obtain ⟨ht, hne⟩ := hf
  unfold tar_member
  dsimp only
  rw [if_neg (not_or.mpr hne), ht]
  dsimp only
  obtain ⟨fs1, r, heq, -, -, hr1⟩ := ramfs_create_path_refused hl hr (tar_path header.full_name)
    VFS_NODE_TYPE_FILE
  obtain rfl := hr1.mpr hp
  rw [heq]

/-- A file with a node: its data is read, whatever becomes of the copy. -/
theorem tar_member_file (hl : Linked fs) (hr : root ∈ fs.inode_blocks) (hf : IsFile header)
    (hp : ¬ PathRefused fs root (tar_path header.full_name)) (data : Nat) :
    ∃ r, tar_member root fs header data = (addresses data header.file_size, r) ∧
      r ≠ .error .unset ∧
      ∀ fs1, r = .ok fs1 → Linked fs1 ∧ fs.inode_blocks ⊆ fs1.inode_blocks := by
  obtain ⟨ht, hne⟩ := hf
  unfold tar_member
  dsimp only
  rw [if_neg (not_or.mpr hne), ht]
  dsimp only
  obtain ⟨fs1, r, heq, hl1, hsub, hr1⟩ := ramfs_create_path_refused hl hr
    (tar_path header.full_name) VFS_NODE_TYPE_FILE
  rw [heq]
  cases r with
  | none => exact absurd (hr1.mp rfl) hp
  | some node =>
    dsimp only
    cases hcopy : tar_copy_data fs1 node ((addresses data header.file_size).map fs1.memory) with
    | error f => exact ⟨_, rfl, by simp, by simp⟩
    | ok fs2 =>
      refine ⟨_, rfl, by simp, ?_⟩
      rintro fs3 hok
      obtain rfl := Except.ok.inj hok
      obtain ⟨hl2, hb⟩ := tar_copy_data_linked hl1 hcopy
      exact ⟨hl2, hb ▸ hsub⟩

theorem tar_member_linked (hl : Linked fs) (hr : root ∈ fs.inode_blocks)
    (h : (tar_member root fs header data).2 = .ok fs1) :
    Linked fs1 ∧ fs.inode_blocks ⊆ fs1.inode_blocks := by
  by_cases hn : tar_path header.full_name = [] ∨ tar_path header.full_name = ['/']
  · rw [tar_member_skipped hn] at h
    obtain rfl := Except.ok.inj h
    exact ⟨hl, Finset.Subset.refl _⟩
  · cases ht : header.type with
    | VFS_NODE_TYPE_DIRECTORY =>
      obtain ⟨fs2, heq, hspec⟩ := tar_member_directory hl hr hn ht data
      rw [heq] at h
      obtain rfl := Except.ok.inj h
      exact hspec
    | VFS_NODE_TYPE_FILE =>
      have hf : IsFile header := ⟨ht, not_or.mp hn⟩
      by_cases hp : PathRefused fs root (tar_path header.full_name)
      · rw [tar_member_unset hl hr hf hp] at h
        cases h
      · obtain ⟨r, heq, -, hspec⟩ := tar_member_file hl hr hf hp data
        rw [heq] at h
        exact hspec fs1 h

/-- What the loop keeps. -/
theorem Visits.linked (hl : Linked fs) (hv : Visits fs tar_data tar_size root fs1 p) :
    Linked fs1 ∧ root ∈ fs1.inode_blocks := by
  induction hv with
  | start hcreate =>
    by_cases hn : fs.next_block = 0
    · rw [ramfs_create_node_none hn] at hcreate
      cases hcreate
    · rw [ramfs_create_node_eq hl hn] at hcreate
      cases hcreate
      exact ⟨hl.with_node hn _ _ _, Finset.mem_insert_self _ _⟩
  | @next fs1 fs2 p q hv hturn ih =>
    by_cases hend : u32 (tar_data + tar_size) < u32 (p + TAR_BLOCK_SIZE)
    · rw [turn_past hend] at hturn
      cases hturn
    · cases hz : (tar_is_zero_block p TAR_BLOCK_SIZE fs1.memory).1 with
      | true =>
        rw [turn_zero hend hz] at hturn
        cases hturn
      | false =>
        rw [turn_member hend hz] at hturn
        cases hm : (member_at root fs1 p).2 with
        | error f => simp [hm, Except.map] at hturn
        | ok fs' =>
          simp only [hm, Except.map, Except.ok.injEq, Option.some.injEq, Prod.mk.injEq] at hturn
          obtain ⟨rfl, -⟩ := hturn
          obtain ⟨hl2, hsub⟩ := tar_member_linked ih.1 ih.2 hm
          exact ⟨hl2, hsub ih.2⟩

/-! ## Reads of the loop -/

/-- The member whose header is at `p` lies in the archive: its header, the characters of
`filename_prefix` up to the first zero or the 256th, and the data of a file, which gets a node. -/
structure Contained (fs : fs_t) (root tar_data tar_size p : Nat) : Prop where
  header : tar_data ≤ p ∧ p + TAR_BLOCK_SIZE ≤ tar_data + tar_size
  name : (tar_is_zero_block p TAR_BLOCK_SIZE fs.memory).1 = false →
    ∀ i < 256, (∀ j < i, fs.memory (u32 (p + FILENAME_PREFIX_OFFSET + j)) ≠ 0) →
      p + FILENAME_PREFIX_OFFSET + i < tar_data + tar_size
  file : (tar_is_zero_block p TAR_BLOCK_SIZE fs.memory).1 = false →
    IsFile (tar_header p fs.memory).1 →
      ¬ PathRefused fs root (tar_path (tar_header p fs.memory).1.full_name) ∧
        p + TAR_BLOCK_SIZE + size_at fs p ≤ tar_data + tar_size

theorem map_unset {r : Except tar_fault_t fs_t} (f : fs_t → Option (fs_t × Nat)) :
    r.map f ≠ .error .unset ↔ r ≠ .error .unset := by
  cases r <;> simp [Except.map]

/-- The addresses from `p` on are inside the archive, as far as it goes. -/
theorem addresses_inside {length : Nat} (hroom : tar_data + tar_size < 0x100000000)
    (hlow : tar_data ≤ p) (hhigh : p ≤ tar_data + tar_size) :
    (∀ a ∈ addresses p length, tar_data ≤ a ∧ a < tar_data + tar_size) ↔
      p + length ≤ tar_data + tar_size := by
  simp only [addresses, List.mem_map, List.mem_range, forall_exists_index, and_imp,
    forall_apply_eq_imp_iff₂]
  constructor
  · intro h
    by_contra hlong
    have hpast := (h (tar_data + tar_size - p) (by omega)).2
    rw [u32_of_lt (by omega)] at hpast
    omega
  · intro h i hi
    rw [u32_of_lt (by omega)]
    omega

/-- The reads of a header that lies in the archive, but for the end of `filename_prefix`. -/
theorem header_inside (hroom : tar_data + tar_size + TAR_BLOCK_SIZE ≤ 0x100000000)
    (hlow : tar_data ≤ p) (hhigh : p + TAR_BLOCK_SIZE ≤ tar_data + tar_size)
    (hname : ∀ i < 256, (∀ j < i, memory (u32 (p + FILENAME_PREFIX_OFFSET + j)) ≠ 0) →
      p + FILENAME_PREFIX_OFFSET + i < tar_data + tar_size)
    (h : a ∈ (tar_header p memory).2) : tar_data ≤ a ∧ a < tar_data + tar_size := by
  unfold TAR_BLOCK_SIZE at hroom hhigh
  rcases header_reads.mp h with hs | rfl | hn
  · obtain ⟨i, hi, rfl⟩ := size_reads hs
    unfold SIZE_LENGTH at hi
    unfold SIZE_OFFSET
    rw [u32_of_lt (by omega)]
    omega
  · unfold TYPE_OFFSET
    rw [u32_of_lt (by omega)]
    omega
  · rcases full_name_reads hn with ⟨i, hi, hj, rfl⟩ | ⟨i, hi, rfl⟩
    · have hlt := hname i hi hj
      unfold FILENAME_PREFIX_OFFSET at hlt ⊢
      rw [u32_of_lt (by omega)]
      omega
    · rw [u32_of_lt (by omega)]
      omega

theorem zero_block_inside (hroom : tar_data + tar_size + TAR_BLOCK_SIZE ≤ 0x100000000)
    (hlow : tar_data ≤ p) (hhigh : p + TAR_BLOCK_SIZE ≤ tar_data + tar_size)
    (h : a ∈ (tar_is_zero_block p TAR_BLOCK_SIZE memory).2) :
    tar_data ≤ a ∧ a < tar_data + tar_size := by
  obtain ⟨i, hi, rfl⟩ := zero_block_reads h
  unfold TAR_BLOCK_SIZE at hroom hhigh hi
  rw [u32_of_lt (by omega)]
  omega

/-- The data of a member whose header lies in the archive. -/
theorem member_inside (hroom : tar_data + tar_size + TAR_BLOCK_SIZE ≤ 0x100000000)
    (hl : Linked fs) (hr : root ∈ fs.inode_blocks) (hlow : tar_data ≤ p)
    (hhigh : p + TAR_BLOCK_SIZE ≤ tar_data + tar_size) :
    ((∀ a ∈ (member_at root fs p).1, tar_data ≤ a ∧ a < tar_data + tar_size) ∧
      (member_at root fs p).2 ≠ .error .unset) ↔
    (IsFile (tar_header p fs.memory).1 →
      ¬ PathRefused fs root (tar_path (tar_header p fs.memory).1.full_name) ∧
        p + TAR_BLOCK_SIZE + size_at fs p ≤ tar_data + tar_size) := by
  have hlt : tar_data + tar_size < 0x100000000 := by
    unfold TAR_BLOCK_SIZE at hroom
    omega
  have hdata : u32 (p + TAR_BLOCK_SIZE) = p + TAR_BLOCK_SIZE := u32_of_lt (by omega)
  unfold member_at
  rw [hdata]
  by_cases hf : IsFile (tar_header p fs.memory).1
  · by_cases hp : PathRefused fs root (tar_path (tar_header p fs.memory).1.full_name)
    · rw [tar_member_unset hl hr hf hp]
      simp [hf, hp]
    · obtain ⟨r, heq, hr', -⟩ := tar_member_file hl hr hf hp (p + TAR_BLOCK_SIZE)
      rw [heq, tar_header_size]
      dsimp only
      rw [addresses_inside hlt (by omega) hhigh]
      simp [hf, hp, hr']
  · by_cases hn : tar_path (tar_header p fs.memory).1.full_name = [] ∨
        tar_path (tar_header p fs.memory).1.full_name = ['/']
    · rw [tar_member_skipped hn]
      simp [hf]
    · have ht : (tar_header p fs.memory).1.type = VFS_NODE_TYPE_DIRECTORY := by
        cases ht : (tar_header p fs.memory).1.type with
        | VFS_NODE_TYPE_DIRECTORY => rfl
        | VFS_NODE_TYPE_FILE => exact absurd ⟨ht, not_or.mp hn⟩ hf
      obtain ⟨fs1, heq, -⟩ := tar_member_directory hl hr hn ht (p + TAR_BLOCK_SIZE)
      rw [heq]
      simp [hf]

/-- A turn that comes to a header reads only the archive, and uses no node that is not set, exactly
if the member is contained. -/
theorem turn_reads_iff (hroom : tar_data + tar_size + TAR_BLOCK_SIZE ≤ 0x100000000)
    (hp : p < 0x100000000) (hl : Linked fs) (hr : root ∈ fs.inode_blocks)
    (henter : u32 (p + TAR_BLOCK_SIZE) ≤ u32 (tar_data + tar_size)) :
    ((∀ a ∈ (tar_turn root (u32 (tar_data + tar_size)) fs p).reads,
        tar_data ≤ a ∧ a < tar_data + tar_size) ∧
      (tar_turn root (u32 (tar_data + tar_size)) fs p).outcome ≠ .error .unset) ↔
    Contained fs root tar_data tar_size p := by
  have hend := Nat.not_lt.mpr henter
  have hend' : u32 (tar_data + tar_size) = tar_data + tar_size :=
    u32_of_lt (by unfold TAR_BLOCK_SIZE at hroom; omega)
  -- The first byte of the header is read, so the header starts in the archive.
  have hfirst : p ∈ (tar_is_zero_block p TAR_BLOCK_SIZE fs.memory).2 := by
    have := zero_block_reads_first p 511 fs.memory
    rwa [u32_of_lt hp] at this
  have hheader : tar_data ≤ p ∧ p < tar_data + tar_size →
      tar_data ≤ p ∧ p + TAR_BLOCK_SIZE ≤ tar_data + tar_size := by
    rintro ⟨hlow, hhigh⟩
    refine ⟨hlow, ?_⟩
    rw [hend'] at henter
    unfold TAR_BLOCK_SIZE at hroom henter ⊢
    rwa [u32_of_lt (by omega)] at henter
  cases hz : (tar_is_zero_block p TAR_BLOCK_SIZE fs.memory).1 with
  | true =>
    rw [turn_zero hend hz]
    constructor
    · rintro ⟨hreads, -⟩
      exact ⟨hheader (hreads p hfirst), by simp [hz], by simp [hz]⟩
    · intro hc
      exact ⟨fun a => zero_block_inside hroom hc.header.1 hc.header.2, by simp⟩
  | false =>
    rw [turn_member hend hz]
    dsimp only
    rw [map_unset]
    constructor
    · rintro ⟨hreads, hset⟩
      have hin := hheader (hreads p (by simp [hfirst]))
      refine ⟨hin, ?_, ?_⟩
      · intro _ i hi hj
        have hread := hreads (u32 (p + FILENAME_PREFIX_OFFSET + i)) (by
          simp [header_reads, filename_prefix_reads hi hj])
        unfold TAR_BLOCK_SIZE at hroom hin
        unfold FILENAME_PREFIX_OFFSET at hread ⊢
        rw [u32_of_lt (by omega)] at hread
        exact hread.2
      · intro _
        apply (member_inside hroom hl hr hin.1 hin.2).mp
        exact ⟨fun a ha => hreads a (List.mem_append_right _ ha), hset⟩
    · intro hc
      obtain ⟨hmember, hset⟩ := (member_inside hroom hl hr hc.header.1 hc.header.2).mpr (hc.file hz)
      refine ⟨?_, hset⟩
      intro a ha
      rcases List.mem_append.mp ha with ha | ha
      · rcases List.mem_append.mp ha with ha | ha
        · exact zero_block_inside hroom hc.header.1 hc.header.2 ha
        · exact header_inside hroom hc.header.1 hc.header.2 (hc.name hz) ha
      · exact hmember a ha

/-- The import reads only the archive, and uses no node that is not set, exactly if every member that
it comes to is contained in the archive. -/
theorem the_import_reads_the_archive (hl : Linked fs)
    (hroom : tar_data + tar_size + TAR_BLOCK_SIZE ≤ 0x100000000) :
    (∀ root fs1 p, Visits fs tar_data tar_size root fs1 p →
      (∀ a ∈ (tar_turn root (u32 (tar_data + tar_size)) fs1 p).reads,
        tar_data ≤ a ∧ a < tar_data + tar_size) ∧
      (tar_turn root (u32 (tar_data + tar_size)) fs1 p).outcome ≠ .error .unset) ↔
    ∀ root fs1 p, Visits fs tar_data tar_size root fs1 p →
      u32 (p + TAR_BLOCK_SIZE) ≤ u32 (tar_data + tar_size) →
      Contained fs1 root tar_data tar_size p := by
  have hlow : tar_data < 0x100000000 := by
    unfold TAR_BLOCK_SIZE at hroom
    omega
  constructor
  · intro h root fs1 p hv henter
    obtain ⟨hl1, hr⟩ := hv.linked hl
    exact (turn_reads_iff hroom (hv.lt hlow) hl1 hr henter).mp (h root fs1 p hv)
  · intro h root fs1 p hv
    obtain ⟨hl1, hr⟩ := hv.linked hl
    by_cases henter : u32 (p + TAR_BLOCK_SIZE) ≤ u32 (tar_data + tar_size)
    · exact (turn_reads_iff hroom (hv.lt hlow) hl1 hr henter).mpr (h root fs1 p hv henter)
    · rw [turn_past (Nat.not_le.mp henter)]
      simp

theorem linked_eights (memory : Nat → Nat) : Linked (unmounted memory eights) := by
  apply linked_unmounted
  intro m n _ h
  unfold eights at h
  omega

theorem linked_small_fs : Linked small_fs :=
  have h := linked_eights small_archive
  ⟨h.unused, h.distinct, h.targets⟩

theorem the_import_of_a_file_reads_the_archive :
    (∀ root fs1 p, Visits small_fs 4096 2048 root fs1 p →
      (∀ a ∈ (tar_turn root (u32 (4096 + 2048)) fs1 p).reads, 4096 ≤ a ∧ a < 4096 + 2048) ∧
      (tar_turn root (u32 (4096 + 2048)) fs1 p).outcome ≠ .error .unset) ↔
    ∀ root fs1 p, Visits small_fs 4096 2048 root fs1 p →
      u32 (p + TAR_BLOCK_SIZE) ≤ u32 (4096 + 2048) → Contained fs1 root 4096 2048 p :=
  the_import_reads_the_archive linked_small_fs (by decide)

/-! ### A file without its data -/

/-- An archive at 4096 that ends after the header of the file `./a`, whose size is one. -/
def truncated_memory (a : Nat) : Nat :=
  if a = 4096 then 46
  else if a = 4097 then 47
  else if a = 4098 then 97
  else if a = 4220 then 49
  else if a = 4252 then 48
  else 0

theorem truncated_header : (tar_header 4096 truncated_memory).1 =
    ⟨1, VFS_NODE_TYPE_FILE, ['.', '/', 'a']⟩ := by
  decide +kernel

/-- The byte behind the archive is read. -/
theorem a_truncated_archive_is_read_past :
    ¬ ∀ root fs1 p, Visits (unmounted truncated_memory eights) 4096 512 root fs1 p →
      (∀ a ∈ (tar_turn root (u32 (4096 + 512)) fs1 p).reads, 4096 ≤ a ∧ a < 4096 + 512) ∧
      (tar_turn root (u32 (4096 + 512)) fs1 p).outcome ≠ .error .unset := by
  intro h
  have hl := linked_eights truncated_memory
  have hcreate := ramfs_create_node_eq hl (by decide) VFS_NODE_TYPE_DIRECTORY 0 9
  have hv : Visits (unmounted truncated_memory eights) 4096 512 _ _ 4096 := .start hcreate
  have hl1 := hv.linked hl
  have hc := (turn_reads_iff (by decide) (by decide) hl1.1 hl1.2 (by decide)).mp (h _ _ _ hv)
  have hz : (tar_is_zero_block 4096 TAR_BLOCK_SIZE truncated_memory).1 = false := by decide +kernel
  have hheader : IsFile (tar_header 4096 truncated_memory).1 := by
    rw [truncated_header]
    exact ⟨rfl, by decide, by decide⟩
  have hsize : (tar_header 4096 truncated_memory).1.file_size = 1 := by rw [truncated_header]
  have hpast := (hc.file hz hheader).2
  rw [← tar_header_size] at hpast
  have hmemory : (with_node (unmounted truncated_memory eights) VFS_NODE_TYPE_DIRECTORY 0 9).memory =
      truncated_memory := rfl
  rw [hmemory, hsize] at hpast
  exact absurd hpast (by decide)

end alura_os.ustar
