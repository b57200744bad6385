-- The contents of files (`ramfs_read`, `ramfs_write`, `ramfs_truncate`,
-- `ramfs_size`): what a file holds is a byte string, through every write that
-- extends it, leaves a hole in it or falls inside it.
import AluraOs.ByteStrings
import AluraOs.Faults
import AluraOs.Vfs

namespace alura_os.vfs

open alura_os.memory alura_os.resource byte_strings faults
open resource_result_t resource_type_t vfs_node_type

/-! ## Memory -/

/-- A copy that does not wrap changes the bytes of its range. -/
theorem copy_apply {memory source : Nat → Nat} {destination length : Nat}
    (h : destination + length ≤ 0x100000000) (a : Nat) :
    copy memory destination source length a =
      if destination ≤ a ∧ a < destination + length then source (a - destination)
      else memory a := by
  unfold copy sub32
  split
  · rename_i hin
    rw [if_pos (by omega)]
    congr 1
    omega
  · rw [if_neg (by omega)]

theorem copy_u32 (memory source : Nat → Nat) (destination length : Nat) :
    copy memory (u32 destination) source length = copy memory destination source length := by
  unfold copy sub32 u32
  simp

/-- A block serves its request, unless the rounding of the size wraps. -/
theorem le_block_length {size : Nat} (h : size + 7 < 0x100000000) : size ≤ block_length size := by
  unfold block_length kernel_heap.kernel_heap_headers_for
  rw [u32_of_lt h]
  omega

theorem block_length_lt (size : Nat) : block_length size + 8 ≤ 0x100000000 := by
  unfold block_length kernel_heap.kernel_heap_headers_for
  have := u32_lt (size + 7)
  omega

/-! ## Files in memory -/

/-- A file of the ramfs. -/
def IsFile (fs : fs_t) (a : Nat) : Prop :=
  a ∈ fs.inode_blocks ∧ (fs.inodes a).type = VFS_NODE_TYPE_FILE

/-- The bytes of a file. -/
def contents (fs : fs_t) (a : Nat) : List Nat :=
  (List.range (fs.inodes a).data_size).map fun i => fs.memory (u32 ((fs.inodes a).data + i))

/-- Every file that is not empty has a block of its own, long enough for its data. -/
structure Stored (fs : fs_t) : Prop where
  inside : ∀ b ∈ fs.data_blocks, b.1 ≠ 0 ∧ b.1 + b.2 ≤ 0x100000000
  apart : fs.data_blocks.Pairwise fun b c => c.1 ≠ b.1 ∧ (b.1 + b.2 ≤ c.1 ∨ c.1 + c.2 ≤ b.1)
  block : ∀ a, IsFile fs a → (fs.inodes a).data ≠ 0 →
    ∃ length, ((fs.inodes a).data, length) ∈ fs.data_blocks ∧ (fs.inodes a).data_size ≤ length
  empty : ∀ a, IsFile fs a → (fs.inodes a).data = 0 → (fs.inodes a).data_size = 0
  own : ∀ a b, IsFile fs a → IsFile fs b → (fs.inodes a).data = (fs.inodes b).data →
    (fs.inodes a).data ≠ 0 → a = b

theorem length_contents (fs : fs_t) (a : Nat) :
    (contents fs a).length = (fs.inodes a).data_size := by
  simp [contents]

theorem getD_contents {fs : fs_t} {a i : Nat} (hi : i < (fs.inodes a).data_size) :
    (contents fs a).getD i 0 = fs.memory (u32 ((fs.inodes a).data + i)) := by
  simp [contents, List.getD_eq_getElem?_getD, hi]

/-- The data of a file ends inside the address space. -/
theorem Stored.data_end {fs : fs_t} (h : Stored fs) {a : Nat} (ha : IsFile fs a) :
    (fs.inodes a).data + (fs.inodes a).data_size ≤ 0x100000000 := by
  by_cases hd : (fs.inodes a).data = 0
  · rw [hd, h.empty a ha hd]
    omega
  · obtain ⟨length, hm, hl⟩ := h.block a ha hd
    have := (h.inside _ hm).2
    dsimp only at this
    omega

theorem Stored.data_size_lt {fs : fs_t} (h : Stored fs) {a : Nat} (ha : IsFile fs a) :
    (fs.inodes a).data_size < 0x100000000 := by
  by_cases hd : (fs.inodes a).data = 0
  · rw [h.empty a ha hd]
    decide
  · have := h.data_end ha
    omega

/-! ## The cases of a write -/

/-- The memory of a file that grows: its old bytes in the new block, then zeros up to the offset. -/
def grown_memory (fs : fs_t) (a new_data offset : Nat) : Nat → Nat :=
  let node := fs.inodes a
  let memory := copy fs.memory new_data (fun i => fs.memory (u32 (node.data + i))) node.data_size
  if node.data_size < offset then
    copy memory (u32 (new_data + node.data_size)) (fun _ => 0) (offset - node.data_size)
  else memory

/-- The file systems after `ramfs_grow`. -/
def grown (fs : fs_t) (a offset required_size : Nat) : fs_t :=
  { fs.pop_block with
    memory := grown_memory fs a fs.next_block offset
    data_blocks := (fs.next_block, block_length required_size) ::
      fs.data_blocks.filter fun b => b.1 ≠ (fs.inodes a).data
    inodes := Function.update fs.inodes a
      { fs.inodes a with data := fs.next_block, data_size := required_size } }

/-- The bytes of the buffer are in the file. -/
def filled (fs : fs_t) (a offset : Nat) (buffer : Nat → Nat) (length : Nat) : fs_t :=
  { fs with memory := copy fs.memory (u32 ((fs.inodes a).data + offset)) buffer length }

/-- A write needs a new block, and the kernel heap has none. -/
def Refused (fs : fs_t) (a required_size : Nat) : Prop :=
  (fs.inodes a).data_size < required_size ∧ fs.next_block = 0

/-- A write needs a new block, and the kernel heap gives one. -/
def Grows (fs : fs_t) (a required_size : Nat) : Prop :=
  (fs.inodes a).data_size < required_size ∧ fs.next_block ≠ 0 ∧
    DataBlock fs.data_blocks fs.next_block (block_length required_size)

theorem ramfs_grow_cases {fs fs' : fs_t} {a offset required_size data : Nat}
    (hs : (fs.inodes a).data_size < required_size)
    (h : ramfs_grow fs a offset required_size = .ok (fs', data)) :
    (Refused fs a required_size ∧ fs' = fs.pop_block ∧ data = 0) ∨
      (Grows fs a required_size ∧ fs' = grown fs a offset required_size ∧
        data = fs.next_block) := by
  unfold ramfs_grow at h
  obtain ⟨node, hnode, h⟩ := bind_ok.mp h
  obtain ⟨-, rfl⟩ := inode_ok.mp hnode
  by_cases hz : fs.next_block = 0
  · rw [if_pos hz] at h
    cases h
    exact Or.inl ⟨⟨hs, hz⟩, rfl, rfl⟩
  · rw [if_neg hz] at h
    by_cases hb : DataBlock fs.data_blocks fs.next_block (block_length required_size)
    · have hb' : DataBlock fs.pop_block.data_blocks fs.next_block (block_length required_size) := hb
      rw [if_neg (not_not.mpr hb')] at h
      cases h
      exact Or.inr ⟨⟨hs, hz, hb⟩, rfl, rfl⟩
    · have hb' : ¬ DataBlock fs.pop_block.data_blocks fs.next_block (block_length required_size) := hb
      rw [if_pos hb'] at h
      cases h

/-- Everything that a write can do. -/
theorem ramfs_write_cases {fs fs' : fs_t} {file offset length n : Nat} {buffer : Nat → Nat}
    {result : resource_result_t}
    (h : ramfs_write fs file offset buffer length = .ok (fs', result, n)) :
    let a := (fs.nodes file).fs_data
    let required_size := u32 (offset + length)
    (required_size ≤ (fs.inodes a).data_size ∧ fs' = filled fs a offset buffer length ∧
        result = RESOURCE_RESULT_OK ∧ n = length) ∨
      (Refused fs a required_size ∧ fs' = fs.pop_block ∧
        result = RESOURCE_RESULT_ALLOCATION_ERROR ∧ n = 0) ∨
      (Grows fs a required_size ∧
        fs' = filled (grown fs a offset required_size) a offset buffer length ∧
        result = RESOURCE_RESULT_OK ∧ n = length) := by
  unfold ramfs_write at h
  obtain ⟨f, hf, h⟩ := bind_ok.mp h
  obtain ⟨-, rfl⟩ := node_ok.mp hf
  obtain ⟨node, hnode, h⟩ := bind_ok.mp h
  obtain ⟨-, rfl⟩ := inode_ok.mp hnode
  intro a required_size
  dsimp only at h
  by_cases hs : (fs.inodes a).data_size < required_size
  · rw [if_pos hs] at h
    obtain ⟨⟨fs1, data⟩, hg, h⟩ := bind_ok.mp h
    dsimp only at h
    rcases ramfs_grow_cases hs hg with ⟨hr, rfl, rfl⟩ | ⟨hgrows, rfl, rfl⟩
    · rw [if_pos ⟨hs, rfl⟩] at h
      cases h
      exact Or.inr (Or.inl ⟨hr, rfl, rfl, rfl⟩)
    · rw [if_neg (fun hc => hgrows.2.1 hc.2)] at h
      cases h
      refine Or.inr (Or.inr ⟨hgrows, ?_, rfl, rfl⟩)
      simp [filled, grown]
  · rw [if_neg hs, pure_bind, if_neg (fun hc => hs hc.1)] at h
    cases h
    exact Or.inl ⟨Nat.not_lt.mp hs, rfl, rfl, rfl⟩

/-! ## What a write keeps -/

@[simp]
theorem filled_inodes (fs : fs_t) (a offset : Nat) (buffer : Nat → Nat) (length : Nat) :
    (filled fs a offset buffer length).inodes = fs.inodes := rfl

theorem isFile_filled (fs : fs_t) (a offset : Nat) (buffer : Nat → Nat) (length b : Nat) :
    IsFile (filled fs a offset buffer length) b ↔ IsFile fs b := Iff.rfl

theorem filled_memory {fs : fs_t} {a offset length : Nat} (buffer : Nat → Nat)
    (hend : (fs.inodes a).data + offset + length ≤ 0x100000000) (b : Nat) :
    (filled fs a offset buffer length).memory b =
      if (fs.inodes a).data + offset ≤ b ∧ b < (fs.inodes a).data + offset + length then
        buffer (b - ((fs.inodes a).data + offset))
      else fs.memory b := by
  rw [← copy_apply hend, ← copy_u32]
  rfl

/-- The block of a file that grows holds what the file held, then zeros. -/
theorem grown_memory_apply {fs : fs_t} {a new_data offset length i : Nat}
    (hend : new_data + length ≤ 0x100000000) (hsize : (fs.inodes a).data_size ≤ length)
    (hoffset : offset ≤ length) (hi : i < max (fs.inodes a).data_size offset) :
    grown_memory fs a new_data offset (new_data + i) =
      if i < (fs.inodes a).data_size then fs.memory (u32 ((fs.inodes a).data + i)) else 0 := by
  have hold : copy fs.memory new_data (fun i => fs.memory (u32 ((fs.inodes a).data + i)))
      (fs.inodes a).data_size (new_data + i) =
      if i < (fs.inodes a).data_size then fs.memory (u32 ((fs.inodes a).data + i))
      else fs.memory (new_data + i) := by
    rw [copy_apply (by omega)]
    simp
  unfold grown_memory
  split
  · rw [copy_u32, copy_apply (by omega), hold]
    by_cases hs : i < (fs.inodes a).data_size
    · rw [if_neg (by omega), if_pos hs, if_pos hs]
    · rw [if_pos (by omega), if_neg hs]
  · rw [hold, if_pos (by omega), if_pos (by omega)]

theorem grown_memory_outside {fs : fs_t} {a new_data offset length b : Nat}
    (hend : new_data + length ≤ 0x100000000) (hsize : (fs.inodes a).data_size ≤ length)
    (hoffset : offset ≤ length) (hb : b < new_data ∨ new_data + length ≤ b) :
    grown_memory fs a new_data offset b = fs.memory b := by
  have hold : copy fs.memory new_data (fun i => fs.memory (u32 ((fs.inodes a).data + i)))
      (fs.inodes a).data_size b = fs.memory b := by
    rw [copy_apply (by omega), if_neg (by omega)]
  unfold grown_memory
  split
  · rw [copy_u32, copy_apply (by omega), if_neg (by omega), hold]
  · exact hold

/-- The bytes that a call writes. -/
def bytes_of (buffer : Nat → Nat) (length : Nat) : List Nat := (List.range length).map buffer

theorem length_bytes_of (buffer : Nat → Nat) (length : Nat) :
    (bytes_of buffer length).length = length := by
  simp [bytes_of]

theorem getD_bytes_of {buffer : Nat → Nat} {length i : Nat} (hi : i < length) :
    (bytes_of buffer length).getD i 0 = buffer i := by
  simp [bytes_of, List.getD_eq_getElem?_getD, hi]

/-- The contents of a file of whose memory only the bytes count. -/
theorem contents_congr {fs fs' : fs_t} {a : Nat} (hi : fs'.inodes a = fs.inodes a)
    (hend : (fs.inodes a).data + (fs.inodes a).data_size ≤ 0x100000000)
    (hm : ∀ b, (fs.inodes a).data ≤ b → b < (fs.inodes a).data + (fs.inodes a).data_size →
      fs'.memory b = fs.memory b) : contents fs' a = contents fs a := by
  unfold contents
  rw [hi]
  apply List.map_congr_left
  intro i hr
  have hlt := List.mem_range.mp hr
  rw [u32_of_lt (by omega)]
  exact hm _ (by omega) (by omega)

/-- The block of another file is apart from the block of this one. -/
theorem Stored.blocks_apart {fs : fs_t} (h : Stored fs) {b c : Nat × Nat}
    (hb : b ∈ fs.data_blocks) (hc : c ∈ fs.data_blocks) (hne : b.1 ≠ c.1) :
    b.1 + b.2 ≤ c.1 ∨ c.1 + c.2 ≤ b.1 := by
  have hsymm : Std.Symm fun b c : Nat × Nat => c.1 ≠ b.1 ∧ (b.1 + b.2 ≤ c.1 ∨ c.1 + c.2 ≤ b.1) :=
    ⟨fun b c hbc => ⟨hbc.1.symm, hbc.2.symm⟩⟩
  exact (h.apart.forall hb hc (fun he => hne (congrArg Prod.fst he))).2

theorem Stored.files_apart {fs : fs_t} (h : Stored fs) {a b : Nat} (ha : IsFile fs a)
    (hb : IsFile fs b) (hne : b ≠ a) (hsa : 0 < (fs.inodes a).data_size)
    (hsb : 0 < (fs.inodes b).data_size) :
    (fs.inodes a).data + (fs.inodes a).data_size ≤ (fs.inodes b).data ∨
      (fs.inodes b).data + (fs.inodes b).data_size ≤ (fs.inodes a).data := by
  have hda : (fs.inodes a).data ≠ 0 := fun hz => by simp [h.empty a ha hz] at hsa
  have hdb : (fs.inodes b).data ≠ 0 := fun hz => by simp [h.empty b hb hz] at hsb
  obtain ⟨la, hma, hla⟩ := h.block a ha hda
  obtain ⟨lb, hmb, hlb⟩ := h.block b hb hdb
  have hap := h.blocks_apart hma hmb fun he => hne (h.own b a hb ha he.symm hdb)
  dsimp only at hap
  omega

theorem overwrite_ext {s t bytes : List Nat} {offset : Nat}
    (hl : t.length = max s.length (offset + bytes.length))
    (h : ∀ i < t.length, t.getD i 0 =
      if offset ≤ i ∧ i < offset + bytes.length then bytes.getD (i - offset) 0 else s.getD i 0) :
    t = overwrite s offset bytes := by
  apply ext_getD
  · rw [length_overwrite, hl]
  · intro i hi
    rw [getD_overwrite, h i hi]

/-- A write inside a file. -/
theorem contents_filled {fs : fs_t} (h : Stored fs) {a offset length : Nat} (buffer : Nat → Nat)
    (ha : IsFile fs a) (hfit : offset + length ≤ (fs.inodes a).data_size) :
    contents (filled fs a offset buffer length) a =
      overwrite (contents fs a) offset (bytes_of buffer length) := by
  have hend := h.data_end ha
  apply overwrite_ext
  · rw [length_contents, length_contents, length_bytes_of, filled_inodes]
    omega
  · rw [length_contents, length_bytes_of, filled_inodes]
    intro i hi
    rw [getD_contents (by rwa [filled_inodes]), filled_inodes, u32_of_lt (by omega),
      filled_memory buffer (by omega)]
    split
    · rw [if_pos (by omega), getD_bytes_of (by omega)]
      congr 1
      omega
    · rw [if_neg (by omega), getD_contents hi, u32_of_lt (by omega)]

/-- A write inside a file leaves the other files. -/
theorem contents_filled_ne {fs : fs_t} (h : Stored fs) {a b offset length : Nat}
    (buffer : Nat → Nat) (ha : IsFile fs a) (hb : IsFile fs b) (hne : b ≠ a)
    (hfit : offset + length ≤ (fs.inodes a).data_size) :
    contents (filled fs a offset buffer length) b = contents fs b := by
  have hend := h.data_end ha
  refine contents_congr (by rw [filled_inodes]) (h.data_end hb) ?_
  intro c hc hc'
  rw [filled_memory buffer (by omega)]
  have hap := h.files_apart ha hb hne
  split
  · omega
  · rfl

/-! ## A file that grows -/

section grows

variable {fs : fs_t} {a offset required_size : Nat}

@[simp]
theorem grown_inode_self : (grown fs a offset required_size).inodes a =
    { fs.inodes a with data := fs.next_block, data_size := required_size } := by
  simp [grown]

theorem grown_inode_ne {b : Nat} (hne : b ≠ a) :
    (grown fs a offset required_size).inodes b = fs.inodes b := by
  simp [grown, hne]

theorem isFile_grown (offset b : Nat) :
    IsFile (grown fs a offset required_size) b ↔ IsFile fs b := by
  unfold IsFile
  by_cases hb : b = a
  · subst hb
    rw [grown_inode_self]
    rfl
  · rw [grown_inode_ne hb]
    rfl

/-- The rest of the blocks are those of the other files. -/
theorem mem_other_blocks {b : Nat × Nat} :
    b ∈ fs.data_blocks.filter (fun b => b.1 ≠ (fs.inodes a).data) ↔
      b ∈ fs.data_blocks ∧ b.1 ≠ (fs.inodes a).data := by
  simp

/-- Every file still has a block of its own when one grows into a block that is long enough. -/
theorem Stored.grown (h : Stored fs) (offset : Nat) (ha : IsFile fs a) (hg : Grows fs a required_size)
    (hl : required_size ≤ block_length required_size) :
    Stored (vfs.grown fs a offset required_size) := by
  obtain ⟨hs, hz, hend, hap⟩ := hg
  have hfresh : ∀ b, IsFile fs b → (fs.inodes b).data ≠ fs.next_block := by
    intro b hb he
    obtain ⟨length, hm, -⟩ := h.block b hb (he ▸ hz)
    exact (hap _ hm).1 he
  constructor
  · intro b hb
    rcases List.mem_cons.mp hb with rfl | hb
    · exact ⟨hz, hend⟩
    · exact h.inside b (mem_other_blocks.mp hb).1
  · refine List.pairwise_cons.mpr ⟨?_, h.apart.filter _⟩
    intro b hb
    exact hap b (mem_other_blocks.mp hb).1
  · intro b hb hd
    rw [isFile_grown] at hb
    by_cases hba : b = a
    · subst hba
      rw [grown_inode_self]
      exact ⟨_, List.mem_cons_self, hl⟩
    · rw [grown_inode_ne hba] at hd ⊢
      obtain ⟨length, hm, hlen⟩ := h.block b hb hd
      refine ⟨length, List.mem_cons_of_mem _ (mem_other_blocks.mpr ⟨hm, ?_⟩), hlen⟩
      exact fun he => hba (h.own b a hb ha he hd)
  · intro b hb hd
    rw [isFile_grown] at hb
    by_cases hba : b = a
    · subst hba
      rw [grown_inode_self] at hd
      exact absurd hd hz
    · rw [grown_inode_ne hba] at hd ⊢
      exact h.empty b hb hd
  · intro b c hb hc he hd
    rw [isFile_grown] at hb hc
    by_cases hba : b = a <;> by_cases hca : c = a
    · rw [hba, hca]
    · subst hba
      rw [grown_inode_self, grown_inode_ne hca] at he
      exact absurd he.symm (hfresh c hc)
    · subst hca
      rw [grown_inode_self, grown_inode_ne hba] at he
      exact absurd he (hfresh b hb)
    · rw [grown_inode_ne hba] at he hd
      rw [grown_inode_ne hca] at he
      exact h.own b c hb hc he hd

/-- A file that grows keeps its bytes, followed by zeros. -/
theorem contents_grown (hg : Grows fs a required_size)
    (hl : required_size ≤ block_length required_size) (ho : offset ≤ required_size) {i : Nat}
    (hi : i < max (fs.inodes a).data_size offset) :
    (contents (grown fs a offset required_size) a).getD i 0 = (contents fs a).getD i 0 := by
  obtain ⟨hs, hz, hend, hap⟩ := hg
  have hsize : ((grown fs a offset required_size).inodes a).data_size = required_size := by
    rw [grown_inode_self]
  rw [getD_contents (by omega), grown_inode_self, u32_of_lt (by dsimp only; omega)]
  show grown_memory fs a fs.next_block offset (fs.next_block + i) = _
  rw [grown_memory_apply hend (by omega) (by omega) hi]
  split
  · rw [getD_contents (by assumption)]
  · rw [List.getD_eq_getElem?_getD, List.getElem?_eq_none (by rw [length_contents]; omega)]
    rfl

theorem contents_grown_ne (h : Stored fs) (hg : Grows fs a required_size)
    (hl : required_size ≤ block_length required_size) (ho : offset ≤ required_size) {b : Nat}
    (hb : IsFile fs b) (hne : b ≠ a) :
    contents (grown fs a offset required_size) b = contents fs b := by
  obtain ⟨hs, hz, hend, hap⟩ := hg
  refine contents_congr (grown_inode_ne hne) (h.data_end hb) ?_
  intro c hc hc'
  refine grown_memory_outside hend (by omega) (by omega) ?_
  obtain ⟨length, hm, hlen⟩ := h.block b hb fun hz => by
    have := h.empty b hb hz
    omega
  have := (hap _ hm).2
  dsimp only at this
  omega

end grows

/-! ## Calls on files -/

theorem Stored.congr {fs fs' : fs_t} (h : Stored fs) (hi : fs'.inodes = fs.inodes)
    (hb : fs'.inode_blocks = fs.inode_blocks) (hd : fs'.data_blocks = fs.data_blocks) :
    Stored fs' := by
  have hf : ∀ a, IsFile fs' a → IsFile fs a := by
    intro a ha
    unfold IsFile at *
    rwa [hi, hb] at ha
  constructor
  · rw [hd]
    exact h.inside
  · rw [hd]
    exact h.apart
  · rw [hi, hd]
    exact fun a ha => h.block a (hf a ha)
  · rw [hi]
    exact fun a ha => h.empty a (hf a ha)
  · rw [hi]
    exact fun a b ha hb => h.own a b (hf a ha) (hf b hb)

/-- A write that is served gives the byte string that the string becomes, and no other file
changes. -/
theorem contents_write {fs fs' : fs_t} (h : Stored fs) {file offset length n : Nat}
    {buffer : Nat → Nat} {result : resource_result_t}
    (ha : IsFile fs (fs.nodes file).fs_data) (hlt : offset + length < 0x100000000)
    (hserved : (fs.inodes (fs.nodes file).fs_data).data_size < offset + length →
      fs.next_block ≠ 0 ∧ offset + length ≤ block_length (offset + length))
    (hw : ramfs_write fs file offset buffer length = .ok (fs', result, n)) :
    Stored fs' ∧ result = RESOURCE_RESULT_OK ∧ n = length ∧ fs'.nodes = fs.nodes ∧
      (∀ b, IsFile fs' b ↔ IsFile fs b) ∧
      contents fs' (fs.nodes file).fs_data =
        overwrite (contents fs (fs.nodes file).fs_data) offset (bytes_of buffer length) ∧
      ∀ b, IsFile fs b → b ≠ (fs.nodes file).fs_data → contents fs' b = contents fs b := by
  have hcases := ramfs_write_cases hw
  rw [u32_of_lt hlt] at hcases
  rcases hcases with ⟨hle, rfl, rfl, hn⟩ | ⟨⟨hs, hz⟩, -⟩ | ⟨hg, rfl, rfl, hn⟩
  · refine ⟨h.congr rfl rfl rfl, rfl, hn, rfl, isFile_filled _ _ _ _ _, ?_, ?_⟩
    · exact contents_filled h buffer ha hle
    · exact fun b hb hne => contents_filled_ne h buffer ha hb hne hle
  · exact absurd hz (hserved hs).1
  · have hl := (hserved hg.1).2
    have hgrown := h.grown offset ha hg hl
    have ha' : IsFile (grown fs (fs.nodes file).fs_data offset (offset + length))
        (fs.nodes file).fs_data := (isFile_grown offset _).mpr ha
    have hfit : offset + length ≤
        ((grown fs (fs.nodes file).fs_data offset (offset + length)).inodes
          (fs.nodes file).fs_data).data_size := by
      rw [grown_inode_self]
    refine ⟨hgrown.congr rfl rfl rfl, rfl, hn, rfl, ?_, ?_, ?_⟩
    · intro b
      rw [isFile_filled, isFile_grown]
    · rw [contents_filled hgrown buffer ha' hfit]
      apply overwrite_ext
      · rw [length_overwrite, length_contents, length_contents, length_bytes_of, grown_inode_self]
        have := hg.1
        dsimp only
        omega
      · rw [length_overwrite, length_contents, length_bytes_of, grown_inode_self]
        intro i hi
        rw [getD_overwrite, length_bytes_of]
        split
        · rfl
        · dsimp only at hi
          exact contents_grown hg hl (by omega) (by omega)
    · intro b hb hne
      rw [contents_filled_ne hgrown buffer ha' ((isFile_grown offset b).mpr hb) hne hfit]
      exact contents_grown_ne h hg hl (by omega) hb hne

/-- The file systems after `ramfs_truncate`. -/
def truncated (fs : fs_t) (a : Nat) : fs_t :=
  { fs with
    data_blocks := fs.data_blocks.filter fun b => b.1 ≠ (fs.inodes a).data
    inodes := Function.update fs.inodes a { fs.inodes a with data := 0, data_size := 0 } }

theorem ramfs_truncate_eq {fs fs' : fs_t} {file : Nat} (h : ramfs_truncate fs file = .ok fs') :
    fs' = truncated fs (fs.nodes file).fs_data := by
  unfold ramfs_truncate at h
  obtain ⟨f, hf, h⟩ := bind_ok.mp h
  obtain ⟨-, rfl⟩ := node_ok.mp hf
  obtain ⟨node, hnode, h⟩ := bind_ok.mp h
  obtain ⟨-, rfl⟩ := inode_ok.mp hnode
  cases h
  rfl

section truncated

variable {fs : fs_t} {a b : Nat}

@[simp]
theorem truncated_inode_self :
    (truncated fs a).inodes a = { fs.inodes a with data := 0, data_size := 0 } := by
  simp [truncated]

theorem truncated_inode_ne (hne : b ≠ a) : (truncated fs a).inodes b = fs.inodes b := by
  simp [truncated, hne]

theorem isFile_truncated : IsFile (truncated fs a) b ↔ IsFile fs b := by
  unfold IsFile
  by_cases hb : b = a
  · subst hb
    rw [truncated_inode_self]
    rfl
  · rw [truncated_inode_ne hb]
    rfl

theorem contents_truncated : contents (truncated fs a) a = [] := by
  simp [contents]

theorem contents_truncated_ne (hne : b ≠ a) : contents (truncated fs a) b = contents fs b := by
  unfold contents
  rw [truncated_inode_ne hne]
  rfl

theorem Stored.truncated (h : Stored fs) (ha : IsFile fs a) : Stored (vfs.truncated fs a) := by
  constructor
  · intro b hb
    exact h.inside b (mem_other_blocks.mp hb).1
  · exact h.apart.filter _
  · intro b hb hd
    rw [isFile_truncated] at hb
    by_cases hba : b = a
    · subst hba
      simp at hd
    · rw [truncated_inode_ne hba] at hd ⊢
      obtain ⟨length, hm, hlen⟩ := h.block b hb hd
      exact ⟨length, mem_other_blocks.mpr ⟨hm, fun he => hba (h.own b a hb ha he hd)⟩, hlen⟩
  · intro b hb hd
    rw [isFile_truncated] at hb
    by_cases hba : b = a
    · subst hba
      simp
    · rw [truncated_inode_ne hba] at hd ⊢
      exact h.empty b hb hd
  · intro b c hb hc he hd
    rw [isFile_truncated] at hb hc
    by_cases hba : b = a
    · subst hba
      simp at hd
    · by_cases hca : c = a
      · subst hca
        rw [he, truncated_inode_self] at hd
        simp at hd
      · rw [truncated_inode_ne hba] at he hd
        rw [truncated_inode_ne hca] at he
        exact h.own b c hb hc he hd

end truncated

/-- A read gives the bytes of its range. -/
theorem ramfs_read_eq {fs : fs_t} {file offset length : Nat} {bytes : List Nat}
    {result : resource_result_t} (h : ramfs_read fs file offset length = .ok (result, bytes)) :
    result = RESOURCE_RESULT_OK ∧
      bytes = slice (contents fs (fs.nodes file).fs_data) offset length := by
  unfold ramfs_read at h
  obtain ⟨f, hf, h⟩ := bind_ok.mp h
  obtain ⟨-, rfl⟩ := node_ok.mp hf
  obtain ⟨node, hnode, h⟩ := bind_ok.mp h
  obtain ⟨-, rfl⟩ := inode_ok.mp hnode
  have hlen := length_contents fs (fs.nodes file).fs_data
  split at h
  · cases h
    refine ⟨rfl, ?_⟩
    rw [slice, List.drop_eq_nil_of_le (by omega), List.take_nil]
  · cases h
    refine ⟨rfl, ?_⟩
    apply List.ext_getElem
    · simp only [slice, List.length_map, List.length_range, List.length_take, List.length_drop, hlen]
      split <;> omega
    · intro i hi hi'
      simp only [slice, contents, List.getElem_map, List.getElem_range, List.getElem_take,
        List.getElem_drop, Nat.add_assoc]

theorem ramfs_size_eq {fs : fs_t} {file n : Nat} (h : ramfs_size fs file = .ok n) :
    n = (contents fs (fs.nodes file).fs_data).length := by
  unfold ramfs_size at h
  obtain ⟨f, hf, h⟩ := bind_ok.mp h
  obtain ⟨-, rfl⟩ := node_ok.mp hf
  obtain ⟨node, hnode, h⟩ := bind_ok.mp h
  obtain ⟨-, rfl⟩ := inode_ok.mp hnode
  cases h
  rw [length_contents]

/-! ## Runs of calls -/

/-- A call on a file. -/
inductive FileCall where
  | write (offset : Nat) (buffer : Nat → Nat) (length : Nat)
  | read (offset length : Nat)
  | truncate
  | size

/-- What a caller sees of a call. -/
inductive FileAnswer where
  | written (length : Nat)
  | failed
  | bytes (bytes : List Nat)
  | truncated
  | size (size : Nat)
  deriving DecidableEq, Repr

/-- The call on the node `file` of the VFS. -/
def file_call (fs : fs_t) (file : Nat) : FileCall → Except fault_t (fs_t × FileAnswer)
  | .write offset buffer length => do
    let (fs, result, written_bytes) ← ramfs_write fs file offset buffer length
    return (fs, if result = RESOURCE_RESULT_OK then .written written_bytes else .failed)
  | .read offset length => do
    let (_, bytes) ← ramfs_read fs file offset length
    return (fs, .bytes bytes)
  | .truncate => do return (← ramfs_truncate fs file, .truncated)
  | .size => do return (fs, .size (← ramfs_size fs file))

/-- The range of the call ends inside the 32-bit sizes. -/
def FileCall.Bounded : FileCall → Prop
  | .write offset _ length => offset + length < 0x100000000
  | .read offset length => offset + length < 0x100000000
  | _ => True

/-- The kernel heap serves the request of the call, if it makes one: with a block that has the
bytes asked for. -/
def Served (fs : fs_t) (file : Nat) : FileCall → Prop
  | .write offset _ length =>
    (fs.inodes (fs.nodes file).fs_data).data_size < offset + length →
      fs.next_block ≠ 0 ∧ offset + length ≤ block_length (offset + length)
  | _ => True

/-- Calls one after another, each on some node of the VFS, with what they answer. -/
inductive FileRun : fs_t → List (Nat × FileCall) → List FileAnswer → fs_t → Prop
  | nil (fs : fs_t) : FileRun fs [] [] fs
  | cons {fs fs1 fs2 : fs_t} {file : Nat} {call : FileCall} {calls : List (Nat × FileCall)}
      {answer : FileAnswer} {answers : List FileAnswer} :
      Served fs file call → file_call fs file call = .ok (fs1, answer) →
      FileRun fs1 calls answers fs2 → FileRun fs ((file, call) :: calls) (answer :: answers) fs2

/-- The call on a byte string. -/
def byte_call (s : List Nat) : FileCall → List Nat × FileAnswer
  | .write offset buffer length => (overwrite s offset (bytes_of buffer length), .written length)
  | .read offset length => (s, .bytes (slice s offset length))
  | .truncate => ([], .truncated)
  | .size => (s, .size s.length)

/-- Calls one after another on byte strings with names. -/
def byte_run (files : Nat → List Nat) : List (Nat × FileCall) → (Nat → List Nat) × List FileAnswer
  | [] => (files, [])
  | (a, call) :: calls =>
    let (s, answer) := byte_call (files a) call
    let (files, answers) := byte_run (Function.update files a s) calls
    (files, answer :: answers)

/-- One call does to the file what it does to the byte string, and nothing to other files. -/
theorem file_call_refines {fs fs' : fs_t} (h : Stored fs) {file : Nat} {call : FileCall}
    {answer : FileAnswer} (ha : IsFile fs (fs.nodes file).fs_data) (hb : call.Bounded)
    (hs : Served fs file call) (hc : file_call fs file call = .ok (fs', answer)) :
    Stored fs' ∧ fs'.nodes = fs.nodes ∧ (∀ b, IsFile fs' b ↔ IsFile fs b) ∧
      byte_call (contents fs (fs.nodes file).fs_data) call =
        (contents fs' (fs.nodes file).fs_data, answer) ∧
      ∀ b, IsFile fs b → b ≠ (fs.nodes file).fs_data → contents fs' b = contents fs b := by
  cases call with
  | write offset buffer length =>
    obtain ⟨⟨fs1, result, n⟩, hw, hc⟩ := bind_ok.mp hc
    cases hc
    obtain ⟨h', rfl, rfl, hn, hf, hself, hother⟩ := contents_write h ha hb hs hw
    refine ⟨h', hn, hf, ?_, hother⟩
    rw [byte_call, hself]
    simp
  | read offset length =>
    obtain ⟨⟨result, bytes⟩, hr, hc⟩ := bind_ok.mp hc
    cases hc
    obtain ⟨-, rfl⟩ := ramfs_read_eq hr
    exact ⟨h, rfl, fun _ => Iff.rfl, rfl, fun _ _ _ => rfl⟩
  | truncate =>
    obtain ⟨fs1, ht, hc⟩ := bind_ok.mp hc
    cases hc
    obtain rfl := ramfs_truncate_eq ht
    refine ⟨h.truncated ha, rfl, fun _ => isFile_truncated, ?_, ?_⟩
    · rw [byte_call, contents_truncated]
    · exact fun b _ hne => contents_truncated_ne hne
  | size =>
    obtain ⟨n, hn, hc⟩ := bind_ok.mp hc
    cases hc
    obtain rfl := ramfs_size_eq hn
    exact ⟨h, rfl, fun _ => Iff.rfl, rfl, fun _ _ _ => rfl⟩

/-- A call on a file that is there returns, if the block that it asks for is one of the kernel heap. -/
theorem file_call_returns {fs : fs_t} {file : Nat} (hf : file ∈ fs.node_blocks)
    (ha : IsFile fs (fs.nodes file).fs_data) (call : FileCall)
    (hheap : ∀ n, fs.next_block ≠ 0 → DataBlock fs.data_blocks fs.next_block (block_length n)) :
    ∃ fs' answer, file_call fs file call = .ok (fs', answer) := by
  have hnode : fs.node file = .ok (fs.nodes file) := node_ok.mpr ⟨hf, rfl⟩
  have hinode : fs.inode (fs.nodes file).fs_data = .ok (fs.inodes (fs.nodes file).fs_data) :=
    inode_ok.mpr ⟨ha.1, rfl⟩
  cases call with
  | write offset buffer length =>
    simp only [file_call, ramfs_write, ramfs_grow, hnode, hinode, ok_bind, pure_eq_ok]
    by_cases hs : (fs.inodes (fs.nodes file).fs_data).data_size < u32 (offset + length)
    · by_cases hz : fs.next_block = 0
      · simp [hs, hz]
      · have hb : DataBlock fs.pop_block.data_blocks fs.next_block
            (block_length (u32 (offset + length))) := hheap _ hz
        simp [hs, hz, hb]
    · simp [hs]
  | read offset length =>
    simp only [file_call, ramfs_read, hnode, hinode, ok_bind, pure_eq_ok]
    split <;> simp
  | truncate => simp [file_call, ramfs_truncate, hnode, hinode]
  | size => simp [file_call, ramfs_size, hnode, hinode]

/-- The answers of a run depend on the strings of the files that it names only. -/
theorem byte_run_congr {files files' : Nat → List Nat} {P : Nat → Prop}
    {calls : List (Nat × FileCall)} (hc : ∀ c ∈ calls, P c.1)
    (h : ∀ a, P a → files a = files' a) :
    (byte_run files calls).2 = (byte_run files' calls).2 ∧
      ∀ a, P a → (byte_run files calls).1 a = (byte_run files' calls).1 a := by
  induction calls generalizing files files' with
  | nil => exact ⟨rfl, h⟩
  | cons c calls ih =>
    obtain ⟨a, call⟩ := c
    have ha : files a = files' a := h a (hc _ List.mem_cons_self)
    have hnext : ∀ b, P b → Function.update files a (byte_call (files a) call).1 b =
        Function.update files' a (byte_call (files' a) call).1 b := by
      intro b hb
      by_cases hba : b = a
      · subst hba
        simp [ha]
      · simp [hba, h b hb]
    obtain ⟨hans, hfiles⟩ := ih (fun c hm => hc c (List.mem_cons_of_mem _ hm)) hnext
    refine ⟨?_, hfiles⟩
    rw [ha] at hans
    simp only [byte_run, hans, ha]

/-- In every run of calls on files, through whatever nodes of the VFS, the files answer and end up
as byte strings do. -/
theorem files_are_byte_strings {fs fs' : fs_t} {calls : List (Nat × FileCall)}
    {answers : List FileAnswer} (h : Stored fs)
    (hf : ∀ c ∈ calls, IsFile fs (fs.nodes c.1).fs_data ∧ c.2.Bounded)
    (hrun : FileRun fs calls answers fs') :
    let names := calls.map fun c => ((fs.nodes c.1).fs_data, c.2)
    answers = (byte_run (contents fs) names).2 ∧
      ∀ a, IsFile fs a → contents fs' a = (byte_run (contents fs) names).1 a := by
  induction hrun with
  | nil fs => exact ⟨rfl, fun _ _ => rfl⟩
  | @cons fs fs1 fs2 file call calls answer answers hs hc _ ih =>
    obtain ⟨ha, hb⟩ := hf _ List.mem_cons_self
    obtain ⟨h1, hnodes, hfile, hself, hother⟩ := file_call_refines h ha hb hs hc
    have hrest : ∀ c ∈ calls, IsFile fs1 (fs1.nodes c.1).fs_data ∧ c.2.Bounded := by
      intro c hm
      rw [hnodes, hfile]
      exact hf c (List.mem_cons_of_mem _ hm)
    obtain ⟨hans, hcont⟩ := ih h1 hrest
    rw [hnodes] at hans hcont
    -- The strings of the files after the call are those of the byte strings.
    have hstep : ∀ a, IsFile fs a → contents fs1 a =
        Function.update (contents fs) (fs.nodes file).fs_data
          (byte_call (contents fs (fs.nodes file).fs_data) call).1 a := by
      intro a haf
      by_cases hne : a = (fs.nodes file).fs_data
      · subst hne
        simp [hself]
      · simp [hne, hother a haf hne]
    have hnames : ∀ c ∈ calls.map (fun c => ((fs.nodes c.1).fs_data, c.2)), IsFile fs c.1 := by
      intro c hm
      obtain ⟨d, hd, rfl⟩ := List.mem_map.mp hm
      exact (hf d (List.mem_cons_of_mem _ hd)).1
    obtain ⟨hanswers, hfiles⟩ := byte_run_congr hnames hstep
    refine ⟨?_, ?_⟩
    · rw [hans, hanswers, List.map_cons, byte_run, hself]
    · intro a haf
      rw [hcont a ((hfile a).mpr haf), hfiles a haf, List.map_cons, byte_run]

/-- A file system with one file, which has two nodes of the VFS, one for each of its names. -/
def one_file : fs_t :=
  { unmounted (fun _ => 0) (fun n => 4096 * (n + 1)) with
    nodes := fun _ => ⟨0, .ramfs, VFS_NODE_TYPE_FILE, RESOURCE_TYPE_FILE, 64, 0, 0, 2⟩
    node_blocks := {16, 32}
    inodes := fun _ => ⟨0, [], VFS_NODE_TYPE_FILE, 0, 0, 2⟩
    inode_blocks := {64} }

theorem stored_one_file : Stored one_file := by
  constructor
  · simp [one_file, unmounted]
  · simp [one_file, unmounted]
  · simp [one_file]
  · simp [one_file]
  · simp [one_file]

/-- Two bytes behind a hole, and what the other name reads. -/
theorem one_file_is_a_byte_string : ∃ fs', FileRun one_file
    [(16, .write 2 (fun i => i + 7) 2), (32, .read 1 9), (32, .size)]
    [.written 2, .bytes [0, 7, 8], .size 4] fs' ∧
    contents fs' 64 = [0, 0, 7, 8] := by
  have hrun : FileRun one_file [(16, .write 2 (fun i => i + 7) 2), (32, .read 1 9), (32, .size)]
      [.written 2, .bytes [0, 7, 8], .size 4]
      (filled (grown one_file 64 2 4) 64 2 (fun i => i + 7) 2) :=
    .cons (fun _ => by decide) rfl (.cons trivial rfl (.cons trivial rfl (.nil _)))
  have hfile : IsFile one_file 64 := by
    simp [IsFile, one_file]
  refine ⟨_, hrun, ?_⟩
  have hall := files_are_byte_strings stored_one_file (fun c hc => ?_) hrun
  · rw [hall.2 64 hfile]
    rfl
  · fin_cases hc
    · exact ⟨hfile, by norm_num [FileCall.Bounded]⟩
    · exact ⟨hfile, by norm_num [FileCall.Bounded]⟩
    · exact ⟨hfile, trivial⟩

end alura_os.vfs
