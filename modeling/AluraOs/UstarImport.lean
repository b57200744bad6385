-- The import of a well-formed archive: the tree of the ramfs has the members of the archive at their
-- paths, the files with their bytes, and nothing else but the directories above them.
import AluraOs.FileContents
import AluraOs.RamfsTree
import AluraOs.UstarArchive

namespace alura_os.ustar

open alura_os.memory alura_os.vfs faults
open vfs_node_type ramfs_result_t

variable {fs fs' : fs_t} {root tar_data tar_size p : Nat} {m : member_t} {members : List member_t}

/-! ## Well-formed archives -/

/-- The members have paths that are distinct, files are not above other members, and a directory has
at most 64 names. -/
structure WellFormed (members : List member_t) : Prop where
  named : ∀ m ∈ members, Named m
  distinct : (members.map member_t.path).Nodup
  leaves : ∀ f ∈ members, f.type = VFS_NODE_TYPE_FILE → ∀ m ∈ members, f.path <+: m.path →
    f.path = m.path
  room : ∀ (q names : List (List Char)), names.Nodup →
    (∀ n ∈ names, ∃ m ∈ members, q ++ [n] <+: m.path) → names.length ≤ RAMFS_NODE_MAX_CHILDREN

/-- The fields of all members are terminated. -/
def AllTerminated (memory : Nat → Nat) : Nat → List member_t → Prop
  | _, [] => True
  | p, m :: members =>
    Terminated memory p m ∧ AllTerminated memory (p + TAR_BLOCK_SIZE + m.rounded) members

/-- What the tree has at a path. -/
def tree (members : List member_t) (q : List (List Char)) : Option vfs_node_type :=
  if ∃ m ∈ members, m.type = VFS_NODE_TYPE_FILE ∧ m.path = q then some VFS_NODE_TYPE_FILE
  else if q = [] ∨ ∃ m ∈ members, q <+: m.path then some VFS_NODE_TYPE_DIRECTORY
  else none

/-- The tree below `root` is that of the members. -/
structure Faithful (fs : fs_t) (root : Nat) (members : List member_t) : Prop where
  files : ∀ m ∈ members, m.type = VFS_NODE_TYPE_FILE →
    ∃ a, At fs root m.path a ∧ (fs.inodes a).type = VFS_NODE_TYPE_FILE ∧ contents fs a = m.data
  directories : ∀ m ∈ members, m.type = VFS_NODE_TYPE_DIRECTORY →
    ∃ a, At fs root m.path a ∧ (fs.inodes a).type = VFS_NODE_TYPE_DIRECTORY
  parents : ∀ m ∈ members, ∀ q, q <+: m.path → q ≠ m.path →
    ∃ a, At fs root q a ∧ (fs.inodes a).type = VFS_NODE_TYPE_DIRECTORY
  others : ∀ q a, At fs root q a → q = [] ∨ ∃ m ∈ members, q <+: m.path
  names : ∀ q a, At fs root q a → ((fs.inodes a).children.map ramfs_dirent_t.name).Nodup

/-! ## Paths of members -/

theorem Named.path_text (h : Named m) : ∃ rest, tar_path m.full_name = '/' :: rest ∧
    m.full_name = '.' :: '/' :: rest := by
  obtain ⟨rest, hrest⟩ := h.dotted
  exact ⟨rest, by simp [tar_path, hrest], hrest⟩

/-- A file is not passed over, and its path has a last name. -/
theorem Named.file_path (h : Named m) (ht : m.type = VFS_NODE_TYPE_FILE) :
    ¬ (tar_path m.full_name = [] ∨ tar_path m.full_name = ['/']) ∧
      m.path = directories (tar_path m.full_name) ++ [last_name (tar_path m.full_name)] := by
  obtain ⟨rest, hpath, hfull⟩ := h.path_text
  have hlast : (tar_path m.full_name).getLast? ≠ some '/' := by
    have := h.file ht
    rw [hfull, List.getLast?_cons_cons] at this
    rwa [hpath]
  have hne : tar_path m.full_name ≠ [] := by simp [hpath]
  refine ⟨?_, components_path hne hlast⟩
  rintro (hc | hc)
  · exact hne hc
  · rw [hc] at hlast
    simp at hlast

/-- The path that is made for a directory, unless it is the root. -/
theorem Named.directory_path (h : Named m) (ht : m.type = VFS_NODE_TYPE_DIRECTORY)
    (hne : tar_path m.full_name ≠ ['/']) :
    let path := if (tar_path m.full_name).getLast? = some '/' then (tar_path m.full_name).dropLast
      else tar_path m.full_name
    m.path = directories path ++ [last_name path] := by
  obtain ⟨rest, hpath, hfull⟩ := h.path_text
  have hdouble : ¬ ['/', '/'] <:+ tar_path m.full_name := by
    intro hs
    apply (h.directory ht).1
    rw [hfull, ← hpath]
    exact hs.trans (List.suffix_cons _ _)
  unfold member_t.path
  generalize tar_path m.full_name = path at hpath hdouble hne ⊢
  intro cut
  by_cases hlast : path.getLast? = some '/'
  · have hcut : cut = path.dropLast := if_pos hlast
    have hsplit : path = path.dropLast ++ ['/'] :=
      (List.dropLast_append_getLast? '/' hlast).symm
    rw [hcut]
    have hnil : path.dropLast ≠ [] := by
      intro hz
      rw [hz] at hsplit
      exact hne hsplit
    have hlast' : path.dropLast.getLast? ≠ some '/' := by
      intro hl
      apply hdouble
      rw [hsplit, ← List.dropLast_append_getLast? '/' hl]
      exact ⟨path.dropLast.dropLast, by simp⟩
    rw [← components_path hnil hlast']
    have := components_append_slash [] path.dropLast []
    rw [← hsplit] at this
    rw [this]
    simp [components]
  · have hcut : cut = path := if_neg hlast
    rw [hcut]
    exact components_path (by simp [hpath]) hlast

/-! ## Trees of members -/

variable {done rest : List member_t}

theorem WellFormed.ne_path (h : WellFormed (done ++ m :: rest)) {f : member_t} (hf : f ∈ done) :
    f.path ≠ m.path := by
  have hd := h.distinct
  rw [List.map_append, List.map_cons, List.nodup_append] at hd
  exact hd.2.2 f.path (List.mem_map_of_mem hf) m.path (by simp)

/-- A member more: its path, and those above it that were not there. -/
theorem WellFormed.tree_append (h : WellFormed (done ++ m :: rest))
    {directory : List (List Char)} {name : List Char} (hpath : m.path = directory ++ [name])
    (q : List (List Char)) :
    tree (done ++ [m]) q = (tree done q).or
      (if q = directory ++ [name] then some m.type
      else if q <+: directory then some VFS_NODE_TYPE_DIRECTORY else none) := by
  have hm : m ∈ done ++ m :: rest := by simp
  have hin : ∀ f ∈ done, f ∈ done ++ m :: rest := fun f hf => List.mem_append_left _ hf
  rw [← hpath]
  have habove : q <+: directory ↔ q <+: m.path ∧ q ≠ m.path := by
    rw [hpath, List.prefix_concat_iff]
    constructor
    · intro hq
      refine ⟨Or.inr hq, ?_⟩
      rintro rfl
      have := hq.length_le
      simp at this
    · rintro ⟨he | hq, hne⟩
      · exact absurd he hne
      · exact hq
  have hfile : (∃ f ∈ done ++ [m], f.type = VFS_NODE_TYPE_FILE ∧ f.path = q) ↔
      (∃ f ∈ done, f.type = VFS_NODE_TYPE_FILE ∧ f.path = q) ∨
        m.type = VFS_NODE_TYPE_FILE ∧ m.path = q := by
    simp only [List.mem_append, List.mem_singleton]
    constructor
    · rintro ⟨f, hf | rfl, hq⟩
      · exact Or.inl ⟨f, hf, hq⟩
      · exact Or.inr hq
    · rintro (⟨f, hf, hq⟩ | hq)
      · exact ⟨f, Or.inl hf, hq⟩
      · exact ⟨m, Or.inr rfl, hq⟩
  have hdirectory : (∃ f ∈ done ++ [m], q <+: f.path) ↔
      (∃ f ∈ done, q <+: f.path) ∨ q <+: m.path := by
    simp only [List.mem_append, List.mem_singleton]
    constructor
    · rintro ⟨f, hf | rfl, hq⟩
      · exact Or.inl ⟨f, hf, hq⟩
      · exact Or.inr hq
    · rintro (⟨f, hf, hq⟩ | hq)
      · exact ⟨f, Or.inl hf, hq⟩
      · exact ⟨m, Or.inr rfl, hq⟩
  -- Nothing was at the path of a file.
  have hfree : q = m.path → m.type = VFS_NODE_TYPE_FILE →
      ¬ (q = [] ∨ ∃ f ∈ done, q <+: f.path) := by
    rintro hq ht (hnil | ⟨f, hf, hpre⟩)
    · rw [hq, hpath] at hnil
      simp at hnil
    · rw [hq] at hpre
      exact h.ne_path hf (h.leaves m hm ht f (hin f hf) hpre).symm
  have hself : q = m.path → q <+: m.path := by
    rintro rfl
    exact List.prefix_rfl
  unfold tree
  simp only [hfile, hdirectory, habove, ← or_assoc, eq_comm (a := m.path)]
  by_cases h1 : ∃ f ∈ done, f.type = VFS_NODE_TYPE_FILE ∧ f.path = q
  · simp only [h1, true_or, if_true, Option.some_or]
  · by_cases h2 : q = m.path
    · cases ht : m.type with
      | VFS_NODE_TYPE_FILE =>
        simp only [h1, hfree h2 ht, if_pos h2, false_or, true_and, if_false, Option.none_or]
      | VFS_NODE_TYPE_DIRECTORY =>
        have hkind : ¬ (VFS_NODE_TYPE_DIRECTORY = VFS_NODE_TYPE_FILE ∧ q = m.path) := by simp
        by_cases h3 : q = [] ∨ ∃ f ∈ done, q <+: f.path
        · simp only [h1, h3, hkind, or_self, true_or, if_true, if_false, Option.some_or]
        · simp only [h1, h3, hkind, hself h2, or_self, or_true, if_true, if_false, if_pos h2,
            Option.none_or]
    · by_cases h3 : q = [] ∨ ∃ f ∈ done, q <+: f.path
      · simp only [h1, h2, h3, and_false, or_false, true_or, if_true, if_false, Option.some_or]
      · simp only [h1, h2, h3, and_false, or_false, false_or, if_false, ne_eq, not_false_eq_true,
          and_true, Option.none_or]

/-! ## Data -/

/-- The data of a node was set, in a block of its own. -/
structure Copied (fs fs' : fs_t) (node : Nat) (data : List Nat) : Prop where
  entries : ∀ a, (fs'.inodes a).children = (fs.inodes a).children ∧
    (fs'.inodes a).type = (fs.inodes a).type
  others : ∀ a, a ≠ node → fs'.inodes a = fs.inodes a
  inode_blocks : fs'.inode_blocks = fs.inode_blocks
  linked : Linked fs'
  heap : HeapServes fs'
  kept : ∀ b ∈ fs.data_blocks, b ∈ fs'.data_blocks
  fits : ∀ b ∈ fs'.data_blocks, b ∈ fs.data_blocks ∨ b.1 + b.2 ≤ 0x100000000
  memory : ∀ b ∈ fs.data_blocks, ∀ a, b.1 ≤ a → a < b.1 + b.2 → fs'.memory a = fs.memory a
  contents : contents fs' node = data
  block : data ≠ [] →
    ∃ length, ((fs'.inodes node).data, length) ∈ fs'.data_blocks ∧ data.length ≤ length

theorem linked_of_eq (h : Linked fs) (hh : fs'.heap = fs.heap) (hn : fs'.node_blocks = fs.node_blocks)
    (hb : fs'.inode_blocks = fs.inode_blocks)
    (hc : ∀ a, (fs'.inodes a).children = (fs.inodes a).children) : Linked fs' := by
  constructor
  · unfold fs_t.Unused
    rw [hh, hn, hb]
    exact h.unused
  · rw [hh]
    exact h.distinct
  · intro a ha e he
    rw [hb] at ha ⊢
    rw [hc] at he
    exact h.targets a ha e he

/-- The ramfs after the data of a node was copied. -/
def with_data (fs : fs_t) (node : Nat) (data : List Nat) : fs_t :=
  { fs.pop_block with
    memory := copy fs.memory fs.next_block (fun k => data.getD k 0) data.length
    data_blocks := (fs.next_block, block_length data.length) :: fs.data_blocks }.setInode node
      { fs.inodes node with data := fs.next_block, data_size := data.length }

/-- A node that keeps its entries and its type. -/
theorem entries_of_update {node : Nat} {i : ramfs_node_t}
    (h : fs'.inodes = Function.update fs.inodes node i)
    (hi : i.children = (fs.inodes node).children ∧ i.type = (fs.inodes node).type) (a : Nat) :
    (fs'.inodes a).children = (fs.inodes a).children ∧
      (fs'.inodes a).type = (fs.inodes a).type := by
  rw [h]
  by_cases ha : a = node
  · subst ha
    simpa using hi
  · simp [ha]

theorem copied_with_data {node : Nat} {data : List Nat} (hl : Linked fs) (hs : HeapServes fs)
    (hblock : DataBlock fs.data_blocks fs.next_block (block_length data.length))
    (hlen : data.length ≤ block_length data.length) :
    Copied fs (with_data fs node data) node data := by
  obtain ⟨hend, hapart⟩ := hblock
  have hentries : ∀ a, ((with_data fs node data).inodes a).children = (fs.inodes a).children ∧
      ((with_data fs node data).inodes a).type = (fs.inodes a).type :=
    entries_of_update rfl ⟨rfl, rfl⟩
  have hself : (with_data fs node data).inodes node =
      { fs.inodes node with data := fs.next_block, data_size := data.length } := by
    simp [with_data, fs_t.setInode]
  have hmemory : ∀ a, (with_data fs node data).memory a =
      if fs.next_block ≤ a ∧ a < fs.next_block + data.length then data.getD (a - fs.next_block) 0
      else fs.memory a := by
    intro a
    have hin : fs.next_block + data.length ≤ 0x100000000 := by omega
    exact @copy_apply fs.memory (fun k => data.getD k 0) fs.next_block data.length hin a
  constructor
  · exact hentries
  · intro a ha
    simp [with_data, fs_t.setInode, fs_t.pop_block, ha]
  · rfl
  · exact linked_of_eq hl.pop rfl rfl rfl fun a => (hentries a).1
  · exact hs.pop
  · exact fun b hb => List.mem_cons_of_mem _ hb
  · intro b hb
    rcases List.mem_cons.mp hb with rfl | hb
    · exact Or.inr hend
    · exact Or.inl hb
  · intro b hb a hlo hhi
    rw [hmemory, if_neg]
    have := (hapart b hb).2
    omega
  · unfold contents
    rw [hself]
    dsimp only
    apply List.ext_getElem
    · simp
    · intro i hi hi'
      rw [List.length_map, List.length_range] at hi
      rw [List.getElem_map, List.getElem_range, u32_of_lt (by omega), hmemory,
        if_pos (by omega), Nat.add_sub_cancel_left, List.getD_eq_getElem?_getD,
        List.getElem?_eq_getElem hi, Option.getD_some]
  · intro _
    rw [hself]
    exact ⟨block_length data.length, List.mem_cons_self, hlen⟩

theorem tar_copy_data_spec {node : Nat} {data : List Nat} (hl : Linked fs) (hs : HeapServes fs)
    (hn : node ∈ fs.inode_blocks) (hdata : data.length + 8 ≤ 0x100000000) :
    Post (· = .taken) (fun fs' => Copied fs fs' node data) (tar_copy_data fs node data) := by
  have hi : fs.inode node = .ok (fs.inodes node) := inode_ok.mpr ⟨hn, rfl⟩
  unfold tar_copy_data
  rw [hi, ok_bind]
  by_cases hz : data.length = 0
  · rw [if_pos hz]
    have hnil : data = [] := List.length_eq_zero_iff.mp hz
    have hentries : ∀ a,
        ((fs.setInode node { fs.inodes node with data_size := 0 }).inodes a).children =
          (fs.inodes a).children ∧
        ((fs.setInode node { fs.inodes node with data_size := 0 }).inodes a).type =
          (fs.inodes a).type := entries_of_update rfl ⟨rfl, rfl⟩
    constructor
    · exact hentries
    · intro a ha
      simp [fs_t.setInode, ha]
    · rfl
    · exact linked_of_eq hl rfl rfl rfl fun a => (hentries a).1
    · exact hs
    · exact fun b hb => hb
    · exact fun b hb => Or.inl hb
    · exact fun b _ a _ _ => rfl
    · rw [hnil]
      simp [vfs.contents, fs_t.setInode]
    · exact fun hne => absurd hnil hne
  · rw [if_neg hz]
    have hnext : fs.next_block ≠ 0 := hs.next
    by_cases hblock : DataBlock fs.data_blocks fs.next_block (block_length data.length)
    · have hblock' : DataBlock fs.pop_block.data_blocks fs.next_block (block_length data.length) :=
        hblock
      simp only [hnext, hblock', not_true_eq_false, if_false]
      exact copied_with_data hl hs hblock (le_block_length (by omega))
    · have hblock' : ¬ DataBlock fs.pop_block.data_blocks fs.next_block (block_length data.length) :=
        hblock
      simp only [hnext, hblock', not_false_eq_true, if_true, if_false]
      rfl

/-! ## What the loop keeps -/

/-- The tree is that of the members before, and the archive in `memory` is as it was. -/
structure Built (memory : Nat → Nat) (tar_data tar_size : Nat) (fs : fs_t) (root : Nat)
    (done : List member_t) : Prop where
  rooted : Rooted fs root
  kinds : ∀ q, kind fs root q = tree done q
  files : ∀ m ∈ done, m.type = VFS_NODE_TYPE_FILE → ∀ a, At fs root m.path a →
    contents fs a = m.data ∧
      (m.data ≠ [] → ∃ length, ((fs.inodes a).data, length) ∈ fs.data_blocks ∧
        m.data.length ≤ length)
  fits : ∀ b ∈ fs.data_blocks, b.1 + b.2 ≤ 0x100000000
  archive : ∃ length, (tar_data, length) ∈ fs.data_blocks ∧ tar_size ≤ length
  same : ∀ a, tar_data ≤ a → a < tar_data + tar_size → fs.memory a = memory a

variable {memory : Nat → Nat}

/-- A file whose block was not written has the bytes that it had. -/
theorem contents_kept {a : Nat} {data : List Nat} (hc : contents fs a = data)
    (hblock : data ≠ [] → ∃ length, ((fs.inodes a).data, length) ∈ fs.data_blocks ∧
      data.length ≤ length)
    (hfits : ∀ b ∈ fs.data_blocks, b.1 + b.2 ≤ 0x100000000)
    (hdata : (fs'.inodes a).data = (fs.inodes a).data)
    (hsize : (fs'.inodes a).data_size = (fs.inodes a).data_size)
    (hmemory : ∀ b ∈ fs.data_blocks, ∀ x, b.1 ≤ x → x < b.1 + b.2 → fs'.memory x = fs.memory x) :
    contents fs' a = data := by
  have hlen : (fs.inodes a).data_size = data.length := by
    rw [← hc]
    exact (length_contents fs a).symm
  rw [← hc]
  unfold contents
  rw [hdata, hsize]
  apply List.map_congr_left
  intro i hi
  rw [List.mem_range, hlen] at hi
  obtain ⟨length, hmem, hle⟩ := hblock (List.ne_nil_of_length_pos (by omega))
  have hend := hfits _ hmem
  dsimp only at hend
  rw [u32_of_lt (by omega)]
  exact hmemory _ hmem _ (by dsimp only; omega) (by dsimp only; omega)

/-- New nodes and entries keep what does not depend on the tree. -/
theorem Built.gains (h : Built memory tar_data tar_size fs root done) (hg : Gains fs fs')
    {m : member_t} (hm : m ∈ done) (ht : m.type = VFS_NODE_TYPE_FILE) {a : Nat}
    (ha : At fs' root m.path a) :
    At fs root m.path a ∧ contents fs' a = m.data ∧
      (m.data ≠ [] → ∃ length, ((fs'.inodes a).data, length) ∈ fs'.data_blocks ∧
        m.data.length ≤ length) := by
  have hkind : kind fs root m.path = some VFS_NODE_TYPE_FILE := by
    rw [h.kinds]
    exact if_pos ⟨m, hm, ht, rfl⟩
  obtain ⟨b, hb, -⟩ := kind_some.mp hkind
  have hb' : At fs' root m.path b := hg.walk h.rooted.linked h.rooted.heap h.rooted.live hb
  obtain rfl := hb'.eq ha
  obtain ⟨hmemory, hblocks, hfiles⟩ := hg.files h.rooted.linked h.rooted.heap
  obtain ⟨hdata, hsize⟩ := hfiles b (hb.live h.rooted.linked h.rooted.live)
  obtain ⟨hc, hblock⟩ := h.files m hm ht b hb
  refine ⟨hb, ?_, ?_⟩
  · exact contents_kept hc hblock h.fits hdata hsize fun _ _ x _ _ => by rw [hmemory]
  · rw [hdata, hblocks]
    exact hblock

theorem Copied.at_iff {node : Nat} {data : List Nat} (h : Copied fs fs' node data)
    {q : List (List Char)} {a : Nat} : At fs' root q a ↔ At fs root q a := by
  unfold At
  rw [walk_entries fun a => (h.entries a).1]

theorem Copied.rooted {node : Nat} {data : List Nat} (h : Copied fs fs' node data)
    (hr : Rooted fs root) : Rooted fs' root := by
  constructor
  · exact h.linked
  · exact h.heap
  · rw [h.inode_blocks]
    exact hr.live
  · intro a ha
    rw [h.inode_blocks] at ha
    rw [(h.entries a).1]
    exact hr.names a ha
  · intro q q' a hq hq'
    exact hr.unique q q' a (h.at_iff.mp hq) (h.at_iff.mp hq')

theorem Copied.kind_eq {node : Nat} {data : List Nat} (h : Copied fs fs' node data)
    (q : List (List Char)) : kind fs' root q = kind fs root q := by
  unfold kind
  rw [walk_entries fun a => (h.entries a).1, (h.entries _).2]

/-- A directory more. -/
theorem Built.directory (h : Built memory tar_data tar_size fs root done) (hg : Gains fs fs')
    (hr : Rooted fs' root) (hkinds : ∀ q, kind fs' root q = tree (done ++ [m]) q)
    (ht : m.type = VFS_NODE_TYPE_DIRECTORY) :
    Built memory tar_data tar_size fs' root (done ++ [m]) := by
  obtain ⟨hmemory, hblocks, -⟩ := hg.files h.rooted.linked h.rooted.heap
  constructor
  · exact hr
  · exact hkinds
  · intro f hf htf a ha
    rcases List.mem_append.mp hf with hf | hf
    · exact (h.gains hg hf htf ha).2
    · rw [List.mem_singleton.mp hf, ht] at htf
      cases htf
  · rw [hblocks]
    exact h.fits
  · rw [hblocks]
    exact h.archive
  · rw [hmemory]
    exact h.same

/-- A file more, with its data. -/
theorem Built.file (h : Built memory tar_data tar_size fs root done)
    (hwf : WellFormed (done ++ m :: rest)) {fs1 : fs_t} (hg : Gains fs fs1) (hr : Rooted fs1 root)
    (hkinds : ∀ q, kind fs1 root q = tree (done ++ [m]) q) {node : Nat}
    (hnode : At fs1 root m.path node) (hc : Copied fs1 fs' node m.data) :
    Built memory tar_data tar_size fs' root (done ++ [m]) := by
  obtain ⟨hmemory, hblocks, -⟩ := hg.files h.rooted.linked h.rooted.heap
  have hfits1 : ∀ b ∈ fs1.data_blocks, b.1 + b.2 ≤ 0x100000000 := by
    rw [hblocks]
    exact h.fits
  obtain ⟨length, hmem, hle⟩ := h.archive
  rw [← hblocks] at hmem
  constructor
  · exact hc.rooted hr
  · intro q
    rw [hc.kind_eq, hkinds]
  · intro f hf htf a ha
    have ha1 := hc.at_iff.mp ha
    rcases List.mem_append.mp hf with hf | hf
    · obtain ⟨-, hcontents, hblock⟩ := h.gains hg hf htf ha1
      have hne : a ≠ node := by
        rintro rfl
        exact hwf.ne_path hf (hr.unique _ _ _ ha1 hnode)
      have hsame := hc.others a hne
      refine ⟨contents_kept hcontents hblock hfits1 (by rw [hsame]) (by rw [hsame]) hc.memory, ?_⟩
      intro hdata
      obtain ⟨length, hmem, hle⟩ := hblock hdata
      rw [hsame]
      exact ⟨length, hc.kept _ hmem, hle⟩
    · obtain rfl := List.mem_singleton.mp hf
      obtain rfl := ha1.eq hnode
      exact ⟨hc.contents, hc.block⟩
  · intro b hb
    exact (hc.fits b hb).elim (hfits1 b) id
  · exact ⟨length, hc.kept _ hmem, hle⟩
  · intro a hlo hhi
    rw [hc.memory _ hmem a hlo (by dsimp only; omega), hmemory]
    exact h.same a hlo hhi

theorem tree_above {q : List (List Char)} (h : tree members q ≠ none) :
    q = [] ∨ ∃ m ∈ members, q <+: m.path := by
  unfold tree at h
  split at h
  · rename_i hfile
    obtain ⟨m, hm, -, rfl⟩ := hfile
    exact Or.inr ⟨m, hm, List.prefix_rfl⟩
  · split at h
    · assumption
    · exact absurd rfl h

/-- The root is in the tree already. -/
theorem tree_append_root (hpath : m.path = []) (ht : m.type = VFS_NODE_TYPE_DIRECTORY)
    (q : List (List Char)) : tree (done ++ [m]) q = tree done q := by
  have hfile : (∃ f ∈ done ++ [m], f.type = VFS_NODE_TYPE_FILE ∧ f.path = q) ↔
      ∃ f ∈ done, f.type = VFS_NODE_TYPE_FILE ∧ f.path = q := by
    simp [or_and_right, exists_or, ht]
  have hdirectory : (q = [] ∨ ∃ f ∈ done ++ [m], q <+: f.path) ↔
      q = [] ∨ ∃ f ∈ done, q <+: f.path := by
    by_cases hq : q = []
    · simp [hq]
    · simp [or_and_right, exists_or, hpath, hq]
  unfold tree
  simp only [hfile, hdirectory]

/-- The path of the next member finds room. -/
theorem Built.hasRoom (h : Built memory tar_data tar_size fs root done)
    (hwf : WellFormed (done ++ m :: rest)) : HasRoom fs root m.path := by
  refine h.rooted.hasRoom (P := fun q => q = [] ∨ ∃ f ∈ done ++ m :: rest, q <+: f.path) ?_ ?_ ?_
  · intro q hq
    rw [h.kinds] at hq
    exact (tree_above hq).imp_right fun ⟨f, hf, hpre⟩ => ⟨f, List.mem_append_left _ hf, hpre⟩
  · intro q names hnodup hnames
    refine hwf.room q names hnodup fun n hn => (hnames n hn).resolve_left (by simp)
  · exact fun q hq => Or.inr ⟨m, by simp, hq⟩

/-- What a turn makes of a member that is read as it is written. -/
theorem Built.member (h : Built memory tar_data tar_size fs root done)
    (hwf : WellFormed (done ++ m :: rest)) (hend : tar_data + tar_size < 0x100000000) (data : Nat)
    (hlow : tar_data ≤ data) (hpast : 8 ≤ data) (hhigh : data + m.data.length ≤ tar_data + tar_size)
    (hbytes : Bytes memory data m.data) :
    Post (· = .fs .taken) (fun fs' => Built memory tar_data tar_size fs' root (done ++ [m]))
      (tar_member root fs ⟨m.data.length, m.type, m.full_name⟩ data).2 := by
  have hnamed := hwf.named m (by simp)
  have hroom := h.hasRoom hwf
  unfold tar_member
  dsimp only
  cases ht : m.type with
  | VFS_NODE_TYPE_DIRECTORY =>
    obtain ⟨text, htext, -⟩ := hnamed.path_text
    by_cases hroot : tar_path m.full_name = ['/']
    · -- The root is there already.
      rw [if_pos (Or.inr hroot)]
      have hpath : m.path = [] := by
        unfold member_t.path
        rw [hroot]
        rfl
      refine h.directory .refl h.rooted (fun q => ?_) ht
      rw [h.kinds, tree_append_root hpath ht]
    · have hskip : ¬ (tar_path m.full_name = [] ∨ tar_path m.full_name = ['/']) := by
        rintro (hc | hc)
        · simp [htext] at hc
        · exact hroot hc
      have hpath := hnamed.directory_path ht hroot
      rw [if_neg hskip]
      dsimp only at hpath ⊢
      rw [hpath] at hroom
      obtain ⟨fs', a, heq, hg, hr, -, hkinds⟩ :=
        h.rooted.create_path hroom VFS_NODE_TYPE_DIRECTORY
      rw [heq]
      refine h.directory hg hr (fun q => ?_) ht
      rw [hkinds q, h.kinds q, hwf.tree_append hpath q, ht]
  | VFS_NODE_TYPE_FILE =>
    obtain ⟨hskip, hpath⟩ := hnamed.file_path ht
    rw [if_neg hskip]
    dsimp only
    rw [hpath] at hroom
    obtain ⟨fs1, node, heq, hg, hr, hnode, hkinds⟩ := h.rooted.create_path hroom VFS_NODE_TYPE_FILE
    rw [heq]
    dsimp only
    obtain ⟨hmemory, -⟩ := hg.files h.rooted.linked h.rooted.heap
    have hdata : (addresses data m.data.length).map fs1.memory = m.data := by
      apply List.ext_getElem
      · simp [addresses]
      · intro i hi hi'
        have hbyte := hbytes i hi'
        rw [List.getD_eq_getElem?_getD, List.getElem?_eq_getElem hi', Option.getD_some] at hbyte
        simp only [addresses, List.map_map, List.getElem_map, List.getElem_range,
          Function.comp_apply]
        rw [u32_of_lt (by omega), hmemory, h.same _ (by omega) (by omega), hbyte]
    rw [hdata]
    have hspec := tar_copy_data_spec hr.linked hr.heap (hnode.live hr.linked hr.live)
      (show m.data.length + 8 ≤ 0x100000000 by omega)
    cases hcopy : tar_copy_data fs1 node m.data with
    | error f =>
      rw [hcopy] at hspec
      exact congrArg tar_fault_t.fs hspec
    | ok fs' =>
      rw [hcopy] at hspec
      rw [← hpath] at hnode
      refine h.file hwf hg hr (fun q => ?_) hnode hspec
      rw [hkinds q, h.kinds q, hwf.tree_append hpath q, ht]

/-! ## The loop -/

section

variable {memory' : Nat → Nat}

theorem Bytes.same {a : Nat} {bytes : List Nat} (h : Bytes memory a bytes)
    (hs : ∀ x, a ≤ x → x < a + bytes.length → memory' x = memory x) : Bytes memory' a bytes := by
  intro i hi
  rw [hs (a + i) (by omega) (by omega)]
  exact h i hi

theorem Field.same {a length : Nat} {text : List Nat} (h : Field memory a length text)
    (hs : ∀ x, a ≤ x → x < a + length → memory' x = memory x) : Field memory' a length text := by
  have hfits := h.fits
  refine ⟨hfits, h.chars.same fun x hlo hhi => hs x hlo (by omega), ?_⟩
  intro hlt
  rw [hs _ (by omega) (by omega)]
  exact h.stop hlt

theorem Octal.same {a length n : Nat} (h : Octal memory a length n)
    (hs : ∀ x, a ≤ x → x < a + length → memory' x = memory x) : Octal memory' a length n := by
  obtain ⟨digits, hlen, hdigits, hvalue, hchars, hstop⟩ := h
  refine ⟨digits, hlen, hdigits, hvalue, hchars.same ?_, ?_⟩
  · intro x hlo hhi
    rw [List.length_map] at hhi
    exact hs x hlo (by omega)
  · intro hlt
    rw [hs _ (by omega) (by omega)]
    exact hstop hlt

/-- A header in memory that is as it was. -/
theorem Header.same (h : Header memory p m)
    (hs : ∀ x, p ≤ x → x < p + TAR_BLOCK_SIZE → memory' x = memory x) : Header memory' p m := by
  unfold TAR_BLOCK_SIZE at hs
  constructor
  · exact h.name.same fun x hlo hhi => hs x hlo (by unfold NAME_LENGTH at hhi; omega)
  · refine h.filename_prefix.same fun x hlo hhi => hs x (by omega) ?_
    unfold FILENAME_PREFIX_OFFSET FILENAME_PREFIX_LENGTH at hhi
    omega
  · refine h.size.same fun x hlo hhi => hs x (by omega) ?_
    unfold SIZE_OFFSET SIZE_LENGTH at hhi
    omega
  · rw [hs _ (by omega) (by unfold TYPE_OFFSET; omega)]
    exact h.type

theorem Terminated.same (h : Terminated memory p m)
    (hs : ∀ x, p ≤ x → x < p + TAR_BLOCK_SIZE → memory' x = memory x) : Terminated memory' p m := by
  unfold TAR_BLOCK_SIZE at hs
  unfold Terminated
  rw [hs (p + NAME_LENGTH) (by omega) (by unfold NAME_LENGTH; omega),
    hs (p + FILENAME_PREFIX_OFFSET + FILENAME_PREFIX_LENGTH) (by omega)
      (by unfold FILENAME_PREFIX_OFFSET FILENAME_PREFIX_LENGTH; omega)]
  exact h

end

/-- The step over a member leads to the next header. -/
theorem next_header_member (h : p + TAR_BLOCK_SIZE + m.rounded < 0x100000000) :
    next_header p m.data.length = p + TAR_BLOCK_SIZE + m.rounded := by
  have hround : m.data.length ≤ m.rounded ∧ m.rounded ≤ m.data.length + 511 := by
    unfold member_t.rounded TAR_BLOCK_SIZE
    omega
  unfold TAR_BLOCK_SIZE at h
  have hlength : data_length m.data.length = m.rounded := by
    unfold data_length
    rw [u32_of_lt (n := m.data.length + TAR_BLOCK_SIZE - 1) (by unfold TAR_BLOCK_SIZE; omega)]
    exact u32_of_lt (by unfold member_t.rounded at h; omega)
  unfold next_header
  rw [hlength, u32_of_lt (n := p + TAR_BLOCK_SIZE) (by unfold TAR_BLOCK_SIZE; omega),
    u32_of_lt (by unfold TAR_BLOCK_SIZE; omega)]

/-- The loop builds the tree of the members that are left. -/
theorem Built.loop (hend : tar_data + tar_size < 0x100000000)
    (ha : Archive memory (tar_data + tar_size) p members) (hp : tar_data ≤ p)
    (ht : AllTerminated memory p members) (hwf : WellFormed (done ++ members))
    (h : Built memory tar_data tar_size fs root done) :
    ∃ r, tar_loop root (tar_data + tar_size) (members.length + 1) fs p = some r ∧
      Post (· = .fs .taken) (fun fs' => Built memory tar_data tar_size fs' root (done ++ members)) r := by
  induction ha generalizing fs done with
  | @zero p hin hzero =>
    have hpast : ¬ tar_data + tar_size < u32 (p + TAR_BLOCK_SIZE) := by
      rw [u32_of_lt (by omega)]
      omega
    have hblock : (tar_is_zero_block p TAR_BLOCK_SIZE fs.memory).1 = true := by
      rw [zero_block_iff]
      intro i hi
      rw [u32_of_lt (by omega), h.same _ (by omega) (by omega)]
      exact hzero i hi
    refine ⟨.ok fs, ?_, ?_⟩
    · rw [tar_loop, turn_zero hpast hblock]
    · rw [List.append_nil]
      exact h
  | @member p m members hin hheader hbytes _ ih =>
    have hnamed := hwf.named m (by simp)
    have hround : m.data.length ≤ m.rounded := by
      unfold member_t.rounded TAR_BLOCK_SIZE
      omega
    have hsame : ∀ x, p ≤ x → x < p + TAR_BLOCK_SIZE → fs.memory x = memory x :=
      fun x hlo hhi => h.same x (by omega) (by omega)
    have hheader' := hheader.same hsame
    have hpast : ¬ tar_data + tar_size < u32 (p + TAR_BLOCK_SIZE) := by
      rw [u32_of_lt (by omega)]
      omega
    have hread := tar_header_read hheader' hnamed (ht.1.same hsame) (by omega) (by omega)
    have hsize : size_at fs p = m.data.length := by
      rw [← tar_header_size, hread]
    have hmember := h.member hwf hend (p + TAR_BLOCK_SIZE) (by omega)
      (by unfold TAR_BLOCK_SIZE; omega) (by omega) hbytes
    have hdata : u32 (p + TAR_BLOCK_SIZE) = p + TAR_BLOCK_SIZE := u32_of_lt (by omega)
    rw [List.length_cons, tar_loop,
      turn_member hpast (header_not_zero hheader' hnamed (by omega))]
    unfold member_at
    rw [hread, hdata, hsize, next_header_member (by omega)]
    cases hr : (tar_member root fs ⟨m.data.length, m.type, m.full_name⟩ (p + TAR_BLOCK_SIZE)).2 with
    | error f =>
      rw [hr] at hmember
      exact ⟨.error f, rfl, hmember⟩
    | ok fs1 =>
      rw [hr] at hmember
      have hwf' : WellFormed ((done ++ [m]) ++ members) := by simpa using hwf
      obtain ⟨r, hloop, hpost⟩ := ih (by omega) ht.2 hwf' hmember
      refine ⟨r, hloop, ?_⟩
      simpa using hpost

/-! ## The import -/

/-- An archive lies in a block of the kernel heap, and the ramfs has no nodes yet. -/
structure Loaded (fs : fs_t) (tar_data tar_size : Nat) : Prop where
  linked : Linked fs
  heap : HeapServes fs
  empty : fs.inode_blocks = ∅
  fits : ∀ b ∈ fs.data_blocks, b.1 + b.2 ≤ 0x100000000
  archive : ∃ length, (tar_data, length) ∈ fs.data_blocks ∧ tar_size ≤ length
  last : tar_data + tar_size < 0x100000000

/-- The root alone is the tree of no members. -/
theorem Loaded.built (h : Loaded fs tar_data tar_size) :
    Built fs.memory tar_data tar_size (with_node fs VFS_NODE_TYPE_DIRECTORY 0 9) fs.next_block [] := by
  have hat : ∀ q a, At (with_node fs VFS_NODE_TYPE_DIRECTORY 0 9) fs.next_block q a →
      q = [] ∧ a = fs.next_block := by
    intro q a ha
    cases q with
    | nil => exact ⟨rfl, (at_nil.mp ha).symm⟩
    | cons token q =>
      unfold At at ha
      rw [walk_none (by simp [ramfs_node_t.child])] at ha
      simp at ha
  constructor
  · constructor
    · exact h.linked.with_node h.heap.next _ _ _
    · exact h.heap.pop
    · exact Finset.mem_insert_self _ _
    · intro a ha
      rw [with_node_blocks, h.empty, Finset.mem_insert] at ha
      obtain rfl := ha.resolve_right (by simp)
      simp
    · intro q q' a hq hq'
      rw [(hat q a hq).1, (hat q' a hq').1]
  · intro q
    cases hk : kind (with_node fs VFS_NODE_TYPE_DIRECTORY 0 9) fs.next_block q with
    | none =>
      have hne : q ≠ [] := by
        rintro rfl
        exact kind_none.mp hk fs.next_block (at_nil.mpr rfl)
      simp [tree, hne]
    | some t =>
      obtain ⟨a, ha, rfl⟩ := kind_some.mp hk
      obtain ⟨rfl, rfl⟩ := hat q a ha
      simp [tree]
  · simp
  · exact h.fits
  · exact h.archive
  · exact fun _ _ _ => rfl

theorem Built.faithful (h : Built memory tar_data tar_size fs root members)
    (hwf : WellFormed members) : Faithful fs root members := by
  have hdirectory : ∀ q, (∃ m ∈ members, q <+: m.path) →
      (∀ f ∈ members, f.type = VFS_NODE_TYPE_FILE → f.path ≠ q) →
      ∃ a, At fs root q a ∧ (fs.inodes a).type = VFS_NODE_TYPE_DIRECTORY := by
    intro q habove hfree
    apply kind_some.mp
    have hfile : ¬ ∃ m ∈ members, m.type = VFS_NODE_TYPE_FILE ∧ m.path = q :=
      fun ⟨f, hf, ht, hq⟩ => hfree f hf ht hq
    rw [h.kinds]
    unfold tree
    rw [if_neg hfile, if_pos (Or.inr habove)]
  constructor
  · intro m hm ht
    have hkind : kind fs root m.path = some VFS_NODE_TYPE_FILE := by
      rw [h.kinds]
      exact if_pos ⟨m, hm, ht, rfl⟩
    obtain ⟨a, ha, htype⟩ := kind_some.mp hkind
    exact ⟨a, ha, htype, (h.files m hm ht a ha).1⟩
  · intro m hm ht
    refine hdirectory m.path ⟨m, hm, List.prefix_rfl⟩ ?_
    intro f hf htf hpath
    obtain rfl := List.inj_on_of_nodup_map hwf.distinct hf hm hpath
    rw [ht] at htf
    cases htf
  · intro m hm q hq hne
    refine hdirectory q ⟨m, hm, hq⟩ ?_
    rintro f hf htf rfl
    exact hne (hwf.leaves f hf htf m hm hq)
  · intro q a ha
    apply tree_above
    rw [← h.kinds, Ne, kind_none]
    exact fun hnone => hnone a ha
  · exact fun q a ha => h.rooted.names a (ha.live h.rooted.linked h.rooted.live)

/-- The tree of a well-formed archive is that of its members, if the fields `name` and
`filename_prefix` of each are terminated; else the kernel heap gave a block that was in use. -/
theorem the_import_is_faithful (hload : Loaded fs tar_data tar_size) (hwf : WellFormed members)
    (harchive : Archive fs.memory (tar_data + tar_size) tar_data members)
    (hterminated : AllTerminated fs.memory tar_data members) :
    ∃ r, tar_create_ramfs_node (members.length + 1) fs tar_data tar_size = some r ∧
      Post (· = .fs .taken) (fun x => Faithful x.1 x.2 members) r := by
  have hwf' : WellFormed ([] ++ members) := hwf
  obtain ⟨r, hloop, hpost⟩ :=
    Built.loop hload.last harchive (Nat.le_refl _) hterminated hwf' hload.built
  unfold tar_create_ramfs_node
  rw [ramfs_create_node_eq hload.linked hload.heap.next, u32_of_lt hload.last]
  simp only [ne_eq, not_true_eq_false, if_false, hloop, Option.map_some]
  refine ⟨_, rfl, ?_⟩
  cases r with
  | error f => exact hpost
  | ok fs' => exact Built.faithful hpost hwf

/-! ### Archives at 4096 -/

-- The bytes of a header are those of a member without a prefix.
theorem header_of_bytes (size : List Nat) (type : Nat) (hlen : m.name.length ≤ NAME_LENGTH)
    (hpre : m.filename_prefix = []) (hsize : size.length = 11)
    (hdigits : ∀ d ∈ size, 48 ≤ d ∧ d < 56)
    (hvalue : size.foldl (fun v d => v * 8 + (d - 48)) 0 = m.data.length)
    (htype : type = 53 ↔ m.type = VFS_NODE_TYPE_DIRECTORY)
    (hbytes : ∀ i < TAR_BLOCK_SIZE, memory (p + i) = header_byte m.name size type i) :
    Header memory p m := by
  have hname : ∀ i < NAME_LENGTH, memory (p + i) = m.name.getD i 0 := by
    unfold NAME_LENGTH
    intro i hi
    rw [hbytes i (by unfold TAR_BLOCK_SIZE; omega), header_byte, if_pos hi]
  have hfield : ∀ i < 11, memory (p + SIZE_OFFSET + i) = size.getD i 0 := by
    unfold SIZE_OFFSET
    intro i hi
    rw [Nat.add_assoc, hbytes _ (by unfold TAR_BLOCK_SIZE; omega), header_byte, if_neg (by omega),
      if_neg (by omega), if_pos (by omega), Nat.add_sub_cancel_left]
  have hrest : ∀ i, 135 ≤ i → i < TAR_BLOCK_SIZE → i ≠ 156 → memory (p + i) = 0 := by
    intro i hi hlt hne
    rw [hbytes i hlt, header_byte, if_neg (by omega), if_neg (by omega), if_neg (by omega),
      if_neg hne]
  constructor
  · refine ⟨hlen, fun i hi => hname i (by omega), fun hlt => ?_⟩
    rw [hname _ hlt]
    simp
  · rw [hpre]
    refine ⟨Nat.zero_le _, fun i hi => absurd hi (Nat.not_lt_zero i), fun _ => ?_⟩
    exact hrest FILENAME_PREFIX_OFFSET (by decide) (by decide) (by decide)
  · have hmap : (size.map (· - 48)).map (48 + ·) = size := by
      rw [List.map_map]
      refine (List.map_congr_left fun d hd => ?_).trans (List.map_id size)
      have hdigit := hdigits d hd
      simp only [Function.comp_apply, id_eq]
      omega
    refine ⟨size.map (· - 48), ?_, ?_, ?_, ?_, ?_⟩
    · rw [List.length_map, hsize]
      decide
    · intro d hd
      obtain ⟨c, hc, rfl⟩ := List.mem_map.mp hd
      have := hdigits c hc
      omega
    · rw [List.foldl_map]
      exact hvalue
    · rw [hmap]
      exact fun i hi => hfield i (hsize ▸ hi)
    · intro _
      rw [List.length_map, hsize]
      left
      have hstop := hrest (SIZE_OFFSET + 11) (by decide) (by decide) (by decide)
      rw [Nat.add_assoc, hstop]
      decide
  · have hbyte : memory (p + TYPE_OFFSET) = type := by
      rw [hbytes _ (by decide)]
      rfl
    rw [hbyte]
    exact htype

/-- As many members as a directory has room for are never too many. -/
theorem room_of_length {members : List member_t} (h : members.length ≤ RAMFS_NODE_MAX_CHILDREN)
    (q names : List (List Char)) (hnodup : names.Nodup)
    (hnames : ∀ n ∈ names, ∃ m ∈ members, q ++ [n] <+: m.path) :
    names.length ≤ RAMFS_NODE_MAX_CHILDREN := by
  have hsub : names ⊆ members.filterMap fun m => m.path[q.length]? := by
    intro n hn
    obtain ⟨m, hm, rest, hrest⟩ := hnames n hn
    refine List.mem_filterMap.mpr ⟨m, hm, ?_⟩
    rw [← hrest]
    simp
  calc names.length
      ≤ (members.filterMap fun m => m.path[q.length]?).length :=
        (List.subperm_of_subset hnodup hsub).length_le
    _ ≤ members.length := List.length_filterMap_le _ _
    _ ≤ RAMFS_NODE_MAX_CHILDREN := h

/-- The heap that gives a block at every multiple of eight, with an archive in a block. -/
theorem loaded_eights (memory : Nat → Nat) {length : Nat} (h : 4096 + length < 0x100000000) :
    Loaded { unmounted memory eights with data_blocks := [(4096, length)] } 4096 length := by
  have hlinked := linked_eights memory
  constructor
  · exact ⟨hlinked.unused, hlinked.distinct, hlinked.targets⟩
  · intro n
    have hpos : 0 < eights n := by
      unfold eights
      omega
    exact hpos.ne'
  · rfl
  · simp
    omega
  · exact ⟨length, by simp, Nat.le_refl _⟩
  · exact h

/-! ### A file in a directory -/

def small_members : List member_t :=
  [⟨directory_name, [], VFS_NODE_TYPE_DIRECTORY, []⟩, ⟨file_name, [], VFS_NODE_TYPE_FILE, [104, 105]⟩]

theorem archive_small : Archive small_archive (4096 + 2048) 4096 small_members := by
  refine .member (by decide) ?_ (fun i hi => absurd hi (Nat.not_lt_zero i)) ?_
  · refine header_of_bytes (List.replicate 11 48) 53 (by decide) rfl (by decide) (by decide)
      (by decide) (by decide) ?_
    unfold TAR_BLOCK_SIZE
    intro i hi
    rw [small_archive, if_pos (by omega), Nat.add_sub_cancel_left]
  refine .member (by decide) ?_ ?_ (.zero (by decide) ?_)
  · change Header small_archive 4608 _
    refine header_of_bytes (List.replicate 10 48 ++ [50]) 48 (by decide) rfl (by decide) (by decide)
      (by decide) (by decide) ?_
    unfold TAR_BLOCK_SIZE
    intro i hi
    rw [small_archive, if_neg (by omega), if_pos (by omega), Nat.add_sub_cancel_left]
  · change Bytes small_archive 5120 [104, 105]
    intro i _
    rw [small_archive, if_neg (by omega), if_neg (by omega), Nat.add_sub_cancel_left]
  · change ∀ i < TAR_BLOCK_SIZE, small_archive (5632 + i) = 0
    intro i _
    have hpast : [104, 105][5632 + i - 5120]? = none := List.getElem?_eq_none (by
      simp only [List.length_cons, List.length_nil]
      omega)
    rw [small_archive, if_neg (by omega), if_neg (by omega), List.getD_eq_getElem?_getD, hpast]
    rfl

theorem wellFormed_small : WellFormed small_members := by
  constructor
  · intro m hm
    simp only [small_members, List.mem_cons, List.not_mem_nil, or_false] at hm
    rcases hm with rfl | rfl
    · exact ⟨⟨['d', '/'], by decide⟩, by decide, by decide, (fun h => by cases h), fun _ => by decide⟩
    · exact ⟨⟨['d', '/', 'f'], by decide⟩, by decide, by decide, fun _ => by decide,
        fun h => by cases h⟩
  · decide
  · decide
  · exact room_of_length (by decide)

/-- The directory `d` and the file `d/f` with its two bytes are in the tree. -/
theorem a_file_in_a_directory_is_imported :
    ∃ r, tar_create_ramfs_node 3 small_fs 4096 2048 = some r ∧
      Post (· = .fs .taken) (fun x => Faithful x.1 x.2 small_members) r :=
  the_import_is_faithful (loaded_eights _ (by decide)) wellFormed_small archive_small
    ⟨⟨Or.inl (by decide), Or.inl (by decide)⟩, ⟨Or.inl (by decide), Or.inl (by decide)⟩, trivial⟩

/-! ### A name of a hundred bytes -/

/-- The empty file with a name. -/
def one_file (name : List Nat) : member_t := ⟨name, [], VFS_NODE_TYPE_FILE, []⟩

def one_file_memory (name : List Nat) (a : Nat) : Nat :=
  if a < 4608 then header_byte name (List.replicate 11 48) 48 (a - 4096) else 0

def one_file_fs (name : List Nat) : fs_t :=
  { unmounted (one_file_memory name) eights with data_blocks := [(4096, 1024)] }

theorem archive_one_file {name : List Nat} (hlen : name.length ≤ NAME_LENGTH) :
    Archive (one_file_memory name) (4096 + 1024) 4096 [one_file name] := by
  have hrounded : (one_file name).rounded = 0 := by simp [member_t.rounded, one_file, TAR_BLOCK_SIZE]
  refine .member (by rw [hrounded]; decide) ?_ (fun i hi => absurd hi (Nat.not_lt_zero i)) ?_
  · refine header_of_bytes (List.replicate 11 48) 48 hlen rfl (by decide) (by decide) rfl
      (by simp [one_file]) ?_
    unfold TAR_BLOCK_SIZE
    intro i hi
    rw [one_file_memory, if_pos (by omega), Nat.add_sub_cancel_left]
    rfl
  · rw [hrounded]
    refine .zero (by decide) fun i _ => ?_
    unfold TAR_BLOCK_SIZE
    rw [one_file_memory, if_neg (by omega)]

/-- `./aa…a` -/
def full_name : List Nat := 46 :: 47 :: List.replicate 98 97

theorem named_full : Named (one_file full_name) :=
  ⟨⟨List.replicate 98 'a', by decide +kernel⟩, by decide, by decide +kernel, fun _ => by decide +kernel,
    fun h => by cases h⟩

theorem wellFormed_full : WellFormed [one_file full_name] := by
  constructor
  · intro m hm
    rw [List.mem_singleton.mp hm]
    exact named_full
  · simp
  · intro f hf _ g hg _
    rw [List.mem_singleton.mp hf, List.mem_singleton.mp hg]
  · exact room_of_length (by simp [RAMFS_NODE_MAX_CHILDREN])

/-- No path of the tree is that of the file. -/
theorem full_name_is_lost :
    (match tar_create_ramfs_node 2 (one_file_fs full_name) 4096 1024 with
      | some (.ok x) => decide ((walk x.1 x.2 (one_file full_name).path).2 = [])
      | _ => true) = false := by
  decide +kernel

/-- The mode of the file becomes a part of its name. -/
theorem a_full_name_runs_on :
    WellFormed [one_file full_name] ∧ Loaded (one_file_fs full_name) 4096 1024 ∧
      Archive (one_file_memory full_name) (4096 + 1024) 4096 [one_file full_name] ∧
      ¬ ∃ r, tar_create_ramfs_node 2 (one_file_fs full_name) 4096 1024 = some r ∧
        Post (· = .fs .taken) (fun x => Faithful x.1 x.2 [one_file full_name]) r := by
  refine ⟨wellFormed_full, loaded_eights _ (by decide), archive_one_file (by decide), ?_⟩
  rintro ⟨r, hr, hpost⟩
  have hlost := full_name_is_lost
  rw [hr] at hlost
  cases r with
  | error f => cases hlost
  | ok x =>
    obtain ⟨a, ha, -⟩ := hpost.files (one_file full_name) List.mem_cons_self rfl
    unfold At at ha
    simp [ha] at hlost

end alura_os.ustar
