-- The paths of the ramfs while the initrd is imported: what `ramfs_create_path` finds, what it makes,
-- and when it is refused.
import AluraOs.FsCache

namespace alura_os.vfs

open alura_os.memory faults
open vfs_node_type ramfs_result_t

variable {fs fs' : fs_t} {root current : Nat}

/-! ## The invariant -/

/-- The kernel heap gives blocks that are not in use, and entries lead to nodes that are there. -/
structure Linked (fs : fs_t) : Prop where
  unused : ∀ n, fs.heap n ≠ 0 → fs.Unused (fs.heap n)
  distinct : ∀ m n, fs.heap m ≠ 0 → fs.heap m = fs.heap n → m = n
  targets : ∀ a ∈ fs.inode_blocks, ∀ e ∈ (fs.inodes a).children, e.node ∈ fs.inode_blocks

theorem linked_unmounted {memory heap : Nat → Nat}
    (h : ∀ m n, heap m ≠ 0 → heap m = heap n → m = n) : Linked (unmounted memory heap) := by
  constructor
  · simp [unmounted, fs_t.Unused]
  · exact h
  · simp [unmounted]

theorem Linked.pop (h : Linked fs) : Linked fs.pop_block := by
  constructor
  · exact fun n => h.unused (n + 1)
  · intro m n hm he
    have := h.distinct (m + 1) (n + 1) hm he
    omega
  · exact h.targets

/-- A node keeps its entries, or gets one for a node that is there. -/
theorem Linked.setInode (h : Linked fs) {i : ramfs_node_t}
    (hi : ∀ e ∈ i.children, e.node ∈ fs.inode_blocks) (a : Nat) : Linked (fs.setInode a i) := by
  constructor
  · exact h.unused
  · exact h.distinct
  · intro b hb e he
    by_cases hba : b = a
    · subst hba
      simp only [fs_t.setInode, Function.update_self] at he
      exact hi e he
    · simp only [fs_t.setInode, Function.update_of_ne hba] at he
      exact h.targets b hb e he

/-! ## New nodes -/

/-- The ramfs with the new node of `ramfs_create_node`. -/
def with_node (fs : fs_t) (type : vfs_node_type) (data data_size : Nat) : fs_t :=
  { fs.pop_block with
    inode_blocks := insert fs.next_block fs.inode_blocks
    inodes := Function.update fs.inodes fs.next_block ⟨fs.last_index, [], type, data, data_size, 1⟩
    last_index := fs.last_index + 1 }

theorem ramfs_create_node_none (h : fs.next_block = 0) (type : vfs_node_type) (data data_size : Nat) :
    ramfs_create_node fs type data data_size = .ok (fs.pop_block, RAMFS_RESULT_ERROR, 0) := by
  simp [ramfs_create_node, h]

theorem ramfs_create_node_eq (hl : Linked fs) (h : fs.next_block ≠ 0) (type : vfs_node_type)
    (data data_size : Nat) :
    ramfs_create_node fs type data data_size =
      .ok (with_node fs type data data_size, RAMFS_RESULT_OK, fs.next_block) := by
  have hunused : fs.Unused fs.next_block := hl.unused 0 h
  simp [ramfs_create_node, h, hunused, with_node, fs_t.pop_block]

@[simp]
theorem with_node_heap (type : vfs_node_type) (data data_size : Nat) :
    (with_node fs type data data_size).heap = fun n => fs.heap (n + 1) := rfl

@[simp]
theorem with_node_blocks (type : vfs_node_type) (data data_size : Nat) :
    (with_node fs type data data_size).inode_blocks = insert fs.next_block fs.inode_blocks := rfl

@[simp]
theorem with_node_self (type : vfs_node_type) (data data_size : Nat) :
    (with_node fs type data data_size).inodes fs.next_block =
      ⟨fs.last_index, [], type, data, data_size, 1⟩ := by
  simp [with_node]

theorem with_node_ne {a : Nat} (h : a ≠ fs.next_block) (type : vfs_node_type) (data data_size : Nat) :
    (with_node fs type data data_size).inodes a = fs.inodes a := by
  simp [with_node, h]

theorem Linked.ne_next (h : Linked fs) (hn : fs.next_block ≠ 0) {a : Nat}
    (ha : a ∈ fs.inode_blocks) : a ≠ fs.next_block := by
  rintro rfl
  exact (h.unused 0 hn).2 ha

theorem Linked.with_node (h : Linked fs) (hn : fs.next_block ≠ 0) (type : vfs_node_type)
    (data data_size : Nat) : Linked (with_node fs type data data_size) := by
  constructor
  · intro n hn'
    refine ⟨(h.unused (n + 1) hn').1, ?_⟩
    rw [with_node_blocks, Finset.mem_insert]
    rintro (he | hm)
    · have := h.distinct (n + 1) 0 hn' he
      omega
    · exact (h.unused (n + 1) hn').2 hm
  · intro m n hm he
    have := h.distinct (m + 1) (n + 1) hm he
    omega
  · intro a ha e he
    rw [with_node_blocks, Finset.mem_insert] at ha ⊢
    rcases ha with rfl | ha
    · simp at he
    · rw [with_node_ne (h.ne_next hn ha)] at he
      exact Or.inr (h.targets a ha e he)

/-! ## New entries -/

/-- The ramfs with the new entry of `ramfs_add_child`. -/
def with_child (fs : fs_t) (parent : Nat) (name : List Char) (child : Nat) : fs_t :=
  fs.pop_block.setInode parent
    { fs.inodes parent with children := (fs.inodes parent).children ++ [⟨name, child⟩] }

/-- `ramfs_add_child`: a directory that is full, no block for the name, or a new entry. -/
theorem ramfs_add_child_eq {parent : Nat} (hp : parent ∈ fs.inode_blocks) (name : List Char)
    (child : Nat) :
    ramfs_add_child fs parent name child =
      if RAMFS_NODE_MAX_CHILDREN ≤ (fs.inodes parent).children.length then
        .ok (fs, RAMFS_RESULT_MAX_CHILDREN)
      else if fs.next_block = 0 then .ok (fs.pop_block, RAMFS_RESULT_ERROR)
      else .ok (with_child fs parent name child, RAMFS_RESULT_OK) := by
  have hi : fs.inode parent = .ok (fs.inodes parent) := inode_ok.mpr ⟨hp, rfl⟩
  unfold ramfs_add_child
  rw [hi, ok_bind]
  by_cases hroom : RAMFS_NODE_MAX_CHILDREN ≤ (fs.inodes parent).children.length
  · simp [hroom]
  · by_cases hn : fs.next_block = 0
    · simp [hroom, hn]
    · simp [hroom, hn, with_child]

theorem Linked.with_child (h : Linked fs) {parent child : Nat} (hp : parent ∈ fs.inode_blocks)
    (hc : child ∈ fs.inode_blocks) (name : List Char) :
    Linked (with_child fs parent name child) := by
  apply h.pop.setInode
  intro e he
  rcases List.mem_append.mp he with he | he
  · exact h.targets parent hp e he
  · rw [List.mem_singleton.mp he]
    exact hc

@[simp]
theorem with_child_heap (parent : Nat) (name : List Char) (child : Nat) :
    (with_child fs parent name child).heap = fun n => fs.heap (n + 1) := rfl

@[simp]
theorem with_child_blocks (parent : Nat) (name : List Char) (child : Nat) :
    (with_child fs parent name child).inode_blocks = fs.inode_blocks := rfl

theorem with_child_self (parent : Nat) (name : List Char) (child : Nat) :
    (with_child fs parent name child).inodes parent =
      { fs.inodes parent with children := (fs.inodes parent).children ++ [⟨name, child⟩] } := by
  simp [with_child, fs_t.setInode]

theorem with_child_ne {a parent : Nat} (h : a ≠ parent) (name : List Char) (child : Nat) :
    (with_child fs parent name child).inodes a = fs.inodes a := by
  simp [with_child, fs_t.setInode, fs_t.pop_block, h]

theorem ramfs_find_child_eq {parent : Nat} (hp : parent ∈ fs.inode_blocks) (name : List Char) :
    ramfs_find_child fs parent name =
      .ok (((fs.inodes parent).child name).map ramfs_dirent_t.node) := by
  have hi : fs.inode parent = .ok (fs.inodes parent) := inode_ok.mpr ⟨hp, rfl⟩
  unfold ramfs_find_child
  rw [hi, ok_bind]
  rfl

theorem child_mem {i : ramfs_node_t} {name : List Char} {e : ramfs_dirent_t}
    (h : i.child name = some e) : e ∈ i.children ∧ e.name = name := by
  unfold ramfs_node_t.child at h
  exact ⟨List.mem_of_find?_eq_some h, by simpa using List.find?_some h⟩

theorem child_ne {i : ramfs_node_t} {name : List Char} (h : i.child name = none)
    {e : ramfs_dirent_t} (he : e ∈ i.children) : e.name ≠ name := by
  unfold ramfs_node_t.child at h
  rw [List.find?_eq_none] at h
  simpa using h e he

/-! ## Directories -/

/-- Where the directories of a path that are there lead to, and those that are missing below. -/
def walk (fs : fs_t) (current : Nat) : List (List Char) → Nat × List (List Char)
  | [] => (current, [])
  | token :: path =>
    match (fs.inodes current).child token with
    | some e => walk fs e.node path
    | none => (current, token :: path)

theorem walk_live (hl : Linked fs) (path : List (List Char)) (hc : current ∈ fs.inode_blocks) :
    (walk fs current path).1 ∈ fs.inode_blocks := by
  induction path generalizing current with
  | nil => exact hc
  | cons token path ih =>
    unfold walk
    split
    · rename_i e he
      exact ih (hl.targets current hc e (child_mem he).1)
    · exact hc

/-- The first directory that is missing is no entry of the last one that is there. -/
theorem walk_missing {path rest : List (List Char)} {token : List Char}
    (h : (walk fs current path).2 = token :: rest) :
    (fs.inodes (walk fs current path).1).child token = none := by
  induction path generalizing current with
  | nil => simp [walk] at h
  | cons t path ih =>
    unfold walk at h ⊢
    split at h
    · rename_i e he
      exact ih h
    · rename_i he
      simp only [List.cons.injEq] at h
      rw [← h.1]
      exact he

/-- The loop of `ramfs_get_or_create_directory` goes through the directories that are there. -/
theorem get_or_create_directory_walk (hl : Linked fs) (path : List (List Char))
    (hc : current ∈ fs.inode_blocks) :
    get_or_create_directory fs current path =
      get_or_create_directory fs (walk fs current path).1 (walk fs current path).2 := by
  induction path generalizing current with
  | nil => rfl
  | cons token path ih =>
    cases he : (fs.inodes current).child token with
    | none => simp [walk, he]
    | some e =>
      have hlive := hl.targets current hc e (child_mem he).1
      have hwalk : walk fs current (token :: path) = walk fs e.node path := by simp [walk, he]
      rw [hwalk, ← ih hlive]
      rw [get_or_create_directory, ramfs_find_child_eq hc, he]
      rfl

/-- The ramfs after a turn that makes a directory, which may find no place for its entry. -/
def with_directory (fs : fs_t) (current : Nat) (token : List Char) : fs_t :=
  let made := with_node fs VFS_NODE_TYPE_DIRECTORY 0 0
  if RAMFS_NODE_MAX_CHILDREN ≤ (fs.inodes current).children.length then made
  else if fs.heap 1 = 0 then made.pop_block
  else with_child made current token fs.next_block

theorem get_or_create_directory_none (hc : current ∈ fs.inode_blocks) {token : List Char}
    (he : (fs.inodes current).child token = none) (hn : fs.next_block = 0)
    (path : List (List Char)) :
    get_or_create_directory fs current (token :: path) = .ok (fs.pop_block, none) := by
  rw [get_or_create_directory, ramfs_find_child_eq hc, he]
  simp [ramfs_create_node_none hn]

theorem get_or_create_directory_cons (hl : Linked fs) (hc : current ∈ fs.inode_blocks)
    {token : List Char} (he : (fs.inodes current).child token = none) (hn : fs.next_block ≠ 0)
    (path : List (List Char)) :
    get_or_create_directory fs current (token :: path) =
      get_or_create_directory (with_directory fs current token) fs.next_block path := by
  have hne := hl.ne_next hn hc
  have hlive : current ∈ (with_node fs VFS_NODE_TYPE_DIRECTORY 0 0).inode_blocks :=
    Finset.mem_insert_of_mem hc
  rw [get_or_create_directory, ramfs_find_child_eq hc, he]
  simp only [Option.map_none, ok_bind, ramfs_create_node_eq hl hn, ne_eq, not_true_eq_false, if_false]
  rw [ramfs_add_child_eq hlive, with_node_ne hne]
  unfold with_directory
  split
  · rfl
  · have hheap : (with_node fs VFS_NODE_TYPE_DIRECTORY 0 0).next_block = fs.heap 1 := rfl
    rw [hheap]
    split
    · rfl
    · rfl

theorem Linked.with_directory (h : Linked fs) (hc : current ∈ fs.inode_blocks)
    (hn : fs.next_block ≠ 0) (token : List Char) : Linked (with_directory fs current token) := by
  have hmade := h.with_node hn VFS_NODE_TYPE_DIRECTORY 0 0
  unfold vfs.with_directory
  dsimp only
  split
  · exact hmade
  · split
    · exact hmade.pop
    · exact hmade.with_child (Finset.mem_insert_of_mem hc) (Finset.mem_insert_self _ _) token

/-- How many blocks the turn takes. -/
def directory_blocks (fs : fs_t) (current : Nat) : Nat :=
  if RAMFS_NODE_MAX_CHILDREN ≤ (fs.inodes current).children.length then 1 else 2

theorem with_directory_heap (token : List Char) :
    (with_directory fs current token).heap = fun n => fs.heap (n + directory_blocks fs current) := by
  unfold with_directory directory_blocks
  dsimp only
  split
  · rfl
  · split
    · rfl
    · rfl

theorem with_directory_blocks (token : List Char) :
    (with_directory fs current token).inode_blocks = insert fs.next_block fs.inode_blocks := by
  unfold with_directory
  dsimp only
  split
  · rfl
  · split
    · rfl
    · rfl

/-- The new directory is empty. -/
theorem with_directory_empty (hl : Linked fs) (hc : current ∈ fs.inode_blocks)
    (hn : fs.next_block ≠ 0) (token : List Char) :
    ((with_directory fs current token).inodes fs.next_block).children = [] := by
  have hne := (hl.ne_next hn hc).symm
  unfold with_directory
  dsimp only
  split
  · simp
  · split
    · have hpop : ((with_node fs VFS_NODE_TYPE_DIRECTORY 0 0).pop_block).inodes =
          (with_node fs VFS_NODE_TYPE_DIRECTORY 0 0).inodes := rfl
      rw [hpop]
      simp
    · rw [with_child_ne hne]
      simp

/-- Directories below an empty one: each takes two blocks. -/
theorem get_or_create_directory_chain (hl : Linked fs) (hc : current ∈ fs.inode_blocks)
    (hempty : (fs.inodes current).children = []) (path : List (List Char)) :
    ∃ fs' r, get_or_create_directory fs current path = .ok (fs', r) ∧ Linked fs' ∧
      fs.inode_blocks ⊆ fs'.inode_blocks ∧
      (r = none ↔ ∃ j < path.length, fs.heap (2 * j) = 0) ∧
      ∀ d, r = some d → d ∈ fs'.inode_blocks ∧ (fs'.inodes d).children = [] ∧
        fs'.heap = fun n => fs.heap (n + 2 * path.length) := by
  induction path generalizing fs current with
  | nil =>
    refine ⟨fs, some current, rfl, hl, Finset.Subset.refl _, by simp, ?_⟩
    rintro d hd
    cases hd
    exact ⟨hc, hempty, rfl⟩
  | cons token path ih =>
    have he : (fs.inodes current).child token = none := by simp [ramfs_node_t.child, hempty]
    by_cases hn : fs.next_block = 0
    · refine ⟨fs.pop_block, none, get_or_create_directory_none hc he hn path, hl.pop,
        Finset.Subset.refl _, ?_, by simp⟩
      exact ⟨fun _ => ⟨0, by simp, hn⟩, fun _ => rfl⟩
    · have hblocks : directory_blocks fs current = 2 := by
        simp [directory_blocks, hempty, RAMFS_NODE_MAX_CHILDREN]
      have hheap : (with_directory fs current token).heap =
          fun n => fs.heap (n + directory_blocks fs current) := with_directory_heap token
      rw [hblocks] at hheap
      have hsub : fs.inode_blocks ⊆ (with_directory fs current token).inode_blocks := by
        rw [with_directory_blocks]
        exact Finset.subset_insert _ _
      obtain ⟨fs', r, heq, hl', hsub', hr, hd⟩ := ih (hl.with_directory hc hn token)
        (by rw [with_directory_blocks]; exact Finset.mem_insert_self _ _)
        (with_directory_empty hl hc hn token)
      refine ⟨fs', r, ?_, hl', hsub.trans hsub', ?_, ?_⟩
      · rw [get_or_create_directory_cons hl hc he hn, heq]
      · rw [hr, hheap]
        constructor
        · rintro ⟨j, hj, hz⟩
          exact ⟨j + 1, by simpa using hj, hz⟩
        · rintro ⟨j, hj, hz⟩
          cases j with
          | zero => exact absurd hz hn
          | succ j => exact ⟨j, by simpa using hj, hz⟩
      · intro d hsome
        obtain ⟨hlive, hnone, hh⟩ := hd d hsome
        refine ⟨hlive, hnone, ?_⟩
        rw [hh, hheap]
        funext n
        rw [List.length_cons]
        congr 1

/-! ## Paths -/

/-- The name after the last slash, and the directories before it. -/
def last_name (path : List Char) : List Char := path.rtakeWhile fun c => c ≠ '/'

def directories (path : List Char) : List (List Char) :=
  components [] (path.rdropWhile fun c => c ≠ '/').dropLast

theorem components_append_slash (component path rest : List Char) :
    components component (path ++ '/' :: rest) = components component path ++ components [] rest := by
  induction path generalizing component with
  | nil => by_cases h : component = [] <;> simp [components, h]
  | cons c path ih =>
    rw [List.cons_append, components, components]
    split
    · split
      · exact ih []
      · rw [ih [], List.cons_append]
    · exact ih _

theorem components_name {name : List Char} (h : ∀ c ∈ name, c ≠ '/') (component : List Char) :
    components component name = if component ++ name = [] then [] else [component ++ name] := by
  induction name generalizing component with
  | nil => simp [components]
  | cons c name ih =>
    rw [components, if_neg (h c List.mem_cons_self),
      ih fun c hc => h c (List.mem_cons_of_mem _ hc)]
    simp

theorem last_name_plain (path : List Char) : ∀ c ∈ last_name path, c ≠ '/' := by
  intro c hc
  simpa using List.mem_rtakeWhile_imp hc

/-- A path is its directories and its last name. -/
theorem components_path {path : List Char} (hne : path ≠ []) (h : path.getLast? ≠ some '/') :
    components [] path = directories path ++ [last_name path] := by
  have hname : last_name path ≠ [] := by
    unfold last_name
    rw [Ne, List.rtakeWhile_eq_nil_iff]
    intro hl
    apply h
    have := hl hne
    rw [List.getLast?_eq_some_getLast hne]
    simpa using this
  have hcut : (path.rdropWhile fun c => c ≠ '/') ++ last_name path = path :=
    List.rdropWhile_append_rtakeWhile
  unfold directories
  by_cases hd : path.rdropWhile (fun c => c ≠ '/') = []
  · rw [hd] at hcut ⊢
    have hpath : last_name path = path := hcut
    have hplain := last_name_plain path
    rw [hpath] at hplain ⊢
    rw [components_name hplain]
    simp [components, hne]
  · have hlast : (path.rdropWhile fun c => c ≠ '/').getLast hd = '/' := by
      simpa using List.rdropWhile_last_not _ _ hd
    have hinit := List.dropLast_append_getLast hd
    rw [hlast] at hinit
    generalize (path.rdropWhile fun c => c ≠ '/').dropLast = init at hinit ⊢
    have hpath : init ++ '/' :: last_name path = path := by
      rw [← hinit] at hcut
      simpa using hcut
    have hsplit := components_append_slash [] init (last_name path)
    rw [hpath, components_name (last_name_plain path)] at hsplit
    rw [hsplit]
    simp [hname]

/-- The end of `ramfs_create_path`, with the directory for the name. -/
def create_last (fs : fs_t) (parent : Nat) (name : List Char) (type : vfs_node_type) :
    Except fault_t (fs_t × Option Nat) := do
  match ← ramfs_find_child fs parent name with
  | some node => return (fs, some node)
  | none =>
    let (fs, result, node) ← ramfs_create_node fs type 0 0
    if result ≠ RAMFS_RESULT_OK then return (fs, none)
    let (fs, result) ← ramfs_add_child fs parent name node
    if result ≠ RAMFS_RESULT_OK then return (fs, none)
    return (fs, some node)

theorem ramfs_create_path_eq (fs : fs_t) (root : Nat) (path : List Char) (type : vfs_node_type) :
    ramfs_create_path fs root path type =
      (get_or_create_directory fs root (directories path) >>= fun x =>
        match x.2 with
        | none => pure (x.1, none)
        | some parent => create_last x.1 parent (last_name path) type) := by
  rfl

/-- The name cannot be entered: its directory is full, or a block is missing. -/
def NoEntry (fs : fs_t) (parent : Nat) : Prop :=
  fs.heap 0 = 0 ∨ RAMFS_NODE_MAX_CHILDREN ≤ (fs.inodes parent).children.length ∨ fs.heap 1 = 0

/-- The node for a name that its directory does not have. -/
def with_name (fs : fs_t) (parent : Nat) (name : List Char) (type : vfs_node_type) : fs_t :=
  with_child (with_node fs type 0 0) parent name fs.next_block

theorem Linked.with_name {parent : Nat} (h : Linked fs) (hp : parent ∈ fs.inode_blocks)
    (hn : fs.next_block ≠ 0) (name : List Char) (type : vfs_node_type) :
    Linked (with_name fs parent name type) :=
  (h.with_node hn type 0 0).with_child (Finset.mem_insert_of_mem hp) (Finset.mem_insert_self _ _) name

theorem create_last_found {parent : Nat} (hp : parent ∈ fs.inode_blocks) {name : List Char}
    {e : ramfs_dirent_t} (he : (fs.inodes parent).child name = some e) (type : vfs_node_type) :
    create_last fs parent name type = .ok (fs, some e.node) := by
  unfold create_last
  rw [ramfs_find_child_eq hp, he]
  rfl

/-- A name that is missing gets a node, or the call is refused. -/
theorem create_last_missing {parent : Nat} (hl : Linked fs) (hp : parent ∈ fs.inode_blocks)
    {name : List Char} (he : (fs.inodes parent).child name = none) (type : vfs_node_type) :
    (NoEntry fs parent → ∃ fs', Linked fs' ∧ fs.inode_blocks ⊆ fs'.inode_blocks ∧
        create_last fs parent name type = .ok (fs', none)) ∧
      (¬ NoEntry fs parent → create_last fs parent name type =
        .ok (with_name fs parent name type, some fs.next_block)) := by
  by_cases hn : fs.next_block = 0
  · have hnone : NoEntry fs parent := Or.inl hn
    refine ⟨fun _ => ⟨fs.pop_block, hl.pop, Finset.Subset.refl _, ?_⟩, fun h => absurd hnone h⟩
    unfold create_last
    rw [ramfs_find_child_eq hp, he]
    simp [ramfs_create_node_none hn]
  · have hne := hl.ne_next hn hp
    have hmade := hl.with_node hn type 0 0
    have hlive : parent ∈ (with_node fs type 0 0).inode_blocks := Finset.mem_insert_of_mem hp
    have hadd := ramfs_add_child_eq hlive name fs.next_block
    rw [with_node_ne hne] at hadd
    have heq : create_last fs parent name type =
        (ramfs_add_child (with_node fs type 0 0) parent name fs.next_block >>= fun x =>
          if x.2 ≠ RAMFS_RESULT_OK then pure (x.1, none) else pure (x.1, some fs.next_block)) := by
      unfold create_last
      rw [ramfs_find_child_eq hp, he]
      simp only [Option.map_none, ok_bind, ramfs_create_node_eq hl hn, ne_eq, not_true_eq_false,
        if_false]
    rw [heq, hadd]
    have hheap : (with_node fs type 0 0).next_block = fs.heap 1 := rfl
    rw [hheap]
    unfold NoEntry
    by_cases hroom : RAMFS_NODE_MAX_CHILDREN ≤ (fs.inodes parent).children.length
    · simp [hroom, hmade]
    · by_cases hname : fs.heap 1 = 0
      · have hsub : fs.inode_blocks ⊆ (with_node fs type 0 0).pop_block.inode_blocks :=
          Finset.subset_insert _ _
        simp [hroom, hname, hmade.pop, hsub]
      · have hz : fs.heap 0 ≠ 0 := hn
        simp [hroom, hname, hz, with_name]

/-- `ramfs_create_path` has no node to give: the directory of a new name is full, or the kernel heap
has no block for a node or for the name of the last one. -/
def PathRefused (fs : fs_t) (root : Nat) (path : List Char) : Prop :=
  let parent := (walk fs root (directories path)).1
  let missing := (walk fs root (directories path)).2.length
  if missing = 0 then
    (fs.inodes parent).child (last_name path) = none ∧ NoEntry fs parent
  else
    fs.heap 0 = 0 ∨
      (∃ j < missing, fs.heap (2 * j + directory_blocks fs parent) = 0) ∨
      fs.heap (2 * (missing - 1) + directory_blocks fs parent + 1) = 0

theorem create_last_spec {parent : Nat} (hl : Linked fs) (hp : parent ∈ fs.inode_blocks)
    (name : List Char) (type : vfs_node_type) :
    ∃ fs' r, create_last fs parent name type = .ok (fs', r) ∧ Linked fs' ∧
      fs.inode_blocks ⊆ fs'.inode_blocks ∧
      (r = none ↔ (fs.inodes parent).child name = none ∧ NoEntry fs parent) := by
  cases he : (fs.inodes parent).child name with
  | some e =>
    exact ⟨fs, some e.node, create_last_found hp he type, hl, Finset.Subset.refl _, by simp⟩
  | none =>
    obtain ⟨hno, hmade⟩ := create_last_missing hl hp he type
    by_cases hentry : NoEntry fs parent
    · obtain ⟨fs', hl', hblocks, heq⟩ := hno hentry
      exact ⟨fs', none, heq, hl', hblocks, by simp [hentry]⟩
    · have hn : fs.next_block ≠ 0 := fun hz => hentry (Or.inl hz)
      refine ⟨_, _, hmade hentry, hl.with_name hp hn name type, ?_, by simp [hentry]⟩
      exact Finset.subset_insert _ _

/-- `ramfs_create_path` returns a node, unless it is refused. -/
theorem ramfs_create_path_refused (hl : Linked fs) (hr : root ∈ fs.inode_blocks) (path : List Char)
    (type : vfs_node_type) :
    ∃ fs' r, ramfs_create_path fs root path type = .ok (fs', r) ∧ Linked fs' ∧
      fs.inode_blocks ⊆ fs'.inode_blocks ∧ (r = none ↔ PathRefused fs root path) := by
  have hlive := walk_live hl (directories path) hr
  rw [ramfs_create_path_eq, get_or_create_directory_walk hl _ hr]
  unfold PathRefused
  dsimp only
  cases hmissing : (walk fs root (directories path)).2 with
  | nil =>
    obtain ⟨fs', r, heq, hspec⟩ := create_last_spec hl hlive (last_name path) type
    refine ⟨fs', r, ?_, hspec⟩
    simp only [get_or_create_directory, ok_bind, heq]
  | cons token rest =>
    have he := walk_missing hmissing
    generalize (walk fs root (directories path)).1 = parent at he hlive ⊢
    by_cases hn : fs.next_block = 0
    · refine ⟨fs.pop_block, none, ?_, hl.pop, Finset.Subset.refl _, ?_⟩
      · rw [get_or_create_directory_none hlive he hn]
        rfl
      · have hz : fs.heap 0 = 0 := hn
        simp [hz]
    · have hheap : (with_directory fs parent token).heap =
          fun n => fs.heap (n + directory_blocks fs parent) := with_directory_heap token
      have hmade := hl.with_directory hlive hn token
      have hsub : fs.inode_blocks ⊆ (with_directory fs parent token).inode_blocks := by
        rw [with_directory_blocks]
        exact Finset.subset_insert _ _
      have hself : fs.next_block ∈ (with_directory fs parent token).inode_blocks := by
        rw [with_directory_blocks]
        exact Finset.mem_insert_self _ _
      obtain ⟨fs1, r1, heq, hl1, hsub1, hr1, hd1⟩ := get_or_create_directory_chain hmade hself
        (with_directory_empty hl hlive hn token) rest
      rw [get_or_create_directory_cons hl hlive he hn, heq, ok_bind]
      rw [hheap] at hr1 hd1
      generalize directory_blocks fs parent = b at hr1 hd1 ⊢
      have hz : fs.heap 0 ≠ 0 := hn
      simp only [List.length_cons, Nat.add_one_ne_zero, if_false, hz, false_or, Nat.add_sub_cancel]
      cases r1 with
      | none =>
        obtain ⟨j, hj, hzero⟩ := hr1.mp rfl
        refine ⟨fs1, none, rfl, hl1, hsub.trans hsub1, ?_⟩
        exact ⟨fun _ => Or.inl ⟨j, by omega, hzero⟩, fun _ => rfl⟩
      | some d =>
        obtain ⟨hd, hempty, hh⟩ := hd1 d rfl
        have hnone : (fs1.inodes d).child (last_name path) = none := by
          simp [ramfs_node_t.child, hempty]
        have hserved : ¬ ∃ j < rest.length, fs.heap (2 * j + b) = 0 := fun h => by
          simpa using hr1.mpr h
        have hentry : NoEntry fs1 d ↔
            fs.heap (2 * rest.length + b) = 0 ∨ fs.heap (2 * rest.length + b + 1) = 0 := by
          unfold NoEntry
          rw [hh, hempty]
          simp [RAMFS_NODE_MAX_CHILDREN, Nat.add_comm 1, Nat.add_right_comm _ b]
        obtain ⟨fs', r, heq', hl', hsub', hr'⟩ := create_last_spec hl1 hd (last_name path) type
        refine ⟨fs', r, heq', hl', (hsub.trans hsub1).trans hsub', ?_⟩
        rw [hr', hentry]
        constructor
        · rintro ⟨-, hfirst | hsecond⟩
          · exact Or.inl ⟨rest.length, by omega, hfirst⟩
          · exact Or.inr hsecond
        · rintro (⟨j, hj, hzero⟩ | hsecond)
          · obtain rfl : j = rest.length := by
              by_contra hne
              exact hserved ⟨j, by omega, hzero⟩
            exact ⟨hnone, Or.inl hzero⟩
          · exact ⟨hnone, Or.inr hsecond⟩

/-! ## Growth -/

/-- What the calls below do to the ramfs: new nodes, with an entry or without. -/
inductive Gains (fs : fs_t) : fs_t → Prop
  | refl : Gains fs fs
  | node {fs' : fs_t} (type : vfs_node_type) : Gains fs fs' → Gains fs (with_node fs' type 0 0)
  | name {fs' : fs_t} {parent : Nat} {name : List Char} (type : vfs_node_type) :
      Gains fs fs' → parent ∈ fs'.inode_blocks → (fs'.inodes parent).child name = none →
      (fs'.inodes parent).children.length < RAMFS_NODE_MAX_CHILDREN →
      Gains fs (with_name fs' parent name type)

theorem Gains.trans {fs1 fs2 : fs_t} (h : Gains fs fs1) (h' : Gains fs1 fs2) : Gains fs fs2 := by
  induction h' with
  | refl => exact h
  | node type _ ih => exact .node type ih
  | name type _ hp he hroom ih => exact .name type ih hp he hroom

theorem HeapServes.grown (hs : HeapServes fs) (h : Gains fs fs') : HeapServes fs' := by
  induction h with
  | refl => exact hs
  | node type _ ih => exact fun n => ih (n + 1)
  | name type _ _ _ _ ih => exact fun n => ih (n + 2)

theorem Linked.grown (hl : Linked fs) (hs : HeapServes fs) (h : Gains fs fs') : Linked fs' := by
  induction h with
  | refl => exact hl
  | node type hg ih => exact ih.with_node (hs.grown hg).next type 0 0
  | name type hg hp _ _ ih => exact ih.with_name hp (hs.grown hg).next _ type

theorem with_name_blocks (parent : Nat) (name : List Char) (type : vfs_node_type) :
    (with_name fs parent name type).inode_blocks = insert fs.next_block fs.inode_blocks := rfl

theorem with_name_next {parent : Nat} (hl : Linked fs) (hs : HeapServes fs)
    (hp : parent ∈ fs.inode_blocks) (name : List Char) (type : vfs_node_type) :
    (with_name fs parent name type).inodes fs.next_block = ⟨fs.last_index, [], type, 0, 0, 1⟩ := by
  unfold with_name
  rw [with_child_ne (hl.ne_next hs.next hp).symm, with_node_self]

theorem with_name_parent {parent : Nat} (hl : Linked fs) (hs : HeapServes fs)
    (hp : parent ∈ fs.inode_blocks) (name : List Char) (type : vfs_node_type) :
    (with_name fs parent name type).inodes parent =
      { fs.inodes parent with
        children := (fs.inodes parent).children ++ [⟨name, fs.next_block⟩] } := by
  unfold with_name
  rw [with_child_self, with_node_ne (hl.ne_next hs.next hp)]

theorem with_name_other {a parent : Nat} (hl : Linked fs) (hs : HeapServes fs)
    (ha : a ∈ fs.inode_blocks) (hne : a ≠ parent) (name : List Char) (type : vfs_node_type) :
    (with_name fs parent name type).inodes a = fs.inodes a := by
  unfold with_name
  rw [with_child_ne hne, with_node_ne (hl.ne_next hs.next ha)]

theorem child_append {i : ramfs_node_t} {name : List Char} {e new : ramfs_dirent_t}
    (h : i.child name = some e) :
    ({ i with children := i.children ++ [new] } : ramfs_node_t).child name = some e := by
  unfold ramfs_node_t.child at h ⊢
  rw [List.find?_append, h]
  rfl

theorem child_new {i : ramfs_node_t} {name : List Char} (h : i.child name = none) (node : Nat) :
    ({ i with children := i.children ++ [⟨name, node⟩] } : ramfs_node_t).child name =
      some ⟨name, node⟩ := by
  unfold ramfs_node_t.child at h ⊢
  rw [List.find?_append, h]
  simp

/-- Entries stay where they are. -/
theorem Gains.child (hl : Linked fs) (hs : HeapServes fs) (h : Gains fs fs') {a : Nat}
    (ha : a ∈ fs.inode_blocks) {name : List Char} {e : ramfs_dirent_t}
    (he : (fs.inodes a).child name = some e) :
    a ∈ fs'.inode_blocks ∧ (fs'.inodes a).child name = some e := by
  induction h with
  | refl => exact ⟨ha, he⟩
  | node type hg ih =>
    have hl' := hl.grown hs hg
    have hs' := hs.grown hg
    rw [with_node_ne (hl'.ne_next hs'.next ih.1)]
    exact ⟨Finset.mem_insert_of_mem ih.1, ih.2⟩
  | @name fs' parent name' type hg hp _ _ ih =>
    have hl' := hl.grown hs hg
    have hs' := hs.grown hg
    refine ⟨Finset.mem_insert_of_mem ih.1, ?_⟩
    by_cases hap : a = parent
    · subst hap
      rw [with_name_parent hl' hs' hp]
      exact child_append ih.2
    · rw [with_name_other hl' hs' ih.1 hap]
      exact ih.2

theorem Gains.live (h : Gains fs fs') {a : Nat} (ha : a ∈ fs.inode_blocks) :
    a ∈ fs'.inode_blocks := by
  induction h with
  | refl => exact ha
  | node type _ ih => exact Finset.mem_insert_of_mem ih
  | name type _ _ _ _ ih => exact Finset.mem_insert_of_mem ih

theorem walk_some {token : List Char} {e : ramfs_dirent_t}
    (h : (fs.inodes current).child token = some e) (path : List (List Char)) :
    walk fs current (token :: path) = walk fs e.node path := by
  simp [walk, h]

theorem walk_none {token : List Char} (h : (fs.inodes current).child token = none)
    (path : List (List Char)) : walk fs current (token :: path) = (current, token :: path) := by
  simp [walk, h]

/-- A path that leads somewhere leads there later. -/
theorem Gains.walk (hl : Linked fs) (hs : HeapServes fs) (h : Gains fs fs')
    (hc : current ∈ fs.inode_blocks) {path : List (List Char)} {d : Nat}
    (hw : walk fs current path = (d, [])) : vfs.walk fs' current path = (d, []) := by
  induction path generalizing current with
  | nil => exact hw
  | cons token path ih =>
    cases he : (fs.inodes current).child token with
    | none => simp [walk_none he] at hw
    | some e =>
      rw [walk_some he] at hw
      rw [walk_some (h.child hl hs hc he).2]
      exact ih (hl.targets current hc e (child_mem he).1) hw

theorem walk_append {path rest : List (List Char)} {d : Nat} (h : walk fs current path = (d, [])) :
    walk fs current (path ++ rest) = walk fs d rest := by
  induction path generalizing current with
  | nil =>
    obtain rfl : current = d := congrArg Prod.fst h
    rfl
  | cons token path ih =>
    cases he : (fs.inodes current).child token with
    | none => simp [walk_none he] at h
    | some e =>
      rw [walk_some he] at h
      rw [List.cons_append, walk_some he]
      exact ih h

/-- A path that does not lead on leads no further with more names. -/
theorem walk_stuck {path : List (List Char)} (h : (walk fs current path).2 ≠ [])
    (rest : List (List Char)) :
    walk fs current (path ++ rest) =
      ((walk fs current path).1, (walk fs current path).2 ++ rest) := by
  induction path generalizing current with
  | nil => simp [walk] at h
  | cons token path ih =>
    cases he : (fs.inodes current).child token with
    | none => rw [List.cons_append, walk_none he, walk_none he, List.cons_append]
    | some e =>
      rw [walk_some he] at h ⊢
      rw [List.cons_append, walk_some he]
      exact ih h

/-- Nodes that stay as they are lead to the same places. -/
theorem walk_same (hl : Linked fs) (hsame : ∀ a ∈ fs.inode_blocks, fs'.inodes a = fs.inodes a)
    (hc : current ∈ fs.inode_blocks) (path : List (List Char)) :
    walk fs' current path = walk fs current path := by
  induction path generalizing current with
  | nil => rfl
  | cons token path ih =>
    unfold walk
    rw [hsame current hc]
    cases he : (fs.inodes current).child token with
    | none => rfl
    | some e => exact ih (hl.targets current hc e (child_mem he).1)

/-! ## Paths that are made -/

theorem get_or_create_directory_found (hc : current ∈ fs.inode_blocks) {token : List Char}
    {e : ramfs_dirent_t} (he : (fs.inodes current).child token = some e) (path : List (List Char)) :
    get_or_create_directory fs current (token :: path) = get_or_create_directory fs e.node path := by
  rw [get_or_create_directory, ramfs_find_child_eq hc, he]
  rfl

/-- A directory that has room gets the entry of a new one. -/
theorem with_directory_name (hs : HeapServes fs)
    (hroom : (fs.inodes current).children.length < RAMFS_NODE_MAX_CHILDREN) (token : List Char) :
    with_directory fs current token = with_name fs current token VFS_NODE_TYPE_DIRECTORY := by
  unfold with_directory
  dsimp only
  rw [if_neg (Nat.not_le.mpr hroom), if_neg (hs 1)]
  rfl

/-- A full directory gets none. -/
theorem with_directory_full
    (hfull : RAMFS_NODE_MAX_CHILDREN ≤ (fs.inodes current).children.length) (token : List Char) :
    with_directory fs current token = with_node fs VFS_NODE_TYPE_DIRECTORY 0 0 := by
  unfold with_directory
  dsimp only
  rw [if_pos hfull]

/-- Every directory of the path is there or finds room for its entry. -/
def HasRoom (fs : fs_t) (current : Nat) (path : List (List Char)) : Prop :=
  (walk fs current path).2 = [] ∨
    (fs.inodes (walk fs current path).1).children.length < RAMFS_NODE_MAX_CHILDREN

/-- An empty directory has room for any path. -/
theorem hasRoom_empty (h : (fs.inodes current).children = []) (path : List (List Char)) :
    HasRoom fs current path ∧ (walk fs current path).1 = current := by
  cases path with
  | nil => exact ⟨Or.inl rfl, rfl⟩
  | cons token path =>
    have hw : walk fs current (token :: path) = (current, token :: path) :=
      walk_none (by simp [ramfs_node_t.child, h]) path
    unfold HasRoom
    rw [hw]
    exact ⟨Or.inr (by simp [h, RAMFS_NODE_MAX_CHILDREN]), rfl⟩

/-- The directories of a path, made as far as they are missing: only the last one that was there gets
an entry. -/
theorem get_or_create_directory_made (hl : Linked fs) (hs : HeapServes fs)
    (hc : current ∈ fs.inode_blocks) {path : List (List Char)} (hroom : HasRoom fs current path) :
    ∃ fs' d, get_or_create_directory fs current path = .ok (fs', some d) ∧ Gains fs fs' ∧
      d ∈ fs'.inode_blocks ∧ walk fs' current path = (d, []) ∧
      (fs' = fs ∧ d = (walk fs current path).1 ∨
        d ∉ fs.inode_blocks ∧ (fs'.inodes d).children = []) ∧
      ∀ a ∈ fs.inode_blocks, a ≠ (walk fs current path).1 → fs'.inodes a = fs.inodes a := by
  induction path generalizing fs current with
  | nil => exact ⟨fs, current, rfl, .refl, hc, rfl, Or.inl ⟨rfl, rfl⟩, fun _ _ _ => rfl⟩
  | cons token path ih =>
    cases he : (fs.inodes current).child token with
    | some e =>
      have hlive := hl.targets current hc e (child_mem he).1
      unfold HasRoom at hroom
      rw [walk_some he] at hroom ⊢
      obtain ⟨fs', d, heq, hg, hd, hw, hnew, hsame⟩ := ih hl hs hlive hroom
      refine ⟨fs', d, ?_, hg, hd, ?_, hnew, hsame⟩
      · rw [get_or_create_directory_found hc he, heq]
      · rw [walk_some (hg.child hl hs hc he).2, hw]
    | none =>
      have hlen : (fs.inodes current).children.length < RAMFS_NODE_MAX_CHILDREN := by
        unfold HasRoom at hroom
        rw [walk_none he] at hroom
        simpa using hroom
      have hg1 : Gains fs (with_name fs current token VFS_NODE_TYPE_DIRECTORY) :=
        .name _ .refl hc he hlen
      have hl1 := hl.grown hs hg1
      have hs1 := hs.grown hg1
      have hnext : fs.next_block ∈ (with_name fs current token VFS_NODE_TYPE_DIRECTORY).inode_blocks :=
        Finset.mem_insert_self _ _
      have hempty : ((with_name fs current token VFS_NODE_TYPE_DIRECTORY).inodes
          fs.next_block).children = [] := by rw [with_name_next hl hs hc]
      obtain ⟨hroom1, hw1⟩ := hasRoom_empty hempty path
      obtain ⟨fs', d, heq, hg, hd, hw, hnew, hsame⟩ := ih hl1 hs1 hnext hroom1
      rw [hw1] at hnew hsame
      have hentry : ((with_name fs current token VFS_NODE_TYPE_DIRECTORY).inodes current).child
          token = some ⟨token, fs.next_block⟩ := by
        rw [with_name_parent hl hs hc]
        exact child_new he _
      refine ⟨fs', d, ?_, hg1.trans hg, hd, ?_, ?_, ?_⟩
      · rw [get_or_create_directory_cons hl hc he hs.next, with_directory_name hs hlen, heq]
      · rw [walk_some (hg.child hl1 hs1 (hg1.live hc) hentry).2, hw]
      · rcases hnew with ⟨rfl, rfl⟩ | ⟨hnew, hnone⟩
        · exact Or.inr ⟨(hl.unused 0 (hs 0)).2, hempty⟩
        · exact Or.inr ⟨fun hm => hnew (hg1.live hm), hnone⟩
      · intro a ha hne
        rw [walk_none he] at hne
        rw [hsame a (hg1.live ha) (hl.ne_next hs.next ha), with_name_other hl hs ha hne]

/-- A directory that finds no room is made all the same, and what is below it. -/
theorem get_or_create_directory_full (hl : Linked fs) (hs : HeapServes fs)
    (hc : current ∈ fs.inode_blocks) {token : List Char}
    (he : (fs.inodes current).child token = none) (path : List (List Char))
    (hfull : RAMFS_NODE_MAX_CHILDREN ≤ (fs.inodes current).children.length) :
    ∃ fs' d, get_or_create_directory fs current (token :: path) = .ok (fs', some d) ∧ Gains fs fs' ∧
      d ∈ fs'.inode_blocks ∧ d ∉ fs.inode_blocks ∧ (fs'.inodes d).children = [] ∧
      ∀ a ∈ fs.inode_blocks, fs'.inodes a = fs.inodes a := by
  have hg1 : Gains fs (with_node fs VFS_NODE_TYPE_DIRECTORY 0 0) := .node _ .refl
  have hempty : ((with_node fs VFS_NODE_TYPE_DIRECTORY 0 0).inodes fs.next_block).children = [] := by
    simp
  obtain ⟨hroom1, hw1⟩ := hasRoom_empty hempty path
  obtain ⟨fs', d, heq, hg, hd, -, hnew, hsame⟩ := get_or_create_directory_made
    (hl.grown hs hg1) (hs.grown hg1) (Finset.mem_insert_self _ _) hroom1
  rw [hw1] at hnew hsame
  have hnext : fs.next_block ∉ fs.inode_blocks := (hl.unused 0 (hs 0)).2
  refine ⟨fs', d, ?_, hg1.trans hg, hd, ?_, ?_, ?_⟩
  · rw [get_or_create_directory_cons hl hc he hs.next, with_directory_full hfull, heq]
  · rcases hnew with ⟨rfl, rfl⟩ | ⟨hnew, -⟩
    · exact hnext
    · exact fun hm => hnew (hg1.live hm)
  · rcases hnew with ⟨rfl, rfl⟩ | ⟨-, hnone⟩
    · exact hempty
    · exact hnone
  · intro a ha
    have hne := hl.ne_next hs.next ha
    rw [hsame a (hg1.live ha) hne, with_node_ne hne]

/-- The name of a path that has room for its directories: the call leads where the path leads. -/
theorem create_path_made (hl : Linked fs) (hs : HeapServes fs) (hr : root ∈ fs.inode_blocks)
    {path : List Char} {type : vfs_node_type} {n : Nat} (hroom : HasRoom fs root (directories path))
    (h : ramfs_create_path fs root path type = .ok (fs', some n)) :
    Gains fs fs' ∧ walk fs' root (directories path ++ [last_name path]) = (n, []) := by
  obtain ⟨fs1, d, heq, hg, hd, hw, -⟩ := get_or_create_directory_made hl hs hr hroom
  have hl1 := hl.grown hs hg
  have hs1 := hs.grown hg
  rw [ramfs_create_path_eq, heq, ok_bind] at h
  dsimp only at h
  cases he : (fs1.inodes d).child (last_name path) with
  | some e =>
    rw [create_last_found hd he] at h
    simp only [Except.ok.injEq, Prod.mk.injEq, Option.some.injEq] at h
    obtain ⟨rfl, rfl⟩ := h
    refine ⟨hg, ?_⟩
    rw [walk_append hw, walk_some he]
    rfl
  | none =>
    obtain ⟨hno, hmade⟩ := create_last_missing hl1 hd he type
    by_cases hentry : NoEntry fs1 d
    · obtain ⟨fs2, -, -, heq2⟩ := hno hentry
      rw [heq2] at h
      cases h
    · rw [hmade hentry] at h
      simp only [Except.ok.injEq, Prod.mk.injEq, Option.some.injEq] at h
      obtain ⟨rfl, rfl⟩ := h
      have hlen : (fs1.inodes d).children.length < RAMFS_NODE_MAX_CHILDREN := by
        by_contra hlen
        exact hentry (Or.inr (Or.inl (Nat.not_lt.mp hlen)))
      have hg2 : Gains fs1 (with_name fs1 d (last_name path) type) := .name type .refl hd he hlen
      refine ⟨hg.trans hg2, ?_⟩
      have hchild : ((with_name fs1 d (last_name path) type).inodes d).child (last_name path) =
          some ⟨last_name path, fs1.next_block⟩ := by
        rw [with_name_parent hl1 hs1 hd]
        exact child_new he _
      rw [walk_append (hg2.walk hl1 hs1 (hg.live hr) hw), walk_some hchild]
      rfl

/-- A path whose first missing directory finds no room: the call has a node, where no path leads. -/
theorem create_path_lost (hl : Linked fs) (hs : HeapServes fs) (hr : root ∈ fs.inode_blocks)
    {path : List Char} (type : vfs_node_type) (hroom : ¬ HasRoom fs root (directories path)) :
    ∃ fs' n, ramfs_create_path fs root path type = .ok (fs', some n) ∧ Gains fs fs' ∧
      ∀ rest, (walk fs' root (directories path ++ rest)).2 ≠ [] := by
  unfold HasRoom at hroom
  rw [not_or, Nat.not_lt] at hroom
  obtain ⟨hmissing, hfull⟩ := hroom
  obtain ⟨token, rest, hw⟩ := List.exists_cons_of_ne_nil hmissing
  have hlive := walk_live hl (directories path) hr
  have he := walk_missing hw
  obtain ⟨fs1, d, heq, hg, hd, hnew, hempty, hsame⟩ :=
    get_or_create_directory_full hl hs hlive he rest hfull
  have hl1 := hl.grown hs hg
  have hs1 := hs.grown hg
  have hnone : (fs1.inodes d).child (last_name path) = none := by simp [ramfs_node_t.child, hempty]
  have hlen : (fs1.inodes d).children.length < RAMFS_NODE_MAX_CHILDREN := by
    simp [hempty, RAMFS_NODE_MAX_CHILDREN]
  have hentry : ¬ NoEntry fs1 d := by
    rintro (h0 | hlong | h1)
    · exact hs1 0 h0
    · omega
    · exact hs1 1 h1
  have hg2 : Gains fs1 (with_name fs1 d (last_name path) type) := .name type .refl hd hnone hlen
  refine ⟨_, fs1.next_block, ?_, hg.trans hg2, ?_⟩
  · rw [ramfs_create_path_eq, get_or_create_directory_walk hl _ hr, hw, heq, ok_bind]
    exact (create_last_missing hl1 hd hnone type).2 hentry
  · intro more
    have hsame2 : ∀ a ∈ fs.inode_blocks,
        (with_name fs1 d (last_name path) type).inodes a = fs.inodes a := by
      intro a ha
      have hne : a ≠ d := by
        rintro rfl
        exact hnew ha
      rw [with_name_other hl1 hs1 (hg.live ha) hne, hsame a ha]
    rw [walk_same hl hsame2 hr, walk_stuck hmissing]
    simp [hw]

end alura_os.vfs
