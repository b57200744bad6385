-- The file systems as the boot leaves them: the initrd is imported into the
-- ramfs, its root gets a node of the VFS, and the devices are mounted. What a
-- path of the initrd goes through is not looked at, so a file can get entries.
import AluraOs.FailedOpens

namespace alura_os.vfs

open alura_os.memory alura_os.resource faults
open resource_result_t resource_type_t vfs_node_type ramfs_result_t

variable {fs0 fs fs' : fs_t} {root : Nat}

/-! ## The import -/

/-- The ramfs while the initrd is imported: the directories below `root`, and no node of the VFS. -/
structure Imported (fs : fs_t) (root : Nat) : Prop where
  tree : Tree { fs with root_node := root }
  heap : HeapServes fs
  unshown : fs.node_blocks = ∅
  cache : fs.cache = []
  indices : fs.last_cache_index = 0

/-- `ramfs_create_node`, when the kernel heap has a block that is not in use. -/
theorem ramfs_create_node_made (hh : HeapServes fs) {type : vfs_node_type} {data size node : Nat}
    {r : ramfs_result_t} (hc : ramfs_create_node fs type data size = .ok (fs', r, node)) :
    fs.Unused fs.next_block ∧ fs' = with_node fs type data size ∧ r = RAMFS_RESULT_OK ∧
      node = fs.next_block := by
  unfold ramfs_create_node at hc
  dsimp only at hc
  rw [if_neg hh.next] at hc
  by_cases hu : fs.Unused fs.next_block
  · rw [if_neg (not_not.mpr hu)] at hc
    cases hc
    exact ⟨hu, rfl, rfl, rfl⟩
  · rw [if_pos hu] at hc
    cases hc

theorem Imported.root_mem (h : Imported fs root) : root ∈ fs.inode_blocks := h.tree.root

theorem Imported.node_more (h : Imported fs root) (hu : fs.Unused fs.next_block)
    (type : vfs_node_type) (data size : Nat) : Imported (with_node fs type data size) root :=
  ⟨h.tree.node_more hu h.heap.next, h.heap.pop, h.unshown, h.cache, h.indices⟩

theorem Imported.with_name (h : Imported fs root) (hu : fs.Unused fs.next_block) {x : Nat}
    (hx : x ∈ fs.inode_blocks) {name : List Char} (hname : (fs.inodes x).child name = none)
    (hroom : (fs.inodes x).children.length < RAMFS_NODE_MAX_CHILDREN) (type : vfs_node_type) :
    Imported (with_name fs x name type) root := by
  exact ⟨(h.tree.node_more hu h.heap.next).entered (h.tree.entered_new hu.2 hx)
    (h.tree.enterable_new hu.2 hx hname hroom), h.heap.pop.pop, h.unshown, h.cache, h.indices⟩

/-- Only the data of a node changes. -/
theorem Imported.data (h : Imported fs root) (hs : SameNames fs fs') (hh : HeapServes fs')
    (hb : fs'.node_blocks = fs.node_blocks) (hc : fs'.cache = fs.cache)
    (hi : fs'.last_cache_index = fs.last_cache_index) : Imported fs' root := by
  refine ⟨h.tree.same_names ⟨hs.inodes, hs.inode_blocks, rfl, hs.last_index, hs.freed⟩, hh, ?_, ?_, ?_⟩
  · rw [hb, h.unshown]
  · rw [hc, h.cache]
  · rw [hi, h.indices]

/-- A new node, and the attempt to enter it in the directory `x`. A directory that is full leaves it
without a name. -/
structure Attempted (fs fs' : fs_t) (x : Nat) (name : List Char) (type : vfs_node_type) (node : Nat) :
    Prop where
  fresh : node ∉ fs.inode_blocks
  inode_blocks : fs'.inode_blocks = insert node fs.inode_blocks
  new : (fs'.inodes node).type = type ∧ (fs'.inodes node).children = []
  self : (fs'.inodes x).children = (fs.inodes x).children ∨
    (fs'.inodes x).children = (fs.inodes x).children ++ [⟨name, node⟩]
  others : ∀ a ∈ fs.inode_blocks, a ≠ x → (fs'.inodes a).children = (fs.inodes a).children
  types : ∀ a ∈ fs.inode_blocks, (fs'.inodes a).type = (fs.inodes a).type

theorem attempted_with_node (hu : fs.next_block ∉ fs.inode_blocks) {x : Nat}
    (hx : x ∈ fs.inode_blocks) (name : List Char) (type : vfs_node_type) :
    Attempted fs (with_node fs type 0 0) x name type fs.next_block := by
  refine ⟨hu, rfl, ?_, Or.inl ?_, ?_, ?_⟩
  · rw [with_node_self]
    exact ⟨rfl, rfl⟩
  · rw [with_node_old hu hx]
  · intro a ha _
    rw [with_node_old hu ha]
  · intro a ha
    rw [with_node_old hu ha]

theorem attempted_with_name (hu : fs.next_block ∉ fs.inode_blocks) {x : Nat}
    (hx : x ∈ fs.inode_blocks) (name : List Char) (type : vfs_node_type) :
    Attempted fs (with_name fs x name type) x name type fs.next_block := by
  have hg := grown_with_name hu hx name type
  refine ⟨hu, hg.inode_blocks, ?_, Or.inr ?_, ?_, ?_⟩
  · rw [hg.new]
    exact ⟨rfl, rfl⟩
  · rw [hg.directory]
  · intro a ha hax
    rw [hg.others a ha hax]
  · intro a ha
    by_cases hax : a = x
    · rw [hax, hg.directory]
    · rw [hg.others a ha hax]

theorem Imported.attempt (h : Imported fs root) {x node : Nat} (hx : x ∈ fs.inode_blocks)
    {name : List Char} (hname : (fs.inodes x).child name = none) {type : vfs_node_type}
    {g g' : fs_t} {r : ramfs_result_t} {r' : ramfs_result_t}
    (hnew : ramfs_create_node fs type 0 0 = .ok (g, r, node))
    (hadd : ramfs_add_child g x name node = .ok (g', r')) :
    Imported g' root ∧ Attempted fs g' x name type node := by
  obtain ⟨hu, rfl, -, rfl⟩ := ramfs_create_node_made h.heap hnew
  have hlive : x ∈ (with_node fs type 0 0).inode_blocks := Finset.mem_insert_of_mem hx
  have hold : (with_node fs type 0 0).inodes x = fs.inodes x := with_node_old hu.2 hx
  have hserves : (with_node fs type 0 0).next_block ≠ 0 := h.heap 1
  rw [ramfs_add_child_eq hlive, hold, if_neg hserves] at hadd
  by_cases hroom : RAMFS_NODE_MAX_CHILDREN ≤ (fs.inodes x).children.length
  · rw [if_pos hroom] at hadd
    cases hadd
    exact ⟨h.node_more hu type 0 0, attempted_with_node hu.2 hx name type⟩
  · rw [if_neg hroom] at hadd
    cases hadd
    exact ⟨h.with_name hu hx hname (Nat.lt_of_not_le hroom) type,
      attempted_with_name hu.2 hx name type⟩

theorem Attempted.node_mem {x node : Nat} {name : List Char} {type : vfs_node_type}
    (h : Attempted fs fs' x name type node) : node ∈ fs'.inode_blocks := by
  rw [h.inode_blocks]
  exact Finset.mem_insert_self _ _

theorem Imported.get_or_create {current : Nat} {path : List (List Char)} {r : Option Nat}
    (h : Imported fs root) (hc : current ∈ fs.inode_blocks)
    (hg : get_or_create_directory fs current path = .ok (fs', r)) :
    Imported fs' root ∧ ∀ d, r = some d → d ∈ fs'.inode_blocks := by
  induction path generalizing fs current with
  | nil =>
    cases hg
    exact ⟨h, fun d hd => by cases hd; exact hc⟩
  | cons token path ih =>
    unfold get_or_create_directory at hg
    rw [ramfs_find_child_eq hc, ok_bind] at hg
    cases he : (fs.inodes current).child token with
    | some e =>
      rw [he] at hg
      exact ih h (h.tree.targets current hc e (child_mem he).1) hg
    | none =>
      rw [he] at hg
      obtain ⟨⟨g, r1, node⟩, hnew, hg⟩ := bind_ok.mp hg
      obtain ⟨-, -, rfl, -⟩ := ramfs_create_node_made h.heap hnew
      dsimp only at hg
      rw [if_neg (by decide)] at hg
      obtain ⟨⟨g', r2⟩, hadd, hg⟩ := bind_ok.mp hg
      obtain ⟨hi, ha⟩ := h.attempt hc he hnew hadd
      exact ih hi ha.node_mem hg

theorem Imported.create_path {path : List Char} {type : vfs_node_type} {r : Option Nat}
    (h : Imported fs root) (hg : ramfs_create_path fs root path type = .ok (fs', r)) :
    Imported fs' root ∧ ∀ d, r = some d → d ∈ fs'.inode_blocks := by
  unfold ramfs_create_path at hg
  obtain ⟨⟨g, parent⟩, hdir, hg⟩ := bind_ok.mp hg
  obtain ⟨hi, hparent⟩ := h.get_or_create h.root_mem hdir
  dsimp only at hg
  cases parent with
  | none =>
    cases hg
    exact ⟨hi, fun d hd => by cases hd⟩
  | some parent =>
    have hlive := hparent parent rfl
    dsimp only at hg
    rw [ramfs_find_child_eq hlive, ok_bind] at hg
    cases he : (g.inodes parent).child (path.rtakeWhile fun c => c ≠ '/') with
    | some e =>
      rw [he] at hg
      cases hg
      refine ⟨hi, fun d hd => ?_⟩
      cases hd
      exact hi.tree.targets parent hlive e (child_mem he).1
    | none =>
      rw [he] at hg
      obtain ⟨⟨g1, r1, node⟩, hnew, hg⟩ := bind_ok.mp hg
      obtain ⟨-, -, rfl, -⟩ := ramfs_create_node_made hi.heap hnew
      dsimp only at hg
      rw [if_neg (by decide)] at hg
      obtain ⟨⟨g2, r2⟩, hadd, hg⟩ := bind_ok.mp hg
      obtain ⟨hi', ha⟩ := hi.attempt hlive he hnew hadd
      dsimp only at hg
      by_cases hr : r2 ≠ RAMFS_RESULT_OK
      · rw [if_pos hr] at hg
        cases hg
        exact ⟨hi', fun d hd => by cases hd⟩
      · rw [if_neg hr] at hg
        cases hg
        exact ⟨hi', fun d hd => by cases hd; exact ha.node_mem⟩

/-- The contents of a member change data only. -/
theorem tar_copy_data_names {node : Nat} {data : List Nat} (hh : HeapServes fs)
    (hg : tar_copy_data fs node data = .ok fs') : SameNames fs fs' ∧ HeapServes fs' ∧
      fs'.node_blocks = fs.node_blocks ∧ fs'.cache = fs.cache ∧
      fs'.last_cache_index = fs.last_cache_index := by
  unfold tar_copy_data at hg
  obtain ⟨i, hi, hg⟩ := bind_ok.mp hg
  obtain ⟨-, rfl⟩ := inode_ok.mp hi
  by_cases hlen : data.length = 0
  · rw [if_pos hlen] at hg
    cases hg
    exact ⟨sameNames_setInode fs node (fs.inodes node).data 0, hh, rfl, rfl, rfl⟩
  · rw [if_neg hlen] at hg
    dsimp only at hg
    rw [if_neg hh.next] at hg
    by_cases hb : DataBlock fs.pop_block.data_blocks fs.next_block (block_length data.length)
    · rw [if_neg (not_not.mpr hb)] at hg
      cases hg
      have hs := sameNames_setInode fs node fs.next_block data.length
      exact ⟨⟨hs.inodes, rfl, rfl, rfl, rfl⟩, hh.pop, rfl, rfl, rfl⟩
    · rw [if_pos hb] at hg
      cases hg

theorem Imported.copy_data {node : Nat} {data : List Nat} (h : Imported fs root)
    (hg : tar_copy_data fs node data = .ok fs') : Imported fs' root := by
  obtain ⟨hs, hh, hb, hc, hi⟩ := tar_copy_data_names h.heap hg
  exact h.data hs hh hb hc hi

theorem Imported.entry {entry : tar_entry_t} (h : Imported fs root)
    (hg : tar_create_entry root fs entry = .ok fs') : Imported fs' root := by
  unfold tar_create_entry at hg
  dsimp only at hg
  by_cases hpath : tar_path entry.full_name = [] ∨ tar_path entry.full_name = ['/']
  · rw [if_pos hpath] at hg
    cases hg
    exact h
  rw [if_neg hpath] at hg
  cases ht : entry.type with
  | VFS_NODE_TYPE_DIRECTORY =>
    rw [ht] at hg
    obtain ⟨⟨g, r⟩, hcreate, hg⟩ := bind_ok.mp hg
    cases hg
    exact (h.create_path hcreate).1
  | VFS_NODE_TYPE_FILE =>
    rw [ht] at hg
    obtain ⟨⟨g, r⟩, hcreate, hg⟩ := bind_ok.mp hg
    have hi := (h.create_path hcreate).1
    cases r with
    | none => cases hg
    | some node => exact hi.copy_data hg

theorem Imported.members {initrd : List tar_entry_t} (h : Imported fs root)
    (hg : initrd.foldlM (tar_create_entry root) fs = .ok fs') : Imported fs' root := by
  induction initrd generalizing fs with
  | nil =>
    cases hg
    exact h
  | cons entry initrd ih =>
    rw [List.foldlM_cons] at hg
    obtain ⟨g, hentry, hg⟩ := bind_ok.mp hg
    exact ih (h.entry hentry) hg

/-- A directory alone is a tree. -/
theorem tree_single (h : fs.inode_blocks = {fs.root_node}) (hz : fs.root_node ≠ 0)
    (hc : (fs.inodes fs.root_node).children = [])
    (ht : (fs.inodes fs.root_node).type = VFS_NODE_TYPE_DIRECTORY)
    (hl : (fs.inodes fs.root_node).link_count ≠ 0)
    (hid : (fs.inodes fs.root_node).id < fs.last_index) (hf : fs.freed = []) : Tree fs := by
  have hmem : ∀ {a}, a ∈ fs.inode_blocks → a = fs.root_node := by
    intro a ha
    rw [h] at ha
    exact Finset.mem_singleton.mp ha
  have hnone : ∀ {a}, a ∈ fs.inode_blocks → (fs.inodes a).children = [] := by
    intro a ha
    rw [hmem ha]
    exact hc
  have hlinks : ∀ x, links fs x = 0 := by
    intro x
    by_contra hne
    obtain ⟨a, ha, e, he, -⟩ := links_pos.mp (Nat.pos_of_ne_zero hne)
    rw [hnone ha] at he
    exact List.not_mem_nil he
  constructor
  · rw [h]
    exact Finset.mem_singleton_self _
  · exact ht
  · exact hlinks _
  · exact hl
  · intro a ha
    rw [hnone ha]
    exact List.nodup_nil
  · intro a ha
    rw [hnone ha]
    exact Nat.zero_le _
  · intro a ha e he
    rw [hnone ha] at he
    exact absurd he List.not_mem_nil
  · intro a ha b hb _
    rw [hmem ha, hmem hb]
  · intro a ha
    rw [hmem ha]
    exact hid
  · exact fun x _ => Or.inl (hlinks x)
  · intro x _ _
    rw [hlinks x]
    exact Nat.zero_le _
  · intro a ha e he
    rw [hnone ha] at he
    exact absurd he List.not_mem_nil
  · exact fun hm => hz (hmem hm).symm
  · rw [hf]
    exact fun i hi => absurd hi List.not_mem_nil
  · rw [hf]
    exact List.nodup_nil

/-- The root of the ramfs before the members of the initrd. -/
theorem imported_root {memory heap : Nat → Nat} (hh : ∀ n, heap n ≠ 0) (data size : Nat) :
    Imported (with_node (unmounted memory heap) VFS_NODE_TYPE_DIRECTORY data size) (heap 0) := by
  have hself : (with_node (unmounted memory heap) VFS_NODE_TYPE_DIRECTORY data size).inodes (heap 0) =
      ⟨0, [], VFS_NODE_TYPE_DIRECTORY, data, size, 1⟩ := with_node_self _ _ _
  refine ⟨tree_single rfl (hh 0) ?_ ?_ ?_ ?_ rfl, fun n => hh (n + 1), rfl, rfl, rfl⟩
  · exact congrArg ramfs_node_t.children hself
  · exact congrArg ramfs_node_t.type hself
  · dsimp only
    rw [hself]
    exact Nat.one_ne_zero
  · dsimp only
    rw [hself]
    exact Nat.zero_lt_one

theorem ramfs_driver_init_tree {memory heap : Nat → Nat} {initrd : List tar_entry_t}
    (hh : ∀ n, heap n ≠ 0) (hg : ramfs_driver_init (unmounted memory heap) initrd = .ok fs) :
    Imported fs fs.root_node := by
  unfold ramfs_driver_init at hg
  obtain ⟨⟨g, r, root⟩, hnew, hg⟩ := bind_ok.mp hg
  have hserves : HeapServes (unmounted memory heap) := hh
  obtain ⟨-, rfl, rfl, rfl⟩ := ramfs_create_node_made hserves hnew
  dsimp only at hg
  rw [if_neg (by decide)] at hg
  obtain ⟨g1, hmembers, hg⟩ := bind_ok.mp hg
  cases hg
  obtain ⟨htree, hheap, hunshown, hcache, hindices⟩ := (imported_root hh 0 9).members hmembers
  exact ⟨htree, hheap, hunshown, hcache, hindices⟩

/-! ## The root of the VFS -/

/-- `vfs_create_node` without a parent: the node gets a list of the cache for itself. -/
theorem Ordered.create_top (h : Ordered fs) {id : Int} {operations : vfs_node_operations_t}
    {fs_data : Nat} {type : vfs_node_type} {resource_type : resource_type_t}
    (hn : Viewed fs ⟨0, operations, type, resource_type, fs_data, fs.last_cache_index, id, 0⟩) :
    Post (· = .taken)
      (fun x => x.2.1 = RESOURCE_RESULT_OK ∧ Ordered x.1 ∧ Added fs x.1 x.2.2
        ⟨0, operations, type, resource_type, fs_data, fs.last_cache_index, id, 0⟩)
      (vfs_create_node fs 0 id operations fs_data type resource_type) := by
  have hkey : ∀ a ∈ fs.node_blocks, (fs.nodes a).cache_index = index_under fs 0 →
      (fs.nodes a).index ≠ id := by
    intro a ha hci
    exact absurd hci (h.cached.fresh a ha).ne
  rcases vfs_create_node_spec h.cached h.heap operations fs_data type resource_type (Or.inl rfl)
    hkey with ⟨he, -⟩ | ⟨g, he, ha, hc, hh, -⟩
  · rw [he]
    rfl
  · rw [he]
    exact ⟨rfl, h.added ha hc hh hn, ha⟩

/-- The file systems are in order before there is a node of the VFS. -/
theorem Imported.ordered (h : Imported fs fs.root_node) (ho : OnlyDirectories fs) : Ordered fs := by
  refine ⟨?_, h.tree, ho, ?_, h.heap⟩
  · constructor <;> simp [h.cache, h.unshown]
  · intro a ha
    rw [h.unshown] at ha
    exact absurd ha (Finset.notMem_empty a)

/-- Nothing is mounted yet, and only the cache and a few calls refer to the nodes of the VFS. -/
structure Unmounted (fs : fs_t) : Prop where
  steady : Steady fs
  mounts : ∀ a ∈ fs.node_blocks, (fs.nodes a).mount = 0
  spare : Spare fs 8

/-- `vfs.root` is set. -/
theorem Ordered.rooted (h : Ordered fs) (a : Nat) : Ordered { fs with root := a } := by
  have hsame : SameTree fs { fs with root := a } := ⟨rfl, rfl, rfl, rfl, rfl⟩
  exact ⟨h.cached.same_vfs ⟨rfl, rfl, rfl, rfl⟩, h.tree.same hsame, h.only.same hsame,
    fun b hb => (h.views b hb).same hsame _ _, h.heap⟩

theorem vfs_module_init_unmounted (h : Ordered fs) (hb : fs.node_blocks = ∅)
    (hl : fs.last_cache_index = 0) (hi : vfs_module_init fs = .ok fs') : Unmounted fs' := by
  have hroot := h.tree.root
  have hview : Viewed fs ⟨0, .ramfs, (fs.inodes fs.root_node).type, RESOURCE_TYPE_FILE, fs.root_node,
      fs.last_cache_index, (fs.inodes fs.root_node).id, 0⟩ := by
    unfold Viewed
    rw [if_pos rfl]
    exact ⟨hroot, rfl, rfl, hl, rfl, Or.inl .root, Or.inl rfl⟩
  unfold vfs_module_init at hi
  rw [inode_ok.mpr ⟨hroot, rfl⟩, ok_bind] at hi
  obtain ⟨⟨g, r, a⟩, hnew, hi⟩ := bind_ok.mp hi
  obtain ⟨-, hg, hadd⟩ := (h.create_top hview).result hnew
  dsimp only at hi hg hadd
  have hlive : a ∈ g.node_blocks := by
    rw [hadd.node_blocks]
    exact Finset.mem_insert_self _ _
  have honly : ∀ b ∈ g.node_blocks, b = a := by
    intro b hb'
    rw [hadd.node_blocks, hb] at hb'
    simpa using hb'
  have hlock : vfs_lock_node { g with root := a } a = .ok (locked { g with root := a } a) :=
    vfs_lock_node_eq hadd.null hlive
  rw [hlock] at hi
  have hset := (hg.rooted a).locked a
  have hself : (locked { g with root := a } a).nodes a =
      ⟨0, .ramfs, (fs.inodes fs.root_node).type, RESOURCE_TYPE_FILE, fs.root_node,
        fs.last_cache_index, (fs.inodes fs.root_node).id, 2⟩ := by
    rw [locked_self]
    dsimp only
    rw [hadd.self]
    rfl
  have hrest : ∀ b ∈ (locked { g with root := a } a).node_blocks,
      (locked { g with root := a } a).nodes b = (locked { g with root := a } a).nodes a :=
    fun b hb' => by rw [honly b hb']
  have hr : (locked { g with root := a } a).root = a := rfl
  have hn : (locked { g with root := a } a).root_node = fs.root_node := hadd.root_node
  have hlive' : a ∈ (locked { g with root := a } a).node_blocks := hlive
  obtain rfl := Except.ok.inj hi
  generalize locked { g with root := a } a = g' at *
  rw [hself] at hrest
  have hspare : Spare g' 8 := by
    intro b hb'
    rw [hrest b hb']
    dsimp only
    omega
  refine ⟨⟨⟨hset, ?_, ?_, ?_, hspare.less (by decide)⟩, ?_⟩, ?_, hspare⟩
  · rw [hr]
    exact hlive'
  · rw [hr, hself, hn]
    rfl
  · intro b hb' hm
    rw [hrest b hb'] at hm
    exact absurd rfl hm
  · rw [hr, hself]
    exact (by decide : 2 ≠ 1)
  · intro b hb'
    rw [hrest b hb']

/-! ## The devices -/

/-- `dev_directory->mount` is set. -/
theorem Ordered.mounted (h : Ordered fs) (a m : Nat) :
    Ordered (fs.setNode a { fs.nodes a with mount := m }) := by
  have hnode : ∀ b, ∃ k, (fs.setNode a { fs.nodes a with mount := m }).nodes b =
      { fs.nodes b with mount := k } := by
    intro b
    by_cases hb : b = a
    · rw [hb]
      exact ⟨m, Function.update_self _ _ _⟩
    · exact ⟨(fs.nodes b).mount, Function.update_of_ne hb _ _⟩
  have hsame : SameTree fs (fs.setNode a { fs.nodes a with mount := m }) :=
    ⟨rfl, rfl, rfl, rfl, rfl⟩
  refine ⟨h.cached.same_keys rfl ?_ rfl rfl, h.tree.same hsame, h.only.same hsame, ?_, h.heap⟩
  · intro b
    obtain ⟨k, hk⟩ := hnode b
    rw [hk]
    exact ⟨rfl, rfl⟩
  · intro b hb
    obtain ⟨k, hk⟩ := hnode b
    rw [hk]
    exact (h.views b hb).same hsame k _

/-- The root of the devices is new, it is locked, and it is mounted on the directory. -/
structure DevicesMounted (fs fs' : fs_t) (dev m : Nat) : Prop where
  ordered : Ordered fs'
  fresh : m ∉ fs.node_blocks
  node_blocks : fs'.node_blocks = insert m fs.node_blocks
  directory : fs'.nodes dev = { fs.nodes dev with mount := m }
  root_of_devices : (fs'.nodes m).operations = .devfs ∧ (fs'.nodes m).mount = 0 ∧
    (fs'.nodes m).ref_count = 2
  others : ∀ a ∈ fs.node_blocks, a ≠ dev → fs'.nodes a = fs.nodes a
  root : fs'.root = fs.root
  root_node : fs'.root_node = fs.root_node

theorem devfs_mount_post (h : Ordered fs) (hroot : fs.root ∈ fs.node_blocks)
    (htop : (fs.nodes fs.root).operations = .ramfs) {dev : Nat} (hdev : dev ∈ fs.node_blocks)
    (hm : devfs_mount fs dev = .ok fs') : ∃ m, DevicesMounted fs fs' dev m := by
  -- The ramfs has the first index of the cache, so the devices get another one.
  have hindex : fs.last_cache_index ≠ 0 := by
    have hlt := h.cached.fresh fs.root hroot
    have hzero := ((h.views _ hroot).shown htop).index
    omega
  have hview : Viewed fs ⟨0, .devfs, VFS_NODE_TYPE_DIRECTORY, RESOURCE_TYPE_FILE, 0,
      fs.last_cache_index, -1, 0⟩ := by
    unfold Viewed
    rw [if_neg (fun hc => by cases hc), if_pos rfl]
    exact ⟨hindex, rfl, rfl⟩
  unfold devfs_mount at hm
  obtain ⟨⟨g, r, m⟩, hnew, hm⟩ := bind_ok.mp hm
  obtain ⟨hr, hg, hadd⟩ := (h.create_top hview).result hnew
  dsimp only at hr hg hadd hm
  have hlive : m ∈ g.node_blocks := by
    rw [hadd.node_blocks]
    exact Finset.mem_insert_self _ _
  have hne : dev ≠ m := fun he => hadd.unused.1 (he ▸ hdev)
  have hdev' : dev ∈ (locked g m).node_blocks := by
    change dev ∈ g.node_blocks
    rw [hadd.node_blocks]
    exact Finset.mem_insert_of_mem hdev
  rw [if_neg (by simp [hr]), vfs_lock_node_eq hadd.null hlive, ok_bind,
    node_ok.mpr ⟨hdev', rfl⟩, ok_bind] at hm
  cases hm
  have hord := (hg.locked m).mounted dev m
  have hold : ∀ a, a ≠ m → (locked g m).nodes a = fs.nodes a := by
    intro a ha
    rw [locked_ne g ha, hadd.others a ha]
  have hself : (locked g m).nodes m = ⟨0, .devfs, VFS_NODE_TYPE_DIRECTORY, RESOURCE_TYPE_FILE, 0,
      fs.last_cache_index, -1, 2⟩ := by
    rw [locked_self, hadd.self]
    rfl
  refine ⟨m, hord, hadd.unused.1, hadd.node_blocks, ?_, ?_, ?_, hadd.root, hadd.root_node⟩
  · rw [← hold dev hne]
    exact Function.update_self _ _ _
  · have hkeep : ((locked g m).setNode dev { (locked g m).nodes dev with mount := m }).nodes m =
        (locked g m).nodes m := Function.update_of_ne hne.symm _ _
    rw [hkeep, hself]
    exact ⟨rfl, rfl, rfl⟩
  · intro a ha had
    rw [← hold a fun he => hadd.unused.1 (he ▸ ha)]
    exact Function.update_of_ne had _ _

/-- Before the devices are mounted, a few references make no count wrap. -/
theorem Unmounted.handled {held : List Nat} (h : Unmounted fs0) (hh : Handled fs0 fs held)
    (hlen : held.length ≤ 7) : Spare fs 1 ∧ (∀ a ∈ fs.node_blocks, (fs.nodes a).mount = 0) ∧
      (∀ a ∈ fs.node_blocks, a ∈ held ∨ a = fs.root → (fs.nodes a).ref_count ≠ 1) ∧
      fs.root ∈ fs.node_blocks ∧ place_of (fs.nodes fs.root) = .inode fs.root_node := by
  have hle : ∀ a, held.count a ≤ 7 := fun a => le_trans List.count_le_length hlen
  obtain ⟨hroot, k, hk⟩ := hh.tally.kept fs0.root h.steady.settled.root h.steady.root
  refine ⟨?_, ?_, ?_, ?_, ?_⟩
  · intro a ha
    have hcount := hle a
    by_cases ha0 : a ∈ fs0.node_blocks
    · obtain ⟨h1, h2⟩ := h.spare a ha0
      rw [hh.tally.old a ha0 ha, u32_of_lt (by omega)]
      omega
    · rw [(hh.tally.new a ha ha0).1, u32_of_lt (by omega)]
      omega
  · intro a ha
    by_contra hm
    obtain ⟨ha0, he⟩ := hh.tally.mounts a ha hm
    exact hm (he ▸ h.mounts a ha0)
  · rintro a ha hheld
    refine hh.tally.count_ne_one (h.spare.less (by decide)) hle (by decide) ha (hheld.imp_right ?_)
    rintro rfl
    rw [hh.root]
    exact ⟨h.steady.settled.root, h.steady.root⟩
  · rw [hh.root]
    exact hroot
  · rw [hh.root, hh.root_node, hk]
    exact h.steady.settled.top

theorem DevicesMounted.steady {held : List Nat} {dev m : Nat} (hd : DevicesMounted fs fs' dev m)
    (h : Unmounted fs0) (hh : Handled fs0 fs held) (hlen : held.length ≤ 7) (hdev : dev ∈ held)
    (hop : (fs.nodes dev).operations = .ramfs) : Steady fs' := by
  obtain ⟨hspare, hmounts, hmore, hroot, htop⟩ := h.handled hh hlen
  have hlive := hh.tally.live dev hdev
  obtain ⟨hmop, hmm, hmc⟩ := hd.root_of_devices
  have hdirectory := hd.directory
  have hcases : ∀ a ∈ fs'.node_blocks, a = m ∨ (a = dev ∧ fs'.nodes a = { fs.nodes a with mount := m }) ∨
      (a ≠ dev ∧ a ∈ fs.node_blocks ∧ fs'.nodes a = fs.nodes a) := by
    intro a ha
    rw [hd.node_blocks, Finset.mem_insert] at ha
    rcases ha with rfl | ha
    · exact Or.inl rfl
    · by_cases had : a = dev
      · exact Or.inr (Or.inl ⟨had, had ▸ hdirectory⟩)
      · exact Or.inr (Or.inr ⟨had, ha, hd.others a ha had⟩)
  have hrecord : ∀ a ∈ fs.node_blocks, ∃ k, fs'.nodes a = { fs.nodes a with mount := k } := by
    intro a ha
    by_cases had : a = dev
    · exact ⟨m, had ▸ hdirectory⟩
    · exact ⟨(fs.nodes a).mount, hd.others a ha had⟩
  have hcount : ∀ a ∈ fs.node_blocks, (fs'.nodes a).ref_count = (fs.nodes a).ref_count := by
    intro a ha
    obtain ⟨k, hk⟩ := hrecord a ha
    rw [hk]
  have hin : ∀ a ∈ fs.node_blocks, a ∈ fs'.node_blocks := by
    intro a ha
    rw [hd.node_blocks]
    exact Finset.mem_insert_of_mem ha
  refine ⟨⟨hd.ordered, ?_, ?_, ?_, ?_⟩, ?_⟩
  · rw [hd.root]
    exact hin _ hroot
  · obtain ⟨k, hk⟩ := hrecord _ hroot
    rw [hd.root, hd.root_node, hk]
    exact htop
  · intro a ha hm
    rcases hcases a ha with rfl | ⟨rfl, he⟩ | ⟨-, ha0, he⟩
    · exact absurd hmm hm
    · rw [hcount a hlive, he]
      refine ⟨hop, hmore a hlive (Or.inl hdev), ?_, hmop, ?_⟩
      · rw [hd.node_blocks]
        exact Finset.mem_insert_self _ _
      · rw [hmc]
        decide
    · rw [he] at hm
      exact absurd (hmounts a ha0) hm
  · intro a ha
    rw [hd.node_blocks, Finset.mem_insert] at ha
    rcases ha with rfl | ha
    · rw [hmc]
      omega
    · rw [hcount a ha]
      exact hspare a ha
  · rw [hd.root, hcount _ hroot]
    exact hmore _ hroot (Or.inr rfl)

/-- A call that took a few references only leaves the file systems steady. -/
theorem Unmounted.steady_after {held : List Nat} (h : Unmounted fs0) (hh : Handled fs0 fs held)
    (hlen : held.length ≤ 7) : Steady fs := by
  obtain ⟨hspare, hmounts, hmore, hroot, htop⟩ := h.handled hh hlen
  exact ⟨⟨hh.ordered, hroot, htop, fun a ha hm => absurd (hmounts a ha) hm, hspare⟩,
    hmore _ hroot (Or.inr rfl)⟩

theorem not_crosses (h : ∀ a ∈ fs.node_blocks, (fs.nodes a).mount = 0) (p : place)
    (path : List (List Char)) : ¬ Crosses fs p path := by
  induction path generalizing p with
  | nil => exact id
  | cons name path ih =>
    rintro (⟨a, ha, -, hm⟩ | ⟨q, -, hq⟩)
    · exact hm (h a ha)
    · exact ih q hq

/-- What `devfs_module_init` leaves: a few references, and the devices mounted on a node of the ramfs
that it keeps locked, if it had one. -/
def DevicesReady (fs fs' : fs_t) : Prop :=
  ∃ g held, held.length ≤ 7 ∧ Handled fs g held ∧
    (fs' = g ∨ ∃ dev m, dev ∈ held ∧ (g.nodes dev).operations = .ramfs ∧
      DevicesMounted g fs' dev m)

theorem Unmounted.mount_ready {held : List Nat} {dev y : Nat} (h : Unmounted fs0)
    (hh : Handled fs0 fs held) (hlen : held.length ≤ 7) (hdev : dev ∈ held)
    (hplace : place_of (fs.nodes dev) = .inode y) (hm : devfs_mount fs dev = .ok fs') :
    DevicesReady fs0 fs' := by
  obtain ⟨-, -, -, hroot, htop⟩ := h.handled hh hlen
  obtain ⟨m, hd⟩ := devfs_mount_post hh.ordered hroot (place_of_inode.mp htop).1
    (hh.tally.live dev hdev) hm
  exact ⟨fs, held, hlen, hh, Or.inr ⟨dev, m, hdev, (place_of_inode.mp hplace).1, hd⟩⟩

/-- `vfs_create` after a walk that failed: a node is handed over, or the call fails. -/
theorem Unmounted.created {g : fs_t} {rest : List Nat} {path : List Char} {type : vfs_node_type}
    {r : resource_result_t} {node : Nat} (h : Unmounted fs) (hw : Walk fs g rest)
    (hlen : rest.length ≤ 2) (hnodup : rest.Nodup)
    (hc : vfs_create g path type = .ok (fs', r, node)) :
    ∃ held, held.length ≤ 7 ∧ Handled fs fs' held ∧
      (r = RESOURCE_RESULT_OK → node ∈ held ∧ ∃ y, place_of (fs'.nodes node) = .inode y) := by
  obtain ⟨held, hlen', -, hh, hok⟩ :=
    vfs_create_handled (h.steady.after hw.handled hnodup) hc
  refine ⟨held ++ rest, ?_, hw.handled.trans hh h.steady.settled.counts
    (List.nodup_iff_count_le_one.mp hnodup) (by decide), fun hr => ?_⟩
  · rw [List.length_append]
    omega
  · obtain ⟨rfl, hplace⟩ := hok hr
    exact ⟨List.mem_append_left rest (List.mem_singleton_self node), hplace⟩

/-- The devices are mounted on `/dev`, unless there is no place for it in the root. -/
theorem devfs_module_init_ready (h : Unmounted fs) (hi : devfs_module_init fs = .ok fs') :
    DevicesReady fs fs' := by
  unfold devfs_module_init at hi
  obtain ⟨⟨g, r, a⟩, hres, hi⟩ := bind_ok.mp hi
  obtain ⟨-, hx⟩ := (destination_post h.steady.settled.resting DEV).result hres
  dsimp only at hi
  cases hd : destination fs DEV with
  | ok p =>
    rw [hd] at hx
    obtain ⟨hr, hp, rest, hlen, -, -, -, hw, -⟩ := hx
    obtain ⟨y, rfl⟩ := straight_inode hd (not_crosses h.mounts _ _)
    dsimp only at hr hp hw
    rw [if_pos hr] at hi
    refine h.mount_ready hw.handled ?_ List.mem_cons_self hp hi
    rw [List.length_cons]
    omega
  | error e =>
    rw [hd] at hx
    obtain ⟨hfail, hne, rest, -, hlen, hnodup, hw⟩ := hx
    obtain ⟨rfl, -⟩ := Prod.mk.inj hfail
    dsimp only at hw
    rw [if_neg hne] at hi
    obtain ⟨⟨g', r', dev⟩, hcreate, hi⟩ := bind_ok.mp hi
    obtain ⟨held, hlen', hh, hok⟩ := h.created hw hlen hnodup hcreate
    dsimp only at hi
    by_cases hr : r' = RESOURCE_RESULT_OK
    · obtain ⟨hmem, y, hplace⟩ := hok hr
      rw [if_neg (not_not.mpr hr)] at hi
      exact h.mount_ready hh hlen' hmem hplace hi
    · rw [if_pos hr] at hi
      cases hi
      exact ⟨fs', held, hlen', hh, Or.inl rfl⟩

/-- The boot up to the devices, when the import of the initrd enters nothing below a file. -/
theorem boot_unmounted {memory heap : Nat → Nat} {initrd : List tar_entry_t} (hh : ∀ n, heap n ≠ 0)
    (hboot : boot memory heap initrd = .ok fs)
    (ho : ∀ g, ramfs_driver_init (unmounted memory heap) initrd = .ok g → OnlyDirectories g) :
    ∃ g, Unmounted g ∧ DevicesReady g fs := by
  unfold boot at hboot
  obtain ⟨g, hdriver, hboot⟩ := bind_ok.mp hboot
  obtain ⟨g', hmodule, hdevices⟩ := bind_ok.mp hboot
  have himported := ramfs_driver_init_tree hh hdriver
  have hunmounted := vfs_module_init_unmounted (himported.ordered (ho g hdriver))
    himported.unshown himported.indices hmodule
  exact ⟨g', hunmounted, devfs_module_init_ready hunmounted hdevices⟩

theorem Unmounted.steady_boot (h : Unmounted fs) (hd : DevicesReady fs fs') : Steady fs' := by
  obtain ⟨g, held, hlen, hh, rfl | ⟨dev, m, hdev, hop, hmounted⟩⟩ := hd
  · exact h.steady_after hh hlen
  · exact hmounted.steady h hh hlen hdev hop

end alura_os.vfs
