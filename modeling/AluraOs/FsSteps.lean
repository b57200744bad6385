-- Calls on the nodes of the VFS keep the file systems in order: locks and
-- releases, new nodes, lookups and the walk along a path.
import AluraOs.FsTree

namespace alura_os.vfs

open alura_os.memory alura_os.resource faults
open resource_result_t resource_type_t vfs_node_type

variable {fs fs' : fs_t}

/-! ## Counts of references -/

theorem Viewed.same {n : vfs_node_t} (h : Viewed fs n) (ht : SameTree fs fs') (m k : Nat) :
    Viewed fs' { n with mount := m, ref_count := k } := by
  unfold Viewed at h ⊢
  by_cases hop : n.operations = .ramfs
  · rw [if_pos hop] at h
    rw [if_pos hop]
    exact h.same ht m k
  · rw [if_neg hop] at h
    rw [if_neg hop]
    exact h

theorem Ordered.same (h : Ordered fs) (hs : SameShape fs fs') (hh : HeapServes fs') :
    Ordered fs' := by
  refine ⟨h.cached.same hs, h.tree.same hs.tree, h.only.same hs.tree, ?_, hh⟩
  intro a ha
  rw [hs.node_blocks] at ha
  obtain ⟨k, hk⟩ := hs.nodes a
  rw [hk]
  exact (h.views a ha).same hs.tree _ k

theorem Ordered.setCount (h : Ordered fs) (a n : Nat) : Ordered (fs.setCount a n) :=
  h.same (sameShape_setCount fs a n) h.heap

theorem Ordered.locked (h : Ordered fs) (a : Nat) : Ordered (vfs.locked fs a) := h.setCount a _

/-! ## New nodes -/

theorem Ordered.added {node : Nat} {n : vfs_node_t} (h : Ordered fs) (ha : Added fs fs' node n)
    (hc : Cached fs') (hh : HeapServes fs') (hn : Viewed fs n) : Ordered fs' := by
  refine ⟨hc, h.tree.same ha.tree, h.only.same ha.tree, ?_, hh⟩
  intro a hm
  by_cases hne : a = node
  · rw [hne, ha.self]
    exact hn.same ha.tree _ 1
  · rw [ha.node_blocks, Finset.mem_insert] at hm
    rw [ha.others a hne]
    exact (h.views a (hm.resolve_left hne)).same ha.tree _ _

/-! ## Evictions -/

theorem Tree.link_count_pos (h : Tree fs) {x : Nat} (hx : Reachable fs x) :
    (fs.inodes x).link_count ≠ 0 := by
  rcases hx.cases_root h with rfl | hl
  · exact h.root_count
  · have := (h.counts x (hx.mem h)).resolve_left hl.ne'
    omega

theorem links_free_inode {x : Nat} (hc : (fs.inodes x).children = []) (y : Nat) :
    links (fs.free_inode x) y = links fs y := by
  have hz : entries (fs.inodes x).children y = 0 := by simp [hc, entries]
  exact Finset.sum_erase _ hz

theorem reachable_free_inode (x : Nat) {a : Nat} :
    Reachable (fs.free_inode x) a ↔ Reachable fs a := by
  apply reachable_congr
  · rfl
  · exact fun _ => rfl

/-- A node of the ramfs without entries and without a name can go. -/
theorem Tree.free_inode (h : Tree fs) {x : Nat} (hx : x ∈ fs.inode_blocks) (hl : links fs x = 0)
    (hr : x ≠ fs.root_node) (hc : (fs.inodes x).children = []) : Tree (fs.free_inode x) := by
  have hsub : ∀ {a}, a ∈ (fs.free_inode x).inode_blocks → a ∈ fs.inode_blocks :=
    fun ha => Finset.mem_of_mem_erase ha
  constructor
  · exact Finset.mem_erase.mpr ⟨hr.symm, h.root⟩
  · exact h.directory
  · rw [links_free_inode hc]
    exact h.root_links
  · exact h.root_count
  · exact fun d hd => h.names d (hsub hd)
  · exact fun d hd => h.room d (hsub hd)
  · intro d hd e he
    refine Finset.mem_erase.mpr ⟨fun hex => ?_, h.targets d (hsub hd) e he⟩
    exact (links_pos.mpr ⟨d, hsub hd, e, he, hex⟩).ne' hl
  · exact fun a ha b hb => h.ids a (hsub ha) b (hsub hb)
  · exact fun a ha => h.last a (hsub ha)
  · intro y hy
    rw [links_free_inode hc]
    exact h.counts y (hsub hy)
  · intro y hy
    rw [links_free_inode hc]
    exact h.single y (hsub hy)
  · intro d hd e he
    rw [reachable_free_inode, reachable_free_inode]
    exact h.closed d (hsub hd) e he
  · exact fun hz => h.null (hsub hz)
  · intro i hi
    rcases List.mem_cons.mp hi with rfl | hi
    · refine ⟨h.last x hx, fun a ha he => ?_⟩
      exact Finset.ne_of_mem_erase ha (h.ids a (hsub ha) x hx he)
    · exact ⟨(h.freed i hi).1, fun a ha => (h.freed i hi).2 a (hsub ha)⟩
  · exact List.nodup_cons.mpr ⟨fun hi => (h.freed _ hi).2 x hx rfl, h.once⟩

theorem Shown.free_inode {n : vfs_node_t} {x : Nat} (h : Shown fs n) (hne : n.fs_data ≠ x)
    (hc : (fs.inodes x).children = []) : Shown (fs.free_inode x) n := by
  constructor
  · exact Finset.mem_erase.mpr ⟨hne, h.there⟩
  · exact h.id
  · exact h.type
  · exact h.index
  · exact h.plain
  · rw [reachable_free_inode, links_free_inode hc]
    exact h.reached
  · rw [links_free_inode hc]
    exact h.counted

theorem Viewed.shown {n : vfs_node_t} (h : Viewed fs n) (hop : n.operations = .ramfs) :
    Shown fs n := by
  unfold Viewed at h
  rwa [if_pos hop] at h

theorem Shown.viewed {n : vfs_node_t} (h : Shown fs n) (hop : n.operations = .ramfs) :
    Viewed fs n := by
  unfold Viewed
  rwa [if_pos hop]

/-- Two nodes of the VFS do not show the same node of the ramfs. -/
theorem Ordered.shown_ne (h : Ordered fs) {a b : Nat} (ha : a ∈ fs.node_blocks)
    (hb : b ∈ fs.node_blocks) (hop : (fs.nodes a).operations = .ramfs)
    (hop' : (fs.nodes b).operations = .ramfs) (hne : b ≠ a) :
    (fs.nodes b).fs_data ≠ (fs.nodes a).fs_data := by
  have hsa := (h.views a ha).shown hop
  have hsb := (h.views b hb).shown hop'
  intro he
  apply hne
  refine h.cached.key b hb a ha (hsb.index.trans hsa.index.symm) ?_
  rw [← hsb.id, ← hsa.id, he]

/-- A file without a name has no entries and no links. -/
theorem Shown.unnamed {n : vfs_node_t} (h : Shown fs n) (ht : Tree fs) (ho : OnlyDirectories fs)
    (hz : (fs.inodes n.fs_data).link_count = 0) :
    links fs n.fs_data = 0 ∧ n.fs_data ≠ fs.root_node ∧ (fs.inodes n.fs_data).children = [] := by
  rcases h.reached with hr | ⟨hl, hf, hr⟩
  · exact absurd hz (ht.link_count_pos hr)
  · exact ⟨hl, hr, ho _ h.there (h.type.trans hf)⟩

theorem Ordered.evicted (h : Ordered fs) {a : Nat} (ha : a ∈ fs.node_blocks) :
    Ordered (vfs.evicted fs a) := by
  by_cases hg : GoesWith fs (fs.nodes a)
  · -- The node of the ramfs goes too: no other node of the VFS shows it.
    have hs := (h.views a ha).shown hg.1
    obtain ⟨hl, hr, hc⟩ := hs.unnamed h.tree h.only hg.2
    have hsame : SameTree (fs.free_inode (fs.nodes a).fs_data) (vfs.evicted fs a) := by
      constructor <;> simp [hg, fs_t.free_inode]
    have ht : Tree (fs.free_inode (fs.nodes a).fs_data) := h.tree.free_inode hs.there hl hr hc
    refine ⟨h.cached.evicted ha, ht.same hsame, ?_, ?_, ?_⟩
    · refine OnlyDirectories.same (fun x hx => ?_) hsame
      exact h.only x (Finset.mem_of_mem_erase hx)
    · intro b hb
      rw [evicted_node_blocks, Finset.mem_erase] at hb
      have hv := h.views b hb.2
      rw [evicted_nodes]
      unfold Viewed at hv ⊢
      by_cases hop : (fs.nodes b).operations = .ramfs
      · rw [if_pos hop] at hv
        rw [if_pos hop]
        exact (hv.free_inode (h.shown_ne ha hb.2 hg.1 hop hb.1) hc).same hsame _ _
      · rw [if_neg hop] at hv
        rw [if_neg hop]
        exact hv
    · rw [HeapServes, evicted_heap]
      exact h.heap
  · have hsame : SameTree fs (vfs.evicted fs a) := by
      constructor <;> simp [hg]
    refine ⟨h.cached.evicted ha, h.tree.same hsame, h.only.same hsame, ?_, ?_⟩
    · intro b hb
      rw [evicted_node_blocks, Finset.mem_erase] at hb
      rw [evicted_nodes]
      exact (h.views b hb.2).same hsame _ _
    · rw [HeapServes, evicted_heap]
      exact h.heap

theorem Ordered.released (h : Ordered fs) {a : Nat} (ha : a ∈ fs.node_blocks) :
    Ordered (vfs.released fs a) := by
  unfold vfs.released
  dsimp only
  split
  · exact (h.setCount a _).evicted ha
  · exact h.setCount a _

theorem Ordered.release_ok (h : Ordered fs) {a : Nat} (ha : a ∈ fs.node_blocks) :
    vfs_release_node fs a = .ok (vfs.released fs a) :=
  vfs_release_node_eq h.cached ha fun hop => ((h.views a ha).shown hop).there

/-! ## Calls that change no entry -/

/-- No entry, no count of links and no byte of a file differs. -/
structure Calm (fs fs' : fs_t) : Prop where
  tree : SameTree fs fs'
  memory : fs'.memory = fs.memory
  data_blocks : fs'.data_blocks = fs.data_blocks
  root : fs'.root = fs.root

theorem Calm.refl (fs : fs_t) : Calm fs fs := ⟨⟨rfl, rfl, rfl, rfl, rfl⟩, rfl, rfl, rfl⟩

theorem SameTree.trans {fs'' : fs_t} (h : SameTree fs fs') (h' : SameTree fs' fs'') :
    SameTree fs fs'' :=
  ⟨h'.inodes.trans h.inodes, h'.inode_blocks.trans h.inode_blocks, h'.root_node.trans h.root_node,
    h'.last_index.trans h.last_index, h'.freed.trans h.freed⟩

theorem Calm.trans {fs'' : fs_t} (h : Calm fs fs') (h' : Calm fs' fs'') : Calm fs fs'' :=
  ⟨h.tree.trans h'.tree, h'.memory.trans h.memory, h'.data_blocks.trans h.data_blocks,
    h'.root.trans h.root⟩

theorem SameShape.calm (h : SameShape fs fs') : Calm fs fs' :=
  ⟨h.tree, h.memory, h.data_blocks, h.root⟩

theorem Added.calm {node : Nat} {n : vfs_node_t} (h : Added fs fs' node n) : Calm fs fs' :=
  ⟨h.tree, h.memory, h.data_blocks, h.root⟩

theorem calm_evicted {a : Nat} (h : ¬ GoesWith fs (fs.nodes a)) : Calm fs (evicted fs a) := by
  refine ⟨?_, by simp, ?_, by simp⟩
  · constructor <;> simp [h]
  · have hc : ¬ GoesWith (cache_remove fs (fs.nodes a)) (fs.nodes a) := h
    unfold evicted unnamed_freed
    rw [if_neg hc]
    rfl

theorem goesWith_setCount (a n : Nat) (m : vfs_node_t) :
    GoesWith (fs.setCount a n) m ↔ GoesWith fs m := Iff.rfl

theorem goesWith_count (fs : fs_t) (n : vfs_node_t) (k : Nat) :
    GoesWith fs { n with ref_count := k } ↔ GoesWith fs n := Iff.rfl

theorem calm_released {a : Nat} (h : ¬ GoesWith fs (fs.nodes a)) : Calm fs (released fs a) := by
  have hs := (sameShape_setCount fs a (sub32 (fs.nodes a).ref_count 1)).calm
  unfold released
  dsimp only
  split
  · apply hs.trans
    apply calm_evicted
    rw [setCount_self, goesWith_count, goesWith_setCount]
    exact h
  · exact hs

theorem released_eq (fs : fs_t) (a : Nat) :
    released fs a = fs.setCount a (sub32 (fs.nodes a).ref_count 1) ∨
      released fs a = evicted (fs.setCount a (sub32 (fs.nodes a).ref_count 1)) a := by
  unfold released
  dsimp only
  split
  · exact Or.inr rfl
  · exact Or.inl rfl

theorem released_nodes (fs : fs_t) (a : Nat) :
    (released fs a).nodes = (fs.setCount a (sub32 (fs.nodes a).ref_count 1)).nodes := by
  rcases released_eq fs a with he | he
  · rw [he]
  · rw [he, evicted_nodes]

theorem Calm.goesWith (h : Calm fs fs') (n : vfs_node_t) : GoesWith fs' n ↔ GoesWith fs n := by
  unfold GoesWith
  rw [h.tree.inodes]

/-- What can be reached goes with no node of the VFS. -/
theorem Ordered.stays (h : Ordered fs) {n : vfs_node_t} (hr : Reachable fs n.fs_data) :
    ¬ GoesWith fs n := fun hg => h.tree.link_count_pos hr hg.2

/-! ## Places -/

/-- Where a path can lead: to a node of the ramfs, to the directory of the devices, or to one of
the devices. -/
inductive place where
  | inode (a : Nat)
  | devices
  | device (i : Nat)
  deriving DecidableEq, Repr

/-- What a node of the VFS is for. -/
def place_of (n : vfs_node_t) : place :=
  match n.operations with
  | .ramfs => .inode n.fs_data
  | .devfs => .devices
  | _ => .device n.index.toNat

/-- The index of a device in `devfs_entries`. -/
def device_index (name : List Char) : Nat := devfs_entries.findIdx fun e => e.1 = name

/-- What a name means at a place. -/
def enter (fs : fs_t) (p : place) (name : List Char) : Except resource_result_t place :=
  match p with
  | .inode a =>
    match (fs.inodes a).child name with
    | some e => .ok (.inode e.node)
    | none => .error RESOURCE_RESULT_NOT_FOUND
  | .devices =>
    if device_index name < devfs_entries.length then .ok (.device (device_index name))
    else .error RESOURCE_RESULT_NOT_FOUND
  | .device _ => .error RESOURCE_RESULT_BAD_PARAMETER

theorem SameTree.enter (h : SameTree fs fs') (p : place) (name : List Char) :
    vfs.enter fs' p name = vfs.enter fs p name := by
  unfold vfs.enter
  rw [h.inodes]

/-! ## Lookups -/

/-- A node of the VFS for the place: one of the cache, or a new one. -/
structure Fetched (fs fs' : fs_t) (node : Nat) (p : place) : Prop where
  ordered : Ordered fs'
  shows : place_of (fs'.nodes node) = p
  origin : (fs' = fs ∧ node ∈ fs.node_blocks) ∨
    ∃ n, Added fs fs' node n ∧ n.mount = 0

theorem Fetched.calm {node : Nat} {p : place} (h : Fetched fs fs' node p) : Calm fs fs' := by
  rcases h.origin with ⟨rfl, -⟩ | ⟨n, ha, -⟩
  · exact Calm.refl fs'
  · exact ha.calm

theorem Fetched.live {node : Nat} {p : place} (h : Fetched fs fs' node p) :
    node ∈ fs'.node_blocks := by
  rcases h.origin with ⟨rfl, hm⟩ | ⟨n, ha, -⟩
  · exact hm
  · rw [ha.node_blocks]
    exact Finset.mem_insert_self _ _

/-- The directory of a node of the VFS with entries can be reached. -/
theorem Ordered.directory (h : Ordered fs) {d : Nat} (hd : d ∈ fs.node_blocks)
    (hop : (fs.nodes d).operations = .ramfs) {e : ramfs_dirent_t}
    (he : e ∈ (fs.inodes (fs.nodes d).fs_data).children) :
    Reachable fs (fs.nodes d).fs_data :=
  ((h.views d hd).shown hop).reachable h.only (List.ne_nil_of_mem he)

/-- A new node of the VFS for an entry of a directory. -/
theorem Ordered.shown_entry (h : Ordered fs) {d : Nat} (hd : d ∈ fs.node_blocks)
    (hop : (fs.nodes d).operations = .ramfs) {e : ramfs_dirent_t}
    (he : e ∈ (fs.inodes (fs.nodes d).fs_data).children) :
    Shown fs ⟨0, .ramfs, (fs.inodes e.node).type, RESOURCE_TYPE_FILE, e.node,
      (fs.nodes d).cache_index, (fs.inodes e.node).id, 0⟩ := by
  have hr := h.directory hd hop he
  have hm := hr.mem h.tree
  constructor
  · exact h.tree.targets _ hm e he
  · rfl
  · rfl
  · exact ((h.views d hd).shown hop).index
  · rfl
  · exact Or.inl (hr.child he)
  · exact Or.inr (h.tree.counted hm he)

theorem Ordered.ne_null (h : Ordered fs) {a : Nat} (ha : a ∈ fs.node_blocks) : a ≠ 0 :=
  fun hz => h.cached.null (hz ▸ ha)

/-- A query for a key in the cache of a node that is there. -/
theorem Ordered.query (h : Ordered fs) {d : Nat} (hd : d ∈ fs.node_blocks) (id : Int) :
    ∃ found, vfs_cache_query_node fs (fs.nodes d).cache_index id = .ok found ∧
      ∀ a, found = some a ↔ a ∈ fs.node_blocks ∧
        (fs.nodes a).cache_index = (fs.nodes d).cache_index ∧ (fs.nodes a).index = id := by
  obtain ⟨head, hc, -⟩ := h.cached.head_of hd
  exact h.cached.query id hc

/-- `vfs_create_node` under a node that is there, for a key that no node has. -/
theorem Ordered.create_node (h : Ordered fs) {d : Nat} (hd : d ∈ fs.node_blocks) {id : Int}
    {operations : vfs_node_operations_t} {fs_data : Nat} {type : vfs_node_type}
    {resource_type : resource_type_t}
    (hkey : ∀ a ∈ fs.node_blocks, (fs.nodes a).cache_index = (fs.nodes d).cache_index →
      (fs.nodes a).index ≠ id)
    (hn : Viewed fs ⟨0, operations, type, resource_type, fs_data, (fs.nodes d).cache_index, id, 0⟩) :
    Post (· = .taken)
      (fun x => x.2.1 = RESOURCE_RESULT_OK ∧ Fetched fs x.1 x.2.2
        (place_of ⟨0, operations, type, resource_type, fs_data, (fs.nodes d).cache_index, id, 0⟩))
      (vfs_create_node fs d id operations fs_data type resource_type) := by
  have hindex : index_under fs d = (fs.nodes d).cache_index := if_neg (h.ne_null hd)
  rcases vfs_create_node_spec h.cached h.heap operations fs_data type resource_type (Or.inr hd)
    (by rwa [hindex]) with ⟨he, -⟩ | ⟨fs', he, ha, hc, hh, -⟩
  · rw [he]
    rfl
  · rw [he]
    rw [hindex] at ha
    refine ⟨rfl, h.added ha hc hh hn, ?_, Or.inr ⟨_, ha, rfl⟩⟩
    rw [ha.self]
    rfl

theorem ramfs_node_of_post (h : Ordered fs) {d : Nat} (hd : d ∈ fs.node_blocks)
    (hop : (fs.nodes d).operations = .ramfs) {e : ramfs_dirent_t}
    (he : e ∈ (fs.inodes (fs.nodes d).fs_data).children) :
    Post (· = .taken)
      (fun x => x.2.1 = RESOURCE_RESULT_OK ∧ Fetched fs x.1 x.2.2 (.inode e.node))
      (ramfs_node_of fs d e.node) := by
  have hshown := h.shown_entry hd hop he
  have hn : fs.node d = .ok (fs.nodes d) := node_ok.mpr ⟨hd, rfl⟩
  have hi : fs.inode e.node = .ok (fs.inodes e.node) := inode_ok.mpr ⟨hshown.there, rfl⟩
  obtain ⟨found, hq, hfound⟩ := h.query hd (fs.inodes e.node).id
  unfold ramfs_node_of
  rw [hn, ok_bind, hi, ok_bind, hq, ok_bind]
  cases found with
  | some a =>
    obtain ⟨ha, hci, hid⟩ := (hfound a).mp rfl
    -- A node with the cache index of the ramfs is not of the devices.
    have hopa : (fs.nodes a).operations = .ramfs := by
      by_contra hopa
      have hv := h.views a ha
      unfold Viewed at hv
      rw [if_neg hopa] at hv
      exact hv.1 (hci.trans ((h.views d hd).shown hop).index)
    have hs := (h.views a ha).shown hopa
    have hdata : (fs.nodes a).fs_data = e.node := by
      apply h.tree.ids _ hs.there _ hshown.there
      have := hs.id.trans hid
      exact_mod_cast this
    have hplace : place_of (fs.nodes a) = .inode e.node := by
      unfold place_of
      rw [hopa, hdata]
    exact ⟨rfl, h, hplace, Or.inl ⟨rfl, ha⟩⟩
  | none =>
    apply h.create_node hd
    · intro a ha hci hid
      exact absurd ((hfound a).mpr ⟨ha, hci, hid⟩) (by simp)
    · exact hshown.viewed rfl

end alura_os.vfs
