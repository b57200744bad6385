-- What `vfs_resolve` finds on the paths that the import made: the nodes of the VFS mirror those of the
-- ramfs, and a path leads to the same node on both sides.
import AluraOs.FsSteps
import AluraOs.RamfsPaths

namespace alura_os.vfs

open alura_os.memory alura_os.resource faults
open resource_result_t resource_type_t vfs_node_type ramfs_result_t

variable {fs fs' : fs_t} {current node d : Nat}

/-! ## The mirror -/

/-- The node of the VFS shows a node of the ramfs. -/
structure Shows (fs : fs_t) (node d : Nat) : Prop where
  live : node ∈ fs.node_blocks
  operations : (fs.nodes node).operations = .ramfs
  fs_data : (fs.nodes node).fs_data = d

/-- The nodes of the VFS for the ramfs are keyed by the ids of what they show; no node of the ramfs is
its own entry, and what has a name has a link. -/
structure Mirrored (fs : fs_t) : Prop where
  cached : Cached fs
  heap : HeapServes fs
  linked : Linked fs
  root : fs.root_node ∈ fs.inode_blocks
  ids : ∀ a ∈ fs.inode_blocks, ∀ b ∈ fs.inode_blocks, (fs.inodes a).id = (fs.inodes b).id → a = b
  last : ∀ a ∈ fs.inode_blocks, (fs.inodes a).id < fs.last_index
  apart : ∀ a ∈ fs.inode_blocks, ∀ e ∈ (fs.inodes a).children, e.node ≠ a
  named : ∀ a ∈ fs.inode_blocks, ∀ e ∈ (fs.inodes a).children, (fs.inodes e.node).link_count ≠ 0
  named_root : (fs.inodes fs.root_node).link_count ≠ 0
  shown : ∀ a d, Shows fs a d → d ∈ fs.inode_blocks ∧ (fs.inodes d).id = (fs.nodes a).index ∧
    (fs.nodes a).cache_index = 0
  devices : ∀ a ∈ fs.node_blocks, (fs.nodes a).operations ≠ .ramfs → (fs.nodes a).cache_index ≠ 0

/-- Nothing is mounted on the nodes of the VFS that show a node of the ramfs. -/
def Plain (fs : fs_t) (d : Nat) : Prop := ∀ a, Shows fs a d → (fs.nodes a).mount = 0

/-- What a call does that looks a path up: nodes of the VFS come, with nothing mounted on them, and
go. -/
structure Looked (fs fs' : fs_t) : Prop where
  tree : SameTree fs fs'
  root : fs'.root = fs.root
  plain : ∀ x, Plain fs x → Plain fs' x

theorem Looked.refl (fs : fs_t) : Looked fs fs := ⟨⟨rfl, rfl, rfl, rfl, rfl⟩, rfl, fun _ h => h⟩

theorem Looked.trans {fs1 fs2 : fs_t} (h : Looked fs fs1) (h' : Looked fs1 fs2) : Looked fs fs2 :=
  ⟨⟨h'.tree.inodes.trans h.tree.inodes, h'.tree.inode_blocks.trans h.tree.inode_blocks,
    h'.tree.root_node.trans h.tree.root_node, h'.tree.last_index.trans h.tree.last_index,
    h'.tree.freed.trans h.tree.freed⟩, h'.root.trans h.root, fun x hx => h'.plain x (h.plain x hx)⟩

/-! ## Locks -/

theorem shows_setCount {a n b x : Nat} : Shows (fs.setCount a n) b x ↔ Shows fs b x := by
  have hnodes : ((fs.setCount a n).nodes b).operations = (fs.nodes b).operations ∧
      ((fs.setCount a n).nodes b).fs_data = (fs.nodes b).fs_data := by
    obtain ⟨m, hm⟩ := (sameShape_setCount fs a n).nodes b
    rw [hm]
    exact ⟨rfl, rfl⟩
  constructor
  · rintro ⟨h1, h2, h3⟩
    exact ⟨h1, hnodes.1 ▸ h2, hnodes.2 ▸ h3⟩
  · rintro ⟨h1, h2, h3⟩
    exact ⟨h1, hnodes.1.trans h2, hnodes.2.trans h3⟩

theorem looked_setCount (fs : fs_t) (a n : Nat) : Looked fs (fs.setCount a n) := by
  refine ⟨(sameShape_setCount fs a n).tree, rfl, ?_⟩
  intro x hx b hb
  obtain ⟨m, hm⟩ := (sameShape_setCount fs a n).nodes b
  rw [hm]
  exact hx b (shows_setCount.mp hb)

theorem Mirrored.setCount (h : Mirrored fs) (a n : Nat) : Mirrored (fs.setCount a n) := by
  have hs := sameShape_setCount fs a n
  constructor
  · exact h.cached.same hs
  · exact h.heap
  · exact ⟨h.linked.unused, h.linked.distinct, h.linked.targets⟩
  · exact h.root
  · exact h.ids
  · exact h.last
  · exact h.apart
  · exact h.named
  · exact h.named_root
  · intro b x hb
    rw [(hs.key b).1, (hs.key b).2]
    exact h.shown b x (shows_setCount.mp hb)
  · intro b hb hop
    obtain ⟨m, hm⟩ := hs.nodes b
    rw [hm] at hop ⊢
    exact h.devices b hb hop

/-! ## New nodes of the VFS -/

theorem vfs_lock_node_heap {a : Nat} (h : vfs_lock_node fs a = .ok fs') : fs'.heap = fs.heap := by
  rcases vfs_lock_node_cases h with ⟨-, rfl⟩ | ⟨-, -, rfl⟩
  · rfl
  · rfl

theorem cache_append_heap {i a : Nat} {r : resource_result_t}
    (h : cache_append fs i a = .ok (fs', r)) : fs'.heap = fun n => fs.heap (n + 1) := by
  unfold cache_append at h
  split at h
  · cases h
    rfl
  · obtain ⟨fs1, hlock, h⟩ := bind_ok.mp h
    cases h
    rw [vfs_lock_node_heap hlock]
    rfl

theorem cache_list_heap (fs : fs_t) (i : Nat) : ∃ k, (cache_list fs i).1.heap = fun n => fs.heap (n + k) := by
  unfold cache_list
  split
  · exact ⟨0, rfl⟩
  · split
    · exact ⟨1, rfl⟩
    · exact ⟨1, rfl⟩

theorem vfs_cache_put_heap {a : Nat} {r : resource_result_t}
    (h : vfs_cache_put fs a = .ok (fs', r)) : ∃ k, fs'.heap = fun n => fs.heap (n + k) := by
  unfold vfs_cache_put at h
  obtain ⟨n, -, h⟩ := bind_ok.mp h
  obtain ⟨k, hk⟩ := cache_list_heap fs n.cache_index
  dsimp only at h
  split at h
  · cases h
    exact ⟨k, hk⟩
  · obtain ⟨found, -, h⟩ := bind_ok.mp h
    cases found with
    | some b =>
      cases h
      exact ⟨k, hk⟩
    | none =>
      refine ⟨1 + k, ?_⟩
      rw [cache_append_heap h, hk]
      funext m
      exact congrArg fs.heap (Nat.add_assoc m 1 k)

/-- A new node takes at least the block for itself. -/
theorem vfs_create_node_heap {parent fs_data a : Nat} {id : Int}
    {operations : vfs_node_operations_t} {type : vfs_node_type} {resource_type : resource_type_t}
    (hs : HeapServes fs)
    (h : vfs_create_node fs parent id operations fs_data type resource_type =
      .ok (fs', RESOURCE_RESULT_OK, a)) :
    ∃ k, fs'.heap = fun n => fs.heap (n + k + 1) := by
  unfold vfs_create_node at h
  dsimp only at h
  rw [if_neg hs.next] at h
  split at h
  · cases h
  · split at h
    · cases h
    · obtain ⟨⟨fs1, r⟩, hput, h⟩ := bind_ok.mp h
      cases h
      obtain ⟨k, hk⟩ := vfs_cache_put_heap hput
      exact ⟨k, hk⟩

variable {n : vfs_node_t}

theorem Shows.unique {x : Nat} (h : Shows fs node d) (h' : Shows fs node x) : d = x :=
  h.fs_data.symm.trans h'.fs_data

theorem shows_added (ha : Added fs fs' node n) {b x : Nat} (hb : b ≠ node) :
    Shows fs' b x ↔ Shows fs b x := by
  have hnode := ha.others b hb
  constructor
  · rintro ⟨h1, h2, h3⟩
    rw [ha.node_blocks, Finset.mem_insert] at h1
    rw [hnode] at h2 h3
    exact ⟨h1.resolve_left hb, h2, h3⟩
  · rintro ⟨h1, h2, h3⟩
    rw [← hnode] at h2 h3
    exact ⟨ha.node_blocks ▸ Finset.mem_insert_of_mem h1, h2, h3⟩

theorem looked_added (ha : Added fs fs' node n) (hm : n.mount = 0) : Looked fs fs' := by
  refine ⟨ha.tree, ha.root, ?_⟩
  intro x hx b hb
  by_cases hbn : b = node
  · rw [hbn, ha.self]
    exact hm
  · rw [ha.others b hbn]
    exact hx b ((shows_added ha hbn).mp hb)

/-- A node of the VFS more, for a node of the ramfs. -/
theorem Mirrored.added (h : Mirrored fs) (ha : Added fs fs' fs.next_block n) (hc : Cached fs')
    (hh : HeapServes fs') {k : Nat} (hheap : fs'.heap = fun n => fs.heap (n + k + 1))
    (hop : n.operations = .ramfs)
    (hn : n.fs_data ∈ fs.inode_blocks ∧ (fs.inodes n.fs_data).id = n.index ∧ n.cache_index = 0) :
    Mirrored fs' := by
  have hunused : ∀ m, fs'.Unused (fs'.heap m) := by
    intro m
    rw [hheap]
    obtain ⟨h1, h2⟩ := h.linked.unused (m + k + 1) (h.heap _)
    refine ⟨?_, by rw [ha.inode_blocks]; exact h2⟩
    rw [ha.node_blocks, Finset.mem_insert]
    rintro (he | hm)
    · have := h.linked.distinct (m + k + 1) 0 (h.heap _) he
      omega
    · exact h1 hm
  constructor
  · exact hc
  · exact hh
  · constructor
    · exact fun m _ => hunused m
    · intro a b hne he
      rw [hheap] at hne he
      have := h.linked.distinct (a + k + 1) (b + k + 1) hne he
      omega
    · rw [ha.inode_blocks, ha.inodes]
      exact h.linked.targets
  · rw [ha.root_node, ha.inode_blocks]
    exact h.root
  · rw [ha.inode_blocks, ha.inodes]
    exact h.ids
  · rw [ha.inode_blocks, ha.inodes, ha.last_index]
    exact h.last
  · rw [ha.inode_blocks, ha.inodes]
    exact h.apart
  · rw [ha.inode_blocks, ha.inodes]
    exact h.named
  · rw [ha.root_node, ha.inodes]
    exact h.named_root
  · intro b x hb
    rw [ha.inode_blocks, ha.inodes]
    by_cases hbn : b = fs.next_block
    · subst hbn
      have hx : n.fs_data = x := by
        have := hb.fs_data
        rw [ha.self] at this
        exact this
      rw [ha.self, ← hx]
      exact hn
    · rw [ha.others b hbn]
      exact h.shown b x ((shows_added ha hbn).mp hb)
  · intro b hb hopb
    by_cases hbn : b = fs.next_block
    · rw [hbn, ha.self] at hopb
      exact absurd hop hopb
    · rw [ha.others b hbn] at hopb ⊢
      rw [ha.node_blocks, Finset.mem_insert] at hb
      exact h.devices b (hb.resolve_left hbn) hopb

/-! ## Lookups -/

/-- The node of the VFS for an entry: the one of the cache, or a new one. -/
theorem Mirrored.node_of (h : Mirrored fs) (hd : Shows fs current d) {e : ramfs_dirent_t}
    (he : e ∈ (fs.inodes d).children) :
    ∃ fs' v, ramfs_node_of fs current e.node = .ok (fs', RESOURCE_RESULT_OK, v) ∧ Mirrored fs' ∧
      Looked fs fs' ∧ Shows fs' v e.node ∧ Shows fs' current d := by
  obtain ⟨hdin, -, hdc⟩ := h.shown current d hd
  have hein := h.linked.targets d hdin e he
  have hn : fs.node current = .ok (fs.nodes current) := node_ok.mpr ⟨hd.live, rfl⟩
  have hi : fs.inode e.node = .ok (fs.inodes e.node) := inode_ok.mpr ⟨hein, rfl⟩
  obtain ⟨head, hc, -⟩ := h.cached.head_of hd.live
  obtain ⟨found, hq, hfound⟩ := h.cached.query (fs.inodes e.node).id hc
  have hz : current ≠ 0 := fun hz => h.cached.null (hz ▸ hd.live)
  unfold ramfs_node_of
  rw [hn, ok_bind, hi, ok_bind, hq, ok_bind]
  cases found with
  | some v =>
    obtain ⟨hv, hci, hid⟩ := (hfound v).mp rfl
    have hop : (fs.nodes v).operations = .ramfs := by
      by_contra hop
      exact h.devices v hv hop (hci.trans hdc)
    have hshow : Shows fs v (fs.nodes v).fs_data := ⟨hv, hop, rfl⟩
    obtain ⟨hvin, hvid, -⟩ := h.shown v _ hshow
    have hdata : (fs.nodes v).fs_data = e.node := by
      apply h.ids _ hvin _ hein
      have := hvid.trans hid
      exact_mod_cast this
    exact ⟨fs, v, rfl, h, Looked.refl fs, hdata ▸ hshow, hd⟩
  | none =>
    have hnone : ∀ a ∈ fs.node_blocks, (fs.nodes a).cache_index = index_under fs current →
        (fs.nodes a).index ≠ (fs.inodes e.node).id := by
      intro a ha hci hid
      have hindex : index_under fs current = (fs.nodes current).cache_index :=
        if_neg hz
      exact absurd ((hfound a).mpr ⟨ha, hci.trans hindex, hid⟩) (by simp)
    have hindex : index_under fs current = 0 :=
      (if_neg hz).trans hdc
    rcases vfs_create_node_spec h.cached h.heap .ramfs e.node (fs.inodes e.node).type
      RESOURCE_TYPE_FILE (Or.inr hd.live) hnone with ⟨-, htaken⟩ | ⟨fs', heq, ha, hc', hh', -⟩
    · exact absurd (h.linked.unused 0 (h.heap 0)) htaken
    · obtain ⟨k, hk⟩ := vfs_create_node_heap h.heap heq
      have hne : current ≠ fs.next_block := fun hz => ha.unused.1 (hz ▸ hd.live)
      refine ⟨fs', _, heq, h.added ha hc' hh' hk rfl ⟨hein, rfl, hindex⟩, looked_added ha rfl, ?_,
        (shows_added ha hne).mpr hd⟩
      refine ⟨ha.node_blocks ▸ Finset.mem_insert_self _ _, ?_, ?_⟩
      · rw [ha.self]
      · rw [ha.self]

/-! ## Releases -/

theorem shows_evicted {a b x : Nat} :
    Shows (evicted fs a) b x ↔ Shows fs b x ∧ b ≠ a := by
  constructor
  · rintro ⟨h1, h2, h3⟩
    rw [evicted_node_blocks, Finset.mem_erase] at h1
    rw [evicted_nodes] at h2 h3
    exact ⟨⟨h1.2, h2, h3⟩, h1.1⟩
  · rintro ⟨⟨h1, h2, h3⟩, hne⟩
    refine ⟨?_, ?_, ?_⟩
    · rw [evicted_node_blocks, Finset.mem_erase]
      exact ⟨hne, h1⟩
    · rw [evicted_nodes]
      exact h2
    · rw [evicted_nodes]
      exact h3

theorem looked_evicted {a : Nat} (hg : ¬ GoesWith fs (fs.nodes a)) : Looked fs (evicted fs a) := by
  refine ⟨(calm_evicted hg).tree, (calm_evicted hg).root, ?_⟩
  intro x hx b hb
  rw [evicted_nodes]
  exact hx b (shows_evicted.mp hb).1

theorem Mirrored.evicted (h : Mirrored fs) {a : Nat} (ha : a ∈ fs.node_blocks)
    (hg : ¬ GoesWith fs (fs.nodes a)) : Mirrored (vfs.evicted fs a) := by
  have ht := (calm_evicted hg).tree
  constructor
  · exact h.cached.evicted ha
  · unfold HeapServes
    rw [evicted_heap]
    exact h.heap
  · constructor
    · intro m hm
      rw [evicted_heap] at hm ⊢
      obtain ⟨h1, h2⟩ := h.linked.unused m hm
      refine ⟨?_, by rw [ht.inode_blocks]; exact h2⟩
      rw [evicted_node_blocks, Finset.mem_erase]
      exact fun hc => h1 hc.2
    · rw [evicted_heap]
      exact h.linked.distinct
    · rw [ht.inode_blocks, ht.inodes]
      exact h.linked.targets
  · rw [ht.root_node, ht.inode_blocks]
    exact h.root
  · rw [ht.inode_blocks, ht.inodes]
    exact h.ids
  · rw [ht.inode_blocks, ht.inodes, ht.last_index]
    exact h.last
  · rw [ht.inode_blocks, ht.inodes]
    exact h.apart
  · rw [ht.inode_blocks, ht.inodes]
    exact h.named
  · rw [ht.root_node, ht.inodes]
    exact h.named_root
  · intro b x hb
    rw [ht.inode_blocks, ht.inodes, evicted_nodes]
    exact h.shown b x (shows_evicted.mp hb).1
  · intro b hb hop
    rw [evicted_node_blocks, Finset.mem_erase] at hb
    rw [evicted_nodes] at hop ⊢
    exact h.devices b hb.2 hop

/-- `vfs_release_node` of a node that shows what has a link. -/
theorem Mirrored.release (h : Mirrored fs) (hd : Shows fs node d)
    (hlink : (fs.inodes d).link_count ≠ 0) :
    ∃ fs', vfs_release_node fs node = .ok fs' ∧ Mirrored fs' ∧ Looked fs fs' ∧
      ∀ b x, b ≠ node → Shows fs b x → Shows fs' b x := by
  have hin : (fs.nodes node).operations = .ramfs → (fs.nodes node).fs_data ∈ fs.inode_blocks := by
    intro _
    rw [hd.fs_data]
    exact (h.shown node d hd).1
  refine ⟨vfs.released fs node, vfs_release_node_eq h.cached hd.live hin, ?_⟩
  have hcount := h.setCount node (sub32 (fs.nodes node).ref_count 1)
  have hgoes : ¬ GoesWith (fs.setCount node (sub32 (fs.nodes node).ref_count 1))
      ((fs.setCount node (sub32 (fs.nodes node).ref_count 1)).nodes node) := by
    rw [goesWith_setCount, setCount_self, goesWith_count]
    rintro ⟨-, hzero⟩
    rw [hd.fs_data] at hzero
    exact hlink hzero
  rcases released_eq fs node with he | he
  · rw [he]
    exact ⟨hcount, looked_setCount fs node _, fun b x _ hb => shows_setCount.mpr hb⟩
  · rw [he]
    refine ⟨hcount.evicted hd.live hgoes, (looked_setCount fs node _).trans (looked_evicted hgoes),
      fun b x hne hb => shows_evicted.mpr ⟨shows_setCount.mpr hb, hne⟩⟩

/-! ## Components -/

/-- One component of a path, on a node of the VFS that nothing is mounted on. -/
theorem Mirrored.component (h : Mirrored fs) (hd : Shows fs current d) (hplain : Plain fs d)
    (hlink : (fs.inodes d).link_count ≠ 0) {component : List Char}
    (hlen : component.length < VFS_NODE_NAME_LENGTH) :
    match (fs.inodes d).child component with
    | none => resolve_component fs current component = .ok (fs, RESOURCE_RESULT_NOT_FOUND, 0)
    | some e => ∃ fs' v, resolve_component fs current component = .ok (fs', RESOURCE_RESULT_OK, v) ∧
        Mirrored fs' ∧ Looked fs fs' ∧ Shows fs' v e.node := by
  have hdin := (h.shown current d hd).1
  have hn : fs.node current = .ok (fs.nodes current) := node_ok.mpr ⟨hd.live, rfl⟩
  have hcross : cross_mount fs current = .ok (fs, current) := by
    unfold cross_mount
    rw [hn, ok_bind, if_pos (hplain current hd)]
    rfl
  have hlookup : lookup fs current component = ramfs_lookup fs current component := by
    unfold lookup
    rw [hn, ok_bind, hd.operations]
  have hfind := ramfs_find_child_eq hdin component
  rw [← hd.fs_data] at hfind
  cases he : (fs.inodes d).child component with
  | none =>
    rw [hd.fs_data, he] at hfind
    unfold resolve_component
    rw [if_neg (Nat.not_le.mpr hlen)]
    simp only [hcross, ok_bind, hlookup]
    unfold ramfs_lookup
    rw [hn, ok_bind, hd.fs_data, hfind]
    rfl
  | some e =>
    rw [hd.fs_data, he] at hfind
    have hmem := (child_mem he).1
    obtain ⟨fs1, v, hof, h1, hlook1, hv, hcur⟩ := h.node_of hd hmem
    have hvz : v ≠ 0 := fun hz => h1.cached.null (hz ▸ hv.live)
    have hne : current ≠ v := by
      intro heq
      rw [heq] at hcur
      exact h.apart d hdin e hmem (hv.unique hcur)
    have hlock := vfs_lock_node_eq hvz hv.live
    have h2 : Mirrored (locked fs1 v) := h1.setCount v _
    have hlink2 : ((locked fs1 v).inodes d).link_count ≠ 0 := by
      have hsame : (locked fs1 v).inodes = fs.inodes := hlook1.tree.inodes
      rw [hsame]
      exact hlink
    obtain ⟨fs3, hrel, h3, hlook3, hkeep⟩ := h2.release (shows_setCount.mpr hcur) hlink2
    refine ⟨fs3, v, ?_, h3, (hlook1.trans (looked_setCount fs1 v _)).trans hlook3,
      hkeep v e.node hne.symm (shows_setCount.mpr hv)⟩
    unfold resolve_component
    rw [if_neg (Nat.not_le.mpr hlen)]
    simp only [hcross, ok_bind, hlookup]
    unfold ramfs_lookup
    rw [hn, ok_bind, hd.fs_data, hfind]
    simp only [Option.map_some, ok_bind, hof, hlock, hrel, ne_eq, not_true_eq_false, if_false, hvz]
    rfl

/-- The nodes on which a path looks its names up. -/
def passed (fs : fs_t) (current : Nat) : List (List Char) → List Nat
  | [] => []
  | token :: path =>
    current ::
      match (fs.inodes current).child token with
      | some e => passed fs e.node path
      | none => []

theorem passed_congr (h : fs'.inodes = fs.inodes) (path : List (List Char)) :
    passed fs' current path = passed fs current path := by
  induction path generalizing current with
  | nil => rfl
  | cons token path ih =>
    unfold passed
    rw [h]
    split
    · rw [ih]
    · rfl

theorem walk_congr (h : fs'.inodes = fs.inodes) (path : List (List Char)) :
    walk fs' current path = walk fs current path := by
  induction path generalizing current with
  | nil => rfl
  | cons token path ih =>
    unfold walk
    rw [h]
    split
    · rw [ih]
    · rfl

/-- The components of a path lead to the node of the VFS for what they lead to in the ramfs. -/
theorem Mirrored.follows (h : Mirrored fs) (hd : Shows fs current d)
    (hlink : (fs.inodes d).link_count ≠ 0) {path : List (List Char)}
    (hplain : ∀ x ∈ passed fs d path, Plain fs x)
    (hlen : ∀ c ∈ path, c.length < VFS_NODE_NAME_LENGTH) :
    ((walk fs d path).2 = [] →
      ∃ fs' v, resolve_components fs current path = .ok (fs', RESOURCE_RESULT_OK, v) ∧
        Shows fs' v (walk fs d path).1) ∧
    ((walk fs d path).2 ≠ [] →
      ∃ fs', resolve_components fs current path = .ok (fs', RESOURCE_RESULT_NOT_FOUND, 0)) := by
  induction path generalizing fs current d with
  | nil => exact ⟨fun _ => ⟨fs, current, rfl, hd⟩, fun hw => absurd rfl hw⟩
  | cons token path ih =>
    have hhead : d ∈ passed fs d (token :: path) := by simp [passed]
    have hstep := h.component hd (hplain d hhead) hlink (hlen token List.mem_cons_self)
    cases he : (fs.inodes d).child token with
    | none =>
      rw [he] at hstep
      rw [walk_none he]
      refine ⟨by simp, fun _ => ⟨fs, ?_⟩⟩
      unfold resolve_components
      rw [hstep, ok_bind]
      rfl
    | some e =>
      rw [he] at hstep
      obtain ⟨fs1, v, hres, h1, hlook, hv⟩ := hstep
      have hmem := (child_mem he).1
      have hlink1 : (fs1.inodes e.node).link_count ≠ 0 := by
        rw [hlook.tree.inodes]
        exact h.named d (h.shown current d hd).1 e hmem
      have hplain1 : ∀ x ∈ passed fs1 e.node path, Plain fs1 x := by
        intro x hx
        rw [passed_congr hlook.tree.inodes] at hx
        refine hlook.plain x (hplain x ?_)
        simp [passed, he, hx]
      have htail := ih h1 hv hlink1 hplain1 fun c hc => hlen c (List.mem_cons_of_mem _ hc)
      have heq : resolve_components fs current (token :: path) = resolve_components fs1 v path := by
        rw [resolve_components, hres, ok_bind]
        rfl
      rw [walk_some he, heq]
      rwa [walk_congr hlook.tree.inodes] at htail

/-! ## Growth -/

theorem Gains.nodes (h : Gains fs fs') :
    fs'.nodes = fs.nodes ∧ fs'.node_blocks = fs.node_blocks ∧ fs'.root = fs.root ∧
      fs'.root_node = fs.root_node := by
  induction h with
  | refl => exact ⟨rfl, rfl, rfl, rfl⟩
  | node type _ ih => exact ih
  | name type _ _ _ _ ih => exact ih

theorem Gains.shows (h : Gains fs fs') {a x : Nat} : Shows fs' a x ↔ Shows fs a x := by
  obtain ⟨hn, hb, -⟩ := h.nodes
  constructor
  · rintro ⟨h1, h2, h3⟩
    exact ⟨hb ▸ h1, hn ▸ h2, hn ▸ h3⟩
  · rintro ⟨h1, h2, h3⟩
    exact ⟨hb ▸ h1, hn ▸ h2, hn ▸ h3⟩

theorem Mirrored.with_node (h : Mirrored fs) (type : vfs_node_type) :
    Mirrored (vfs.with_node fs type 0 0) := by
  have hold : ∀ a ∈ fs.inode_blocks, (vfs.with_node fs type 0 0).inodes a = fs.inodes a :=
    fun a ha => with_node_ne (h.linked.ne_next h.heap.next ha) type 0 0
  have hid : ((vfs.with_node fs type 0 0).inodes fs.next_block).id = fs.last_index := by simp
  constructor
  · exact ⟨h.cached.heads, h.cached.nodup, h.cached.mem, h.cached.index, h.cached.key,
      h.cached.null, h.cached.fresh, h.cached.filled⟩
  · exact h.heap.pop
  · exact h.linked.with_node h.heap.next type 0 0
  · exact Finset.mem_insert_of_mem h.root
  · intro a ha b hb he
    rw [with_node_blocks, Finset.mem_insert] at ha hb
    rcases ha with rfl | ha
    · rcases hb with rfl | hb
      · rfl
      · rw [hid, hold b hb] at he
        exact absurd (h.last b hb) (by omega)
    · rcases hb with rfl | hb
      · rw [hid, hold a ha] at he
        exact absurd (h.last a ha) (by omega)
      · rw [hold a ha, hold b hb] at he
        exact h.ids a ha b hb he
  · intro a ha
    have hlast : (vfs.with_node fs type 0 0).last_index = fs.last_index + 1 := rfl
    rw [with_node_blocks, Finset.mem_insert] at ha
    rcases ha with rfl | ha
    · omega
    · have := h.last a ha
      rw [hold a ha]
      omega
  · intro a ha e he
    rw [with_node_blocks, Finset.mem_insert] at ha
    rcases ha with rfl | ha
    · simp at he
    · rw [hold a ha] at he
      exact h.apart a ha e he
  · intro a ha e he
    rw [with_node_blocks, Finset.mem_insert] at ha
    rcases ha with rfl | ha
    · simp at he
    · rw [hold a ha] at he
      rw [hold e.node (h.linked.targets a ha e he)]
      exact h.named a ha e he
  · have hroot : (vfs.with_node fs type 0 0).root_node = fs.root_node := rfl
    rw [hroot, hold _ h.root]
    exact h.named_root
  · intro a x ha
    obtain ⟨h1, h2⟩ := h.shown a x ((Gains.node type .refl).shows.mp ha)
    rw [hold x h1]
    exact ⟨Finset.mem_insert_of_mem h1, h2⟩
  · exact h.devices

theorem Mirrored.with_child (h : Mirrored fs) {parent child : Nat} (hp : parent ∈ fs.inode_blocks)
    (hc : child ∈ fs.inode_blocks) (hne : child ≠ parent)
    (hlink : (fs.inodes child).link_count ≠ 0) (name : List Char) :
    Mirrored (vfs.with_child fs parent name child) := by
  have hmeta : ∀ a, ((vfs.with_child fs parent name child).inodes a).id = (fs.inodes a).id ∧
      ((vfs.with_child fs parent name child).inodes a).link_count = (fs.inodes a).link_count := by
    intro a
    by_cases hap : a = parent
    · subst hap
      rw [with_child_self]
      exact ⟨rfl, rfl⟩
    · rw [with_child_ne hap]
      exact ⟨rfl, rfl⟩
  have hentries : ∀ a e, e ∈ ((vfs.with_child fs parent name child).inodes a).children →
      e ∈ (fs.inodes a).children ∨ a = parent ∧ e.node = child := by
    intro a e he
    by_cases hap : a = parent
    · subst hap
      rw [with_child_self] at he
      rcases List.mem_append.mp he with he | he
      · exact Or.inl he
      · rw [List.mem_singleton.mp he]
        exact Or.inr ⟨rfl, rfl⟩
    · rw [with_child_ne hap] at he
      exact Or.inl he
  constructor
  · exact ⟨h.cached.heads, h.cached.nodup, h.cached.mem, h.cached.index, h.cached.key,
      h.cached.null, h.cached.fresh, h.cached.filled⟩
  · exact h.heap.pop
  · exact h.linked.with_child hp hc name
  · exact h.root
  · intro a ha b hb he
    rw [(hmeta a).1, (hmeta b).1] at he
    exact h.ids a ha b hb he
  · intro a ha
    rw [(hmeta a).1]
    exact h.last a ha
  · intro a ha e he
    rcases hentries a e he with he | ⟨rfl, hnode⟩
    · exact h.apart a ha e he
    · rw [hnode]
      exact hne
  · intro a ha e he
    rw [(hmeta e.node).2]
    rcases hentries a e he with he | ⟨-, hnode⟩
    · exact h.named a ha e he
    · rw [hnode]
      exact hlink
  · rw [(hmeta _).2]
    exact h.named_root
  · intro a x ha
    rw [(hmeta x).1]
    exact h.shown a x ⟨ha.live, ha.operations, ha.fs_data⟩
  · exact h.devices

theorem Mirrored.gained (h : Mirrored fs) (hg : Gains fs fs') : Mirrored fs' := by
  induction hg with
  | refl => exact h
  | node type _ ih => exact ih.with_node type
  | @name fs' parent name type _ hp _ _ ih =>
    apply (ih.with_node type).with_child
    · exact Finset.mem_insert_of_mem hp
    · exact Finset.mem_insert_self _ _
    · exact (ih.linked.ne_next ih.heap.next hp).symm
    · simp

/-! ## Created paths -/

/-- New entries are for new nodes. -/
theorem Gains.entries (hl : Linked fs) (hs : HeapServes fs) (hg : Gains fs fs') {a : Nat}
    (ha : a ∈ fs'.inode_blocks) {e : ramfs_dirent_t} (he : e ∈ (fs'.inodes a).children) :
    a ∈ fs.inode_blocks ∧ e ∈ (fs.inodes a).children ∨ e.node ∉ fs.inode_blocks := by
  induction hg with
  | refl => exact Or.inl ⟨ha, he⟩
  | @node fs' type hg ih =>
    rw [with_node_blocks, Finset.mem_insert] at ha
    by_cases hnext : a = fs'.next_block
    · rw [hnext, with_node_self] at he
      simp at he
    · rw [with_node_ne hnext] at he
      exact ih (ha.resolve_left hnext) he
  | @name fs' parent name type hg hp hnone hroom ih =>
    have hl' := hl.grown hs hg
    have hs' := hs.grown hg
    rw [with_name_blocks, Finset.mem_insert] at ha
    by_cases hnext : a = fs'.next_block
    · rw [hnext, with_name_next hl' hs' hp] at he
      simp at he
    · have ha' := ha.resolve_left hnext
      by_cases hap : a = parent
      · subst hap
        rw [with_name_parent hl' hs' hp] at he
        rcases List.mem_append.mp he with he | he
        · exact ih ha' he
        · rw [List.mem_singleton.mp he]
          exact Or.inr fun hm => (hl'.unused 0 (hs' 0)).2 (hg.live hm)
      · rw [with_name_other hl' hs' ha' hap] at he
        exact ih ha' he

/-- A path passes nodes that it passed before, and new ones. -/
theorem Gains.passed (hl : Linked fs) (hs : HeapServes fs) (hg : Gains fs fs')
    (hc : current ∈ fs'.inode_blocks) {path : List (List Char)} {x : Nat}
    (hx : x ∈ vfs.passed fs' current path) :
    x ∈ vfs.passed fs current path ∧ current ∈ fs.inode_blocks ∨ x ∉ fs.inode_blocks := by
  induction path generalizing current with
  | nil => simp [vfs.passed] at hx
  | cons token path ih =>
    by_cases hold : current ∈ fs.inode_blocks
    · unfold vfs.passed at hx
      rcases List.mem_cons.mp hx with rfl | hx
      · exact Or.inl ⟨by simp [vfs.passed], hold⟩
      · cases he : (fs'.inodes current).child token with
        | none => simp [he] at hx
        | some e =>
          rw [he] at hx
          have hmem := child_mem he
          have hlive := (hl.grown hs hg).targets current hc e hmem.1
          rcases ih hlive hx with ⟨hx, hein⟩ | hx
          · refine Or.inl ⟨?_, hold⟩
            cases he' : (fs.inodes current).child token with
            | some e' =>
              have hsame := (hg.child hl hs hold he').2
              rw [he] at hsame
              obtain rfl := Option.some.inj hsame
              simp [vfs.passed, he', hx]
            | none =>
              rcases hg.entries hl hs hc hmem.1 with ⟨-, hm⟩ | hnew
              · exact absurd hmem.2 (child_ne he' hm)
              · exact absurd hein hnew
          · exact Or.inr hx
    · unfold vfs.passed at hx
      rcases List.mem_cons.mp hx with rfl | hx
      · exact Or.inr hold
      · cases he : (fs'.inodes current).child token with
        | none => simp [he] at hx
        | some e =>
          rw [he] at hx
          have hmem := (child_mem he).1
          rcases ih ((hl.grown hs hg).targets current hc e hmem) hx with ⟨-, hein⟩ | hx
          · rcases hg.entries hl hs hc hmem with ⟨hin, -⟩ | hnew
            · exact absurd hin hold
            · exact absurd hein hnew
          · exact Or.inr hx

theorem components_length (component path : List Char) :
    ∀ c ∈ components component path, c.length ≤ component.length + path.length := by
  induction path generalizing component with
  | nil =>
    intro c hc
    by_cases h : component = []
    · simp [components, h] at hc
    · simp only [components, h, if_false, List.mem_singleton] at hc
      rw [hc]
      simp
  | cons x path ih =>
    intro c hc
    rw [components] at hc
    rw [List.length_cons]
    split at hc
    · split at hc
      · have := ih [] c hc
        rw [List.length_nil] at this
        omega
      · rcases List.mem_cons.mp hc with rfl | hc
        · omega
        · have := ih [] c hc
          rw [List.length_nil] at this
          omega
    · have := ih _ c hc
      rw [List.length_append, List.length_singleton] at this
      omega

/-- `vfs_resolve` gives a node of the VFS that shows what the path leads to in the ramfs. -/
theorem Mirrored.resolve (h : Mirrored fs) (hroot : Shows fs fs.root fs.root_node)
    {path : List Char} (hlen : path.length < VFS_NODE_NAME_LENGTH)
    (hplain : ∀ x ∈ passed fs fs.root_node (components [] path), Plain fs x) :
    ((walk fs fs.root_node (components [] path)).2 = [] →
      ∃ fs' v, vfs_resolve fs path = .ok (fs', RESOURCE_RESULT_OK, v) ∧
        Shows fs' v (walk fs fs.root_node (components [] path)).1) ∧
    ((walk fs fs.root_node (components [] path)).2 ≠ [] →
      ∃ fs', vfs_resolve fs path = .ok (fs', RESOURCE_RESULT_NOT_FOUND, 0)) := by
  have hz : fs.root ≠ 0 := fun hz => h.cached.null (hz ▸ hroot.live)
  have hlocked : Mirrored (locked fs fs.root) := h.setCount fs.root _
  have hinodes : (locked fs fs.root).inodes = fs.inodes := rfl
  have hlink : ((locked fs fs.root).inodes fs.root_node).link_count ≠ 0 := h.named_root
  have hshow : Shows (locked fs fs.root) fs.root fs.root_node := shows_setCount.mpr hroot
  have hplain' : ∀ x ∈ passed (locked fs fs.root) fs.root_node (components [] path),
      Plain (locked fs fs.root) x := by
    intro x hx
    rw [passed_congr hinodes] at hx
    exact (looked_setCount fs fs.root _).plain x (hplain x hx)
  have hshort : ∀ c ∈ components [] path, c.length < VFS_NODE_NAME_LENGTH := by
    intro c hc
    have := components_length [] path c hc
    rw [List.length_nil] at this
    omega
  have hrun := hlocked.follows hshow hlink hplain' hshort
  rw [walk_congr hinodes] at hrun
  have heq : vfs_resolve fs path =
      resolve_components (locked fs fs.root) fs.root (components [] path) := by
    unfold vfs_resolve
    rw [vfs_lock_node_eq hz hroot.live, ok_bind]
    rfl
  rw [heq]
  exact hrun

/-- Nothing is mounted on what the path passes after the call. -/
theorem Mirrored.plain_gained (h : Mirrored fs) (hg : Gains fs fs') {path : List (List Char)}
    (hplain : ∀ x ∈ passed fs fs.root_node path, Plain fs x) :
    ∀ x ∈ passed fs' fs'.root_node path, Plain fs' x := by
  obtain ⟨hn, -, -, hrn⟩ := hg.nodes
  intro x hx a ha
  have hax := hg.shows.mp ha
  rw [hrn] at hx
  rw [hn]
  rcases hg.passed h.linked h.heap (hg.live h.root) hx with ⟨hx, -⟩ | hx
  · exact hplain x hx a hax
  · exact absurd (h.shown a x hax).1 hx

theorem Shows.gained (hroot : Shows fs fs.root fs.root_node) (hg : Gains fs fs') :
    Shows fs' fs'.root fs'.root_node := by
  obtain ⟨-, -, hr, hrn⟩ := hg.nodes
  rw [hr, hrn]
  exact hg.shows.mpr hroot

section

variable (h : Mirrored fs) (hroot : Shows fs fs.root fs.root_node) {path : List Char}
  (hne : path ≠ []) (hlast : path.getLast? ≠ some '/') (hlen : path.length < VFS_NODE_NAME_LENGTH)
  (hplain : ∀ x ∈ passed fs fs.root_node (components [] path), Plain fs x)

include h hroot hne hlast hlen hplain

/-- A path whose first missing directory meets a full one is not resolved. -/
theorem lost_path_is_missing (hroom : ¬ HasRoom fs fs.root_node (directories path))
    (type : vfs_node_type) :
    ∃ fs1 n fs2, ramfs_create_path fs fs.root_node path type = .ok (fs1, some n) ∧
      vfs_resolve fs1 path = .ok (fs2, RESOURCE_RESULT_NOT_FOUND, 0) := by
  obtain ⟨fs1, n, hcreate, hg, hlost⟩ := create_path_lost h.linked h.heap h.root type hroom
  have hmissing : (walk fs1 fs1.root_node (components [] path)).2 ≠ [] := by
    rw [hg.nodes.2.2.2, components_path hne hlast]
    exact hlost [last_name path]
  obtain ⟨fs2, hnone⟩ := ((h.gained hg).resolve (hroot.gained hg) hlen
    (h.plain_gained hg hplain)).2 hmissing
  exact ⟨fs1, n, fs2, hcreate, hnone⟩

/-- A path for which `ramfs_create_path` has a node is resolved to a node of the VFS that shows it,
exactly if no missing directory of the path meets a full one. -/
theorem created_paths_are_found (type : vfs_node_type) :
    (∀ fs1 n, ramfs_create_path fs fs.root_node path type = .ok (fs1, some n) →
      ∃ fs2 v, vfs_resolve fs1 path = .ok (fs2, RESOURCE_RESULT_OK, v) ∧ Shows fs2 v n) ↔
    HasRoom fs fs.root_node (directories path) := by
  constructor
  · intro hfound
    by_contra hroom
    obtain ⟨fs1, n, fs2, hcreate, hnone⟩ :=
      lost_path_is_missing h hroot hne hlast hlen hplain hroom type
    obtain ⟨fs3, v, hok, -⟩ := hfound fs1 n hcreate
    rw [hnone] at hok
    cases hok
  · intro hroom fs1 n hcreate
    obtain ⟨hg, hw⟩ := create_path_made h.linked h.heap h.root hroom hcreate
    have hwalk : walk fs1 fs1.root_node (components [] path) = (n, []) := by
      rw [hg.nodes.2.2.2, components_path hne hlast, hw]
    obtain ⟨fs2, v, hok, hv⟩ := ((h.gained hg).resolve (hroot.gained hg) hlen
      (h.plain_gained hg hplain)).1 (by rw [hwalk])
    rw [hwalk] at hv
    exact ⟨fs2, v, hok, hv⟩

end

/-! ### A directory with many files -/

/-- The root of the ramfs at 8 has `k` files, and the root of the VFS at 4 shows it. -/
def shelf (k : Nat) : fs_t where
  nodes := fun _ => ⟨0, .ramfs, VFS_NODE_TYPE_DIRECTORY, RESOURCE_TYPE_FILE, 8, 0, 0, 2⟩
  node_blocks := {4}
  inodes := fun a =>
    if a = 8 then
      ⟨0, (List.range k).map fun i => ⟨List.replicate (i + 1) 'a', 16 + 8 * i⟩,
        VFS_NODE_TYPE_DIRECTORY, 0, 9, 1⟩
    else ⟨(a - 8) / 8, [], VFS_NODE_TYPE_FILE, 0, 0, 1⟩
  inode_blocks := (Finset.range (k + 1)).image fun i => 8 + 8 * i
  memory := fun _ => 0
  data_blocks := []
  heap := fun n => 16 + 8 * (k + n)
  root := 4
  cache := [⟨0, [4]⟩]
  last_cache_index := 1
  root_node := 8
  last_index := k + 1
  freed := []

theorem mem_shelf {k a : Nat} : a ∈ (shelf k).inode_blocks ↔ ∃ i < k + 1, 8 + 8 * i = a := by
  simp [shelf]

theorem shelf_entry {k a : Nat} {e : ramfs_dirent_t} (he : e ∈ ((shelf k).inodes a).children) :
    a = 8 ∧ ∃ i < k, e.node = 16 + 8 * i := by
  by_cases ha : a = 8
  · subst ha
    simp only [shelf, if_true, List.mem_map, List.mem_range] at he
    obtain ⟨i, hi, rfl⟩ := he
    exact ⟨rfl, i, hi, rfl⟩
  · simp [shelf, ha] at he

theorem shows_shelf (k : Nat) : Shows (shelf k) (shelf k).root (shelf k).root_node :=
  ⟨by simp [shelf], rfl, rfl⟩

theorem mirrored_shelf (k : Nat) : Mirrored (shelf k) := by
  have hid : ∀ i, ((shelf k).inodes (8 + 8 * i)).id = i := by
    intro i
    cases i with
    | zero => rfl
    | succ i =>
      have hne : 8 + 8 * (i + 1) ≠ 8 := by omega
      simp only [shelf, hne, if_false]
      omega
  have hlink : ∀ a, ((shelf k).inodes a).link_count ≠ 0 := by
    intro a
    by_cases ha : a = 8 <;> simp [shelf, ha]
  constructor
  · constructor <;> simp [shelf]
  · intro n
    simp [shelf]
  · constructor
    · intro n _
      refine ⟨by simp [shelf]; omega, ?_⟩
      rw [mem_shelf]
      rintro ⟨i, hi, he⟩
      simp only [shelf] at he
      omega
    · intro m n _ he
      simp only [shelf] at he
      omega
    · intro a _ e he
      obtain ⟨-, i, hi, hn⟩ := shelf_entry he
      exact mem_shelf.mpr ⟨i + 1, by omega, by omega⟩
  · exact mem_shelf.mpr ⟨0, by omega, rfl⟩
  · intro a ha b hb he
    obtain ⟨i, -, rfl⟩ := mem_shelf.mp ha
    obtain ⟨j, -, rfl⟩ := mem_shelf.mp hb
    rw [hid, hid] at he
    rw [he]
  · intro a ha
    obtain ⟨i, hi, rfl⟩ := mem_shelf.mp ha
    rw [hid]
    exact hi
  · intro a _ e he
    obtain ⟨rfl, i, -, hn⟩ := shelf_entry he
    omega
  · exact fun a _ e _ => hlink e.node
  · exact hlink _
  · intro a d hd
    have hx : 8 = d := hd.fs_data
    subst hx
    exact ⟨mem_shelf.mpr ⟨0, by omega, rfl⟩, rfl, rfl⟩
  · intro a _ hop
    exact absurd rfl hop

theorem plain_shelf (k x : Nat) : Plain (shelf k) x := fun _ _ => rfl

/-- `/b/c` in an empty ramfs. -/
theorem a_path_in_an_empty_root :
    (∀ fs1 n, ramfs_create_path (shelf 0) 8 ['/', 'b', '/', 'c'] VFS_NODE_TYPE_FILE =
        .ok (fs1, some n) →
      ∃ fs2 v, vfs_resolve fs1 ['/', 'b', '/', 'c'] = .ok (fs2, RESOURCE_RESULT_OK, v) ∧
        Shows fs2 v n) ↔
    HasRoom (shelf 0) 8 (directories ['/', 'b', '/', 'c']) :=
  created_paths_are_found (mirrored_shelf 0) (shows_shelf 0) (by decide) (by decide) (by decide)
    (fun x _ => plain_shelf 0 x) VFS_NODE_TYPE_FILE

/-- `/b/c` below a root with 64 files: `ramfs_create_path` has a node, and no path leads to it. -/
theorem a_path_below_a_full_root :
    ¬ ∀ fs1 n, ramfs_create_path (shelf 64) 8 ['/', 'b', '/', 'c'] VFS_NODE_TYPE_FILE =
        .ok (fs1, some n) →
      ∃ fs2 v, vfs_resolve fs1 ['/', 'b', '/', 'c'] = .ok (fs2, RESOURCE_RESULT_OK, v) ∧
        Shows fs2 v n := by
  intro hfound
  have hdirs : directories ['/', 'b', '/', 'c'] = [['b']] := by decide
  have hmissing : ((shelf 64).inodes 8).child ['b'] = none := by decide
  have hroom : ¬ HasRoom (shelf 64) 8 (directories ['/', 'b', '/', 'c']) := by
    unfold HasRoom
    rw [hdirs, walk_none hmissing]
    decide
  obtain ⟨fs1, n, fs2, hcreate, hnone⟩ := lost_path_is_missing (mirrored_shelf 64) (shows_shelf 64)
    (by decide) (by decide) (by decide) (fun x _ => plain_shelf 64 x) hroom VFS_NODE_TYPE_FILE
  obtain ⟨fs3, v, hok, -⟩ := hfound fs1 n hcreate
  rw [hnone] at hok
  cases hok

end alura_os.vfs
