-- The cache of the VFS as an index: its lists hold live nodes under their own
-- keys. This stays so whatever the kernel heap answers, also when a new node
-- does not get into the cache.
import AluraOs.FsCache

namespace alura_os.vfs

open alura_os.memory alura_os.resource faults
open resource_result_t resource_type_t vfs_node_type

variable {fs fs' : fs_t}

/-- The lists of the cache have indices of their own, and they hold live nodes under their keys. -/
structure Indexed (fs : fs_t) : Prop where
  null : 0 ∉ fs.node_blocks
  heads : (fs.cache.map vfs_node_cache_t.index).Nodup
  nodup : ∀ head ∈ fs.cache, head.nodes.Nodup
  live : ∀ head ∈ fs.cache, ∀ a ∈ head.nodes, a ∈ fs.node_blocks
  index : ∀ head ∈ fs.cache, ∀ a ∈ head.nodes, (fs.nodes a).cache_index = head.index
  key : ∀ head ∈ fs.cache, ∀ a ∈ head.nodes, ∀ b ∈ head.nodes,
    (fs.nodes a).index = (fs.nodes b).index → a = b

theorem Cached.indexed (h : Cached fs) : Indexed fs := by
  have hlive : ∀ head ∈ fs.cache, ∀ a ∈ head.nodes, a ∈ fs.node_blocks :=
    fun head hm a ha => (h.mem a).mpr ⟨head, hm, ha⟩
  refine ⟨h.null, h.heads, h.nodup, hlive, h.index, ?_⟩
  intro head hm a ha b hb he
  apply h.key a (hlive head hm a ha) b (hlive head hm b hb) _ he
  rw [h.index head hm a ha, h.index head hm b hb]

/-- A step that keeps the lists, their nodes and the keys of these. -/
theorem Indexed.keep (h : Indexed fs) (hc : fs'.cache = fs.cache) (hn : 0 ∉ fs'.node_blocks)
    (hl : ∀ head ∈ fs.cache, ∀ a ∈ head.nodes, a ∈ fs'.node_blocks ∧
      (fs'.nodes a).cache_index = (fs.nodes a).cache_index ∧
      (fs'.nodes a).index = (fs.nodes a).index) : Indexed fs' := by
  constructor
  · exact hn
  · rw [hc]
    exact h.heads
  · rw [hc]
    exact h.nodup
  · rw [hc]
    exact fun head hm a ha => (hl head hm a ha).1
  · rw [hc]
    intro head hm a ha
    rw [(hl head hm a ha).2.1, h.index head hm a ha]
  · rw [hc]
    intro head hm a ha b hb he
    rw [(hl head hm a ha).2.2, (hl head hm b hb).2.2] at he
    exact h.key head hm a ha b hb he

theorem Indexed.same (h : Indexed fs) (hs : SameShape fs fs') : Indexed fs' := by
  apply h.keep hs.cache
  · rw [hs.node_blocks]
    exact h.null
  · intro head hm a ha
    rw [hs.node_blocks]
    exact ⟨h.live head hm a ha, hs.key a⟩

theorem Indexed.lock {a : Nat} (h : Indexed fs) (ha : vfs_lock_node fs a = .ok fs') :
    Indexed fs' := by
  rcases vfs_lock_node_cases ha with ⟨-, rfl⟩ | ⟨-, -, rfl⟩
  · exact h
  · exact h.same (sameShape_locked fs a)

/-! ## New nodes -/

theorem Indexed.node_filled (h : Indexed fs) {node : Nat} (hu : fs.Unused node) (hz : node ≠ 0)
    (parent : Nat) (n : vfs_node_t) : Indexed (vfs.node_filled fs parent node n) := by
  have hc : (vfs.node_filled fs parent node n).cache = fs.cache := rfl
  apply h.keep hc
  · intro hm
    rcases Finset.mem_insert.mp hm with he | hm
    · exact hz he.symm
    · exact h.null hm
  · intro head hm a ha
    have hlive := h.live head hm a ha
    have hne : a ≠ node := fun he => hu.1 (he ▸ hlive)
    have hnode : (vfs.node_filled fs parent node n).nodes a = fs.nodes a :=
      Function.update_of_ne hne _ _
    rw [hnode]
    exact ⟨Finset.mem_insert_of_mem hlive, rfl, rfl⟩

theorem Indexed.cache_list (h : Indexed fs) (i : Nat) : Indexed (vfs.cache_list fs i).1 := by
  unfold vfs.cache_list
  cases hc : cache_head fs i with
  | some head => exact h
  | none =>
    rw [if_neg (by simp)]
    split
    · exact h.same (sameShape_pop fs)
    · have hold : ∀ head ∈ fs.cache ++ [⟨i, []⟩], ∀ a ∈ head.nodes, head ∈ fs.cache := by
        intro head hm a ha
        rcases List.mem_append.mp hm with hm | hm
        · exact hm
        · rw [List.mem_singleton.mp hm] at ha
          exact absurd ha List.not_mem_nil
      constructor
      · exact h.null
      · have := heads_with_index h.heads i
        rwa [hc] at this
      · intro head hm
        rcases List.mem_append.mp hm with hm | hm
        · exact h.nodup head hm
        · rw [List.mem_singleton.mp hm]
          exact List.nodup_nil
      · exact fun head hm a ha => h.live head (hold head hm a ha) a ha
      · exact fun head hm a ha => h.index head (hold head hm a ha) a ha
      · exact fun head hm a ha => h.key head (hold head hm a ha) a ha

/-- A node goes to the end of the list of its key. -/
theorem Indexed.listed (h : Indexed fs) {node : Nat} (ha : node ∈ fs.node_blocks)
    (hnew : ∀ head ∈ fs.cache, node ∉ head.nodes) {i : Nat} (hi : (fs.nodes node).cache_index = i)
    (hkey : ∀ head ∈ fs.cache, head.index = i → ∀ a ∈ head.nodes,
      (fs.nodes a).index ≠ (fs.nodes node).index)
    (hc : fs'.cache = update_cache i
      (fun head => some { head with nodes := head.nodes ++ [node] }) fs.cache)
    (hb : fs'.node_blocks = fs.node_blocks) (hn : fs'.nodes = fs.nodes) : Indexed fs' := by
  have hheads : ∀ head, head ∈ fs'.cache → (head ∈ fs.cache ∧ head.index ≠ i) ∨
      ∃ old ∈ fs.cache, old.index = i ∧ head = { old with nodes := old.nodes ++ [node] } := by
    intro head hm
    rw [hc, mem_update_cache h.heads] at hm
    rcases hm with hm | ⟨old, hold, ho, he⟩
    · exact Or.inl hm
    · exact Or.inr ⟨old, hold, ho, (Option.some.inj he).symm⟩
  constructor
  · rw [hb]
    exact h.null
  · rw [hc]
    refine nodup_update_cache ?_ h.heads
    rintro old head he
    cases he
    rfl
  · intro head hm
    rcases hheads head hm with ⟨hm, -⟩ | ⟨old, hold, -, rfl⟩
    · exact h.nodup head hm
    · refine List.nodup_append.mpr ⟨h.nodup old hold, List.nodup_singleton _, ?_⟩
      intro a hal b hbl he
      rw [List.mem_singleton.mp hbl] at he
      exact hnew old hold (he ▸ hal)
  · intro head hm a hal
    rw [hb]
    rcases hheads head hm with ⟨hm, -⟩ | ⟨old, hold, -, rfl⟩
    · exact h.live head hm a hal
    · rcases List.mem_append.mp hal with hal | hal
      · exact h.live old hold a hal
      · rw [List.mem_singleton.mp hal]
        exact ha
  · intro head hm a hal
    rw [hn]
    rcases hheads head hm with ⟨hm, -⟩ | ⟨old, hold, ho, rfl⟩
    · exact h.index head hm a hal
    · rcases List.mem_append.mp hal with hal | hal
      · exact h.index old hold a hal
      · rw [List.mem_singleton.mp hal, hi]
        exact ho.symm
  · intro head hm a hal b hbl
    rw [hn]
    rcases hheads head hm with ⟨hm, -⟩ | ⟨old, hold, ho, rfl⟩
    · exact h.key head hm a hal b hbl
    · rcases List.mem_append.mp hal with hal | hal <;> rcases List.mem_append.mp hbl with hbl | hbl
      · exact h.key old hold a hal b hbl
      · rw [List.mem_singleton.mp hbl]
        exact fun he => absurd he (hkey old hold ho a hal)
      · rw [List.mem_singleton.mp hal]
        exact fun he => absurd he.symm (hkey old hold ho b hbl)
      · exact fun _ => (List.mem_singleton.mp hal).trans (List.mem_singleton.mp hbl).symm

/-- A search that ends with no node has looked at all. -/
theorem cache_node_none {id : Int} {l : List Nat} (h : cache_node fs id l = .ok none) :
    ∀ a ∈ l, (fs.nodes a).index ≠ id := by
  induction l with
  | nil => simp
  | cons a l ih =>
    unfold cache_node at h
    obtain ⟨n, hn, h⟩ := bind_ok.mp h
    obtain ⟨-, rfl⟩ := node_ok.mp hn
    split at h
    · cases h
    · rename_i hne
      intro b hb
      rcases List.mem_cons.mp hb with rfl | hb
      · exact hne
      · exact ih h b hb

/-- A search ends at a live node. -/
theorem cache_node_some {id : Int} {l : List Nat} {a : Nat} (h : cache_node fs id l = .ok (some a)) :
    a ∈ fs.node_blocks := by
  induction l with
  | nil => cases h
  | cons b l ih =>
    unfold cache_node at h
    obtain ⟨n, hn, h⟩ := bind_ok.mp h
    split at h
    · cases h
      exact (node_ok.mp hn).1
    · exact ih h

theorem query_some {i : Nat} {id : Int} {a : Nat}
    (h : vfs_cache_query_node fs i id = .ok (some a)) : a ∈ fs.node_blocks := by
  unfold vfs_cache_query_node at h
  split at h
  · cases h
  · exact cache_node_some h

theorem query_none {i : Nat} {id : Int} (h : vfs_cache_query_node fs i id = .ok none) :
    ∃ head, cache_head fs i = some head ∧ ∀ a ∈ head.nodes, (fs.nodes a).index ≠ id := by
  unfold vfs_cache_query_node at h
  cases hc : cache_head fs i with
  | none =>
    rw [hc] at h
    cases h
  | some head =>
    rw [hc] at h
    exact ⟨head, rfl, cache_node_none h⟩

/-- The record of one node, the cache and the answers of the kernel heap may differ. -/
structure PutsOnly (fs fs' : fs_t) (node : Nat) : Prop where
  node_blocks : fs'.node_blocks = fs.node_blocks
  inode_blocks : fs'.inode_blocks = fs.inode_blocks
  others : ∀ a, a ≠ node → fs'.nodes a = fs.nodes a

theorem PutsOnly.trans {fs'' : fs_t} {node : Nat} (h : PutsOnly fs fs' node)
    (h' : PutsOnly fs' fs'' node) : PutsOnly fs fs'' node :=
  ⟨h'.node_blocks.trans h.node_blocks, h'.inode_blocks.trans h.inode_blocks,
    fun a ha => (h'.others a ha).trans (h.others a ha)⟩

theorem puts_only_lock {node : Nat} (h : vfs_lock_node fs node = .ok fs') :
    PutsOnly fs fs' node := by
  rcases vfs_lock_node_cases h with ⟨-, rfl⟩ | ⟨-, -, rfl⟩
  · exact ⟨rfl, rfl, fun _ _ => rfl⟩
  · exact ⟨rfl, rfl, fun a ha => setCount_ne fs _ ha⟩

theorem cache_list_keeps (fs : fs_t) (i : Nat) :
    (cache_list fs i).1.node_blocks = fs.node_blocks ∧
      (cache_list fs i).1.inode_blocks = fs.inode_blocks ∧
      (cache_list fs i).1.nodes = fs.nodes ∧
      ∀ head ∈ (cache_list fs i).1.cache, head ∈ fs.cache ∨ head.nodes = [] := by
  unfold cache_list
  split
  · exact ⟨rfl, rfl, rfl, fun head hm => Or.inl hm⟩
  · split
    · exact ⟨rfl, rfl, rfl, fun head hm => Or.inl hm⟩
    · refine ⟨rfl, rfl, rfl, ?_⟩
      intro head hm
      rcases List.mem_append.mp hm with hm | hm
      · exact Or.inl hm
      · rw [List.mem_singleton.mp hm]
        exact Or.inr rfl

/-- The last part of `vfs_cache_put`, for a node that is in no list and has a key of its own. -/
theorem Indexed.cache_append (h : Indexed fs) {node i : Nat} (ha : node ∈ fs.node_blocks)
    (hnew : ∀ head ∈ fs.cache, node ∉ head.nodes) (hi : (fs.nodes node).cache_index = i)
    (hkey : ∀ head ∈ fs.cache, head.index = i → ∀ a ∈ head.nodes,
      (fs.nodes a).index ≠ (fs.nodes node).index) {r : resource_result_t}
    (hput : vfs.cache_append fs i node = .ok (fs', r)) :
    Indexed fs' ∧ PutsOnly fs fs' node := by
  unfold vfs.cache_append at hput
  split at hput
  · cases hput
    exact ⟨h.same (sameShape_pop fs), rfl, rfl, fun _ _ => rfl⟩
  · obtain ⟨g, hlock, hput⟩ := bind_ok.mp hput
    cases hput
    have hstep : ∀ x : fs_t, vfs_lock_node x node = .ok fs' →
        x.cache = update_cache i (fun head => some { head with nodes := head.nodes ++ [node] })
          fs.cache → x.node_blocks = fs.node_blocks → x.nodes = fs.nodes →
        x.inode_blocks = fs.inode_blocks → Indexed fs' ∧ PutsOnly fs fs' node := by
      intro x hx hc hb hn hi'
      have hsame : PutsOnly fs x node := ⟨hb, hi', fun a _ => congrFun hn a⟩
      exact ⟨(h.listed ha hnew hi hkey hc hb hn).lock hx, hsame.trans (puts_only_lock hx)⟩
    exact hstep _ hlock rfl rfl rfl rfl

/-- `vfs_cache_put` of a node that is in no list. -/
theorem Indexed.put (h : Indexed fs) {node : Nat} (ha : node ∈ fs.node_blocks)
    (hnew : ∀ head ∈ fs.cache, node ∉ head.nodes) {r : resource_result_t}
    (hput : vfs_cache_put fs node = .ok (fs', r)) :
    Indexed fs' ∧ PutsOnly fs fs' node := by
  have hn : fs.node node = .ok (fs.nodes node) := node_ok.mpr ⟨ha, rfl⟩
  unfold vfs_cache_put at hput
  rw [hn, ok_bind] at hput
  have hlist := h.cache_list (fs.nodes node).cache_index
  obtain ⟨hblocks, hinodes, hnodes, hheads⟩ := cache_list_keeps fs (fs.nodes node).cache_index
  generalize vfs.cache_list fs (fs.nodes node).cache_index = x
    at hput hlist hblocks hinodes hnodes hheads
  obtain ⟨g, listed⟩ := x
  dsimp only at hput hlist hblocks hinodes hnodes hheads
  have hsame : PutsOnly fs g node := ⟨hblocks, hinodes, fun a _ => congrFun hnodes a⟩
  have hout : ∀ head ∈ g.cache, node ∉ head.nodes := by
    intro head hm hc
    rcases hheads head hm with hm | he
    · exact hnew head hm hc
    · rw [he] at hc
      exact List.not_mem_nil hc
  split at hput
  · cases hput
    exact ⟨hlist, hsame⟩
  · obtain ⟨found, hq, hput⟩ := bind_ok.mp hput
    cases found with
    | some a =>
      cases hput
      exact ⟨hlist, hsame⟩
    | none =>
      obtain ⟨head, hc, hother⟩ := query_none hq
      obtain ⟨hm, hi⟩ := cache_head_some hc
      rw [← hnodes] at hput hother hi
      rw [← hblocks] at ha
      obtain ⟨hgrown, hput'⟩ := hlist.cache_append ha hout rfl (by
        intro old hold ho
        rw [List.inj_on_of_nodup_map hlist.heads hold hm (ho.trans hi.symm)]
        exact hother) hput
      exact ⟨hgrown, hsame.trans hput'⟩

/-- What a lookup leaves: the index in order, the nodes as they were, and a live node when it finds
one. -/
structure Kept (fs fs' : fs_t) (r : resource_result_t) (node : Nat) : Prop where
  indexed : Indexed fs'
  live : fs.node_blocks ⊆ fs'.node_blocks
  inodes : fs'.inode_blocks = fs.inode_blocks
  records : ∀ a ∈ fs.node_blocks, fs'.nodes a = fs.nodes a
  found : r = RESOURCE_RESULT_OK → node ≠ 0 ∧ node ∈ fs'.node_blocks

/-- `vfs_create_node`, whether or not the node gets into the cache. -/
theorem Indexed.create_node (h : Indexed fs) {parent node : Nat} {id : Int}
    {operations : vfs_node_operations_t} {fs_data : Nat} {type : vfs_node_type}
    {resource_type : resource_type_t} {r : resource_result_t}
    (hnew : vfs_create_node fs parent id operations fs_data type resource_type =
      .ok (fs', r, node)) :
    Kept fs fs' r node := by
  unfold vfs_create_node at hnew
  dsimp only at hnew
  split at hnew
  · cases hnew
    exact ⟨h.same (sameShape_pop fs), Finset.Subset.refl _, rfl, fun _ _ => rfl,
      fun hc => by cases hc⟩
  · rename_i hz
    split at hnew
    · cases hnew
    · rename_i hu
      split at hnew
      · cases hnew
      · obtain ⟨⟨g, result⟩, hput, hnew⟩ := bind_ok.mp hnew
        cases hnew
        rw [not_not] at hu
        obtain ⟨hg, hb⟩ := (h.node_filled hu hz parent _).put (Finset.mem_insert_self _ _)
          (fun head hm hc => hu.1 (h.live head hm _ hc)) hput
        refine ⟨hg, ?_, hb.inode_blocks, ?_, fun _ => ⟨hz, ?_⟩⟩
        · rw [hb.node_blocks]
          exact Finset.subset_insert _ _
        · intro a ha
          have hne : a ≠ fs.next_block := fun he => hu.1 (he ▸ ha)
          rw [hb.others a hne]
          exact Function.update_of_ne hne _ _
        · rw [hb.node_blocks]
          exact Finset.mem_insert_self _ _

/-! ## Lookups -/

theorem Indexed.kept_here (h : Indexed fs) {r : resource_result_t} {node : Nat}
    (hr : r = RESOURCE_RESULT_OK → node ∈ fs.node_blocks) : Kept fs fs r node :=
  ⟨h, Finset.Subset.refl _, rfl, fun _ _ => rfl, fun hc => ⟨fun hz => h.null (hz ▸ hr hc), hr hc⟩⟩

theorem Indexed.lookup (h : Indexed fs) {d node : Nat} {name : List Char} {r : resource_result_t}
    (hl : vfs.lookup fs d name = .ok (fs', r, node)) : Kept fs fs' r node := by
  have hmiss : RESOURCE_RESULT_NOT_FOUND = RESOURCE_RESULT_OK → (0 : Nat) ∈ fs.node_blocks :=
    fun hc => by cases hc
  unfold vfs.lookup at hl
  obtain ⟨n, hn, hl⟩ := bind_ok.mp hl
  split at hl
  · unfold ramfs_lookup at hl
    rw [hn, ok_bind] at hl
    obtain ⟨found, -, hl⟩ := bind_ok.mp hl
    cases found with
    | none =>
      cases hl
      exact h.kept_here hmiss
    | some child =>
      dsimp only at hl
      unfold ramfs_node_of at hl
      rw [hn, ok_bind] at hl
      obtain ⟨i, -, hl⟩ := bind_ok.mp hl
      obtain ⟨out, hq, hl⟩ := bind_ok.mp hl
      cases out with
      | some a =>
        cases hl
        exact h.kept_here fun _ => query_some hq
      | none => exact h.create_node hl
  · unfold devfs_lookup at hl
    dsimp only at hl
    split at hl
    · cases hl
      exact h.kept_here hmiss
    · unfold devfs_node_of at hl
      rw [hn, ok_bind] at hl
      obtain ⟨out, hq, hl⟩ := bind_ok.mp hl
      cases out with
      | some a =>
        cases hl
        exact h.kept_here fun _ => query_some hq
      | none => exact h.create_node hl
  · cases hl
    exact h.kept_here fun hc => by cases hc

/-! ## Releases -/

/-- What leaves a list of nodes with keys of their own is the node with the key. -/
theorem not_mem_eraseP {a : Nat} {l : List Nat} (hnd : l.Nodup) {p : Nat → Bool} (hp : p a = true)
    (hkey : ∀ b ∈ l, p b = true → b = a) : a ∉ l.eraseP p := by
  induction l with
  | nil => simp
  | cons b l ih =>
    rw [List.nodup_cons] at hnd
    by_cases hb : p b = true
    · rw [List.eraseP_cons_of_pos hb, ← hkey b List.mem_cons_self hb]
      exact hnd.1
    · rw [List.eraseP_cons_of_neg (by simpa using hb), List.mem_cons, not_or]
      refine ⟨fun he => hb (he ▸ hp), ih hnd.2 fun c hc => hkey c (List.mem_cons_of_mem _ hc)⟩

theorem Indexed.evicted (h : Indexed fs) (a : Nat) : Indexed (vfs.evicted fs a) := by
  -- A list of the new cache is part of an old one, without the node.
  have hheads : ∀ head ∈ (vfs.evicted fs a).cache, ∃ old ∈ fs.cache, old.index = head.index ∧
      head.nodes.Nodup ∧ ∀ b ∈ head.nodes, b ∈ old.nodes ∧ b ≠ a := by
    intro head hm
    rw [evicted_cache, mem_update_cache h.heads] at hm
    rcases hm with ⟨hm, hne⟩ | ⟨old, hold, hi, hw⟩
    · refine ⟨head, hm, rfl, h.nodup head hm, fun b hb => ⟨hb, ?_⟩⟩
      rintro rfl
      exact hne (h.index head hm b hb).symm
    · unfold cache_without at hw
      dsimp only at hw
      split at hw
      · cases hw
      · cases hw
        refine ⟨old, hold, rfl, (h.nodup old hold).sublist List.eraseP_sublist, fun b hb => ?_⟩
        have hb' := List.eraseP_subset hb
        refine ⟨hb', ?_⟩
        rintro rfl
        refine not_mem_eraseP (h.nodup old hold) (by simp) (fun c hc he => ?_) hb
        exact h.key old hold c hc b hb' (by simpa using he)
  constructor
  · rw [evicted_node_blocks]
    exact fun hz => h.null (Finset.mem_of_mem_erase hz)
  · rw [evicted_cache]
    refine nodup_update_cache ?_ h.heads
    intro old head hw
    unfold cache_without at hw
    dsimp only at hw
    split at hw
    · cases hw
    · cases hw
      rfl
  · intro head hm
    obtain ⟨old, hold, hi, hnd, hsub⟩ := hheads head hm
    exact hnd
  · intro head hm b hb
    obtain ⟨old, hold, hi, hnd, hsub⟩ := hheads head hm
    rw [evicted_node_blocks]
    exact Finset.mem_erase.mpr ⟨(hsub b hb).2, h.live old hold b (hsub b hb).1⟩
  · intro head hm b hb
    obtain ⟨old, hold, hi, hnd, hsub⟩ := hheads head hm
    rw [evicted_nodes, h.index old hold b (hsub b hb).1, hi]
  · intro head hm b hb c hc
    obtain ⟨old, hold, hi, hnd, hsub⟩ := hheads head hm
    rw [evicted_nodes]
    exact h.key old hold b (hsub b hb).1 c (hsub c hc).1

theorem release_result {a : Nat} (h : release fs a = .ok fs') :
    fs' = unnamed_freed fs (fs.nodes a) := by
  unfold release at h
  obtain ⟨n, hn, h⟩ := bind_ok.mp h
  obtain ⟨ha, rfl⟩ := node_ok.mp hn
  have hd : (fs.nodes a).operations = .ramfs → (fs.nodes a).fs_data ∈ fs.inode_blocks := by
    intro hop
    rw [hop] at h
    dsimp only at h
    unfold ramfs_release at h
    rw [hn, ok_bind] at h
    obtain ⟨i, hi, -⟩ := bind_ok.mp h
    exact (inode_ok.mp hi).1
  have heq := release_eq ha hd
  unfold release at heq
  rw [hn, ok_bind, h] at heq
  exact Except.ok.inj heq

/-- An eviction that has a result left everything as it was, or evicted the node. -/
theorem try_evict_result {a : Nat} {r : resource_result_t}
    (h : vfs_cache_try_evict fs a = .ok (fs', r)) : fs' = fs ∨ fs' = evicted fs a := by
  unfold vfs_cache_try_evict at h
  obtain ⟨n, hn, h⟩ := bind_ok.mp h
  obtain ⟨-, rfl⟩ := node_ok.mp hn
  split at h
  · cases h
    exact Or.inl rfl
  · split at h
    · cases h
      exact Or.inl rfl
    · obtain ⟨found, -, h⟩ := bind_ok.mp h
      cases found with
      | none =>
        cases h
        exact Or.inl rfl
      | some b =>
        obtain ⟨g, hg, h⟩ := bind_ok.mp h
        cases h
        rw [release_result hg]
        exact Or.inr rfl

theorem Indexed.release {a : Nat} (h : Indexed fs) (hr : vfs_release_node fs a = .ok fs') :
    Indexed fs' := by
  unfold vfs_release_node at hr
  split at hr
  · cases hr
    exact h
  · obtain ⟨n, -, hr⟩ := bind_ok.mp hr
    obtain ⟨⟨g, r⟩, he, hr⟩ := bind_ok.mp hr
    cases hr
    have hcount := h.same (sameShape_setCount fs a (sub32 n.ref_count 1))
    rcases try_evict_result he with rfl | rfl
    · exact hcount
    · exact hcount.evicted a

theorem Indexed.try_evict_ok {a : Nat} (h : Indexed fs) (ha : a ∈ fs.node_blocks)
    (hd : (fs.nodes a).operations = .ramfs → (fs.nodes a).fs_data ∈ fs.inode_blocks) :
    ∃ x, vfs_cache_try_evict fs a = .ok x := by
  have hn : fs.node a = .ok (fs.nodes a) := node_ok.mpr ⟨ha, rfl⟩
  have hrel : vfs.release (cache_remove fs (fs.nodes a)) a =
      .ok (unnamed_freed (cache_remove fs (fs.nodes a)) (fs.nodes a)) := release_eq ha hd
  unfold vfs_cache_try_evict
  rw [hn, ok_bind]
  split
  · exact ⟨_, rfl⟩
  · split
    · exact ⟨_, rfl⟩
    · rename_i head hc
      rw [cache_node_eq (h.live head (cache_head_some hc).1), ok_bind]
      split
      · exact ⟨_, rfl⟩
      · rw [hrel, ok_bind]
        exact ⟨_, rfl⟩

/-- A live node can be released when the node of the ramfs that it shows is there. -/
theorem Indexed.release_ok {a : Nat} (h : Indexed fs) (ha : a ∈ fs.node_blocks)
    (hd : (fs.nodes a).operations = .ramfs → (fs.nodes a).fs_data ∈ fs.inode_blocks) :
    ∃ fs', vfs_release_node fs a = .ok fs' := by
  have hn : fs.node a = .ok (fs.nodes a) := node_ok.mpr ⟨ha, rfl⟩
  have hz : a ≠ 0 := fun he => h.null (he ▸ ha)
  have hcount := h.same (sameShape_setCount fs a (sub32 (fs.nodes a).ref_count 1))
  obtain ⟨x, hx⟩ := hcount.try_evict_ok ha (by rw [setCount_self]; exact hd)
  unfold vfs_release_node
  rw [if_neg hz, hn, ok_bind, hx, ok_bind]
  exact ⟨_, rfl⟩

end alura_os.vfs
