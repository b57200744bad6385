-- The cache of the VFS: every node is in one list of the cache, and no two
-- nodes have the same key. What a lookup finds, adds and evicts there.
import AluraOs.Faults
import AluraOs.Vfs

namespace alura_os.vfs

open alura_os.memory alura_os.resource faults
open resource_result_t resource_type_t vfs_node_type

variable {fs fs' : fs_t}

/-! ## The lists -/

theorem mem_update_cache {i : Nat} {f : vfs_node_cache_t → Option vfs_node_cache_t}
    {l : List vfs_node_cache_t} (hl : (l.map vfs_node_cache_t.index).Nodup)
    {head : vfs_node_cache_t} :
    head ∈ update_cache i f l ↔
      (head ∈ l ∧ head.index ≠ i) ∨ ∃ old ∈ l, old.index = i ∧ f old = some head := by
  induction l with
  | nil => simp [update_cache]
  | cons h l ih =>
    rw [List.map_cons, List.nodup_cons] at hl
    unfold update_cache
    split
    · rename_i hi
      have hne : ∀ x ∈ l, x.index ≠ i := by
        intro x hx he
        exact hl.1 (List.mem_map.mpr ⟨x, hx, he.trans hi.symm⟩)
      simp only [List.mem_append, Option.mem_toList, List.mem_cons]
      constructor
      · rintro (hf | hm)
        · exact Or.inr ⟨h, Or.inl rfl, hi, hf⟩
        · exact Or.inl ⟨Or.inr hm, hne head hm⟩
      · rintro (⟨rfl | hm, hn⟩ | ⟨old, rfl | hm, ho, hf⟩)
        · exact absurd hi hn
        · exact Or.inr hm
        · exact Or.inl hf
        · exact absurd ho (hne old hm)
    · rename_i hi
      rw [List.mem_cons, ih hl.2]
      constructor
      · rintro (rfl | ⟨hm, hn⟩ | ⟨old, hm, ho⟩)
        · exact Or.inl ⟨List.mem_cons_self, hi⟩
        · exact Or.inl ⟨List.mem_cons_of_mem _ hm, hn⟩
        · exact Or.inr ⟨old, List.mem_cons_of_mem _ hm, ho⟩
      · rintro (⟨hm, hn⟩ | ⟨old, hm, ho, hf⟩)
        · rcases List.mem_cons.mp hm with rfl | hm
          · exact Or.inl rfl
          · exact Or.inr (Or.inl ⟨hm, hn⟩)
        · rcases List.mem_cons.mp hm with rfl | hm
          · exact absurd ho hi
          · exact Or.inr (Or.inr ⟨old, hm, ho, hf⟩)

/-- A change of one list that keeps its index keeps the indices apart. -/
theorem nodup_update_cache {i : Nat} {f : vfs_node_cache_t → Option vfs_node_cache_t}
    {l : List vfs_node_cache_t} (hf : ∀ old head, f old = some head → head.index = old.index)
    (hl : (l.map vfs_node_cache_t.index).Nodup) :
    ((update_cache i f l).map vfs_node_cache_t.index).Nodup := by
  induction l with
  | nil => simp [update_cache]
  | cons h l ih =>
    have hl' := hl
    rw [List.map_cons, List.nodup_cons] at hl
    unfold update_cache
    split
    · cases hfh : f h with
      | none => simpa using hl.2
      | some head =>
        simp only [Option.toList_some, List.singleton_append, List.map_cons]
        rw [hf h head hfh]
        exact List.nodup_cons.mpr hl
    · rw [List.map_cons, List.nodup_cons]
      refine ⟨?_, ih hl.2⟩
      intro hm
      obtain ⟨x, hx, he⟩ := List.mem_map.mp hm
      rcases (mem_update_cache hl.2).mp hx with ⟨hx, -⟩ | ⟨old, hold, -, hfo⟩
      · exact hl.1 (List.mem_map.mpr ⟨x, hx, he⟩)
      · exact hl.1 (List.mem_map.mpr ⟨old, hold, by rw [← he, hf old x hfo]⟩)

/-! ## The invariant -/

/-- Every node of the VFS is in the list of its cache index, and its key is its own. -/
structure Cached (fs : fs_t) : Prop where
  heads : (fs.cache.map vfs_node_cache_t.index).Nodup
  nodup : ∀ head ∈ fs.cache, head.nodes.Nodup
  mem : ∀ a, a ∈ fs.node_blocks ↔ ∃ head ∈ fs.cache, a ∈ head.nodes
  index : ∀ head ∈ fs.cache, ∀ a ∈ head.nodes, (fs.nodes a).cache_index = head.index
  key : ∀ a ∈ fs.node_blocks, ∀ b ∈ fs.node_blocks,
    (fs.nodes a).cache_index = (fs.nodes b).cache_index →
    (fs.nodes a).index = (fs.nodes b).index → a = b
  null : 0 ∉ fs.node_blocks
  fresh : ∀ a ∈ fs.node_blocks, (fs.nodes a).cache_index < fs.last_cache_index
  filled : ∀ head ∈ fs.cache, head.nodes ≠ []

theorem Cached.head_unique (h : Cached fs) {x y : vfs_node_cache_t} (hx : x ∈ fs.cache)
    (hy : y ∈ fs.cache) (he : x.index = y.index) : x = y :=
  List.inj_on_of_nodup_map h.heads hx hy he

/-- The list that a search for the cache index ends at. -/
theorem cache_head_some {i : Nat} {head : vfs_node_cache_t} (h : cache_head fs i = some head) :
    head ∈ fs.cache ∧ head.index = i := by
  unfold cache_head at h
  exact ⟨List.mem_of_find?_eq_some h, by simpa using List.find?_some h⟩

theorem cache_head_none {i : Nat} (h : cache_head fs i = none) :
    ∀ head ∈ fs.cache, head.index ≠ i := by
  unfold cache_head at h
  simpa using h

theorem Cached.head_of (h : Cached fs) {a : Nat} (ha : a ∈ fs.node_blocks) :
    ∃ head, cache_head fs (fs.nodes a).cache_index = some head ∧ a ∈ head.nodes := by
  obtain ⟨head, hm, ham⟩ := (h.mem a).mp ha
  have hi := h.index head hm a ham
  cases hc : cache_head fs (fs.nodes a).cache_index with
  | none => exact absurd hi.symm (cache_head_none hc head hm)
  | some x =>
    obtain ⟨hx, hxi⟩ := cache_head_some hc
    obtain rfl := h.head_unique hx hm (hxi.trans hi)
    exact ⟨x, rfl, ham⟩

/-- The nodes of a list are those with its index. -/
theorem Cached.mem_head (h : Cached fs) {i a : Nat} {head : vfs_node_cache_t}
    (hc : cache_head fs i = some head) :
    a ∈ head.nodes ↔ a ∈ fs.node_blocks ∧ (fs.nodes a).cache_index = i := by
  obtain ⟨hm, hi⟩ := cache_head_some hc
  constructor
  · exact fun ha => ⟨(h.mem a).mpr ⟨head, hm, ha⟩, (h.index head hm a ha).trans hi⟩
  · rintro ⟨ha, hai⟩
    obtain ⟨x, hx, hax⟩ := h.head_of ha
    rw [hai, hc] at hx
    cases hx
    exact hax

theorem cache_node_eq {id : Int} {l : List Nat} (h : ∀ a ∈ l, a ∈ fs.node_blocks) :
    cache_node fs id l = .ok (l.find? fun a => (fs.nodes a).index = id) := by
  induction l with
  | nil => rfl
  | cons a l ih =>
    have ha : fs.node a = .ok (fs.nodes a) := node_ok.mpr ⟨h a List.mem_cons_self, rfl⟩
    unfold cache_node
    rw [ha, ok_bind, ih fun b hb => h b (List.mem_cons_of_mem _ hb), List.find?_cons]
    by_cases hi : (fs.nodes a).index = id
    · simp [hi]
    · simp [hi]

/-- A query of a list that is there finds the node with the key. -/
theorem Cached.query (h : Cached fs) {i : Nat} {head : vfs_node_cache_t} (id : Int)
    (hc : cache_head fs i = some head) :
    ∃ found, vfs_cache_query_node fs i id = .ok found ∧
      (∀ a, found = some a ↔
        a ∈ fs.node_blocks ∧ (fs.nodes a).cache_index = i ∧ (fs.nodes a).index = id) := by
  have hlive : ∀ a ∈ head.nodes, a ∈ fs.node_blocks := fun a ha => ((h.mem_head hc).mp ha).1
  refine ⟨head.nodes.find? fun a => (fs.nodes a).index = id, ?_, ?_⟩
  · unfold vfs_cache_query_node
    rw [hc]
    exact cache_node_eq hlive
  · intro a
    constructor
    · intro ha
      have hm := (h.mem_head hc).mp (List.mem_of_find?_eq_some ha)
      have hi : (fs.nodes a).index = id := by simpa using List.find?_some ha
      exact ⟨hm.1, hm.2, hi⟩
    · rintro ⟨ha, hai, hid⟩
      have hm := (h.mem_head hc).mpr ⟨ha, hai⟩
      cases hf : head.nodes.find? fun a => (fs.nodes a).index = id with
      | none =>
        rw [List.find?_eq_none] at hf
        exact absurd hid (by simpa using hf a hm)
      | some b =>
        have hb := (h.mem_head hc).mp (List.mem_of_find?_eq_some hf)
        have hbi : (fs.nodes b).index = id := by simpa using List.find?_some hf
        rw [h.key b hb.1 a ha (hb.2.trans hai.symm) (hbi.trans hid.symm)]

/-! ## Locks -/

/-- The file systems after `vfs_lock_node`. -/
def locked (fs : fs_t) (a : Nat) : fs_t := fs.setCount a (u32 ((fs.nodes a).ref_count + 1))

/-- Only counts of references and the answers of the kernel heap differ. -/
structure SameShape (fs fs' : fs_t) : Prop where
  nodes : ∀ a, ∃ n, fs'.nodes a = { fs.nodes a with ref_count := n }
  node_blocks : fs'.node_blocks = fs.node_blocks
  inodes : fs'.inodes = fs.inodes
  inode_blocks : fs'.inode_blocks = fs.inode_blocks
  memory : fs'.memory = fs.memory
  data_blocks : fs'.data_blocks = fs.data_blocks
  root : fs'.root = fs.root
  cache : fs'.cache = fs.cache
  last_cache_index : fs'.last_cache_index = fs.last_cache_index
  root_node : fs'.root_node = fs.root_node
  last_index : fs'.last_index = fs.last_index
  freed : fs'.freed = fs.freed

@[simp]
theorem setCount_self (fs : fs_t) (a n : Nat) :
    (fs.setCount a n).nodes a = { fs.nodes a with ref_count := n } := by
  simp [fs_t.setCount, fs_t.setNode]

theorem setCount_ne (fs : fs_t) {a b : Nat} (n : Nat) (h : b ≠ a) :
    (fs.setCount a n).nodes b = fs.nodes b := by
  simp [fs_t.setCount, fs_t.setNode, h]

theorem sameShape_setCount (fs : fs_t) (a n : Nat) : SameShape fs (fs.setCount a n) := by
  refine ⟨fun b => ?_, rfl, rfl, rfl, rfl, rfl, rfl, rfl, rfl, rfl, rfl, rfl⟩
  by_cases hb : b = a
  · subst hb
    exact ⟨n, setCount_self fs b n⟩
  · exact ⟨(fs.nodes b).ref_count, setCount_ne fs n hb⟩

theorem sameShape_pop (fs : fs_t) : SameShape fs fs.pop_block :=
  ⟨fun a => ⟨(fs.nodes a).ref_count, rfl⟩, rfl, rfl, rfl, rfl, rfl, rfl, rfl, rfl, rfl, rfl, rfl⟩

theorem SameShape.key (h : SameShape fs fs') (a : Nat) :
    (fs'.nodes a).cache_index = (fs.nodes a).cache_index ∧
      (fs'.nodes a).index = (fs.nodes a).index := by
  obtain ⟨n, hn⟩ := h.nodes a
  rw [hn]
  exact ⟨rfl, rfl⟩

/-- The cache looks at the keys of the nodes only. -/
theorem Cached.same_keys (h : Cached fs) (hb : fs'.node_blocks = fs.node_blocks)
    (hk : ∀ a, (fs'.nodes a).cache_index = (fs.nodes a).cache_index ∧
      (fs'.nodes a).index = (fs.nodes a).index)
    (hc : fs'.cache = fs.cache) (hl : fs'.last_cache_index = fs.last_cache_index) : Cached fs' := by
  constructor
  · rw [hc]
    exact h.heads
  · rw [hc]
    exact h.nodup
  · rw [hc, hb]
    exact h.mem
  · rw [hc]
    intro head hm a ha
    rw [(hk a).1, h.index head hm a ha]
  · rw [hb]
    intro a ha b hb hci hi
    rw [(hk a).1, (hk b).1] at hci
    rw [(hk a).2, (hk b).2] at hi
    exact h.key a ha b hb hci hi
  · rw [hb]
    exact h.null
  · rw [hb, hl]
    intro a ha
    rw [(hk a).1]
    exact h.fresh a ha
  · rw [hc]
    exact h.filled

theorem Cached.same (h : Cached fs) (hs : SameShape fs fs') : Cached fs' :=
  h.same_keys hs.node_blocks hs.key hs.cache hs.last_cache_index

theorem sameShape_locked (fs : fs_t) (a : Nat) : SameShape fs (locked fs a) :=
  sameShape_setCount fs a _

theorem vfs_lock_node_eq {a : Nat} (hz : a ≠ 0) (ha : a ∈ fs.node_blocks) :
    vfs_lock_node fs a = .ok (locked fs a) := by
  have hn : fs.node a = .ok (fs.nodes a) := node_ok.mpr ⟨ha, rfl⟩
  unfold vfs_lock_node
  rw [if_neg hz, hn, ok_bind]
  rfl

theorem vfs_lock_node_cases {a : Nat} (h : vfs_lock_node fs a = .ok fs') :
    (a = 0 ∧ fs' = fs) ∨ (a ≠ 0 ∧ a ∈ fs.node_blocks ∧ fs' = locked fs a) := by
  by_cases hz : a = 0
  · unfold vfs_lock_node at h
    rw [if_pos hz] at h
    cases h
    exact Or.inl ⟨hz, rfl⟩
  · have hl : a ∈ fs.node_blocks := by
      unfold vfs_lock_node at h
      rw [if_neg hz] at h
      obtain ⟨n, hn, -⟩ := bind_ok.mp h
      exact (node_ok.mp hn).1
    rw [vfs_lock_node_eq hz hl] at h
    cases h
    exact Or.inr ⟨hz, hl, rfl⟩

/-! ## New nodes -/

/-- A node was added to the cache, with the reference that the cache holds. -/
structure Added (fs fs' : fs_t) (node : Nat) (n : vfs_node_t) : Prop where
  unused : fs.Unused node
  null : node ≠ 0
  node_blocks : fs'.node_blocks = insert node fs.node_blocks
  self : fs'.nodes node = { n with ref_count := 1 }
  others : ∀ a, a ≠ node → fs'.nodes a = fs.nodes a
  inodes : fs'.inodes = fs.inodes
  inode_blocks : fs'.inode_blocks = fs.inode_blocks
  memory : fs'.memory = fs.memory
  data_blocks : fs'.data_blocks = fs.data_blocks
  root : fs'.root = fs.root
  root_node : fs'.root_node = fs.root_node
  last_index : fs'.last_index = fs.last_index
  freed : fs'.freed = fs.freed

/-- The kernel heap never gives `NULL`. -/
def HeapServes (fs : fs_t) : Prop := ∀ n, fs.heap n ≠ 0

theorem HeapServes.next (h : HeapServes fs) : fs.next_block ≠ 0 := h 0

theorem HeapServes.pop (h : HeapServes fs) : HeapServes fs.pop_block := fun n => h (n + 1)

/-- The lists of the cache with a node more in one of them. -/
def put_cache (fs : fs_t) (cache_index node : Nat) : List vfs_node_cache_t :=
  update_cache cache_index (fun head => some { head with nodes := head.nodes ++ [node] })
    (if (cache_head fs cache_index).isNone then fs.cache ++ [⟨cache_index, []⟩] else fs.cache)

theorem heads_with_index (h : (fs.cache.map vfs_node_cache_t.index).Nodup) (i : Nat) :
    ((if (cache_head fs i).isNone then fs.cache ++ [⟨i, []⟩] else fs.cache).map
      vfs_node_cache_t.index).Nodup := by
  split
  · rename_i hn
    rw [List.map_append, List.nodup_append]
    refine ⟨h, by simp, ?_⟩
    intro x hx y hy
    obtain ⟨head, hm, rfl⟩ := List.mem_map.mp hx
    simp only [List.map_cons, List.map_nil, List.mem_singleton] at hy
    subst hy
    exact cache_head_none (Option.isNone_iff_eq_none.mp hn) head hm
  · exact h

theorem mem_put_cache (h : (fs.cache.map vfs_node_cache_t.index).Nodup) {i node : Nat}
    {head : vfs_node_cache_t} :
    head ∈ put_cache fs i node ↔
      (head ∈ fs.cache ∧ head.index ≠ i) ∨
        head = ⟨i, ((cache_head fs i).map vfs_node_cache_t.nodes).getD [] ++ [node]⟩ := by
  unfold put_cache
  rw [mem_update_cache (heads_with_index h i)]
  cases hc : cache_head fs i with
  | none =>
    have hnone := cache_head_none hc
    simp only [Option.isNone_none, if_true, List.mem_append, List.mem_singleton, Option.map_none,
      Option.getD_none, List.nil_append, Option.some.injEq]
    constructor
    · rintro (⟨hm | rfl, hn⟩ | ⟨old, hm | rfl, ho, rfl⟩)
      · exact Or.inl ⟨hm, hn⟩
      · exact absurd rfl hn
      · exact absurd ho (hnone old hm)
      · exact Or.inr rfl
    · rintro (⟨hm, hn⟩ | rfl)
      · exact Or.inl ⟨Or.inl hm, hn⟩
      · exact Or.inr ⟨⟨i, []⟩, Or.inr rfl, rfl, rfl⟩
  | some x =>
    obtain ⟨hx, hxi⟩ := cache_head_some hc
    simp only [Option.isNone_some, Bool.false_eq_true, if_false, Option.map_some, Option.getD_some,
      Option.some.injEq]
    constructor
    · rintro (hm | ⟨old, hm, ho, rfl⟩)
      · exact Or.inl hm
      · have : old = x := List.inj_on_of_nodup_map h hm hx (ho.trans hxi.symm)
        subst this
        exact Or.inr (by rw [hxi])
    · rintro (hm | rfl)
      · exact Or.inl hm
      · exact Or.inr ⟨x, hx, hxi, by rw [hxi]⟩

/-- The nodes that are in the cache with a node more. -/
theorem Cached.mem_put_cache (h : Cached fs) {i node a : Nat} :
    (∃ head ∈ put_cache fs i node, a ∈ head.nodes) ↔ a = node ∨ a ∈ fs.node_blocks := by
  have hlist : a ∈ ((cache_head fs i).map vfs_node_cache_t.nodes).getD [] ↔
      a ∈ fs.node_blocks ∧ (fs.nodes a).cache_index = i := by
    cases hc : cache_head fs i with
    | none =>
      simp only [Option.map_none, Option.getD_none, List.not_mem_nil, false_iff, not_and]
      intro ha hi
      obtain ⟨head, hh, -⟩ := h.head_of ha
      rw [hi, hc] at hh
      cases hh
    | some x =>
      simpa using h.mem_head hc
  constructor
  · rintro ⟨head, hm, ha⟩
    rcases (vfs.mem_put_cache h.heads).mp hm with ⟨hm, -⟩ | rfl
    · exact Or.inr ((h.mem a).mpr ⟨head, hm, ha⟩)
    · rcases List.mem_append.mp ha with ha | ha
      · exact Or.inr (hlist.mp ha).1
      · exact Or.inl (List.mem_singleton.mp ha)
  · rintro (rfl | ha)
    · exact ⟨_, (vfs.mem_put_cache h.heads).mpr (Or.inr rfl), by simp⟩
    · by_cases hi : (fs.nodes a).cache_index = i
      · refine ⟨_, (vfs.mem_put_cache h.heads).mpr (Or.inr rfl), ?_⟩
        exact List.mem_append_left _ (hlist.mpr ⟨ha, hi⟩)
      · obtain ⟨head, hm, ham⟩ := (h.mem a).mp ha
        refine ⟨head, (vfs.mem_put_cache h.heads).mpr (Or.inl ⟨hm, ?_⟩), ham⟩
        rwa [← h.index head hm a ham]

theorem Cached.added (h : Cached fs) {node : Nat} {n : vfs_node_t} (ha : Added fs fs' node n)
    (hc : fs'.cache = put_cache fs n.cache_index node)
    (hkey : ∀ a ∈ fs.node_blocks, (fs.nodes a).cache_index = n.cache_index →
      (fs.nodes a).index ≠ n.index)
    (hlast : n.cache_index < fs'.last_cache_index)
    (hmono : fs.last_cache_index ≤ fs'.last_cache_index) : Cached fs' := by
  have hold : ∀ a ∈ fs.node_blocks, fs'.nodes a = fs.nodes a := by
    intro a hm
    exact ha.others a fun he => ha.unused.1 (he ▸ hm)
  have hlisted : ∀ a ∈ ((cache_head fs n.cache_index).map vfs_node_cache_t.nodes).getD [],
      a ∈ fs.node_blocks ∧ (fs.nodes a).cache_index = n.cache_index := by
    intro a hm
    cases hx : cache_head fs n.cache_index with
    | none => simp [hx] at hm
    | some x => exact (h.mem_head hx).mp (by simpa [hx] using hm)
  constructor
  · rw [hc]
    refine nodup_update_cache ?_ (heads_with_index h.heads _)
    rintro old head he
    cases he
    rfl
  · rw [hc]
    intro head hm
    rcases (vfs.mem_put_cache h.heads).mp hm with ⟨hm, -⟩ | rfl
    · exact h.nodup head hm
    · refine List.nodup_append.mpr ⟨?_, List.nodup_singleton _, ?_⟩
      · cases hx : cache_head fs n.cache_index with
        | none => simp
        | some x => exact h.nodup x (cache_head_some hx).1
      · intro a hm b hb he
        rw [List.mem_singleton.mp hb] at he
        exact ha.unused.1 (he ▸ (hlisted a hm).1)
  · intro a
    rw [hc, ha.node_blocks, Finset.mem_insert, h.mem_put_cache]
  · rw [hc]
    intro head hm a hal
    rcases (vfs.mem_put_cache h.heads).mp hm with ⟨hm, -⟩ | rfl
    · rw [hold a ((h.mem a).mpr ⟨head, hm, hal⟩)]
      exact h.index head hm a hal
    · rcases List.mem_append.mp hal with hal | hal
      · rw [hold a (hlisted a hal).1]
        exact (hlisted a hal).2
      · rw [List.mem_singleton.mp hal, ha.self]
  · rw [ha.node_blocks]
    intro a hma b hmb hci hi
    rcases Finset.mem_insert.mp hma with hae | hao <;>
      rcases Finset.mem_insert.mp hmb with hbe | hbo
    · rw [hae, hbe]
    · rw [hae, ha.self, hold b hbo] at hci hi
      exact absurd hi.symm (hkey b hbo hci.symm)
    · rw [hbe, ha.self, hold a hao] at hci hi
      exact absurd hi (hkey a hao hci)
    · rw [hold a hao, hold b hbo] at hci hi
      exact h.key a hao b hbo hci hi
  · rw [ha.node_blocks]
    intro hm
    rcases Finset.mem_insert.mp hm with he | hm
    · exact ha.null he.symm
    · exact h.null hm
  · rw [ha.node_blocks]
    intro a hm
    rcases Finset.mem_insert.mp hm with rfl | hm
    · rw [ha.self]
      exact hlast
    · rw [hold a hm]
      exact lt_of_lt_of_le (h.fresh a hm) hmono
  · rw [hc]
    intro head hm
    rcases (vfs.mem_put_cache h.heads).mp hm with ⟨hm, -⟩ | rfl
    · exact h.filled head hm
    · simp

/-- The file systems when the node is in the cache too. -/
def node_added (fs : fs_t) (parent node : Nat) (n : vfs_node_t) (heap : Nat → Nat) : fs_t :=
  { node_filled fs parent node n with
    heap := heap
    cache := put_cache fs n.cache_index node
    nodes := Function.update fs.nodes node { n with ref_count := 1 } }

theorem added_node_added {parent node : Nat} {n : vfs_node_t} (heap : Nat → Nat)
    (hu : fs.Unused node) (hz : node ≠ 0) : Added fs (node_added fs parent node n heap) node n :=
  ⟨hu, hz, rfl, Function.update_self _ _ _, fun _ ha => Function.update_of_ne ha _ _,
    rfl, rfl, rfl, rfl, rfl, rfl, rfl, rfl⟩

/-- The cache has a list for the index. -/
theorem cache_list_spec (hh : HeapServes fs) (i : Nat) :
    ∃ heap, (∀ k, heap k ≠ 0) ∧
      cache_list fs i = ({ fs with
        heap := heap
        cache := if (cache_head fs i).isNone then fs.cache ++ [⟨i, []⟩] else fs.cache }, true) := by
  unfold cache_list
  cases hc : cache_head fs i with
  | none =>
    refine ⟨_, hh.pop, ?_⟩
    rw [if_neg (by simp), if_neg hh.next]
    rfl
  | some head => exact ⟨fs.heap, hh, by simp⟩

theorem cache_append_spec (hh : HeapServes fs) {i node : Nat} (hz : node ≠ 0)
    (hn : node ∈ fs.node_blocks) :
    cache_append fs i node =
      .ok (locked { fs.pop_block with
        cache := update_cache i (fun head => some { head with nodes := head.nodes ++ [node] })
          fs.cache } node, RESOURCE_RESULT_OK) := by
  unfold cache_append
  rw [if_neg hh.next]
  dsimp only
  rw [vfs_lock_node_eq hz]
  · rfl
  · exact hn

/-- The search of a list for a key that none of its nodes has. -/
theorem query_missing {g : fs_t} {i : Nat} {id : Int}
    (hlist : ∃ head, cache_head g i = some head ∧
      ∀ a ∈ head.nodes, a ∈ g.node_blocks ∧ (g.nodes a).index ≠ id) :
    vfs_cache_query_node g i id = .ok none := by
  obtain ⟨head, hc, hl⟩ := hlist
  unfold vfs_cache_query_node
  rw [hc]
  dsimp only
  rw [cache_node_eq fun a ha => (hl a ha).1]
  congr 1
  rw [List.find?_eq_none]
  intro a ha
  simpa using (hl a ha).2

/-- The list that the node of a new key goes to: all its nodes have other keys. -/
theorem Cached.list_for (h : Cached fs) {node : Nat} {n : vfs_node_t} {id : Int} {i : Nat}
    (hnode : node ∉ fs.node_blocks) {g : fs_t}
    (hcache : g.cache = if (cache_head fs i).isNone then fs.cache ++ [⟨i, []⟩] else fs.cache)
    (hnodes : g.nodes = Function.update fs.nodes node n)
    (hblocks : g.node_blocks = insert node fs.node_blocks)
    (hkey : ∀ a ∈ fs.node_blocks, (fs.nodes a).cache_index = i → (fs.nodes a).index ≠ id) :
    ∃ head, cache_head g i = some head ∧
      ∀ a ∈ head.nodes, a ∈ g.node_blocks ∧ (g.nodes a).index ≠ id := by
  cases hc : cache_head fs i with
  | none =>
    refine ⟨⟨i, []⟩, ?_, by simp⟩
    have hnone : fs.cache.find? (fun head => head.index = i) = none := hc
    unfold cache_head
    rw [hcache, hc]
    simp [List.find?_append, hnone]
  | some head =>
    refine ⟨head, ?_, ?_⟩
    · unfold cache_head at *
      rw [hcache]
      simp [hc]
    · intro a ha
      obtain ⟨hl, hi⟩ := (h.mem_head hc).mp ha
      have hne : a ≠ node := fun he => hnode (he ▸ hl)
      rw [hblocks, hnodes, Function.update_of_ne hne]
      exact ⟨Finset.mem_insert_of_mem hl, hkey a hl hi⟩

/-- `vfs_cache_put` of a new node whose key is new. -/
theorem vfs_cache_put_spec (h : Cached fs) (hh : HeapServes fs) (parent : Nat) {node : Nat}
    {n : vfs_node_t} (hnode : node ∉ fs.node_blocks) (hz : node ≠ 0) (hcount : n.ref_count = 0)
    (hkey : ∀ a ∈ fs.node_blocks, (fs.nodes a).cache_index = n.cache_index →
      (fs.nodes a).index ≠ n.index) :
    ∃ heap, (∀ k, heap k ≠ 0) ∧
      vfs_cache_put (node_filled fs parent node n) node =
        .ok (node_added fs parent node n heap, RESOURCE_RESULT_OK) := by
  have hself : (node_filled fs parent node n).node node = .ok n := by
    rw [node_ok]
    simp [node_filled]
  have hserves : HeapServes (node_filled fs parent node n) := hh.pop
  obtain ⟨heap, hheap, hlist⟩ := cache_list_spec hserves n.cache_index
  refine ⟨fun k => heap (k + 1), fun k => hheap (k + 1), ?_⟩
  unfold vfs_cache_put
  rw [hself, ok_bind, hlist]
  dsimp only [Bool.not_true, Bool.false_eq_true, if_false]
  rw [if_neg (by decide), query_missing (h.list_for hnode rfl rfl rfl hkey), ok_bind]
  dsimp only
  rw [cache_append_spec (fun k => hheap k) hz]
  · congr 2
    simp [locked, fs_t.setCount, fs_t.setNode, fs_t.pop_block, node_filled, node_added, put_cache,
      hcount]
    exact ⟨rfl, rfl⟩
  · exact Finset.mem_insert_self _ _

/-- `vfs_create_node` under a node that is there, or under none, with a key that is new: the node is
in the cache, unless the kernel heap gave a block that is in use. -/
theorem vfs_create_node_spec (h : Cached fs) (hh : HeapServes fs) {parent : Nat} {id : Int}
    (operations : vfs_node_operations_t) (fs_data : Nat) (type : vfs_node_type)
    (resource_type : resource_type_t) (hp : parent = 0 ∨ parent ∈ fs.node_blocks)
    (hkey : ∀ a ∈ fs.node_blocks, (fs.nodes a).cache_index = index_under fs parent →
      (fs.nodes a).index ≠ id) :
    (vfs_create_node fs parent id operations fs_data type resource_type = .error .taken ∧
        ¬ fs.Unused fs.next_block) ∨
      ∃ fs', vfs_create_node fs parent id operations fs_data type resource_type =
          .ok (fs', RESOURCE_RESULT_OK, fs.next_block) ∧
        Added fs fs' fs.next_block
          ⟨0, operations, type, resource_type, fs_data, index_under fs parent, id, 0⟩ ∧
        Cached fs' ∧ HeapServes fs' ∧
        fs'.last_cache_index =
          if parent = 0 then fs.last_cache_index + 1 else fs.last_cache_index := by
  unfold vfs_create_node
  dsimp only
  rw [if_neg hh.next]
  by_cases hu : fs.Unused fs.next_block
  · right
    obtain ⟨heap, hheap, hput⟩ := vfs_cache_put_spec
      (n := ⟨0, operations, type, resource_type, fs_data, index_under fs parent, id, 0⟩)
      h hh parent hu.1 hh.next rfl hkey
    have hlive : ¬ (parent ≠ 0 ∧ parent ∉ fs.node_blocks) := fun hc => hp.elim hc.1 hc.2
    refine ⟨_, ?_, added_node_added heap hu hh.next, ?_, hheap, rfl⟩
    · rw [if_neg (not_not.mpr hu), if_neg hlive, hput, ok_bind]
      rfl
    · refine h.added (added_node_added heap hu hh.next) rfl hkey ?_ ?_
      · simp only [node_added, node_filled, index_under]
        split
        · omega
        · exact h.fresh parent (hp.resolve_left (by assumption))
      · simp only [node_added, node_filled]
        split <;> omega
  · left
    rw [if_pos hu]
    exact ⟨rfl, hu⟩

/-! ## Evictions -/

/-- The node of the ramfs goes with its node of the VFS: it has no name. -/
def GoesWith (fs : fs_t) (n : vfs_node_t) : Prop :=
  n.operations = .ramfs ∧ (fs.inodes n.fs_data).link_count = 0

instance (fs : fs_t) (n : vfs_node_t) : Decidable (GoesWith fs n) :=
  inferInstanceAs (Decidable (_ ∧ _))

def unnamed_freed (fs : fs_t) (n : vfs_node_t) : fs_t :=
  if GoesWith fs n then fs.free_inode n.fs_data else fs

/-- The file systems after the eviction of a node. -/
def evicted (fs : fs_t) (a : Nat) : fs_t :=
  (unnamed_freed (cache_remove fs (fs.nodes a)) (fs.nodes a)).free_node a

/-- The file systems after `vfs_release_node`. -/
def released (fs : fs_t) (a : Nat) : fs_t :=
  let n := sub32 (fs.nodes a).ref_count 1
  if n = 1 then evicted (fs.setCount a n) a else fs.setCount a n

theorem release_eq {a : Nat} (ha : a ∈ fs.node_blocks)
    (hd : (fs.nodes a).operations = .ramfs → (fs.nodes a).fs_data ∈ fs.inode_blocks) :
    release fs a = .ok (unnamed_freed fs (fs.nodes a)) := by
  have hn : fs.node a = .ok (fs.nodes a) := node_ok.mpr ⟨ha, rfl⟩
  unfold release unnamed_freed
  rw [hn, ok_bind]
  by_cases hop : (fs.nodes a).operations = .ramfs
  · have hi : fs.inode (fs.nodes a).fs_data = .ok (fs.inodes (fs.nodes a).fs_data) :=
      inode_ok.mpr ⟨hd hop, rfl⟩
    rw [hop]
    dsimp only
    unfold ramfs_release
    rw [hn, ok_bind, hi, ok_bind]
    by_cases hl : (fs.inodes (fs.nodes a).fs_data).link_count = 0
    · rw [if_neg (by omega), if_pos ⟨hop, hl⟩]
      rfl
    · rw [if_pos (Nat.pos_of_ne_zero hl), if_neg fun hg => hl hg.2]
      rfl
  · rw [if_neg fun hg => hop hg.1]
    cases hx : (fs.nodes a).operations with
    | ramfs => exact absurd hx hop
    | devfs => rfl
    | keyboard => rfl
    | terminal => rfl
    | framebuffer => rfl

/-- An eviction finds the node in its list, if its count is that of the cache alone. -/
theorem vfs_cache_try_evict_eq (h : Cached fs) {a : Nat} (ha : a ∈ fs.node_blocks)
    (hd : (fs.nodes a).operations = .ramfs → (fs.nodes a).fs_data ∈ fs.inode_blocks) :
    vfs_cache_try_evict fs a = .ok
      (if (fs.nodes a).ref_count = 1 then (evicted fs a, RESOURCE_RESULT_OK)
      else (fs, RESOURCE_RESULT_STILL_IN_USE)) := by
  have hn : fs.node a = .ok (fs.nodes a) := node_ok.mpr ⟨ha, rfl⟩
  unfold vfs_cache_try_evict
  rw [hn, ok_bind]
  by_cases hr : (fs.nodes a).ref_count = 1
  · rw [if_neg (not_not.mpr hr), if_pos hr]
    obtain ⟨head, hc, ham⟩ := h.head_of ha
    rw [hc]
    dsimp only
    rw [cache_node_eq fun b hb => ((h.mem_head hc).mp hb).1, ok_bind]
    cases hf : head.nodes.find? fun b => (fs.nodes b).index = (fs.nodes a).index with
    | none =>
      rw [List.find?_eq_none] at hf
      simpa using hf a ham
    | some b =>
      have hrel : release (cache_remove fs (fs.nodes a)) a =
          .ok (unnamed_freed (cache_remove fs (fs.nodes a)) (fs.nodes a)) := release_eq ha hd
      dsimp only
      rw [hrel, ok_bind]
      rfl
  · rw [if_pos hr, if_neg hr]
    rfl

theorem vfs_release_node_eq (h : Cached fs) {a : Nat} (ha : a ∈ fs.node_blocks)
    (hd : (fs.nodes a).operations = .ramfs → (fs.nodes a).fs_data ∈ fs.inode_blocks) :
    vfs_release_node fs a = .ok (released fs a) := by
  have hn : fs.node a = .ok (fs.nodes a) := node_ok.mpr ⟨ha, rfl⟩
  have hz : a ≠ 0 := fun he => h.null (he ▸ ha)
  have hs := sameShape_setCount fs a (sub32 (fs.nodes a).ref_count 1)
  have hevict : vfs_cache_try_evict (fs.setCount a (sub32 (fs.nodes a).ref_count 1)) a = _ :=
    vfs_cache_try_evict_eq (h.same hs) ha (by rw [setCount_self]; exact hd)
  rw [setCount_self] at hevict
  unfold vfs_release_node
  rw [if_neg hz, hn, ok_bind, hevict, ok_bind]
  unfold released
  by_cases hone : sub32 (fs.nodes a).ref_count 1 = 1
  · rw [if_pos hone, if_pos hone]
    rfl
  · rw [if_neg hone, if_neg hone]
    rfl

section evicted

variable (fs : fs_t) (a : Nat)

@[simp]
theorem evicted_nodes : (evicted fs a).nodes = fs.nodes := by
  unfold evicted unnamed_freed
  split <;> rfl

@[simp]
theorem evicted_node_blocks : (evicted fs a).node_blocks = fs.node_blocks.erase a := by
  unfold evicted unnamed_freed
  split <;> rfl

@[simp]
theorem evicted_inodes : (evicted fs a).inodes = fs.inodes := by
  unfold evicted unnamed_freed
  split <;> rfl

@[simp]
theorem evicted_inode_blocks : (evicted fs a).inode_blocks =
    if GoesWith fs (fs.nodes a) then fs.inode_blocks.erase (fs.nodes a).fs_data
    else fs.inode_blocks := by
  unfold evicted unnamed_freed
  by_cases hc : GoesWith fs (fs.nodes a)
  · rw [if_pos hc, if_pos (by exact hc)]
    rfl
  · rw [if_neg hc, if_neg (by exact hc)]
    rfl

@[simp]
theorem evicted_freed : (evicted fs a).freed =
    if GoesWith fs (fs.nodes a) then (fs.inodes (fs.nodes a).fs_data).id :: fs.freed
    else fs.freed := by
  unfold evicted unnamed_freed
  by_cases hc : GoesWith fs (fs.nodes a)
  · rw [if_pos hc, if_pos (by exact hc)]
    rfl
  · rw [if_neg hc, if_neg (by exact hc)]
    rfl

@[simp]
theorem evicted_memory : (evicted fs a).memory = fs.memory := by
  unfold evicted unnamed_freed
  split <;> rfl

@[simp]
theorem evicted_heap : (evicted fs a).heap = fs.heap := by
  unfold evicted unnamed_freed
  split <;> rfl

@[simp]
theorem evicted_root : (evicted fs a).root = fs.root := by
  unfold evicted unnamed_freed
  split <;> rfl

@[simp]
theorem evicted_root_node : (evicted fs a).root_node = fs.root_node := by
  unfold evicted unnamed_freed
  split <;> rfl

@[simp]
theorem evicted_last_index : (evicted fs a).last_index = fs.last_index := by
  unfold evicted unnamed_freed
  split <;> rfl

@[simp]
theorem evicted_last_cache_index : (evicted fs a).last_cache_index = fs.last_cache_index := by
  unfold evicted unnamed_freed
  split <;> rfl

theorem evicted_cache : (evicted fs a).cache =
    update_cache (fs.nodes a).cache_index (cache_without fs (fs.nodes a).index) fs.cache := by
  unfold evicted unnamed_freed
  split <;> rfl

end evicted

/-- In a list of the cache, the entry with the key of a node is that of the node. -/
theorem Cached.eraseP_key (h : Cached fs) {a : Nat} {head : vfs_node_cache_t}
    (ha : a ∈ fs.node_blocks) (hm : head ∈ fs.cache)
    (hi : head.index = (fs.nodes a).cache_index) :
    (head.nodes.eraseP fun b => (fs.nodes b).index = (fs.nodes a).index) = head.nodes.erase a := by
  have hp : ∀ b ∈ head.nodes, (fs.nodes b).index = (fs.nodes a).index ↔ b = a := by
    intro b hb
    constructor
    · intro he
      refine h.key b ((h.mem b).mpr ⟨head, hm, hb⟩) a ha ?_ he
      rw [h.index head hm b hb, hi]
    · rintro rfl
      rfl
  generalize head.nodes = l at hp
  induction l with
  | nil => rfl
  | cons b l ih =>
    rw [List.eraseP_cons, List.erase_cons, ih fun c hc => hp c (List.mem_cons_of_mem _ hc)]
    by_cases hb : b = a
    · simp [hb]
    · simp [hb, (hp b List.mem_cons_self).not.mpr hb]

theorem Cached.mem_without (h : Cached fs) {a b : Nat} {head : vfs_node_cache_t}
    (ha : a ∈ fs.node_blocks) (hm : head ∈ fs.cache)
    (hi : head.index = (fs.nodes a).cache_index) :
    (∃ new, cache_without fs (fs.nodes a).index head = some new ∧ b ∈ new.nodes) ↔
      b ∈ head.nodes ∧ b ≠ a := by
  unfold cache_without
  rw [h.eraseP_key ha hm hi, and_comm, ← (h.nodup head hm).mem_erase_iff]
  by_cases hne : head.nodes.erase a = []
  · simp [hne]
  · simp [hne]

/-- The list of a node without it, if that is not empty. -/
theorem Cached.without (h : Cached fs) {a : Nat} {head new : vfs_node_cache_t}
    (ha : a ∈ fs.node_blocks) (hm : head ∈ fs.cache) (hi : head.index = (fs.nodes a).cache_index)
    (hw : cache_without fs (fs.nodes a).index head = some new) :
    new.index = head.index ∧ new.nodes ≠ [] ∧ new.nodes.Nodup := by
  unfold cache_without at hw
  rw [h.eraseP_key ha hm hi] at hw
  dsimp only at hw
  split at hw
  · cases hw
  · rename_i hne
    cases hw
    exact ⟨rfl, hne, (h.nodup head hm).erase a⟩

theorem Cached.evicted (h : Cached fs) {a : Nat} (ha : a ∈ fs.node_blocks) :
    Cached (vfs.evicted fs a) := by
  have hheads : ∀ head, head ∈ (vfs.evicted fs a).cache ↔
      (head ∈ fs.cache ∧ head.index ≠ (fs.nodes a).cache_index) ∨
        ∃ old ∈ fs.cache, old.index = (fs.nodes a).cache_index ∧
          cache_without fs (fs.nodes a).index old = some head := by
    intro head
    rw [evicted_cache, mem_update_cache h.heads]
  -- A node of the new lists is a node of an old list with the same index, other than this one.
  have hlisted : ∀ head ∈ (vfs.evicted fs a).cache, ∀ b ∈ head.nodes,
      ∃ old ∈ fs.cache, old.index = head.index ∧ b ∈ old.nodes ∧ b ≠ a := by
    intro head hm b hb
    rcases (hheads head).mp hm with ⟨hold, hn⟩ | ⟨old, hold, hi, hw⟩
    · refine ⟨head, hold, rfl, hb, fun he => hn ?_⟩
      rw [← he, h.index head hold b hb]
    · exact ⟨old, hold, (h.without ha hold hi hw).1.symm,
        (h.mem_without ha hold hi).mp ⟨head, hw, hb⟩⟩
  constructor
  · rw [evicted_cache]
    refine nodup_update_cache ?_ h.heads
    intro old head hw
    unfold cache_without at hw
    dsimp only at hw
    split at hw
    · cases hw
    · cases hw
      rfl
  · intro head hm
    rcases (hheads head).mp hm with ⟨hm, -⟩ | ⟨old, hm, hi, hw⟩
    · exact h.nodup head hm
    · exact (h.without ha hm hi hw).2.2
  · intro b
    rw [evicted_node_blocks, Finset.mem_erase, h.mem]
    constructor
    · rintro ⟨hne, head, hm, hb⟩
      by_cases hi : head.index = (fs.nodes a).cache_index
      · obtain ⟨new, hw, hbn⟩ := (h.mem_without ha hm hi).mpr ⟨hb, hne⟩
        exact ⟨new, (hheads new).mpr (Or.inr ⟨head, hm, hi, hw⟩), hbn⟩
      · exact ⟨head, (hheads head).mpr (Or.inl ⟨hm, hi⟩), hb⟩
    · rintro ⟨head, hm, hb⟩
      obtain ⟨old, hold, -, hbo, hne⟩ := hlisted head hm b hb
      exact ⟨hne, old, hold, hbo⟩
  · intro head hm b hb
    obtain ⟨old, hold, hi, hbo, -⟩ := hlisted head hm b hb
    rw [evicted_nodes, h.index old hold b hbo, hi]
  · intro b hb c hc
    rw [evicted_node_blocks] at hb hc
    rw [evicted_nodes]
    exact h.key b (Finset.mem_of_mem_erase hb) c (Finset.mem_of_mem_erase hc)
  · rw [evicted_node_blocks]
    exact fun hz => h.null (Finset.mem_of_mem_erase hz)
  · intro b hb
    rw [evicted_node_blocks] at hb
    rw [evicted_nodes, evicted_last_cache_index]
    exact h.fresh b (Finset.mem_of_mem_erase hb)
  · intro head hm
    rcases (hheads head).mp hm with ⟨hm, -⟩ | ⟨old, hm, hi, hw⟩
    · exact h.filled head hm
    · exact (h.without ha hm hi hw).2.1

end alura_os.vfs
