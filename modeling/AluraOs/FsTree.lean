-- The directories of the ramfs: names are distinct, counts of links are
-- counts of entries, and what the nodes of the VFS show is there.
import Mathlib.Algebra.BigOperators.Group.Finset.Basic
import Mathlib.Algebra.Order.BigOperators.Group.Finset
import Mathlib.Data.List.Perm.Basic
import AluraOs.FsCache

namespace alura_os.vfs

open alura_os.memory alura_os.resource faults
open resource_result_t resource_type_t vfs_node_type ramfs_result_t

variable {fs fs' : fs_t}

/-! ## Entries -/

/-- How many of the entries are for a node. -/
def entries (children : List ramfs_dirent_t) (x : Nat) : Nat :=
  children.countP fun e => e.node = x

theorem entries_pos {children : List ramfs_dirent_t} {x : Nat} :
    0 < entries children x ↔ ∃ e ∈ children, e.node = x := by
  simp [entries, List.countP_pos_iff]

theorem entries_append (l m : List ramfs_dirent_t) (x : Nat) :
    entries (l ++ m) x = entries l x + entries m x := List.countP_append

theorem entries_single (e : ramfs_dirent_t) (x : Nat) :
    entries [e] x = if e.node = x then 1 else 0 := by
  simp [entries, List.countP_cons]

/-- How many entries of all directories are for a node. -/
def links (fs : fs_t) (x : Nat) : Nat := ∑ d ∈ fs.inode_blocks, entries (fs.inodes d).children x

theorem links_pos {x : Nat} :
    0 < links fs x ↔ ∃ d ∈ fs.inode_blocks, ∃ e ∈ (fs.inodes d).children, e.node = x := by
  unfold links
  rw [Nat.pos_iff_ne_zero, Ne, Finset.sum_eq_zero_iff, not_forall]
  constructor
  · rintro ⟨d, hd⟩
    rw [Classical.not_imp] at hd
    exact ⟨d, hd.1, entries_pos.mp (Nat.pos_of_ne_zero hd.2)⟩
  · rintro ⟨d, hd, he⟩
    exact ⟨d, fun h => (entries_pos.mpr he).ne' (h hd)⟩

/-- Another list of entries in one directory. -/
theorem links_set {d x : Nat} (hd : d ∈ fs.inode_blocks)
    (hb : fs'.inode_blocks = fs.inode_blocks)
    (ho : ∀ a, a ≠ d → (fs'.inodes a).children = (fs.inodes a).children) :
    links fs' x + entries (fs.inodes d).children x =
      links fs x + entries (fs'.inodes d).children x := by
  have hrest : ∑ a ∈ fs.inode_blocks.erase d, entries (fs'.inodes a).children x =
      ∑ a ∈ fs.inode_blocks.erase d, entries (fs.inodes a).children x := by
    apply Finset.sum_congr rfl
    intro a ha
    rw [ho a (Finset.ne_of_mem_erase ha)]
  unfold links
  rw [hb, ← Finset.add_sum_erase _ _ hd, ← Finset.add_sum_erase fs.inode_blocks _ hd, hrest]
  omega

theorem links_congr {x : Nat} (hb : fs'.inode_blocks = fs.inode_blocks)
    (hc : ∀ a ∈ fs.inode_blocks, (fs'.inodes a).children = (fs.inodes a).children) :
    links fs' x = links fs x := by
  unfold links
  rw [hb]
  exact Finset.sum_congr rfl fun a ha => by rw [hc a ha]

/-! ## Removed entries -/

/-- The last entry in the place of the removed one. -/
theorem remove_child_perm {l : List ramfs_dirent_t} {i : Nat} (hi : i < l.length) :
    (remove_child l i).Perm (l.eraseIdx i) := by
  have hne : l ≠ [] := List.ne_nil_of_length_pos (by omega)
  obtain ⟨init, last, rfl⟩ : ∃ init last, l = init ++ [last] :=
    ⟨l.dropLast, l.getLast hne, (List.dropLast_concat_getLast hne).symm⟩
  have hlast : (init ++ [last]).getLastD ⟨[], 0⟩ = last := by simp
  unfold remove_child
  rw [hlast]
  rw [List.length_append, List.length_singleton] at hi
  rcases Nat.lt_or_ge i init.length with hlt | hge
  · rw [List.set_append_left _ _ hlt, List.dropLast_concat, List.eraseIdx_append_of_lt_length hlt]
    exact (List.set_perm_cons_eraseIdx hlt last).trans (List.perm_append_singleton _ _).symm
  · have he : i = init.length := by omega
    subst he
    simp [List.eraseIdx_append_of_length_le]

/-- The entry that a search for a name finds, and its place. -/
theorem child_findIdx {i : ramfs_node_t} {name : List Char} {e : ramfs_dirent_t}
    (h : i.child name = some e) :
    ∃ hk : (i.children.findIdx fun e => e.name = name) < i.children.length,
      i.children[i.children.findIdx fun e => e.name = name] = e := by
  unfold ramfs_node_t.child at h
  have hk : (i.children.findIdx fun e => e.name = name) < i.children.length := by
    rw [List.findIdx_lt_length]
    exact ⟨e, List.mem_of_find?_eq_some h, by simpa using List.find?_some h⟩
  refine ⟨hk, ?_⟩
  rw [List.find?_eq_getElem?_findIdx, List.getElem?_eq_getElem hk] at h
  exact Option.some.inj h

/-- Without the entry of a name, the others. -/
theorem remove_child_spec {i : ramfs_node_t} {name : List Char} {e : ramfs_dirent_t}
    (h : i.child name = some e) :
    let rest := remove_child i.children (i.children.findIdx fun e => e.name = name)
    i.children.Perm (e :: rest) := by
  intro rest
  obtain ⟨hk, he⟩ := child_findIdx h
  have hcons := List.getElem_cons_eraseIdx_perm hk
  rw [he] at hcons
  exact hcons.symm.trans ((remove_child_perm hk).symm.cons e)

/-! ## The invariant -/

/-- A node that a path from the root of the ramfs leads to. -/
inductive Reachable (fs : fs_t) : Nat → Prop
  | root : Reachable fs fs.root_node
  | child {d : Nat} {e : ramfs_dirent_t} :
      Reachable fs d → e ∈ (fs.inodes d).children → Reachable fs e.node

/-- The directories. A node that could not be entered anywhere has a count of one and no entry;
it and what is below it are not reachable. -/
structure Tree (fs : fs_t) : Prop where
  root : fs.root_node ∈ fs.inode_blocks
  directory : (fs.inodes fs.root_node).type = VFS_NODE_TYPE_DIRECTORY
  root_links : links fs fs.root_node = 0
  root_count : (fs.inodes fs.root_node).link_count ≠ 0
  names : ∀ d ∈ fs.inode_blocks, ((fs.inodes d).children.map ramfs_dirent_t.name).Nodup
  room : ∀ d ∈ fs.inode_blocks, (fs.inodes d).children.length ≤ RAMFS_NODE_MAX_CHILDREN
  targets : ∀ d ∈ fs.inode_blocks, ∀ e ∈ (fs.inodes d).children, e.node ∈ fs.inode_blocks
  ids : ∀ a ∈ fs.inode_blocks, ∀ b ∈ fs.inode_blocks, (fs.inodes a).id = (fs.inodes b).id → a = b
  last : ∀ a ∈ fs.inode_blocks, (fs.inodes a).id < fs.last_index
  counts : ∀ x ∈ fs.inode_blocks, links fs x = 0 ∨ (fs.inodes x).link_count = links fs x
  single : ∀ x ∈ fs.inode_blocks, (fs.inodes x).type = VFS_NODE_TYPE_DIRECTORY → links fs x ≤ 1
  closed : ∀ d ∈ fs.inode_blocks, ∀ e ∈ (fs.inodes d).children, Reachable fs e.node →
    Reachable fs d
  null : 0 ∉ fs.inode_blocks
  freed : ∀ i ∈ fs.freed, i < fs.last_index ∧ ∀ a ∈ fs.inode_blocks, (fs.inodes a).id ≠ i
  once : fs.freed.Nodup

/-- Only directories have entries. -/
def OnlyDirectories (fs : fs_t) : Prop :=
  ∀ a ∈ fs.inode_blocks, (fs.inodes a).type = VFS_NODE_TYPE_FILE → (fs.inodes a).children = []

/-- A node of the VFS for a node of the ramfs shows what is there. -/
structure Shown (fs : fs_t) (n : vfs_node_t) : Prop where
  there : n.fs_data ∈ fs.inode_blocks
  id : (fs.inodes n.fs_data).id = n.index
  type : (fs.inodes n.fs_data).type = n.type
  index : n.cache_index = 0
  plain : n.resource_type = RESOURCE_TYPE_FILE
  reached : Reachable fs n.fs_data ∨
    (links fs n.fs_data = 0 ∧ n.type = VFS_NODE_TYPE_FILE ∧ n.fs_data ≠ fs.root_node)
  counted : n.fs_data = fs.root_node ∨ (fs.inodes n.fs_data).link_count = links fs n.fs_data

/-- A node of the VFS for one of the devices. -/
def IsDevice (n : vfs_node_t) : Prop :=
  ∃ i, n.index = (i : Nat) ∧ n.type = VFS_NODE_TYPE_FILE ∧
    ∃ name, devfs_entries[i]? = some (name, n.operations, n.resource_type)

/-- A node of the VFS shows a node of the ramfs, the directory of the devices or one of them. -/
def Viewed (fs : fs_t) (n : vfs_node_t) : Prop :=
  if n.operations = .ramfs then Shown fs n
  else n.cache_index ≠ 0 ∧
    if n.operations = .devfs then n.index = -1 ∧ n.type = VFS_NODE_TYPE_DIRECTORY else IsDevice n

def Views (fs : fs_t) : Prop := ∀ a ∈ fs.node_blocks, Viewed fs (fs.nodes a)

/-- The file systems are in order. -/
structure Ordered (fs : fs_t) : Prop where
  cached : Cached fs
  tree : Tree fs
  only : OnlyDirectories fs
  views : Views fs
  heap : HeapServes fs

theorem Reachable.mem (h : Tree fs) {a : Nat} (ha : Reachable fs a) : a ∈ fs.inode_blocks := by
  induction ha with
  | root => exact h.root
  | child _ he ih => exact h.targets _ ih _ he

/-- Below the root, a node that can be reached has an entry. -/
theorem Reachable.cases_root (h : Tree fs) {a : Nat} (ha : Reachable fs a) :
    a = fs.root_node ∨ 0 < links fs a := by
  cases ha with
  | root => exact Or.inl rfl
  | child hd he => exact Or.inr (links_pos.mpr ⟨_, hd.mem h, _, he, rfl⟩)

theorem Tree.ne_root (h : Tree fs) {d : Nat} {e : ramfs_dirent_t} (hd : d ∈ fs.inode_blocks)
    (he : e ∈ (fs.inodes d).children) : e.node ≠ fs.root_node := by
  intro hr
  have hpos := links_pos.mpr ⟨d, hd, e, he, hr⟩
  rw [h.root_links] at hpos
  exact absurd hpos (Nat.lt_irrefl 0)

/-- An entry counts. -/
theorem Tree.counted (h : Tree fs) {d : Nat} {e : ramfs_dirent_t} (hd : d ∈ fs.inode_blocks)
    (he : e ∈ (fs.inodes d).children) : (fs.inodes e.node).link_count = links fs e.node := by
  have hpos : 0 < links fs e.node := links_pos.mpr ⟨d, hd, e, he, rfl⟩
  exact (h.counts _ (h.targets d hd e he)).resolve_left hpos.ne'

/-- A node of the VFS for a directory that has entries can be reached. -/
theorem Shown.reachable (h : Shown fs n) (hn : OnlyDirectories fs)
    (hc : (fs.inodes n.fs_data).children ≠ []) : Reachable fs n.fs_data := by
  rcases h.reached with hr | ⟨-, ht, -⟩
  · exact hr
  · exact absurd (hn _ h.there (h.type.trans ht)) hc

/-! ## The same tree -/

/-- The tree is the same, on all nodes of the ramfs. -/
structure SameTree (fs fs' : fs_t) : Prop where
  inodes : fs'.inodes = fs.inodes
  inode_blocks : fs'.inode_blocks = fs.inode_blocks
  root_node : fs'.root_node = fs.root_node
  last_index : fs'.last_index = fs.last_index
  freed : fs'.freed = fs.freed

theorem SameShape.tree (h : SameShape fs fs') : SameTree fs fs' :=
  ⟨h.inodes, h.inode_blocks, h.root_node, h.last_index, h.freed⟩

theorem Added.tree {node : Nat} {n : vfs_node_t} (h : Added fs fs' node n) : SameTree fs fs' :=
  ⟨h.inodes, h.inode_blocks, h.root_node, h.last_index, h.freed⟩

theorem SameTree.links (h : SameTree fs fs') (x : Nat) : vfs.links fs' x = vfs.links fs x := by
  unfold vfs.links
  rw [h.inodes, h.inode_blocks]

theorem reachable_congr (hr : fs'.root_node = fs.root_node)
    (hc : ∀ a, (fs'.inodes a).children = (fs.inodes a).children) {a : Nat} :
    Reachable fs' a ↔ Reachable fs a := by
  constructor
  · intro ha
    induction ha with
    | root =>
      rw [hr]
      exact .root
    | child _ he ih =>
      rw [hc] at he
      exact .child ih he
  · intro ha
    induction ha with
    | root =>
      rw [← hr]
      exact .root
    | child _ he ih =>
      rw [← hc] at he
      exact .child ih he

theorem SameTree.reachable (h : SameTree fs fs') {a : Nat} :
    Reachable fs' a ↔ Reachable fs a :=
  reachable_congr h.root_node fun a => by rw [h.inodes]

theorem Tree.same (ht : Tree fs) (h : SameTree fs fs') : Tree fs' := by
  constructor
  · rw [h.root_node, h.inode_blocks]
    exact ht.root
  · rw [h.root_node, h.inodes]
    exact ht.directory
  · rw [h.root_node, h.links]
    exact ht.root_links
  · rw [h.root_node, h.inodes]
    exact ht.root_count
  · rw [h.inode_blocks, h.inodes]
    exact ht.names
  · rw [h.inode_blocks, h.inodes]
    exact ht.room
  · rw [h.inode_blocks, h.inodes]
    exact ht.targets
  · rw [h.inode_blocks, h.inodes]
    exact ht.ids
  · rw [h.inode_blocks, h.inodes, h.last_index]
    exact ht.last
  · rw [h.inode_blocks, h.inodes]
    intro x hx
    rw [h.links]
    exact ht.counts x hx
  · rw [h.inode_blocks, h.inodes]
    intro x hx
    rw [h.links]
    exact ht.single x hx
  · rw [h.inode_blocks, h.inodes]
    intro d hd e he hr
    rw [h.reachable] at hr ⊢
    exact ht.closed d hd e he hr
  · rw [h.inode_blocks]
    exact ht.null
  · rw [h.inode_blocks, h.inodes, h.freed, h.last_index]
    exact ht.freed
  · rw [h.freed]
    exact ht.once

theorem OnlyDirectories.same (ho : OnlyDirectories fs) (h : SameTree fs fs') :
    OnlyDirectories fs' := by
  unfold OnlyDirectories
  rw [h.inodes, h.inode_blocks]
  exact ho

theorem Shown.same {n : vfs_node_t} (hs : Shown fs n) (h : SameTree fs fs') (m k : Nat) :
    Shown fs' { n with mount := m, ref_count := k } := by
  constructor
  · rw [h.inode_blocks]
    exact hs.there
  · rw [h.inodes]
    exact hs.id
  · rw [h.inodes]
    exact hs.type
  · exact hs.index
  · exact hs.plain
  · rw [h.reachable, h.links, h.root_node]
    exact hs.reached
  · rw [h.inodes, h.links, h.root_node]
    exact hs.counted

end alura_os.vfs
