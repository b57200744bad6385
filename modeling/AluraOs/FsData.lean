-- The data of the files under the calls of the VFS: the blocks of the files stay apart, and
-- only a write or an open that truncates changes a byte of a file.
import AluraOs.FsHolds

namespace alura_os.vfs

open alura_os.memory alura_os.resource faults
open resource_result_t resource_type_t vfs_node_type ramfs_result_t

variable {fs fs' g : fs_t} {a : Nat} {r : resource_result_t} {node : Nat}

/-! ## Blocks -/

/-- The files have the blocks that they had, or are new and empty. -/
theorem Stored.same_files (h : Stored fs) (hb : fs'.data_blocks = fs.data_blocks)
    (hf : ∀ a, IsFile fs' a → (IsFile fs a ∧ (fs'.inodes a).data = (fs.inodes a).data ∧
      (fs'.inodes a).data_size ≤ (fs.inodes a).data_size) ∨
      ((fs'.inodes a).data = 0 ∧ (fs'.inodes a).data_size = 0)) : Stored fs' := by
  constructor
  · rw [hb]
    exact h.inside
  · rw [hb]
    exact h.apart
  · intro a ha hd
    rcases hf a ha with ⟨ho, he, hs⟩ | ⟨hz, -⟩
    · rw [he] at hd
      obtain ⟨length, hm, hl⟩ := h.block a ho hd
      rw [hb, he]
      exact ⟨length, hm, hs.trans hl⟩
    · exact absurd hz hd
  · intro a ha hd
    rcases hf a ha with ⟨ho, he, hs⟩ | ⟨-, hz⟩
    · rw [he] at hd
      rw [h.empty a ho hd] at hs
      exact Nat.le_zero.mp hs
    · exact hz
  · intro a b ha hb he hd
    rcases hf a ha with ⟨ho, hda, -⟩ | ⟨hz, -⟩
    · rcases hf b hb with ⟨hob, hdb, -⟩ | ⟨hz, -⟩
      · rw [hda] at he hd
        rw [hdb] at he
        exact h.own a b ho hob he hd
      · exact absurd (he.trans hz) hd
    · exact absurd hz hd

/-- A file goes with its block. -/
theorem Stored.free_inode (h : Stored fs) (ha : IsFile fs a) : Stored (fs.free_inode a) := by
  have hf : ∀ b, IsFile (fs.free_inode a) b → b ≠ a ∧ IsFile fs b := by
    intro b hb
    exact ⟨(Finset.mem_erase.mp hb.1).1, (Finset.mem_erase.mp hb.1).2, hb.2⟩
  constructor
  · intro b hb
    exact h.inside b (List.mem_filter.mp hb).1
  · exact h.apart.filter _
  · intro b hb hd
    obtain ⟨hne, ho⟩ := hf b hb
    obtain ⟨length, hm, hlen⟩ := h.block b ho hd
    refine ⟨length, List.mem_filter.mpr ⟨hm, ?_⟩, hlen⟩
    have hother : (fs.inodes b).data ≠ (fs.inodes a).data := fun he => hne (h.own b a ho ha he hd)
    exact decide_eq_true hother
  · exact fun b hb => h.empty b (hf b hb).2
  · exact fun b c hb hc => h.own b c (hf b hb).2 (hf c hc).2

/-- What goes with a node of the VFS is a file. -/
theorem Ordered.goes_file (h : Ordered fs) (ha : a ∈ fs.node_blocks)
    (hg : GoesWith fs (fs.nodes a)) : IsFile fs (fs.nodes a).fs_data := by
  have hs := (h.views a ha).shown hg.1
  rcases hs.reached with hr | ⟨-, htype, -⟩
  · exact absurd hg (h.stays hr)
  · exact ⟨hs.there, hs.type.trans htype⟩

theorem Ordered.evicted_stored (h : Ordered fs) (ha : a ∈ fs.node_blocks) (hs : Stored fs) :
    Stored (vfs.evicted fs a) := by
  unfold vfs.evicted unnamed_freed
  have hremoved : Stored (cache_remove fs (fs.nodes a)) := hs.congr rfl rfl rfl
  by_cases hg : GoesWith (cache_remove fs (fs.nodes a)) (fs.nodes a)
  · rw [if_pos hg]
    have hfile : IsFile (cache_remove fs (fs.nodes a)) (fs.nodes a).fs_data := h.goes_file ha hg
    exact (hremoved.free_inode hfile).congr rfl rfl rfl
  · rw [if_neg hg]
    exact hremoved.congr rfl rfl rfl

theorem Ordered.released_stored (h : Ordered fs) (ha : a ∈ fs.node_blocks) (hs : Stored fs) :
    Stored (vfs.released fs a) := by
  have hset : Stored (fs.setCount a (sub32 (fs.nodes a).ref_count 1)) := hs.congr rfl rfl rfl
  rcases released_eq fs a with he | he
  · rw [he]
    exact hset
  · rw [he]
    exact (h.setCount a _).evicted_stored ha hset

/-! ## Calls that leave the bytes -/

/-- No byte of a file differs, and the blocks of the files are still apart. -/
structure Quiet (fs fs' : fs_t) : Prop where
  stored : Stored fs → Stored fs'
  memory : fs'.memory = fs.memory
  data : ∀ a ∈ fs.inode_blocks, (fs'.inodes a).data = (fs.inodes a).data ∧
    (fs'.inodes a).data_size = (fs.inodes a).data_size ∧ (fs'.inodes a).type = (fs.inodes a).type

theorem Quiet.contents_eq (h : Quiet fs fs') (ha : a ∈ fs.inode_blocks) :
    contents fs' a = contents fs a := by
  obtain ⟨hd, hs, -⟩ := h.data a ha
  unfold contents
  rw [hd, hs, h.memory]

theorem Calm.quiet (h : Calm fs fs') : Quiet fs fs' := by
  refine ⟨fun hs => hs.congr h.tree.inodes h.tree.inode_blocks h.data_blocks, h.memory, ?_⟩
  intro a _
  rw [h.tree.inodes]
  exact ⟨rfl, rfl, rfl⟩

theorem Quiet.after (hc : Calm fs g) (h : Quiet g fs') : Quiet fs fs' := by
  refine ⟨fun hs => h.stored (hc.quiet.stored hs), h.memory.trans hc.memory, ?_⟩
  rw [← hc.tree.inode_blocks, ← hc.tree.inodes]
  exact h.data

theorem Quiet.calm (h : Quiet fs g) (hc : Calm g fs') : Quiet fs fs' := by
  refine ⟨fun hs => hc.quiet.stored (h.stored hs), hc.memory.trans h.memory, ?_⟩
  rw [hc.tree.inodes]
  exact h.data

theorem Quiet.released (h : Quiet fs g) (hg : Ordered g) (hr : vfs_release_node g a = .ok fs') :
    Quiet fs fs' := by
  rcases vfs_release_node_cases hg hr with ⟨-, rfl⟩ | ⟨ha, he⟩
  · exact h
  · have hinodes := released_inodes he
    have hmemory := (undisturbed_released he).memory
    have hstored := hg.released_stored ha
    rw [← he] at hstored
    refine ⟨fun hs => hstored (h.stored hs), hmemory.trans h.memory, ?_⟩
    rw [hinodes]
    exact h.data

theorem quiet_with_node (hu : fs.next_block ∉ fs.inode_blocks) (type : vfs_node_type) :
    Quiet fs (with_node fs type 0 0) := by
  refine ⟨fun hs => hs.same_files rfl fun b hb => ?_, rfl, fun b hb => ?_⟩
  · by_cases hbn : b = fs.next_block
    · rw [hbn, with_node_self]
      exact Or.inr ⟨rfl, rfl⟩
    · have hold : b ∈ fs.inode_blocks := (Finset.mem_insert.mp hb.1).resolve_left hbn
      have hrecord : (with_node fs type 0 0).inodes b = fs.inodes b := with_node_old hu hold
      have htype := hb.2
      rw [hrecord] at htype ⊢
      exact Or.inl ⟨⟨hold, htype⟩, rfl, le_refl _⟩
  · rw [with_node_old hu hb]
    exact ⟨rfl, rfl, rfl⟩

/-- Only entries and counts of links differ. -/
theorem Quiet.of_names (hb : fs'.inode_blocks = fs.inode_blocks)
    (hd : fs'.data_blocks = fs.data_blocks) (hm : fs'.memory = fs.memory)
    (hi : ∀ a, ∃ children link_count,
      fs'.inodes a = { fs.inodes a with children := children, link_count := link_count }) :
    Quiet fs fs' := by
  refine ⟨fun hs => hs.same_files hd fun a ha => ?_, hm, fun a _ => ?_⟩
  · obtain ⟨children, link_count, he⟩ := hi a
    have hfile := ha.2
    rw [he] at hfile ⊢
    exact Or.inl ⟨⟨hb ▸ ha.1, hfile⟩, rfl, le_refl _⟩
  · obtain ⟨children, link_count, he⟩ := hi a
    rw [he]
    exact ⟨rfl, rfl, rfl⟩

theorem quiet_with_child (fs : fs_t) (y : Nat) (name : List Char) (c : Nat) :
    Quiet fs (with_child fs y name c) := by
  refine Quiet.of_names rfl rfl rfl fun a => ?_
  by_cases ha : a = y
  · rw [ha, with_child_self]
    exact ⟨_, _, rfl⟩
  · rw [with_child_ne ha]
    exact ⟨_, _, rfl⟩

theorem quiet_with_name (hu : fs.next_block ∉ fs.inode_blocks) (y : Nat) (name : List Char)
    (type : vfs_node_type) : Quiet fs (with_name fs y name type) := by
  have hnode := quiet_with_node hu type
  have hchild := quiet_with_child (with_node fs type 0 0) y name fs.next_block
  refine ⟨fun hs => hchild.stored (hnode.stored hs), hchild.memory.trans hnode.memory, ?_⟩
  intro a ha
  obtain ⟨hd, hsize, htype⟩ := hchild.data a (Finset.mem_insert_of_mem ha)
  obtain ⟨hd', hsize', htype'⟩ := hnode.data a ha
  exact ⟨hd.trans hd', hsize.trans hsize', htype.trans htype'⟩

theorem quiet_with_link (fs : fs_t) (y : Nat) (name : List Char) (c : Nat) :
    Quiet fs (with_link fs y name c) := by
  refine Quiet.of_names rfl rfl rfl fun a => ?_
  unfold with_link
  by_cases ha : a = c
  · rw [ha, setInode_self]
    exact ⟨_, _, rfl⟩
  · rw [setInode_ne _ _ ha]
    by_cases hay : a = y
    · rw [hay, with_child_self]
      exact ⟨_, _, rfl⟩
    · rw [with_child_ne hay]
      exact ⟨_, _, rfl⟩

theorem quiet_without_name (fs : fs_t) (y : Nat) (name : List Char) (c : Nat) :
    Quiet fs (without_name fs y name c) := by
  refine Quiet.of_names rfl rfl rfl fun a => ?_
  unfold without_name
  by_cases ha : a = c
  · rw [ha, setInode_self]
    exact ⟨_, _, rfl⟩
  · rw [setInode_ne _ _ ha]
    by_cases hay : a = y
    · rw [hay, setInode_self]
      exact ⟨_, _, rfl⟩
    · rw [setInode_ne _ _ hay]
      exact ⟨_, _, rfl⟩

theorem Quiet.freed (h : Quiet fs g) (hf : IsFile g a) : Quiet fs (g.free_inode a) :=
  ⟨fun hs => (h.stored hs).free_inode hf, h.memory, h.data⟩

/-- A node of the ramfs that is no directory is a file. -/
theorem file_of_not_directory (ht : (fs.inodes a).type ≠ VFS_NODE_TYPE_DIRECTORY) :
    (fs.inodes a).type = VFS_NODE_TYPE_FILE := by
  cases htype : (fs.inodes a).type with
  | VFS_NODE_TYPE_FILE => rfl
  | VFS_NODE_TYPE_DIRECTORY => exact absurd htype ht

/-! ## The calls -/

/-- The end of `vfs_link` and `vfs_unlink`. -/
theorem Quiet.end_release {answer : resource_result_t} (h : Quiet fs g) (hg : Ordered g)
    (hc : (do return (← vfs_release_node g a, r)) = .ok (fs', answer)) : Quiet fs fs' := by
  obtain ⟨g', hrel, hc⟩ := bind_ok.mp hc
  cases hc
  exact h.released hg hrel

theorem vfs_create_quiet (h : Ordered fs) {path : List Char} {type : vfs_node_type}
    (hc : vfs_create fs path type = .ok (fs', r, node)) : Quiet fs fs' := by
  unfold vfs_create at hc
  generalize vfs_split_path (path_copy path) = split at hc
  obtain ⟨name, parent_path⟩ := split
  dsimp only at hc
  split at hc
  · cases hc
    exact (Calm.refl _).quiet
  obtain ⟨⟨g, result, parent⟩, hres, hc⟩ := bind_ok.mp hc
  obtain ⟨hg, hcalm, -⟩ := vfs_resolve_keeps h hres
  dsimp only at hc
  split at hc
  · cases hc
    exact hcalm.quiet
  obtain ⟨n, hn, hc⟩ := bind_ok.mp hc
  obtain ⟨hparent, rfl⟩ := node_ok.mp hn
  split at hc
  · obtain ⟨g', hrel, hc⟩ := bind_ok.mp hc
    cases hc
    exact hcalm.quiet.released hg hrel
  · rename_i hdir
    rw [Bool.not_eq_true, Bool.not_eq_false'] at hdir
    obtain ⟨⟨g1, result1, child⟩, hcreate, hc⟩ := bind_ok.mp hc
    have hpost := (ramfs_create_post hg hparent hdir name type).result hcreate
    obtain ⟨g2, hrel, hc⟩ := bind_ok.mp hc
    dsimp only at hc hrel hpost
    have hg1 : Ordered g1 ∧ Quiet g g1 := by
      cases he : (g.inodes (g.nodes parent).fs_data).child name with
      | some e =>
        rw [he] at hpost
        exact ⟨hpost.2.ordered, hpost.2.calm.quiet⟩
      | none =>
        rw [he] at hpost
        obtain ⟨hu, hpost⟩ := hpost
        split at hpost
        · cases hpost
          exact ⟨hg.node_more hu, quiet_with_node hu.2 type⟩
        · exact ⟨hpost.2.ordered, (quiet_with_name hu.2 _ name type).calm hpost.2.calm⟩
    have hg2 := (hg1.2.after hcalm).released hg1.1 hrel
    have hordered := (hg1.1.release_keeps hrel).1
    split at hc
    · cases hc
      exact hg2
    · obtain ⟨g3, hlock, hc⟩ := bind_ok.mp hc
      cases hc
      exact hg2.calm (Walked.lock hordered hlock).calm

theorem vfs_unlink_quiet (h : Ordered fs) {path : List Char}
    (hc : vfs_unlink fs path = .ok (fs', r)) : Quiet fs fs' := by
  unfold vfs_unlink at hc
  generalize vfs_split_path (path_copy path) = split at hc
  obtain ⟨name, parent_path⟩ := split
  dsimp only at hc
  split at hc
  · cases hc
    exact (Calm.refl _).quiet
  obtain ⟨⟨g, result, parent⟩, hres, hc⟩ := bind_ok.mp hc
  obtain ⟨hg, hcalm, -⟩ := vfs_resolve_keeps h hres
  dsimp only at hc
  split at hc
  · cases hc
    exact hcalm.quiet
  obtain ⟨n, hn, hc⟩ := bind_ok.mp hc
  obtain ⟨hparent, rfl⟩ := node_ok.mp hn
  split at hc
  · exact hcalm.quiet.end_release hg hc
  · rename_i hdir
    rw [Bool.not_eq_true, Bool.not_eq_false'] at hdir
    obtain ⟨⟨g1, result1⟩, hunlink, hc⟩ := bind_ok.mp hc
    have hpost := (ramfs_unlink_post hg hparent hdir name).result hunlink
    dsimp only at hpost hc
    have hg1 : Ordered g1 ∧ Quiet g g1 := by
      split at hpost
      · cases hpost
        exact ⟨hg, (Calm.refl _).quiet⟩
      · rename_i e he
        split at hpost
        · cases hpost
          exact ⟨hg, (Calm.refl _).quiet⟩
        · rename_i hfile
          obtain ⟨-, hordered, hends⟩ := hpost
          refine ⟨hordered, ?_⟩
          have hquiet := quiet_without_name g (g.nodes parent).fs_data name e.node
          rcases hends with rfl | ⟨-, rfl⟩
          · exact hquiet
          · have hthere := (hg.shows_directory hparent hdir).2.1.mem hg.tree
            have htarget := hg.tree.targets _ hthere e (child_mem he).1
            obtain ⟨-, -, htype⟩ := hquiet.data e.node htarget
            exact hquiet.freed ⟨htarget, htype.trans (file_of_not_directory hfile)⟩
    exact (hg1.2.after hcalm).end_release hg1.1 hc

theorem vfs_link_quiet (h : Ordered fs) {old_path new_path : List Char}
    (hc : vfs_link fs old_path new_path = .ok (fs', r)) : Quiet fs fs' := by
  unfold vfs_link at hc
  obtain ⟨⟨g, result, source⟩, hres, hc⟩ := bind_ok.mp hc
  obtain ⟨hg, hcalm, -⟩ := vfs_resolve_keeps h hres
  dsimp only at hc
  split at hc
  · cases hc
    exact hcalm.quiet
  obtain ⟨s, hs, hc⟩ := bind_ok.mp hc
  obtain ⟨hsource, rfl⟩ := node_ok.mp hs
  split at hc
  · exact hcalm.quiet.end_release hg hc
  rename_i hplain
  rw [not_or, not_not, not_not] at hplain
  generalize vfs_split_path (path_copy new_path) = split at hc
  obtain ⟨name, parent_path⟩ := split
  dsimp only at hc
  split at hc
  · exact hcalm.quiet.end_release hg hc
  obtain ⟨⟨g1, result1, parent⟩, hres1, hc⟩ := bind_ok.mp hc
  obtain ⟨hg1, hcalm1, hfiles⟩ := vfs_resolve_keeps hg hres1
  have hquiet := (hcalm.trans hcalm1).quiet
  dsimp only at hc
  split at hc
  · exact hquiet.end_release hg1 hc
  obtain ⟨n, hn, hc⟩ := bind_ok.mp hc
  obtain ⟨hparent, rfl⟩ := node_ok.mp hn
  split at hc
  · obtain ⟨g2, hrel, hc⟩ := bind_ok.mp hc
    exact (hquiet.released hg1 hrel).end_release (hg1.release_keeps hrel).1 hc
  · rename_i hdir
    rw [Bool.not_eq_true, Bool.not_eq_false'] at hdir
    obtain ⟨⟨g2, result2⟩, hlink, hc⟩ := bind_ok.mp hc
    obtain ⟨g3, hrel, hc⟩ := bind_ok.mp hc
    dsimp only at hc hrel
    -- The file is still there after the second walk.
    obtain ⟨hlive, k, hk⟩ := hfiles source hsource hplain.1
    have htype : (g1.nodes source).type = VFS_NODE_TYPE_FILE := by rw [hk]; exact hplain.1
    have hkind : (g1.nodes source).resource_type = RESOURCE_TYPE_FILE := by rw [hk]; exact hplain.2
    rw [ramfs_link_eq hg1 hparent hdir hlive htype hkind] at hlink
    obtain ⟨-, hx, hxdir⟩ := hg1.shows_directory hparent hdir
    have hg2 : Ordered g2 ∧ Quiet g1 g2 := by
      split at hlink
      · cases hlink
        exact ⟨hg1, (Calm.refl _).quiet⟩
      · rename_i hname
        rw [Option.not_isSome_iff_eq_none] at hname
        split at hlink
        · cases hlink
          exact ⟨hg1, (Calm.refl _).quiet⟩
        · rename_i hroom
          cases hlink
          exact ⟨hg1.with_link hlive htype hkind hx hxdir hname (Nat.lt_of_not_le hroom),
            quiet_with_link g1 _ name _⟩
    have hleft := (hg2.2.after (hcalm.trans hcalm1)).released hg2.1 hrel
    exact hleft.end_release (hg2.1.release_keeps hrel).1 hc

/-! ## Writes -/

/-- Only the data of files differs. -/
structure DataOnly (fs fs' : fs_t) : Prop where
  same : SameVfs fs fs'
  names : SameNames fs fs'
  heap : HeapServes fs → HeapServes fs'
  root : fs'.root = fs.root

theorem DataOnly.ordered (h : DataOnly fs fs') (ho : Ordered fs) : Ordered fs' :=
  ho.same_names h.same (h.heap ho.heap) h.names

theorem dataOnly_filled (fs : fs_t) (a offset : Nat) (buffer : Nat → Nat) (length : Nat) :
    DataOnly fs (filled fs a offset buffer length) :=
  ⟨⟨rfl, rfl, rfl, rfl⟩, ⟨fun _ => ⟨_, _, rfl⟩, rfl, rfl, rfl, rfl⟩, fun hh => hh, rfl⟩

theorem dataOnly_grown (fs : fs_t) (a offset required_size : Nat) :
    DataOnly fs (grown fs a offset required_size) := by
  have hs := sameNames_setInode fs a fs.next_block required_size
  exact ⟨⟨rfl, rfl, rfl, rfl⟩, ⟨hs.inodes, rfl, rfl, rfl, rfl⟩, fun hh => hh.pop, rfl⟩

theorem dataOnly_truncated (fs : fs_t) (a : Nat) : DataOnly fs (truncated fs a) := by
  have hs := sameNames_setInode fs a 0 0
  exact ⟨⟨rfl, rfl, rfl, rfl⟩, ⟨hs.inodes, rfl, rfl, rfl, rfl⟩, fun hh => hh, rfl⟩

theorem DataOnly.trans (h : DataOnly fs g) (h' : DataOnly g fs') : DataOnly fs fs' := by
  refine ⟨⟨h'.same.nodes.trans h.same.nodes, h'.same.node_blocks.trans h.same.node_blocks,
    h'.same.cache.trans h.same.cache, h'.same.last_cache_index.trans h.same.last_cache_index⟩,
    ⟨fun a => ?_, h'.names.inode_blocks.trans h.names.inode_blocks,
      h'.names.root_node.trans h.names.root_node, h'.names.last_index.trans h.names.last_index,
      h'.names.freed.trans h.names.freed⟩, fun hh => h'.heap (h.heap hh), h'.root.trans h.root⟩
  obtain ⟨b, k, he⟩ := h.names.inodes a
  obtain ⟨b', k', he'⟩ := h'.names.inodes a
  exact ⟨b', k', by rw [he', he]⟩

theorem ramfs_write_data {file offset length n : Nat} {buffer : Nat → Nat}
    (hc : ramfs_write fs file offset buffer length = .ok (fs', r, n)) : DataOnly fs fs' := by
  rcases ramfs_write_cases hc with ⟨-, rfl, -, -⟩ | ⟨-, rfl, -, -⟩ | ⟨-, rfl, -, -⟩
  · exact dataOnly_filled _ _ _ _ _
  · exact ⟨⟨rfl, rfl, rfl, rfl⟩, ⟨fun _ => ⟨_, _, rfl⟩, rfl, rfl, rfl, rfl⟩, fun hh => hh.pop, rfl⟩
  · exact (dataOnly_grown _ _ _ _).trans (dataOnly_filled _ _ _ _ _)

/-! ## Opens -/

/-- What `vfs_truncate` does to a file: it is empty, or it is a device and stays. -/
theorem vfs_truncate_cases (h : Ordered fs) (hn : node ∈ fs.node_blocks)
    (hc : vfs_truncate fs node = .ok (fs', r)) : fs' = fs ∨
      ∃ x, place_of (fs.nodes node) = .inode x ∧ IsFile fs x ∧ fs' = truncated fs x := by
  unfold vfs_truncate at hc
  rw [if_neg (h.ne_null hn), node_ok.mpr ⟨hn, rfl⟩, ok_bind] at hc
  by_cases ht : (fs.nodes node).type ≠ VFS_NODE_TYPE_FILE
  · rw [if_pos ht] at hc
    cases hc
    exact Or.inl rfl
  rw [if_neg ht] at hc
  cases hop : (fs.nodes node).operations with
  | ramfs =>
    rw [hop] at hc
    obtain ⟨g, hg, hc⟩ := bind_ok.mp hc
    cases hc
    have hs := (h.views node hn).shown hop
    exact Or.inr ⟨_, place_of_inode.mpr ⟨hop, rfl⟩, ⟨hs.there, hs.type.trans (not_not.mp ht)⟩,
      ramfs_truncate_eq hg⟩
  | devfs => rw [hop] at hc; cases hc; exact Or.inl rfl
  | keyboard => rw [hop] at hc; cases hc; exact Or.inl rfl
  | terminal => rw [hop] at hc; cases hc; exact Or.inl rfl
  | framebuffer => rw [hop] at hc; cases hc; exact Or.inl rfl

/-- The bytes after the first part of an open: no file changed, or the one at the path is empty. -/
def Opened (fs fs' : fs_t) (path : List Char) (flags : Nat) : Prop :=
  Quiet fs fs' ∨ ∃ g x, flags &&& SYSCALL_O_TRUNC ≠ 0 ∧ destination fs path = .ok (.inode x) ∧
    Calm fs g ∧ IsFile fs x ∧ fs' = truncated g x

/-- The first part of `vfs_open` takes references, two at most to one node, and one of them is for
the node that it hands on, which is a file. -/
theorem vfs_open_node_handled (h : Steady fs) {path : List Char} {flags : Nat}
    (hc : vfs_open_node fs path flags = .ok (fs', r, node)) :
    (∃ held : List Nat, (∀ a, held.count a ≤ 2) ∧ Handled fs fs' held ∧
      (r = RESOURCE_RESULT_OK → node ∈ held ∧ (fs'.nodes node).type = VFS_NODE_TYPE_FILE)) ∧
      Opened fs fs' path flags := by
  unfold vfs_open_node at hc
  obtain ⟨⟨g, result, a⟩, hresolve, hc⟩ := bind_ok.mp hc
  obtain ⟨-, hx⟩ := (destination_post h.settled.resting path).result hresolve
  dsimp only at hc hx
  cases hd : destination fs path with
  | ok p =>
    rw [hd] at hx
    obtain ⟨rfl, hp, rest, hlen, -, -, hout, hw, -⟩ := hx
    rw [if_neg (not_not.mpr rfl)] at hc
    obtain ⟨n, hn, hc⟩ := bind_ok.mp hc
    obtain ⟨hlive, rfl⟩ := node_ok.mp hn
    have hcount : ∀ b, (a :: rest).count b ≤ 2 := by
      intro b
      have := List.count_le_length (a := b) (l := rest)
      rw [List.count_cons]
      split <;> omega
    by_cases ht : (g.nodes a).type ≠ VFS_NODE_TYPE_FILE
    · rw [if_pos ht] at hc
      cases hc
      exact ⟨⟨_, hcount, hw.handled, fun hr => by cases hr⟩, Or.inl hw.calm.quiet⟩
    rw [if_neg ht] at hc
    by_cases hf : flags &&& SYSCALL_O_TRUNC = 0
    · rw [if_pos hf] at hc
      cases hc
      exact ⟨⟨_, hcount, hw.handled, fun _ => ⟨List.mem_cons_self, not_not.mp ht⟩⟩,
        Or.inl hw.calm.quiet⟩
    rw [if_neg hf] at hc
    obtain ⟨⟨g1, r1⟩, htruncate, hc⟩ := bind_ok.mp hc
    cases hc
    rcases vfs_truncate_cases hw.ordered hlive htruncate with rfl | ⟨x, hplace, hfile, rfl⟩
    · exact ⟨⟨_, hcount, hw.handled, fun _ => ⟨List.mem_cons_self, not_not.mp ht⟩⟩,
        Or.inl hw.calm.quiet⟩
    · have hdata := dataOnly_truncated g x
      have hh := hw.handled.edited (hdata.ordered hw.ordered) hdata.same hdata.root
        hdata.names.root_node
      refine ⟨⟨_, hcount, hh, fun _ => ⟨List.mem_cons_self, not_not.mp ht⟩⟩,
        Or.inr ⟨g, x, hf, ?_, hw.calm, ?_, rfl⟩⟩
      · rw [← hplace, hp]
        exact hd
      · unfold IsFile at hfile ⊢
        rwa [hw.calm.tree.inode_blocks, hw.calm.tree.inodes] at hfile
  | error e =>
    rw [hd] at hx
    obtain ⟨hres, hr, rest, -, -, hnodup, hw⟩ := hx
    obtain ⟨rfl, rfl⟩ := Prod.mk.inj hres
    have hone : ∀ b, rest.count b ≤ 1 := List.nodup_iff_count_le_one.mp hnodup
    rw [if_pos hr] at hc
    by_cases hno : result ≠ RESOURCE_RESULT_NOT_FOUND ∨ flags &&& SYSCALL_O_CREAT = 0
    · rw [if_pos hno] at hc
      cases hc
      exact ⟨⟨_, fun b => Nat.le_succ_of_le (hone b), hw.handled, fun hok => absurd hok hr⟩,
        Or.inl hw.calm.quiet⟩
    rw [if_neg hno] at hc
    obtain ⟨⟨g1, r1, child⟩, hcreate, hc⟩ := bind_ok.mp hc
    have hrest : Resting g := h.after hw.handled hnodup
    obtain ⟨held, -, hnd, hh, hok⟩ := vfs_create_handled hrest hcreate
    have hall := hw.handled.trans hh h.settled.counts hone (by decide)
    have hquiet := (vfs_create_quiet hrest.ordered hcreate).after hw.calm
    have hcount : ∀ b, (held ++ rest).count b ≤ 2 := by
      intro b
      have h1 := hone b
      have h2 := List.nodup_iff_count_le_one.mp hnd b
      rw [List.count_append]
      omega
    dsimp only at hc
    by_cases hr1 : r1 ≠ RESOURCE_RESULT_OK
    · rw [if_pos hr1] at hc
      cases hc
      exact ⟨⟨_, hcount, hall, fun hok => absurd hok hr1⟩, Or.inl hquiet⟩
    rw [if_neg hr1] at hc
    obtain ⟨n, hn, hc⟩ := bind_ok.mp hc
    obtain ⟨-, rfl⟩ := node_ok.mp hn
    by_cases ht : (g1.nodes child).type ≠ VFS_NODE_TYPE_FILE
    · rw [if_pos ht] at hc
      cases hc
      exact ⟨⟨_, hcount, hall, fun hr => by cases hr⟩, Or.inl hquiet⟩
    · rw [if_neg ht] at hc
      cases hc
      refine ⟨⟨_, hcount, hall, fun _ => ⟨?_, not_not.mp ht⟩⟩, Or.inl hquiet⟩
      rw [(hok (not_not.mp hr1)).1]
      exact List.mem_append_left rest (List.mem_singleton_self _)

theorem Opened.stored {path : List Char} {flags : Nat} (h : Opened fs fs' path flags)
    (hs : Stored fs) : Stored fs' := by
  rcases h with hq | ⟨g, x, -, -, hcalm, hfile, rfl⟩
  · exact hq.stored hs
  · refine (hcalm.quiet.stored hs).truncated ?_
    unfold IsFile at hfile ⊢
    rwa [hcalm.tree.inode_blocks, hcalm.tree.inodes]

/-! ## The boot -/

section boot

variable {root : Nat}

/-- A new node of the ramfs, with or without a name. -/
theorem Imported.attempt_quiet (h : Imported fs root) {x : Nat} (hx : x ∈ fs.inode_blocks)
    {name : List Char} {type : vfs_node_type} {r1 r2 : ramfs_result_t}
    (hnew : ramfs_create_node fs type 0 0 = .ok (g, r1, node))
    (hadd : ramfs_add_child g x name node = .ok (fs', r2)) : Quiet fs fs' := by
  obtain ⟨hu, rfl, -, rfl⟩ := ramfs_create_node_made h.heap hnew
  have hlive : x ∈ (with_node fs type 0 0).inode_blocks := Finset.mem_insert_of_mem hx
  have hserves : (with_node fs type 0 0).next_block ≠ 0 := h.heap 1
  rw [ramfs_add_child_eq hlive, if_neg hserves] at hadd
  split at hadd
  · cases hadd
    exact quiet_with_node hu.2 type
  · cases hadd
    exact quiet_with_name hu.2 x name type

theorem Imported.get_or_create_stored {current : Nat} {path : List (List Char)} {d : Option Nat}
    (h : Imported fs root) (hx : current ∈ fs.inode_blocks) (hs : Stored fs)
    (hg : get_or_create_directory fs current path = .ok (fs', d)) : Stored fs' := by
  induction path generalizing fs current with
  | nil =>
    cases hg
    exact hs
  | cons token path ih =>
    unfold get_or_create_directory at hg
    rw [ramfs_find_child_eq hx, ok_bind] at hg
    cases he : (fs.inodes current).child token with
    | some e =>
      rw [he] at hg
      exact ih h (h.tree.targets current hx e (child_mem he).1) hs hg
    | none =>
      rw [he] at hg
      obtain ⟨⟨g, r1, node⟩, hnew, hg⟩ := bind_ok.mp hg
      obtain ⟨-, -, rfl, -⟩ := ramfs_create_node_made h.heap hnew
      dsimp only at hg
      rw [if_neg (by decide)] at hg
      obtain ⟨⟨g', r2⟩, hadd, hg⟩ := bind_ok.mp hg
      obtain ⟨hi, ha⟩ := h.attempt hx he hnew hadd
      exact ih hi ha.node_mem ((h.attempt_quiet hx hnew hadd).stored hs) hg

theorem Imported.create_path_stored {path : List Char} {type : vfs_node_type} {d : Option Nat}
    (h : Imported fs root) (hs : Stored fs)
    (hg : ramfs_create_path fs root path type = .ok (fs', d)) : Stored fs' := by
  unfold ramfs_create_path at hg
  obtain ⟨⟨g, parent⟩, hdir, hg⟩ := bind_ok.mp hg
  obtain ⟨hi, hparent⟩ := h.get_or_create h.root_mem hdir
  have hs' := h.get_or_create_stored h.root_mem hs hdir
  dsimp only at hg
  cases parent with
  | none =>
    cases hg
    exact hs'
  | some parent =>
    have hlive := hparent parent rfl
    dsimp only at hg
    rw [ramfs_find_child_eq hlive, ok_bind] at hg
    cases he : (g.inodes parent).child (path.rtakeWhile fun c => c ≠ '/') with
    | some e =>
      rw [he] at hg
      cases hg
      exact hs'
    | none =>
      rw [he] at hg
      obtain ⟨⟨g1, r1, node⟩, hnew, hg⟩ := bind_ok.mp hg
      obtain ⟨-, -, rfl, -⟩ := ramfs_create_node_made hi.heap hnew
      dsimp only at hg
      rw [if_neg (by decide)] at hg
      obtain ⟨⟨g2, r2⟩, hadd, hg⟩ := bind_ok.mp hg
      have hstored := (hi.attempt_quiet hlive hnew hadd).stored hs'
      dsimp only at hg
      split at hg <;> cases hg <;> exact hstored

/-- A node gets a new block. -/
theorem Stored.given {block length : Nat} (h : Stored fs) (hz : block ≠ 0)
    (hb : DataBlock fs.data_blocks block length) (hd : fs'.data_blocks = (block, length) :: fs.data_blocks)
    (hn : fs'.inode_blocks = fs.inode_blocks)
    (hself : (fs'.inodes a).data = block ∧ (fs'.inodes a).data_size ≤ length)
    (hother : ∀ b, b ≠ a → fs'.inodes b = fs.inodes b) : Stored fs' := by
  have hfile : ∀ b, b ≠ a → IsFile fs' b → IsFile fs b := by
    intro b hne hf
    unfold IsFile at hf ⊢
    rwa [hn, hother b hne] at hf
  have hfresh : ∀ b, IsFile fs b → (fs.inodes b).data ≠ block := by
    intro b hf he
    obtain ⟨length, hm, -⟩ := h.block b hf (he ▸ hz)
    exact (hb.2 _ hm).1 he
  constructor
  · intro b hm
    rw [hd] at hm
    rcases List.mem_cons.mp hm with rfl | hm
    · exact ⟨hz, hb.1⟩
    · exact h.inside b hm
  · rw [hd]
    exact List.pairwise_cons.mpr ⟨fun b hm => hb.2 b hm, h.apart⟩
  · intro b hf hne
    rw [hd]
    by_cases hba : b = a
    · rw [hba, hself.1]
      exact ⟨length, List.mem_cons_self, hself.2⟩
    · rw [hother b hba] at hne ⊢
      obtain ⟨length, hm, hl⟩ := h.block b (hfile b hba hf) hne
      exact ⟨length, List.mem_cons_of_mem _ hm, hl⟩
  · intro b hf he
    by_cases hba : b = a
    · rw [hba, hself.1] at he
      exact absurd he hz
    · rw [hother b hba] at he ⊢
      exact h.empty b (hfile b hba hf) he
  · intro b c hf hf' he hne
    by_cases hba : b = a
    · by_cases hca : c = a
      · rw [hba, hca]
      · rw [hba, hself.1, hother c hca] at he
        exact absurd he.symm (hfresh c (hfile c hca hf'))
    · rw [hother b hba] at he hne
      by_cases hca : c = a
      · rw [hca, hself.1] at he
        exact absurd he (hfresh b (hfile b hba hf))
      · rw [hother c hca] at he
        exact h.own b c (hfile b hba hf) (hfile c hca hf') he hne

/-- The contents of a member get a block of their own. -/
theorem Stored.copied (h : Stored fs) (hh : HeapServes fs) {data : List Nat}
    (hfits : data.length + 8 ≤ 0x100000000) (hg : tar_copy_data fs node data = .ok fs') :
    Stored fs' := by
  unfold tar_copy_data at hg
  obtain ⟨i, hi, hg⟩ := bind_ok.mp hg
  obtain ⟨-, rfl⟩ := inode_ok.mp hi
  by_cases hlen : data.length = 0
  · rw [if_pos hlen] at hg
    cases hg
    refine h.same_files rfl fun b hb => Or.inl ?_
    unfold IsFile at hb ⊢
    by_cases hbn : b = node
    · rw [hbn, setInode_self] at hb ⊢
      exact ⟨hb, rfl, Nat.zero_le _⟩
    · rw [setInode_ne _ _ hbn] at hb ⊢
      exact ⟨hb, rfl, le_refl _⟩
  · rw [if_neg hlen] at hg
    dsimp only at hg
    rw [if_neg hh.next] at hg
    by_cases hb : DataBlock fs.pop_block.data_blocks fs.next_block (block_length data.length)
    · rw [if_neg (not_not.mpr hb)] at hg
      cases hg
      refine h.given (a := node) hh.next hb rfl rfl ?_ fun b hne => setInode_ne _ _ hne
      rw [setInode_self]
      have hblock : data.length ≤ block_length data.length := le_block_length (by omega)
      exact ⟨rfl, hblock⟩
    · rw [if_pos hb] at hg
      cases hg

theorem Imported.members_stored {initrd : List tar_entry_t} (h : Imported fs root) (hs : Stored fs)
    (hg : initrd.foldlM (tar_create_entry root) fs = .ok fs') : Stored fs' := by
  induction initrd generalizing fs with
  | nil =>
    cases hg
    exact hs
  | cons entry initrd ih =>
    rw [List.foldlM_cons] at hg
    obtain ⟨g, hentry, hg⟩ := bind_ok.mp hg
    refine ih (h.entry hentry) ?_ hg
    unfold tar_create_entry at hentry
    dsimp only at hentry
    split at hentry
    · cases hentry
      exact hs
    cases ht : entry.type with
    | VFS_NODE_TYPE_DIRECTORY =>
      rw [ht] at hentry
      obtain ⟨⟨g1, d⟩, hcreate, hentry⟩ := bind_ok.mp hentry
      cases hentry
      exact h.create_path_stored hs hcreate
    | VFS_NODE_TYPE_FILE =>
      rw [ht] at hentry
      obtain ⟨⟨g1, d⟩, hcreate, hentry⟩ := bind_ok.mp hentry
      have hs' := h.create_path_stored hs hcreate
      cases d with
      | none => cases hentry
      | some node =>
        exact hs'.copied (h.create_path hcreate).1.heap entry.data_fits hentry

/-- A new node of the VFS is no change of files. -/
theorem Added.stored {n : vfs_node_t} (h : Added fs g node n) (hs : Stored fs) : Stored g :=
  hs.congr h.inodes h.inode_blocks h.data_blocks

theorem vfs_lock_node_stored (hl : vfs_lock_node fs a = .ok fs') (hs : Stored fs) : Stored fs' := by
  rcases vfs_lock_node_cases hl with ⟨-, rfl⟩ | ⟨-, -, rfl⟩
  · exact hs
  · exact hs.congr rfl rfl rfl

/-- A new node of the VFS is no change of files. -/
theorem vfs_create_node_stored {parent fs_data : Nat} {id : Int}
    {operations : vfs_node_operations_t} {type : vfs_node_type} {resource_type : resource_type_t}
    (hs : Stored fs) (hc : vfs_create_node fs parent id operations fs_data type resource_type =
      .ok (fs', r, node)) : Stored fs' := by
  unfold vfs_create_node at hc
  dsimp only at hc
  split at hc
  · cases hc
    exact hs.congr rfl rfl rfl
  split at hc
  · cases hc
  split at hc
  · cases hc
  obtain ⟨⟨g, r1⟩, hput, hc⟩ := bind_ok.mp hc
  cases hc
  unfold vfs_cache_put at hput
  obtain ⟨n, -, hput⟩ := bind_ok.mp hput
  generalize hfilled : node_filled fs parent fs.next_block _ = f1 at hput
  have hs1 : Stored f1 := by
    rw [← hfilled]
    exact hs.congr rfl rfl rfl
  have hlist : Stored (cache_list f1 n.cache_index).1 := by
    unfold cache_list
    split
    · exact hs1
    · split
      · exact hs1.congr rfl rfl rfl
      · exact hs1.congr rfl rfl rfl
  generalize cache_list f1 n.cache_index = x at hput hlist
  obtain ⟨f2, listed⟩ := x
  dsimp only at hput hlist
  split at hput
  · cases hput
    exact hlist
  obtain ⟨found, -, hput⟩ := bind_ok.mp hput
  cases found with
  | some a =>
    cases hput
    exact hlist
  | none =>
    dsimp only at hput
    unfold cache_append at hput
    split at hput
    · cases hput
      exact hlist.congr rfl rfl rfl
    · obtain ⟨f3, hlock, hput⟩ := bind_ok.mp hput
      cases hput
      exact vfs_lock_node_stored hlock (hlist.congr rfl rfl rfl)

theorem vfs_module_init_stored (hs : Stored fs) (hi : vfs_module_init fs = .ok fs') :
    Stored fs' := by
  unfold vfs_module_init at hi
  obtain ⟨i, -, hi⟩ := bind_ok.mp hi
  obtain ⟨⟨g, r, a⟩, hnew, hi⟩ := bind_ok.mp hi
  exact vfs_lock_node_stored hi ((vfs_create_node_stored hs hnew).congr rfl rfl rfl)

theorem devfs_mount_stored {dev : Nat} (hs : Stored fs) (hm : devfs_mount fs dev = .ok fs') :
    Stored fs' := by
  unfold devfs_mount at hm
  obtain ⟨⟨g, r, m⟩, hnew, hm⟩ := bind_ok.mp hm
  have hg := vfs_create_node_stored hs hnew
  dsimp only at hm
  split at hm
  · cases hm
    exact hg
  obtain ⟨g1, hlock, hm⟩ := bind_ok.mp hm
  obtain ⟨d, -, hm⟩ := bind_ok.mp hm
  cases hm
  exact (vfs_lock_node_stored hlock hg).congr rfl rfl rfl

theorem devfs_module_init_stored (h : Ordered fs) (hs : Stored fs)
    (hi : devfs_module_init fs = .ok fs') : Stored fs' := by
  unfold devfs_module_init at hi
  obtain ⟨⟨g, r, a⟩, hres, hi⟩ := bind_ok.mp hi
  obtain ⟨hg, hcalm, -⟩ := vfs_resolve_keeps h hres
  have hs' := hcalm.quiet.stored hs
  dsimp only at hi
  split at hi
  · exact devfs_mount_stored hs' hi
  · obtain ⟨⟨g1, r1, dev⟩, hcreate, hi⟩ := bind_ok.mp hi
    have hs1 := (vfs_create_quiet hg hcreate).stored hs'
    dsimp only at hi
    split at hi
    · cases hi
      exact hs1
    · exact devfs_mount_stored hs1 hi

/-- After the boot the blocks of the files are apart. -/
theorem boot_stored {memory heap : Nat → Nat} {initrd : List tar_entry_t} (hheap : ∀ n, heap n ≠ 0)
    (hends : FilesAtTheEnds initrd) (hboot : boot memory heap initrd = .ok fs) : Stored fs := by
  unfold boot at hboot
  obtain ⟨g, hdriver, hboot⟩ := bind_ok.mp hboot
  obtain ⟨g', hmodule, hdevices⟩ := bind_ok.mp hboot
  have himported := ramfs_driver_init_tree hheap hdriver
  have hunmounted := vfs_module_init_unmounted
    (himported.ordered (ramfs_driver_init_only hheap hends hdriver)) himported.unshown
    himported.indices hmodule
  have hg : Stored g := by
    unfold ramfs_driver_init at hdriver
    obtain ⟨⟨g0, r, root⟩, hnew, hdriver⟩ := bind_ok.mp hdriver
    have hserves : HeapServes (unmounted memory heap) := hheap
    obtain ⟨-, rfl, rfl, rfl⟩ := ramfs_create_node_made hserves hnew
    dsimp only at hdriver
    rw [if_neg (by decide)] at hdriver
    obtain ⟨g1, hmembers, hdriver⟩ := bind_ok.mp hdriver
    cases hdriver
    have hnothing : Stored (unmounted memory heap) := by
      have hnone : ∀ a, ¬ IsFile (unmounted memory heap) a := fun a ha => by
        exact absurd ha.1 (Finset.notMem_empty a)
      exact ⟨fun b hb => absurd hb List.not_mem_nil, List.Pairwise.nil,
        fun a ha => absurd ha (hnone a), fun a ha => absurd ha (hnone a),
        fun a b ha => absurd ha (hnone a)⟩
    have hroot : Stored (with_node (unmounted memory heap) VFS_NODE_TYPE_DIRECTORY 0 9) := by
      refine hnothing.same_files rfl fun a ha => ?_
      by_cases han : a = (unmounted memory heap).next_block
      · have htype := ha.2
        rw [han, with_node_self] at htype
        cases htype
      · exact absurd ((Finset.mem_insert.mp ha.1).resolve_left han) (Finset.notMem_empty a)
    exact ((imported_root hheap 0 9).members_stored hroot hmembers).congr rfl rfl rfl
  exact devfs_module_init_stored hunmounted.steady.settled.ordered
    (vfs_module_init_stored hg hmodule) hdevices

end boot

end alura_os.vfs
