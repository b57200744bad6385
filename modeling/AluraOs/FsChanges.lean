-- The references to the nodes of the VFS over `vfs_create`, `vfs_link` and
-- `vfs_unlink`, and the directories that these calls leave.
import AluraOs.FsEdits
import AluraOs.PathCounts

namespace alura_os.vfs

open alura_os.memory alura_os.resource faults
open resource_result_t resource_type_t vfs_node_type ramfs_result_t

variable {fs0 fs fs' : fs_t} {held : List Nat}

/-! ## References over an edit -/

/-- A call that began in `fs0` is in order, and holds these references. -/
structure Handled (fs0 fs : fs_t) (held : List Nat) : Prop where
  ordered : Ordered fs
  tally : Tally fs0 fs held
  root : fs.root = fs0.root
  root_node : fs.root_node = fs0.root_node

theorem Walk.handled (h : Walk fs0 fs held) : Handled fs0 fs held :=
  ⟨h.ordered, h.tally, h.calm.root, h.calm.tree.root_node⟩

theorem Tally.same_vfs (h : Tally fs0 fs held) (hs : SameVfs fs fs') : Tally fs0 fs' held := by
  constructor
  · rw [hs.node_blocks, hs.nodes]
    exact h.kept
  · rw [hs.node_blocks, hs.nodes]
    exact h.old
  · rw [hs.node_blocks, hs.nodes]
    exact h.new
  · rw [hs.node_blocks]
    exact h.live
  · rw [hs.node_blocks, hs.nodes]
    exact h.mounts

/-- An edit of the directories takes no references. -/
theorem Handled.edited (h : Handled fs0 fs held) (ho : Ordered fs') (hs : SameVfs fs fs')
    (hr : fs'.root = fs.root) (hn : fs'.root_node = fs.root_node) : Handled fs0 fs' held :=
  ⟨ho, h.tally.same_vfs hs, hr.trans h.root, hn.trans h.root_node⟩

/-- A release leaves the directories as they are, unless the node goes with a file that has no name. -/
theorem Handled.released {a : Nat} (h : Handled fs0 fs (a :: held)) (hs : Fits fs0)
    (hout : a ∉ held) (hg : ¬ GoesWith fs (fs.nodes a)) (hr : vfs.released fs a = fs') :
    Handled fs0 fs' held ∧ Calm fs fs' := by
  have hcalm := calm_released hg
  have hordered := h.ordered.released (h.tally.live a List.mem_cons_self)
  have htally := h.tally.released hs hout
  rw [hr] at hcalm hordered htally
  exact ⟨⟨hordered, htally, hcalm.root.trans h.root, hcalm.tree.root_node.trans h.root_node⟩, hcalm⟩

/-! ## A lock after a release -/

section swap

variable {a b : Nat}

theorem setCount_comm (hne : a ≠ b) (m n : Nat) :
    (fs.setCount a m).setCount b n = (fs.setCount b n).setCount a m := by
  unfold fs_t.setCount fs_t.setNode
  simp only [Function.update_of_ne hne, Function.update_of_ne hne.symm]
  rw [Function.update_comm hne]

/-- The search of a list looks at the keys of the nodes only. -/
theorem cache_remove_setCount (a m : Nat) (n : vfs_node_t) :
    cache_remove (fs.setCount a m) n = (cache_remove fs n).setCount a m := by
  have hwithout : cache_without (fs.setCount a m) n.index = cache_without fs n.index := by
    have hindex : ∀ x, ((fs.setCount a m).nodes x).index = (fs.nodes x).index :=
      fun x => ((sameShape_setCount fs a m).key x).2
    unfold cache_without
    simp only [hindex]
  unfold cache_remove
  rw [hwithout]
  rfl

theorem evicted_setCount (hne : a ≠ b) (m : Nat) :
    evicted (fs.setCount a m) b = (evicted fs b).setCount a m := by
  have hb : (fs.setCount a m).nodes b = fs.nodes b := setCount_ne fs m hne.symm
  unfold evicted
  rw [hb, cache_remove_setCount]
  unfold unnamed_freed
  by_cases hg : GoesWith (cache_remove fs (fs.nodes b)) (fs.nodes b)
  · rw [if_pos hg, if_pos (show GoesWith ((cache_remove fs (fs.nodes b)).setCount a m) _ from hg)]
    rfl
  · rw [if_neg hg, if_neg (show ¬ GoesWith ((cache_remove fs (fs.nodes b)).setCount a m) _ from hg)]
    rfl

theorem released_setCount (hne : a ≠ b) (m : Nat) :
    vfs.released (fs.setCount a m) b = (vfs.released fs b).setCount a m := by
  have hb : (fs.setCount a m).nodes b = fs.nodes b := setCount_ne fs m hne.symm
  unfold vfs.released
  dsimp only
  rw [hb, setCount_comm hne]
  by_cases hone : sub32 (fs.nodes b).ref_count 1 = 1
  · rw [if_pos hone, if_pos hone, evicted_setCount hne]
  · rw [if_neg hone, if_neg hone]

theorem released_locked (hne : a ≠ b) :
    vfs.released (locked fs a) b = locked (vfs.released fs b) a := by
  have hcount : ((vfs.released fs b).nodes a).ref_count = (fs.nodes a).ref_count := by
    rw [released_nodes, setCount_ne fs _ hne]
  unfold locked
  rw [hcount, released_setCount hne]

end swap

/-! ## One call after another -/

/-- A node that is held, or that was referred to beside the cache, is not the next to go. -/
theorem Tally.count_ne_one {n : Nat} (h : Tally fs0 fs held) (hs : Spare fs0 n)
    (hn : ∀ a, held.count a ≤ n) (hlt : n < 0x100000000) {a : Nat} (ha : a ∈ fs.node_blocks)
    (hmore : a ∈ held ∨ (a ∈ fs0.node_blocks ∧ (fs0.nodes a).ref_count ≠ 1)) :
    (fs.nodes a).ref_count ≠ 1 := by
  have hle := hn a
  have hpos : a ∈ held → 0 < held.count a := fun hm => List.count_pos_iff.mpr hm
  by_cases ha0 : a ∈ fs0.node_blocks
  · obtain ⟨h1, h2⟩ := hs a ha0
    rw [h.old a ha0 ha]
    unfold u32
    rcases hmore with hm | ⟨-, hm⟩
    · have := hpos hm
      omega
    · omega
  · obtain ⟨hcount, hm⟩ := h.new a ha ha0
    have := hpos hm
    rw [hcount]
    unfold u32
    omega

theorem Tally.trans {fs1 : fs_t} {held' : List Nat} {n : Nat} (h : Tally fs0 fs1 held)
    (h' : Tally fs1 fs held') (hs : Spare fs0 n) (hn : ∀ a, held.count a ≤ n) (hlt : n < 0x100000000) :
    Tally fs0 fs (held' ++ held) := by
  have hnone : ∀ a, a ∉ fs1.node_blocks → held.count a = 0 :=
    fun a ha => List.count_eq_zero.mpr fun hm => ha (h.live a hm)
  have hmiddle : ∀ a ∈ fs0.node_blocks, (fs0.nodes a).ref_count ≠ 1 →
      a ∈ fs1.node_blocks ∧ (fs1.nodes a).ref_count ≠ 1 := by
    intro a ha hne
    have ha1 := (h.kept a ha hne).1
    exact ⟨ha1, h.count_ne_one hs hn hlt ha1 (Or.inr ⟨ha, hne⟩)⟩
  constructor
  · intro a ha hne
    obtain ⟨ha1, hne1⟩ := hmiddle a ha hne
    obtain ⟨-, k, hk⟩ := h.kept a ha hne
    obtain ⟨ha2, j, hj⟩ := h'.kept a ha1 hne1
    exact ⟨ha2, j, by rw [hj, hk]⟩
  · intro a ha ha2
    rw [List.count_append]
    by_cases ha1 : a ∈ fs1.node_blocks
    · rw [h'.old a ha1 ha2, h.old a ha ha1, u32_succ]
      congr 1
      omega
    · -- The node went, and its address is that of a new one.
      have hone : (fs0.nodes a).ref_count = 1 := by
        by_contra hne
        exact ha1 (h.kept a ha hne).1
      rw [(h'.new a ha2 ha1).1, hone, hnone a ha1, Nat.add_zero]
  · intro a ha2 ha
    rw [List.count_append]
    by_cases ha1 : a ∈ fs1.node_blocks
    · obtain ⟨hcount, hm⟩ := h.new a ha1 ha
      rw [h'.old a ha1 ha2, hcount, u32_succ]
      refine ⟨?_, List.mem_append_right _ hm⟩
      congr 1
      omega
    · obtain ⟨hcount, hm⟩ := h'.new a ha2 ha1
      rw [hcount, hnone a ha1, Nat.add_zero]
      exact ⟨rfl, List.mem_append_left _ hm⟩
  · intro a ha
    rcases List.mem_append.mp ha with ha | ha
    · exact h'.live a ha
    · have ha1 := h.live a ha
      exact (h'.kept a ha1 (h.count_ne_one hs hn hlt ha1 (Or.inl ha))).1
  · intro a ha2 hm
    obtain ⟨ha1, he⟩ := h'.mounts a ha2 hm
    rw [← he] at hm ⊢
    exact h.mounts a ha1 hm

theorem Handled.trans {fs1 : fs_t} {held' : List Nat} {n : Nat} (h : Handled fs0 fs1 held)
    (h' : Handled fs1 fs held') (hs : Spare fs0 n) (hn : ∀ a, held.count a ≤ n)
    (hlt : n < 0x100000000) : Handled fs0 fs (held' ++ held) :=
  ⟨h'.ordered, h.tally.trans h'.tally hs hn hlt, h'.root.trans h.root,
    h'.root_node.trans h.root_node⟩

/-- What is mounted stays mounted. -/
theorem Handled.mount_rule {n : Nat} (h : Handled fs0 fs held) (hr : MountRule fs0)
    (hs : Spare fs0 n) (hn : ∀ a, held.count a ≤ n) (hlt : n < 0x100000000) : MountRule fs := by
  intro a ha hm
  obtain ⟨ha0, he⟩ := h.tally.mounts a ha hm
  rw [← he] at hm ⊢
  obtain ⟨hop, hcount, hroot, hdev, hrootcount⟩ := hr a ha0 hm
  obtain ⟨-, k, hk⟩ := h.tally.kept a ha0 hcount
  obtain ⟨hl, j, hj⟩ := h.tally.kept _ hroot hrootcount
  refine ⟨by rw [hk]; exact hop, ?_, hl, by rw [hj]; exact hdev, ?_⟩
  · exact h.tally.count_ne_one hs hn hlt ha (Or.inr ⟨ha0, hcount⟩)
  · exact h.tally.count_ne_one hs hn hlt hl (Or.inr ⟨hroot, hrootcount⟩)

theorem Tally.fits (h : Tally fs0 fs held) : Fits fs := by
  intro a ha
  by_cases ha0 : a ∈ fs0.node_blocks
  · rw [h.old a ha0 ha]
    exact Nat.mod_lt _ (by decide)
  · rw [(h.new a ha ha0).1]
    exact Nat.mod_lt _ (by decide)

/-- The file systems are settled, and the root is referred to beside the cache. -/
structure Steady (fs : fs_t) : Prop where
  settled : Settled fs
  root : (fs.nodes fs.root).ref_count ≠ 1

/-- After a call that took at most one reference to each node, another one can go on. -/
theorem Steady.after (h : Steady fs0) (hh : Handled fs0 fs held) (hn : held.Nodup) :
    Resting fs := by
  have hone : ∀ a, held.count a ≤ 1 := List.nodup_iff_count_le_one.mp hn
  obtain ⟨hroot, k, hk⟩ := hh.tally.kept fs0.root h.settled.root h.root
  refine ⟨hh.ordered, ?_, ?_, ?_, hh.tally.fits⟩
  · rw [hh.root]
    exact hroot
  · rw [hh.root, hh.root_node, hk]
    exact h.settled.top
  · exact hh.mount_rule h.settled.mounts h.settled.counts hone (by decide)

end alura_os.vfs
