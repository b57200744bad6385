-- Runs of the calls of the VFS on the directories of the ramfs. Every call
-- keeps the file systems in order, whatever the counts of references are, and
-- a call that fails leaves the directories and the files as they were.
import AluraOs.FileContents
import AluraOs.FsEdits

namespace alura_os.vfs

open alura_os.memory alura_os.resource faults
open resource_result_t resource_type_t vfs_node_type ramfs_result_t

variable {fs fs' : fs_t} {r : resource_result_t} {node : Nat}

/-! ## What a failed call leaves -/

/-- No entry, no count of links and no byte of a file differs. A node of the ramfs may have gone
that no entry was for, and nodes that no entry is for may have come. -/
structure Undisturbed (fs fs' : fs_t) : Prop where
  inodes : ∀ a ∈ fs.inode_blocks, fs'.inodes a = fs.inodes a
  named : ∀ a ∈ fs.inode_blocks, a ∈ fs'.inode_blocks ∨ (fs.inodes a).link_count = 0
  memory : fs'.memory = fs.memory
  root_node : fs'.root_node = fs.root_node

theorem Calm.undisturbed (h : Calm fs fs') : Undisturbed fs fs' := by
  refine ⟨fun a _ => congrFun h.tree.inodes a, fun a ha => ?_, h.memory, h.tree.root_node⟩
  rw [h.tree.inode_blocks]
  exact Or.inl ha

theorem Undisturbed.after {fs'' : fs_t} (h : Calm fs fs') (h' : Undisturbed fs' fs'') :
    Undisturbed fs fs'' := by
  refine ⟨?_, ?_, h'.memory.trans h.memory, h'.root_node.trans h.tree.root_node⟩
  · rw [← h.tree.inode_blocks, ← h.tree.inodes]
    exact h'.inodes
  · rw [← h.tree.inode_blocks, ← h.tree.inodes]
    exact h'.named

/-- What goes with a node of the VFS has no name. -/
theorem undisturbed_evicted (fs : fs_t) (a : Nat) : Undisturbed fs (evicted fs a) := by
  refine ⟨fun x _ => congrFun (evicted_inodes fs a) x, fun x hx => ?_, evicted_memory fs a,
    evicted_root_node fs a⟩
  rw [evicted_inode_blocks]
  by_cases hg : GoesWith fs (fs.nodes a)
  · rw [if_pos hg]
    by_cases hxa : x = (fs.nodes a).fs_data
    · rw [hxa]
      exact Or.inr hg.2
    · exact Or.inl (Finset.mem_erase.mpr ⟨hxa, hx⟩)
  · rw [if_neg hg]
    exact Or.inl hx

theorem undisturbed_released {a : Nat} (h : fs' = released fs a) : Undisturbed fs fs' := by
  have hs := (sameShape_setCount fs a (sub32 (fs.nodes a).ref_count 1)).calm
  rcases released_eq fs a with he | he
  · rw [h, he]
    exact hs.undisturbed
  · rw [h, he]
    exact Undisturbed.after hs (undisturbed_evicted _ a)

/-- A release changes no record of the ramfs, so it goes on with what was left. -/
theorem Undisturbed.released {g : fs_t} {a : Nat} (h : Undisturbed fs g) (hr : fs' = vfs.released g a)
    (hn : fs'.inodes = g.inodes) : Undisturbed fs fs' := by
  have h' := undisturbed_released hr
  refine ⟨?_, ?_, h'.memory.trans h.memory, h'.root_node.trans h.root_node⟩
  · rw [hn]
    exact h.inodes
  · intro x hx
    rcases h.named x hx with hx' | hz
    · rw [← h.inodes x hx]
      exact h'.named x hx'
    · exact Or.inr hz

theorem released_inodes {a : Nat} (h : fs' = released fs a) : fs'.inodes = fs.inodes := by
  rcases released_eq fs a with he | he
  · rw [h, he]
    rfl
  · rw [h, he, evicted_inodes]
    rfl

/-! ## Locks, releases and lookups -/

theorem vfs_release_node_cases (h : Ordered fs) {a : Nat} (hr : vfs_release_node fs a = .ok fs') :
    (a = 0 ∧ fs' = fs) ∨ (a ∈ fs.node_blocks ∧ fs' = released fs a) := by
  by_cases hz : a = 0
  · unfold vfs_release_node at hr
    rw [if_pos hz] at hr
    cases hr
    exact Or.inl ⟨hz, rfl⟩
  · have ha : a ∈ fs.node_blocks := by
      unfold vfs_release_node at hr
      rw [if_neg hz] at hr
      obtain ⟨n, hn, -⟩ := bind_ok.mp hr
      exact (node_ok.mp hn).1
    rw [h.release_ok ha] at hr
    exact Or.inr ⟨ha, (Except.ok.inj hr).symm⟩

theorem Ordered.release_keeps {a : Nat} (h : Ordered fs) (hr : vfs_release_node fs a = .ok fs') :
    Ordered fs' ∧ Undisturbed fs fs' := by
  rcases vfs_release_node_cases h hr with ⟨-, rfl⟩ | ⟨ha, he⟩
  · exact ⟨h, (Calm.refl _).undisturbed⟩
  · refine ⟨?_, undisturbed_released he⟩
    rw [he]
    exact h.released ha

/-- A failure of the call before the release is one after it. -/
theorem Undisturbed.release {g : fs_t} (h : Undisturbed fs g) (hg : Ordered g) {a : Nat}
    (hr : vfs_release_node g a = .ok fs') : Undisturbed fs fs' := by
  rcases vfs_release_node_cases hg hr with ⟨-, rfl⟩ | ⟨-, he⟩
  · exact h
  · exact h.released he (released_inodes he)

/-- What a walk leaves: the order, all entries, and the nodes of the VFS for files. -/
structure Walked (fs fs' : fs_t) : Prop where
  ordered : Ordered fs'
  calm : Calm fs fs'
  files : ∀ a ∈ fs.node_blocks, (fs.nodes a).type = VFS_NODE_TYPE_FILE →
    a ∈ fs'.node_blocks ∧ ∃ k, fs'.nodes a = { fs.nodes a with ref_count := k }

theorem Walked.refl (h : Ordered fs) : Walked fs fs := ⟨h, Calm.refl fs, fun _ ha _ => ⟨ha, _, rfl⟩⟩

theorem Walked.trans {fs'' : fs_t} (h : Walked fs fs') (h' : Walked fs' fs'') : Walked fs fs'' := by
  refine ⟨h'.ordered, h.calm.trans h'.calm, fun a ha hf => ?_⟩
  obtain ⟨ha', k, hk⟩ := h.files a ha hf
  obtain ⟨ha'', j, hj⟩ := h'.files a ha' (by rw [hk]; exact hf)
  exact ⟨ha'', j, by rw [hj, hk]⟩

theorem Walked.lock {a : Nat} (h : Ordered fs) (hl : vfs_lock_node fs a = .ok fs') :
    Walked fs fs' := by
  rcases vfs_lock_node_cases hl with ⟨-, rfl⟩ | ⟨-, -, rfl⟩
  · exact Walked.refl h
  · exact ⟨h.locked a, (sameShape_locked fs a).calm, fun b hb _ => ⟨hb, setCount_record fs a _ b⟩⟩

theorem cross_mount_keeps (h : Ordered fs) {current : Nat}
    (hc : cross_mount fs current = .ok (fs', node)) : Walked fs fs' := by
  unfold cross_mount at hc
  obtain ⟨n, -, hc⟩ := bind_ok.mp hc
  split at hc
  · cases hc
    exact Walked.refl h
  · obtain ⟨g, hl, hc⟩ := bind_ok.mp hc
    cases hc
    exact Walked.lock h hl

/-- A node of the VFS on which a name is found is no file. -/
theorem Ordered.entered_directory (h : Ordered fs) {d : Nat} (hd : d ∈ fs.node_blocks)
    {name : List Char} {p : place} (he : enter fs (place_of (fs.nodes d)) name = .ok p) :
    (fs.nodes d).type ≠ VFS_NODE_TYPE_FILE := by
  intro hf
  have hv := h.views d hd
  by_cases hop : (fs.nodes d).operations = .ramfs
  · have hs := hv.shown hop
    rw [place_of_inode.mpr ⟨hop, rfl⟩] at he
    unfold enter at he
    dsimp only at he
    rw [ramfs_node_t.child, h.only _ hs.there (hs.type.trans hf)] at he
    cases he
  · unfold Viewed at hv
    rw [if_neg hop] at hv
    by_cases hdev : (fs.nodes d).operations = .devfs
    · rw [if_pos hdev, hf] at hv
      cases hv.2.2
    · rw [place_of_other hop hdev] at he
      cases he

/-- The node that was looked up is locked, and the directory in which it was found is released. -/
theorem Walked.handed_on (h : Ordered fs) {d next : Nat} {name : List Char} {p : place} {g : fs_t}
    (hd : d ∈ fs.node_blocks) (he : enter fs (place_of (fs.nodes d)) name = .ok p)
    (hf : Fetched fs g next p) (hrel : vfs_release_node (locked g next) d = .ok fs') :
    Walked fs fs' := by
  have hlive : ∀ a ∈ fs.node_blocks, a ∈ (locked g next).node_blocks := by
    intro a ha
    rcases hf.origin with ⟨rfl, -⟩ | ⟨n, hadd, -⟩
    · exact ha
    · have : a ∈ g.node_blocks := by
        rw [hadd.node_blocks]
        exact Finset.mem_insert_of_mem ha
      exact this
  have hg := hf.ordered.locked next
  have hstep := hf.calm.trans (sameShape_locked g next).calm
  -- The directory in which the name was found stays in the ramfs.
  obtain ⟨k, hk⟩ := hf.record hd
  have hstay : ¬ GoesWith (locked g next) ((locked g next).nodes d) := by
    rw [hk, goesWith_count, hstep.goesWith (fs.nodes d)]
    exact h.entered hd he
  have hstate : released (locked g next) d = fs' := by
    rw [hg.release_ok (hlive d hd)] at hrel
    exact Except.ok.inj hrel
  have hordered := hg.released (hlive d hd)
  have hcalm := hstep.trans (calm_released hstay)
  have hnodes := released_nodes (locked g next) d
  have hcases := released_eq (locked g next) d
  rw [hstate] at hordered hcalm hnodes hcases
  refine ⟨hordered, hcalm, fun a ha hfile => ?_⟩
  have hne : a ≠ d := by
    rintro rfl
    exact h.entered_directory hd he hfile
  obtain ⟨j, hj⟩ := hf.record ha
  rw [hnodes, setCount_ne _ _ hne]
  refine ⟨?_, j, hj⟩
  rcases hcases with hr | hr
  · rw [hr]
    exact hlive a ha
  · rw [hr, evicted_node_blocks]
    exact Finset.mem_erase.mpr ⟨hne, hlive a ha⟩

/-- A turn of the loop of `vfs_resolve`, whatever the counts are. -/
theorem resolve_component_keeps (h : Ordered fs) {current : Nat} {name : List Char}
    (hc : resolve_component fs current name = .ok (fs', r, node)) : Walked fs fs' := by
  unfold resolve_component at hc
  split at hc
  · cases hc
  · obtain ⟨⟨g, d⟩, hcross, hc⟩ := bind_ok.mp hc
    have hg := cross_mount_keeps h hcross
    obtain ⟨⟨g1, result, next⟩, hlookup, hc⟩ := bind_ok.mp hc
    dsimp only at hc hlookup
    have hd : d ∈ g.node_blocks := by
      unfold lookup at hlookup
      obtain ⟨n, hn, -⟩ := bind_ok.mp hlookup
      exact (node_ok.mp hn).1
    have hpost := (lookup_post hg.ordered hd name).result hlookup
    cases he : enter g (place_of (g.nodes d)) name with
    | error e =>
      rw [he] at hpost
      cases hpost
      rw [if_pos (enter_ne_ok he)] at hc
      cases hc
      exact hg
    | ok p =>
      rw [he] at hpost
      obtain ⟨hok, hf⟩ := hpost
      dsimp only at hok hf
      subst hok
      have hz := hf.ordered.ne_null hf.live
      rw [if_neg (by simp), vfs_lock_node_eq hz hf.live, ok_bind] at hc
      obtain ⟨g3, hrel, hend⟩ := bind_ok.mp hc
      rw [if_neg hz] at hend
      cases hend
      exact hg.trans (Walked.handed_on hg.ordered hd he hf hrel)

theorem resolve_components_keeps (h : Ordered fs) {current : Nat} {path : List (List Char)}
    (hc : resolve_components fs current path = .ok (fs', r, node)) : Walked fs fs' := by
  induction path generalizing fs current with
  | nil =>
    cases hc
    exact Walked.refl h
  | cons name path ih =>
    unfold resolve_components at hc
    obtain ⟨⟨g, result, next⟩, hturn, hc⟩ := bind_ok.mp hc
    have hg := resolve_component_keeps h hturn
    dsimp only at hc
    split at hc
    · cases hc
      exact hg
    · exact hg.trans (ih hg.ordered hc)

theorem vfs_resolve_keeps (h : Ordered fs) {path : List Char}
    (hc : vfs_resolve fs path = .ok (fs', r, node)) : Walked fs fs' := by
  unfold vfs_resolve at hc
  obtain ⟨g, hlock, hc⟩ := bind_ok.mp hc
  have hg := Walked.lock h hlock
  exact hg.trans (resolve_components_keeps hg.ordered hc)

/-! ## The calls -/

/-- A directory that is full gets a node beside it. -/
theorem undisturbed_with_node (hu : fs.Unused fs.next_block) (type : vfs_node_type) :
    Undisturbed fs (with_node fs type 0 0) :=
  ⟨fun _ ha => with_node_old hu.2 ha, fun _ ha => Or.inl (Finset.mem_insert_of_mem ha), rfl, rfl⟩

theorem vfs_create_keeps (h : Ordered fs) {path : List Char} {type : vfs_node_type}
    (hc : vfs_create fs path type = .ok (fs', r, node)) :
    Ordered fs' ∧ (r ≠ RESOURCE_RESULT_OK → Undisturbed fs fs') := by
  unfold vfs_create at hc
  generalize vfs_split_path (path_copy path) = split at hc
  obtain ⟨name, parent_path⟩ := split
  dsimp only at hc
  split at hc
  · cases hc
    exact ⟨h, fun _ => (Calm.refl _).undisturbed⟩
  obtain ⟨⟨g, result, parent⟩, hres, hc⟩ := bind_ok.mp hc
  obtain ⟨hg, hcalm, -⟩ := vfs_resolve_keeps h hres
  dsimp only at hc
  split at hc
  · cases hc
    exact ⟨hg, fun _ => hcalm.undisturbed⟩
  obtain ⟨n, hn, hc⟩ := bind_ok.mp hc
  obtain ⟨hparent, rfl⟩ := node_ok.mp hn
  split at hc
  · obtain ⟨g', hrel, hc⟩ := bind_ok.mp hc
    cases hc
    obtain ⟨hg', hleft⟩ := hg.release_keeps hrel
    exact ⟨hg', fun _ => hleft.after hcalm⟩
  · rename_i hdir
    rw [Bool.not_eq_true, Bool.not_eq_false'] at hdir
    obtain ⟨⟨g1, result1, child⟩, hcreate, hc⟩ := bind_ok.mp hc
    have hpost := (ramfs_create_post hg hparent hdir name type).result hcreate
    obtain ⟨g2, hrel, hc⟩ := bind_ok.mp hc
    dsimp only at hc hrel hpost
    -- A name is there, the directory is full, or the name is new.
    have hg1 : Ordered g1 ∧ (result1 ≠ RESOURCE_RESULT_OK → Undisturbed g g1) := by
      cases he : (g.inodes (g.nodes parent).fs_data).child name with
      | some e =>
        rw [he] at hpost
        exact ⟨hpost.2.ordered, fun hne => absurd hpost.1 hne⟩
      | none =>
        rw [he] at hpost
        obtain ⟨hu, hpost⟩ := hpost
        split at hpost
        · cases hpost
          exact ⟨hg.node_more hu, fun _ => undisturbed_with_node hu type⟩
        · exact ⟨hpost.2.ordered, fun hne => absurd hpost.1 hne⟩
    obtain ⟨hg2, -⟩ := hg1.1.release_keeps hrel
    split at hc
    · rename_i hne
      cases hc
      exact ⟨hg2, fun _ => ((hg1.2 hne).release hg1.1 hrel).after hcalm⟩
    · obtain ⟨g3, hlock, hc⟩ := bind_ok.mp hc
      cases hc
      exact ⟨(Walked.lock hg2 hlock).ordered, fun hne => absurd rfl hne⟩

/-- The end of `vfs_link` and `vfs_unlink`: the nodes are released, and the answer stays. -/
theorem Ordered.end_release {g : fs_t} {a : Nat} {answer : resource_result_t} (h : Ordered g)
    (hkeep : r ≠ RESOURCE_RESULT_OK → Undisturbed fs g)
    (hc : (do return (← vfs_release_node g a, r)) = .ok (fs', answer)) :
    Ordered fs' ∧ (answer ≠ RESOURCE_RESULT_OK → Undisturbed fs fs') := by
  obtain ⟨g', hrel, hc⟩ := bind_ok.mp hc
  cases hc
  exact ⟨(h.release_keeps hrel).1, fun hne => (hkeep hne).release h hrel⟩

theorem vfs_unlink_keeps (h : Ordered fs) {path : List Char}
    (hc : vfs_unlink fs path = .ok (fs', r)) :
    Ordered fs' ∧ (r ≠ RESOURCE_RESULT_OK → Undisturbed fs fs') := by
  unfold vfs_unlink at hc
  generalize vfs_split_path (path_copy path) = split at hc
  obtain ⟨name, parent_path⟩ := split
  dsimp only at hc
  split at hc
  · cases hc
    exact ⟨h, fun _ => (Calm.refl _).undisturbed⟩
  obtain ⟨⟨g, result, parent⟩, hres, hc⟩ := bind_ok.mp hc
  obtain ⟨hg, hcalm, -⟩ := vfs_resolve_keeps h hres
  dsimp only at hc
  split at hc
  · cases hc
    exact ⟨hg, fun _ => hcalm.undisturbed⟩
  obtain ⟨n, hn, hc⟩ := bind_ok.mp hc
  obtain ⟨hparent, rfl⟩ := node_ok.mp hn
  split at hc
  · exact hg.end_release (fun _ => hcalm.undisturbed) hc
  · rename_i hdir
    rw [Bool.not_eq_true, Bool.not_eq_false'] at hdir
    obtain ⟨⟨g1, result1⟩, hunlink, hc⟩ := bind_ok.mp hc
    have hpost := (ramfs_unlink_post hg hparent hdir name).result hunlink
    dsimp only at hc hpost
    have hg1 : Ordered g1 ∧ (result1 ≠ RESOURCE_RESULT_OK → Undisturbed fs g1) := by
      split at hpost
      · cases hpost
        exact ⟨hg, fun _ => hcalm.undisturbed⟩
      · split at hpost
        · cases hpost
          exact ⟨hg, fun _ => hcalm.undisturbed⟩
        · exact ⟨hpost.2.1, fun hne => absurd hpost.1 hne⟩
    exact hg1.1.end_release hg1.2 hc

theorem vfs_link_keeps (h : Ordered fs) {old_path new_path : List Char}
    (hc : vfs_link fs old_path new_path = .ok (fs', r)) :
    Ordered fs' ∧ (r ≠ RESOURCE_RESULT_OK → Undisturbed fs fs') := by
  unfold vfs_link at hc
  obtain ⟨⟨g, result, source⟩, hres, hc⟩ := bind_ok.mp hc
  obtain ⟨hg, hcalm, -⟩ := vfs_resolve_keeps h hres
  dsimp only at hc
  split at hc
  · cases hc
    exact ⟨hg, fun _ => hcalm.undisturbed⟩
  obtain ⟨s, hs, hc⟩ := bind_ok.mp hc
  obtain ⟨hsource, rfl⟩ := node_ok.mp hs
  split at hc
  · exact hg.end_release (fun _ => hcalm.undisturbed) hc
  rename_i hplain
  rw [not_or, not_not, not_not] at hplain
  generalize vfs_split_path (path_copy new_path) = split at hc
  obtain ⟨name, parent_path⟩ := split
  dsimp only at hc
  split at hc
  · exact hg.end_release (fun _ => hcalm.undisturbed) hc
  obtain ⟨⟨g1, result1, parent⟩, hres1, hc⟩ := bind_ok.mp hc
  obtain ⟨hg1, hcalm1, hfiles⟩ := vfs_resolve_keeps hg hres1
  have hcalm' := hcalm.trans hcalm1
  dsimp only at hc
  split at hc
  · exact hg1.end_release (fun _ => hcalm'.undisturbed) hc
  obtain ⟨n, hn, hc⟩ := bind_ok.mp hc
  obtain ⟨hparent, rfl⟩ := node_ok.mp hn
  split at hc
  · obtain ⟨g2, hrel, hc⟩ := bind_ok.mp hc
    obtain ⟨hg2, hleft⟩ := hg1.release_keeps hrel
    exact hg2.end_release (fun _ => hleft.after hcalm') hc
  · rename_i hdir
    rw [Bool.not_eq_true, Bool.not_eq_false'] at hdir
    obtain ⟨⟨g2, result2⟩, hlink, hc⟩ := bind_ok.mp hc
    obtain ⟨g3, hrel, hc⟩ := bind_ok.mp hc
    dsimp only at hc hrel
    -- The file is still there after the second walk.
    obtain ⟨hlive, k, hk⟩ := hfiles source hsource hplain.1
    have htype : (g1.nodes source).type = VFS_NODE_TYPE_FILE := by rw [hk]; exact hplain.1
    have hkind : (g1.nodes source).resource_type = RESOURCE_TYPE_FILE := by rw [hk]; exact hplain.2
    rw [ramfs_link_eq hg1 hparent hdir hlive htype hkind] at hlink
    obtain ⟨-, hx, hxdir⟩ := hg1.shows_directory hparent hdir
    have hg2 : Ordered g2 ∧ (result2 ≠ RESOURCE_RESULT_OK → Undisturbed fs g2) := by
      split at hlink
      · cases hlink
        exact ⟨hg1, fun _ => hcalm'.undisturbed⟩
      · rename_i hname
        rw [Option.not_isSome_iff_eq_none] at hname
        split at hlink
        · cases hlink
          exact ⟨hg1, fun _ => hcalm'.undisturbed⟩
        · rename_i hroom
          cases hlink
          exact ⟨hg1.with_link hlive htype hkind hx hxdir hname (Nat.lt_of_not_le hroom),
            fun hne => absurd rfl hne⟩
    obtain ⟨hg3, -⟩ := hg2.1.release_keeps hrel
    exact hg3.end_release (fun hne => (hg2.2 hne).release hg2.1 hrel) hc

end alura_os.vfs
