-- `vfs_link` on settled file systems: a file gets one more name, or some nodes
-- stay locked.
import AluraOs.FailedOpens

namespace alura_os.vfs

open alura_os.memory alura_os.resource faults
open resource_result_t resource_type_t vfs_node_type ramfs_result_t

variable {fs0 fs fs1 fs' : fs_t} {held held' : List Nat} {a b : Nat}

/-! ## Two walks -/

theorem Walk.trans (h : Walk fs0 fs1 held) (h' : Walk fs1 fs held') (hs : Spare fs0 1)
    (hn : held.Nodup) : Walk fs0 fs (held' ++ held) :=
  ⟨h'.ordered, h.calm.trans h'.calm,
    h.tally.trans h'.tally hs (List.nodup_iff_count_le_one.mp hn) (by decide)⟩

/-- What the first walk holds keeps its record over the second one. -/
theorem Walk.held_record (h : Walk fs0 fs1 held) (h' : Walk fs1 fs held') (hs : Spare fs0 1)
    (hn : held.Nodup) (ha : a ∈ held) :
    a ∈ fs.node_blocks ∧ ∃ k, fs.nodes a = { fs1.nodes a with ref_count := k } := by
  have hl := h.tally.live a ha
  exact h'.tally.kept a hl (h.tally.count_ne_one hs (List.nodup_iff_count_le_one.mp hn) (by decide)
    hl (Or.inl ha))

theorem Handled.dropped (h : Handled fs0 fs (a :: held)) (hs : Spare fs0 1) (hn : held.Nodup)
    (hg : ¬ GoesWith fs (fs.nodes a)) :
    ∃ g, vfs_release_node fs a = .ok g ∧ Handled fs0 g held ∧ Calm fs g ∧
      ∀ b, ∃ k, g.nodes b = { fs.nodes b with ref_count := k } := by
  have ha := h.tally.live a List.mem_cons_self
  have hcalm := calm_released hg
  have hordered := h.ordered.released ha
  have htally := h.tally.dropped hs hn
  refine ⟨_, h.ordered.release_ok ha, ⟨hordered, htally, hcalm.root.trans h.root,
    hcalm.tree.root_node.trans h.root_node⟩, hcalm, fun b => ?_⟩
  rw [released_nodes]
  exact setCount_record fs a _ b

/-- The last steps of `vfs_link`: the directory and the file are released. -/
theorem Handled.both_dropped (h : Handled fs0 fs (a :: b :: held)) (hs : Spare fs0 1)
    (hn : (b :: held).Nodup) (ha : ¬ GoesWith fs (fs.nodes a)) (hb : ¬ GoesWith fs (fs.nodes b)) :
    ∃ g g', vfs_release_node fs a = .ok g ∧ vfs_release_node g b = .ok g' ∧ Handled fs0 g' held ∧
      Calm fs g' := by
  obtain ⟨g, hrel, hg, hcalm, hrecord⟩ := h.dropped hs hn ha
  have hb' : ¬ GoesWith g (g.nodes b) := by
    obtain ⟨k, hk⟩ := hrecord b
    rw [hk, goesWith_count, hcalm.goesWith]
    exact hb
  obtain ⟨g', hrel', hg', hcalm', -⟩ := hg.dropped hs hn.of_cons hb'
  exact ⟨g, g', hrel, hrel', hg', hcalm.trans hcalm'⟩

/-! ## One more name -/

/-- The directory `y` got the entry `name` for the file `c`. -/
structure Relinked (fs fs' : fs_t) (y : Nat) (name : List Char) (c : Nat) : Prop where
  inode_blocks : fs'.inode_blocks = fs.inode_blocks
  directory : fs'.inodes y =
    { fs.inodes y with children := (fs.inodes y).children ++ [⟨name, c⟩] }
  file : fs'.inodes c = { fs.inodes c with link_count := (fs.inodes c).link_count + 1 }
  others : ∀ a, a ≠ y → a ≠ c → fs'.inodes a = fs.inodes a
  memory : fs'.memory = fs.memory
  data_blocks : fs'.data_blocks = fs.data_blocks
  freed : fs'.freed = fs.freed

theorem relinked_with_link {y c : Nat} (hne : y ≠ c) (name : List Char) :
    Relinked fs (with_link fs y name c) y name c := by
  unfold with_link
  refine ⟨rfl, ?_, ?_, ?_, rfl, rfl, rfl⟩
  · rw [setInode_ne _ _ hne, with_child_self]
  · rw [setInode_self]
  · intro a hy hc
    rw [setInode_ne _ _ hc, with_child_ne hy]

theorem Relinked.between {g g' : fs_t} {y c : Nat} {name : List Char} (h : Relinked g g' y name c)
    (hg : Calm fs g) (hg' : Calm g' fs') : Relinked fs fs' y name c := by
  refine ⟨?_, ?_, ?_, ?_, ?_, ?_, ?_⟩
  · rw [hg'.tree.inode_blocks, h.inode_blocks, hg.tree.inode_blocks]
  · rw [hg'.tree.inodes, h.directory, hg.tree.inodes]
  · rw [hg'.tree.inodes, h.file, hg.tree.inodes]
  · rw [hg'.tree.inodes, ← hg.tree.inodes]
    exact h.others
  · rw [hg'.memory, h.memory, hg.memory]
  · rw [hg'.data_blocks, h.data_blocks, hg.data_blocks]
  · rw [hg'.tree.freed, h.freed, hg.tree.freed]

/-- A link that ends well gave the file `c` the new name. -/
def NameGiven (fs : fs_t) (y : Nat) (name : List Char) (c : Nat) (x : fs_t × resource_result_t) :
    Prop :=
  x.2 = RESOURCE_RESULT_OK →
    (fs.inodes y).child name = none ∧ y ≠ c ∧ Relinked fs x.1 y name c

/-- `ramfs_link` and the releases after it. -/
theorem linked_post {parent source : Nat} (h : Handled fs0 fs [parent, source])
    (hcalm : Calm fs0 fs) (hs : Spare fs0 1) (hdir : is_directory (fs.nodes parent) = true)
    (htype : (fs.nodes source).type = VFS_NODE_TYPE_FILE)
    (hplain : (fs.nodes source).resource_type = RESOURCE_TYPE_FILE)
    (hstay : ¬ GoesWith fs (fs.nodes source)) (name : List Char) :
    ∃ x g g', ramfs_link fs parent name source = .ok x ∧ vfs_release_node x.1 parent = .ok g ∧
      vfs_release_node g source = .ok g' ∧ Handled fs0 g' [] ∧
      NameGiven fs0 (fs.nodes parent).fs_data name (fs.nodes source).fs_data (g', x.2) := by
  have hparent := h.tally.live parent List.mem_cons_self
  have hsource := h.tally.live source (List.mem_cons_of_mem _ List.mem_cons_self)
  obtain ⟨-, hx, hxdir⟩ := h.ordered.shows_directory hparent hdir
  obtain ⟨-, -, hfile, -⟩ := h.ordered.shows_file hsource htype hplain
  have hne : (fs.nodes parent).fs_data ≠ (fs.nodes source).fs_data := by
    intro he
    rw [he, hfile] at hxdir
    cases hxdir
  have hpstay := h.ordered.stays hx
  rw [ramfs_link_eq h.ordered hparent hdir hsource htype hplain]
  have hrefused : ∀ r, r ≠ RESOURCE_RESULT_OK → ∃ x g g', (.ok (fs, r) : Except fault_t (fs_t × resource_result_t)) = .ok x ∧
      vfs_release_node x.1 parent = .ok g ∧ vfs_release_node g source = .ok g' ∧
      Handled fs0 g' [] ∧ NameGiven fs0 (fs.nodes parent).fs_data name
        (fs.nodes source).fs_data (g', x.2) := by
    intro r hr
    obtain ⟨g, g', hrel, hrel', hg', -⟩ :=
      h.both_dropped hs (List.nodup_singleton _) hpstay hstay
    exact ⟨_, g, g', rfl, hrel, hrel', hg', fun hok => absurd hok hr⟩
  by_cases hname : ((fs.inodes (fs.nodes parent).fs_data).child name).isSome
  · rw [if_pos hname]
    exact hrefused _ (by decide)
  rw [if_neg hname]
  by_cases hroom : RAMFS_NODE_MAX_CHILDREN ≤ (fs.inodes (fs.nodes parent).fs_data).children.length
  · rw [if_pos hroom]
    exact hrefused _ (by decide)
  rw [if_neg hroom]
  rw [Option.not_isSome_iff_eq_none] at hname
  have hordered := h.ordered.with_link hsource htype hplain hx hxdir hname (Nat.lt_of_not_le hroom)
  have hlinked : Relinked fs _ _ name _ := relinked_with_link hne name
  have hedit := h.edited hordered ⟨rfl, rfl, rfl, rfl⟩ rfl rfl
  have hpstay' : ¬ GoesWith (with_link fs (fs.nodes parent).fs_data name (fs.nodes source).fs_data)
      (fs.nodes parent) := by
    rintro ⟨-, hz⟩
    rw [hlinked.directory] at hz
    exact h.ordered.tree.link_count_pos hx hz
  have hstay' : ¬ GoesWith (with_link fs (fs.nodes parent).fs_data name (fs.nodes source).fs_data)
      (fs.nodes source) := by
    rintro ⟨-, hz⟩
    rw [hlinked.file] at hz
    cases hz
  obtain ⟨g, g', hrel, hrel', hg', hcalm'⟩ :=
    hedit.both_dropped hs (List.nodup_singleton _) hpstay' hstay'
  refine ⟨_, g, g', rfl, hrel, hrel', hg', fun _ => ?_⟩
  rw [← hcalm.tree.inodes]
  exact ⟨hname, hne, hlinked.between hcalm hcalm'⟩

/-! ## `vfs_link` -/

/-- The file that the first walk found is released at the end of a call that failed. -/
theorem Walk.source_dropped (h : Walk fs0 fs1 [a]) (h' : Walk fs1 fs held') (hs : Spare fs0 1)
    (hn : held'.Nodup) (ht : Tree fs0) {path : List Char}
    (hd : destination fs0 path = .ok (place_of (fs1.nodes a))) :
    ∃ g, vfs_release_node fs a = .ok g ∧ Handled fs0 g held' := by
  have hall := (h.trans h' hs (List.nodup_singleton a)).perm (List.perm_append_singleton a held')
  obtain ⟨-, k, hk⟩ := h.held_record h' hs (List.nodup_singleton a) List.mem_cons_self
  have hstay := hall.destination_stays ht (a := a) (by rw [hk]; exact hd)
  obtain ⟨g, hrel, hg, -⟩ := hall.handled.dropped hs hn hstay
  exact ⟨g, hrel, hg⟩

/-- What `vfs_link` leaves: nodes that stay locked if it fails, and one more name if it ends well. -/
structure LinkEnds (fs : fs_t) (old_path new_path : List Char) (x : fs_t × resource_result_t) :
    Prop where
  handled : ∃ rest : List Nat, rest.Nodup ∧ Handled fs x.1 rest ∧
    (x.2 = RESOURCE_RESULT_OK → rest = [])
  named : x.2 = RESOURCE_RESULT_OK → ∃ c y, destination fs old_path = .ok (.inode c) ∧
    (fs.inodes c).type = VFS_NODE_TYPE_FILE ∧ edit_folder fs new_path = .ok y ∧
    NameGiven fs y (cut_path new_path).1 c x

theorem link_fails {old_path new_path : List Char} {r : resource_result_t}
    (hr : r ≠ RESOURCE_RESULT_OK) (hh : Handled fs fs' held) (hn : held.Nodup) :
    LinkEnds fs old_path new_path (fs', r) :=
  ⟨⟨held, hn, hh, fun hok => absurd hok hr⟩, fun hok => absurd hok hr⟩

theorem vfs_link_post (h : Steady fs) (old_path new_path : List Char) :
    Post (fun e => e = .taken ∨
        (e = .overflow ∧ LongAhead fs (.inode fs.root_node) (components [] old_path)))
      (LinkEnds fs old_path new_path) (vfs_link fs old_path new_path) := by
  have hs := h.settled.counts
  have hcut : vfs_split_path (path_copy new_path) = cut_path new_path := rfl
  unfold vfs_link
  refine (destination_post h.settled.resting old_path).bind ?_
  rintro ⟨g, result, source⟩ ⟨-, hx⟩
  dsimp only at hx ⊢
  cases hd : destination fs old_path with
  | error r =>
    rw [hd] at hx
    obtain ⟨hres, hr, rest, -, -, hnodup, hw⟩ := hx
    obtain ⟨rfl, -⟩ := Prod.mk.inj hres
    rw [if_pos hr]
    exact link_fails hr hw.handled hnodup
  | ok p =>
  rw [hd] at hx
  obtain ⟨rfl, hp, rest, hlen, -, hnone, hout, hw, hstay⟩ := hx
  have hlive := hw.tally.live source List.mem_cons_self
  rw [if_neg (by decide), node_ok.mpr ⟨hlive, rfl⟩, ok_bind]
  by_cases hrefused : (g.nodes source).type ≠ VFS_NODE_TYPE_FILE ∨
      (g.nodes source).resource_type ≠ RESOURCE_TYPE_FILE
  · obtain ⟨g1, hrel, hw1⟩ := hw.given_back hs.fits hout hstay
    rw [if_pos hrefused, hrel, ok_bind]
    exact link_fails (by decide) hw1.handled (nodup_short hlen)
  rw [if_neg hrefused]
  rw [not_or, not_not, not_not] at hrefused
  obtain ⟨hfile, hplain⟩ := hrefused
  obtain ⟨hop, -⟩ := hw.ordered.shows_file hlive hfile hplain
  have hplace : p = .inode (g.nodes source).fs_data := hp ▸ place_of_inode.mpr ⟨hop, rfl⟩
  obtain rfl := hnone _ hplace
  rw [← hp] at hd
  rw [hcut]
  by_cases hname : (cut_path new_path).1 = []
  · obtain ⟨g1, hrel, hw1⟩ := hw.given_back hs.fits hout hstay
    rw [if_pos hname, hrel, ok_bind]
    exact link_fails (by decide) hw1.handled List.nodup_nil
  rw [if_neg hname]
  have hrest := h.after hw.handled (List.nodup_singleton source)
  refine ((parent_post hrest new_path).mono (fun _ => Or.inl) fun _ => id).bind ?_
  rintro ⟨g1, result, parent⟩ hx
  dsimp only at hx ⊢
  cases hy : parent_folder g (cut_path new_path).2 with
  | error r =>
    rw [hy] at hx
    obtain ⟨hr, ⟨hres, rest, -, hnodup, hw1⟩ | ⟨rfl, rfl, hparent, hdir, g2, rest, hrel, hlen1, hw1⟩⟩ := hx
    · obtain ⟨rfl, -⟩ := Prod.mk.inj hres
      obtain ⟨g2, hrel, hg2⟩ := hw.source_dropped hw1 hs hnodup h.settled.ordered.tree hd
      rw [if_pos hr, hrel, ok_bind]
      exact link_fails hr hg2 hnodup
    · obtain ⟨g3, hrel', hg3⟩ :=
        hw.source_dropped hw1 hs (nodup_short hlen1) h.settled.ordered.tree hd
      rw [if_neg (by decide), node_ok.mpr ⟨hparent, rfl⟩, ok_bind, hdir, if_pos (by decide), hrel,
        ok_bind, hrel', ok_bind]
      exact link_fails hr hg3 (nodup_short hlen1)
  | ok y =>
    rw [hy] at hx
    obtain ⟨rfl, hparent, hdir, rfl, hw1⟩ := hx
    have hall := hw.trans hw1 hs (List.nodup_singleton source)
    obtain ⟨-, k, hk⟩ := hw.held_record hw1 hs (List.nodup_singleton source) List.mem_cons_self
    have hstay1 := hall.destination_stays h.settled.ordered.tree (a := source)
      (by rw [hk]; exact hd)
    obtain ⟨x, g2, g3, hlink, hrel, hrel', hg3, hgiven⟩ := linked_post hall.handled hall.calm hs
      hdir (by rw [hk]; exact hfile) (by rw [hk]; exact hplain) hstay1 (cut_path new_path).1
    rw [if_neg (by decide), node_ok.mpr ⟨hparent, rfl⟩, ok_bind, hdir, if_neg (by decide), hlink,
      ok_bind, hrel, ok_bind, hrel', ok_bind]
    refine ⟨⟨[], List.nodup_nil, hg3, fun _ => rfl⟩, fun _ => ?_⟩
    have hedit : edit_folder g new_path = .ok (g1.nodes parent).fs_data := by
      unfold edit_folder
      rw [if_neg hname, hy]
    rw [hw.edit_folder_eq h.settled.mounts] at hedit
    have htype := ((hw.ordered.views source hlive).shown hop).type.trans hfile
    rw [hw.calm.tree.inodes] at htype
    rw [hk] at hgiven
    rw [hp, hplace] at hd
    exact ⟨_, _, hd, htype, hedit, hgiven⟩

end alura_os.vfs
