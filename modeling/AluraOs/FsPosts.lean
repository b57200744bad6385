-- `vfs_create`, `vfs_link` and `vfs_unlink` on settled file systems: what they
-- answer, what they do to the directories, and which references they keep.
import AluraOs.FsChanges
import AluraOs.FsRuns

namespace alura_os.vfs

open alura_os.memory alura_os.resource faults
open resource_result_t resource_type_t vfs_node_type ramfs_result_t

variable {fs0 fs fs' : fs_t} {held : List Nat}

/-! ## Where a path leads -/

/-- The place that a path leads to from the root. -/
def destination (fs : fs_t) (path : List Char) : Except resource_result_t place :=
  leads fs (.inode fs.root_node) (components [] path)

/-- The directory of the ramfs at a place. -/
def folder (fs : fs_t) : place → Option Nat
  | .inode y => if (fs.inodes y).type = VFS_NODE_TYPE_DIRECTORY then some y else none
  | _ => none

theorem crossed_cases (fs : fs_t) (p : place) :
    crossed fs p = .devices ∨ crossed fs p = p := by
  unfold crossed
  split
  · exact Or.inl rfl
  · exact Or.inr rfl

theorem leads_device {i : Nat} {q : place} {path : List (List Char)}
    (h : leads fs (.device i) path = .ok q) : ∃ j, q = .device j := by
  induction path generalizing i with
  | nil =>
    cases h
    exact ⟨i, rfl⟩
  | cons name path ih =>
    cases he : enter fs (crossed fs (.device i)) name with
    | error r =>
      rw [leads_error he] at h
      cases h
    | ok p =>
      rw [leads_ok he] at h
      have hp : crossed fs (.device i) = .devices ∨ ∃ j, crossed fs (.device i) = .device j := by
        rcases crossed_cases fs (.device i) with hc | hc
        · exact Or.inl hc
        · exact Or.inr ⟨i, hc⟩
      obtain ⟨j, rfl⟩ := enter_device hp he
      exact ih h

/-- A path that leads to a node of the ramfs goes through the directories of the ramfs. -/
theorem leads_reachable {x y : Nat} {path : List (List Char)}
    (h : leads fs (.inode x) path = .ok (.inode y)) (hx : Reachable fs x) : Reachable fs y := by
  induction path generalizing x with
  | nil =>
    cases h
    exact hx
  | cons name path ih =>
    cases he : enter fs (crossed fs (.inode x)) name with
    | error r =>
      rw [leads_error he] at h
      cases h
    | ok p =>
      rw [leads_ok he] at h
      rcases crossed_cases fs (.inode x) with hc | hc
      · rw [hc] at he
        obtain ⟨i, rfl⟩ := enter_device (Or.inl rfl) he
        obtain ⟨j, hj⟩ := leads_device h
        cases hj
      · rw [hc] at he
        unfold enter at he
        dsimp only at he
        split at he
        · rename_i e hchild
          cases he
          exact ih h (.child hx (child_mem hchild).1)
        · cases he

theorem destination_reachable {y : Nat} {path : List Char}
    (h : destination fs path = .ok (.inode y)) : Reachable fs y := leads_reachable h .root

theorem is_directory_iff (n : vfs_node_t) :
    is_directory n = true ↔ n.type = VFS_NODE_TYPE_DIRECTORY ∧ n.operations = .ramfs := by
  unfold is_directory
  exact decide_eq_true_iff

/-- The check that `vfs_create` and its like make of the node of the VFS for a place. -/
theorem Ordered.folder_eq (h : Ordered fs) {a : Nat} (ha : a ∈ fs.node_blocks) :
    folder fs (place_of (fs.nodes a)) =
      if is_directory (fs.nodes a) = true then some (fs.nodes a).fs_data else none := by
  by_cases hop : (fs.nodes a).operations = .ramfs
  · have hs := (h.views a ha).shown hop
    rw [place_of_inode.mpr ⟨hop, rfl⟩]
    unfold folder
    simp only [is_directory_iff, hop, and_true, hs.type]
  · rw [if_neg fun hc => hop ((is_directory_iff _).mp hc).2]
    by_cases hdev : (fs.nodes a).operations = .devfs
    · rw [place_of_devices.mpr hdev]
      rfl
    · rw [place_of_other hop hdev]
      rfl

theorem SameTree.folder (h : SameTree fs fs') (p : place) : vfs.folder fs' p = vfs.folder fs p := by
  unfold vfs.folder
  rw [h.inodes]

/-- The node of the VFS for a place that a path leads to does not go with its last reference. -/
theorem Walk.destination_stays (h : Walk fs0 fs held) (ht : Tree fs0) {a : Nat} {path : List Char}
    (hd : destination fs0 path = .ok (place_of (fs.nodes a))) : ¬ GoesWith fs (fs.nodes a) := by
  rintro ⟨hop, hz⟩
  rw [place_of_inode.mpr ⟨hop, rfl⟩] at hd
  rw [h.calm.tree.inodes] at hz
  exact ht.link_count_pos (destination_reachable hd) hz

/-- The nodes of the VFS that a failed walk, or one that ended, leaves locked. -/
theorem destination_post (h : Resting fs) (path : List Char) :
    Post (fun e => e = .taken ∨
        (e = .overflow ∧ LongAhead fs (.inode fs.root_node) (components [] path)))
      (fun x => ¬ LongAhead fs (.inode fs.root_node) (components [] path) ∧
        match destination fs path with
        | .ok p => x.2.1 = RESOURCE_RESULT_OK ∧ place_of (x.1.nodes x.2.2) = p ∧
          ∃ rest, rest.length ≤ 1 ∧ ((folder fs p).isSome → rest = []) ∧
            (∀ y, p = .inode y → rest = []) ∧ x.2.2 ∉ rest ∧
            Walk fs x.1 (x.2.2 :: rest) ∧ ¬ GoesWith x.1 (x.1.nodes x.2.2)
        | .error r => x.2 = (r, 0) ∧ r ≠ RESOURCE_RESULT_OK ∧
          ∃ rest, rest ≠ [] ∧ rest.length ≤ 2 ∧ rest.Nodup ∧ Walk fs x.1 rest)
      (vfs_resolve fs path) := by
  apply (resolve_post h path).mono fun _ => id
  rintro x ⟨hshort, hx⟩
  refine ⟨hshort, ?_⟩
  unfold destination
  cases hl : leads fs (.inode fs.root_node) (components [] path) with
  | error r =>
    rw [hl] at hx
    exact ⟨hx.1, leads_ne_ok hl, hx.2⟩
  | ok p =>
    rw [hl] at hx
    obtain ⟨hok, hp, rest, -, hleft, hw⟩ := hx
    have hnone : ∀ y, p = .inode y → rest = [] := by
      intro y hy
      refine hleft.2.2.1.resolve_right fun ⟨i, hi⟩ => ?_
      rw [hp, hy] at hi
      cases hi
    refine ⟨hok, hp, rest, hleft.1, ?_, hnone, hleft.2.2.2, hw, ?_⟩
    · intro hf
      cases p with
      | inode y => exact hnone y rfl
      | devices => cases hf
      | device i => cases hf
    · refine hw.destination_stays h.ordered.tree (?_ : destination fs path = _)
      rw [hp]
      exact hl

/-- A node that is locked only by the walk is released again. -/
theorem Walk.given_back {a : Nat} (h : Walk fs0 fs (a :: held)) (hs : Fits fs0)
    (hout : a ∉ held) (hg : ¬ GoesWith fs (fs.nodes a)) :
    ∃ fs', vfs_release_node fs a = .ok fs' ∧ Walk fs0 fs' held :=
  ⟨_, h.ordered.release_ok (h.tally.live a List.mem_cons_self), h.released hs hout hg⟩

/-! ## `vfs_create` -/

/-- The name and the path of the directory that `vfs_create` and its like cut a path into. -/
def cut_path (path : List Char) : List Char × List Char := vfs_split_path (path_copy path)

/-- The directory of the ramfs that a path leads to, or the answer without one. -/
def parent_folder (fs : fs_t) (path : List Char) : Except resource_result_t Nat :=
  match destination fs path with
  | .error r => .error r
  | .ok p => match folder fs p with
    | none => .error RESOURCE_RESULT_BAD_PARAMETER
    | some y => .ok y

/-- The directory of the ramfs that `vfs_create` and its like change, or the answer without one. -/
def edit_folder (fs : fs_t) (path : List Char) : Except resource_result_t Nat :=
  if (cut_path path).1 = [] then .error RESOURCE_RESULT_BAD_PARAMETER
  else parent_folder fs (cut_path path).2

theorem parent_folder_ok {y : Nat} {path : List Char} (h : parent_folder fs path = .ok y) :
    destination fs path = .ok (.inode y) ∧ (fs.inodes y).type = VFS_NODE_TYPE_DIRECTORY := by
  unfold parent_folder at h
  cases hd : destination fs path with
  | error r =>
    rw [hd] at h
    cases h
  | ok p =>
    rw [hd] at h
    dsimp only at h
    cases p with
    | devices => cases h
    | device i => cases h
    | inode x =>
      unfold folder at h
      dsimp only at h
      by_cases ht : (fs.inodes x).type = VFS_NODE_TYPE_DIRECTORY
      · rw [if_pos ht] at h
        cases h
        exact ⟨rfl, ht⟩
      · rw [if_neg ht] at h
        cases h

theorem edit_folder_ok {y : Nat} {path : List Char} (h : edit_folder fs path = .ok y) :
    (cut_path path).1 ≠ [] ∧ parent_folder fs (cut_path path).2 = .ok y := by
  unfold edit_folder at h
  split at h
  · cases h
  · rename_i hname
    exact ⟨hname, h⟩

/-- No name of a path of at most 255 characters overflows the buffer of a component. -/
theorem short_path {path : List (List Char)} (h : ∀ name ∈ path, name.length < VFS_NODE_NAME_LENGTH)
    (p : place) : ¬ LongAhead fs p path := by
  induction path generalizing p with
  | nil => exact id
  | cons name path ih =>
    rintro (hlong | ⟨q, -, hq⟩)
    · exact absurd (h name List.mem_cons_self) (Nat.not_lt.mpr hlong)
    · exact ih (fun n hn => h n (List.mem_cons_of_mem _ hn)) q hq

/-- The part of a path before its last name fits the buffer. -/
theorem parent_short (fs : fs_t) (path : List Char) :
    ¬ LongAhead fs (.inode fs.root_node) (components [] (cut_path path).2) := by
  have hcopy : (path_copy path).length ≤ 255 := List.length_take_le _ _
  have hlen : (cut_path path).2.length ≤ 255 := by
    unfold cut_path vfs_split_path
    split
    · dsimp only
      split
      · simp
      · have hdrop := (List.rdropWhile_prefix (fun c => decide (c ≠ '/')) (path_copy path)).length_le
        rw [List.length_dropLast]
        omega
    · simp
  apply short_path
  intro name hn
  have := components_length [] _ name hn
  rw [List.length_nil] at this
  exact Nat.lt_of_le_of_lt (by omega) (show 255 < VFS_NODE_NAME_LENGTH by decide)

/-- The walk to the directory that is to be changed: it ends there, or it ends at something else,
which is released, or it fails. -/
theorem parent_post (h : Resting fs) (path : List Char) :
    Post (· = .taken)
      (fun x => match parent_folder fs (cut_path path).2 with
        | .error r => r ≠ RESOURCE_RESULT_OK ∧
          ((x.2 = (r, 0) ∧ ∃ rest, rest.length ≤ 2 ∧ rest.Nodup ∧ Walk fs x.1 rest) ∨
            (r = RESOURCE_RESULT_BAD_PARAMETER ∧ x.2.1 = RESOURCE_RESULT_OK ∧
              x.2.2 ∈ x.1.node_blocks ∧ is_directory (x.1.nodes x.2.2) = false ∧
              ∃ g rest, vfs_release_node x.1 x.2.2 = .ok g ∧ rest.length ≤ 1 ∧ Walk fs g rest))
        | .ok y => x.2.1 = RESOURCE_RESULT_OK ∧ x.2.2 ∈ x.1.node_blocks ∧
          is_directory (x.1.nodes x.2.2) = true ∧ (x.1.nodes x.2.2).fs_data = y ∧
          Walk fs x.1 [x.2.2])
      (vfs_resolve fs (cut_path path).2) := by
  have hres := destination_post h (cut_path path).2
  apply hres.mono fun e he => he.resolve_right fun hc => parent_short fs path hc.2
  rintro ⟨g, result, parent⟩ ⟨-, hx⟩
  unfold parent_folder
  cases hd : destination fs (cut_path path).2 with
  | error r =>
    rw [hd] at hx
    obtain ⟨hres, hr, rest, -, hlen, hnodup, hw⟩ := hx
    exact ⟨hr, Or.inl ⟨hres, rest, hlen, hnodup, hw⟩⟩
  | ok p =>
    rw [hd] at hx
    obtain ⟨hok, hp, rest, hlen, hnone, -, hout, hw, hstay⟩ := hx
    have hlive := hw.tally.live parent List.mem_cons_self
    have hfolder := hw.ordered.folder_eq hlive
    dsimp only at hp ⊢
    rw [hp, hw.calm.tree.folder] at hfolder
    rw [hfolder]
    by_cases hdir : is_directory (g.nodes parent) = true
    · rw [hfolder, if_pos hdir] at hnone
      obtain rfl := hnone rfl
      rw [if_pos hdir]
      exact ⟨hok, hlive, hdir, rfl, hw⟩
    · obtain ⟨g1, hrel, hw1⟩ := hw.given_back h.fits hout hstay
      rw [if_neg hdir]
      exact ⟨by decide, Or.inr ⟨rfl, hok, hlive, by simpa using hdir, g1, rest, hrel, hlen, hw1⟩⟩

/-- The directory `y` got the entry `name` for a new node. -/
structure Grown (fs fs' : fs_t) (y : Nat) (name : List Char) (c : Nat) (type : vfs_node_type) :
    Prop where
  fresh : c ∉ fs.inode_blocks
  inode_blocks : fs'.inode_blocks = insert c fs.inode_blocks
  new : fs'.inodes c = ⟨fs.last_index, [], type, 0, 0, 1⟩
  directory : fs'.inodes y =
    { fs.inodes y with children := (fs.inodes y).children ++ [⟨name, c⟩] }
  others : ∀ a ∈ fs.inode_blocks, a ≠ y → fs'.inodes a = fs.inodes a
  memory : fs'.memory = fs.memory
  freed : fs'.freed = fs.freed

theorem grown_with_name (hu : fs.next_block ∉ fs.inode_blocks) {y : Nat} (hy : y ∈ fs.inode_blocks)
    (name : List Char) (type : vfs_node_type) :
    Grown fs (with_name fs y name type) y name fs.next_block type := by
  have hne : fs.next_block ≠ y := fun he => hu (he ▸ hy)
  unfold with_name
  refine ⟨hu, rfl, ?_, ?_, ?_, rfl, rfl⟩
  · rw [with_child_ne hne, with_node_self]
  · rw [with_child_self, with_node_old hu hy]
  · intro a ha hay
    rw [with_child_ne hay, with_node_old hu ha]

theorem Grown.between {g g' : fs_t} {y c : Nat} {name : List Char} {type : vfs_node_type}
    (h : Grown g g' y name c type) (hg : Calm fs g) (hg' : Calm g' fs') :
    Grown fs fs' y name c type := by
  refine ⟨?_, ?_, ?_, ?_, ?_, ?_, ?_⟩
  · rw [← hg.tree.inode_blocks]
    exact h.fresh
  · rw [hg'.tree.inode_blocks, h.inode_blocks, hg.tree.inode_blocks]
  · rw [hg'.tree.inodes, h.new, hg.tree.last_index]
  · rw [hg'.tree.inodes, h.directory, hg.tree.inodes]
  · rw [hg'.tree.inodes, ← hg.tree.inode_blocks, ← hg.tree.inodes]
    exact h.others
  · rw [hg'.memory, h.memory, hg.memory]
  · rw [hg'.tree.freed, h.freed, hg.tree.freed]

/-- What `vfs_create` leaves in the directory `y`: the node of a name that is there, a new node, or
no place for one. -/
def Created (fs : fs_t) (y : Nat) (name : List Char) (type : vfs_node_type)
    (x : fs_t × resource_result_t × Nat) : Prop :=
  match (fs.inodes y).child name with
  | some e => x.2.1 = RESOURCE_RESULT_OK ∧ place_of (x.1.nodes x.2.2) = .inode e.node ∧
      Walk fs x.1 [x.2.2]
  | none =>
    if RAMFS_NODE_MAX_CHILDREN ≤ (fs.inodes y).children.length then
      x.2 = (RESOURCE_RESULT_ALLOCATION_ERROR, 0) ∧ Handled fs x.1 [] ∧ Undisturbed fs x.1
    else x.2.1 = RESOURCE_RESULT_OK ∧ Handled fs x.1 [x.2.2] ∧
      ∃ c, place_of (x.1.nodes x.2.2) = .inode c ∧ Grown fs x.1 y name c type

theorem Handled.fetched {node : Nat} {p : place} (h : Handled fs0 fs held)
    (hf : Fetched fs fs' node p) : Handled fs0 (locked fs' node) (node :: held) := by
  refine ⟨hf.ordered.locked node, ?_, hf.calm.root.trans h.root,
    hf.calm.tree.root_node.trans h.root_node⟩
  rcases hf.origin with ⟨rfl, hm⟩ | ⟨n, ha, hm⟩
  · exact h.tally.locked hm
  · exact h.tally.fetched ha hm

theorem Handled.perm {held' : List Nat} (h : Handled fs0 fs held) (hp : held.Perm held') :
    Handled fs0 fs held' := ⟨h.ordered, h.tally.perm hp, h.root, h.root_node⟩

theorem Handled.given_back {a : Nat} (h : Handled fs0 fs (a :: held)) (hs : Fits fs0)
    (hout : a ∉ held) (hg : ¬ GoesWith fs (fs.nodes a)) :
    ∃ fs', vfs_release_node fs a = .ok fs' ∧ vfs.released fs a = fs' ∧ Handled fs0 fs' held ∧
      Calm fs fs' := by
  obtain ⟨hh, hcalm⟩ := h.released hs hout hg rfl
  exact ⟨_, h.ordered.release_ok (h.tally.live a List.mem_cons_self), rfl, hh, hcalm⟩

/-- The last steps of `vfs_create`, when the child is not the directory itself: the directory is
released and the child is locked. -/
theorem Handled.handed_over {parent node : Nat} {p : place} (h : Handled fs0 fs [parent])
    (hf : Fetched fs fs' node p) (hne : node ≠ parent) (hs : Fits fs0)
    (hg : ¬ GoesWith fs' (fs'.nodes parent)) (hlive : parent ∈ fs'.node_blocks) :
    ∃ g g', vfs_release_node fs' parent = .ok g ∧ vfs_lock_node g node = .ok g' ∧
      Handled fs0 g' [node] ∧ Calm fs' g' ∧ place_of (g'.nodes node) = p := by
  have hlocked := (h.fetched hf).perm (List.Perm.swap parent node [])
  have hstep : Calm fs' (locked fs' node) := (sameShape_locked fs' node).calm
  have hstay : ¬ GoesWith (locked fs' node) ((locked fs' node).nodes parent) := by
    rw [locked_ne fs' hne.symm, hstep.goesWith]
    exact hg
  obtain ⟨g', -, hstate, hg', hcalm⟩ := hlocked.given_back hs (by simpa using hne.symm) hstay
  have hrel := hf.ordered.release_ok hlive
  have hcases := released_eq fs' parent
  have hplace := place_of_released fs' parent node
  rw [released_locked hne] at hstate
  generalize vfs.released fs' parent = g at hrel hcases hplace hstate
  have hblocks : node ∈ g.node_blocks := by
    rcases hcases with hr | hr
    · rw [hr]
      exact hf.live
    · rw [hr, evicted_node_blocks]
      exact Finset.mem_erase.mpr ⟨hne, hf.live⟩
  refine ⟨g, g', hrel, ?_, hg', hstep.trans hcalm, ?_⟩
  · rw [vfs_lock_node_eq (hf.ordered.ne_null hf.live) hblocks, hstate]
  · rw [← hstate, place_of_locked, hplace]
    exact hf.shows

/-- The last steps of `vfs_create`, on the directory that the walk ended at. -/
def Finishes (fs : fs_t) (parent y : Nat) (name : List Char) (type : vfs_node_type)
    (x : fs_t × resource_result_t × Nat) : Prop :=
  ∃ g, vfs_release_node x.1 parent = .ok g ∧
    (x.2.1 ≠ RESOURCE_RESULT_OK → Created fs y name type (g, x.2.1, 0)) ∧
    (x.2.1 = RESOURCE_RESULT_OK → ∃ g', vfs_lock_node g x.2.2 = .ok g' ∧
      Created fs y name type (g', RESOURCE_RESULT_OK, x.2.2))

section finish

variable {parent node : Nat} {name : List Char} {type : vfs_node_type}

/-- The name is there. -/
theorem finishes_found (hw : Walk fs0 fs [parent]) (hdir : is_directory (fs.nodes parent) = true)
    (hs : Fits fs0) {e : ramfs_dirent_t}
    (he : (fs.inodes (fs.nodes parent).fs_data).child name = some e)
    (hf : Fetched fs fs' node (.inode e.node)) :
    Finishes fs0 parent (fs.nodes parent).fs_data name type (fs', RESOURCE_RESULT_OK, node) := by
  have hlive := hw.tally.live parent List.mem_cons_self
  obtain ⟨hop, hx, -⟩ := hw.ordered.shows_directory hlive hdir
  have hentry := (child_mem he).1
  have hsame : ∀ a ∈ fs.node_blocks, a ∈ fs'.node_blocks ∧ fs'.nodes a = fs.nodes a := by
    intro a ha
    rcases hf.origin with ⟨rfl, -⟩ | ⟨n, hadd, -⟩
    · exact ⟨ha, rfl⟩
    · have hne : a ≠ node := fun hc => hadd.unused.1 (hc ▸ ha)
      rw [hadd.node_blocks]
      exact ⟨Finset.mem_insert_of_mem ha, hadd.others a hne⟩
  obtain ⟨hlive', hrecord⟩ := hsame parent hlive
  have hne : node ≠ parent := by
    rintro rfl
    have hshows := hf.shows
    rw [hrecord, place_of_inode.mpr ⟨hop, rfl⟩] at hshows
    injection hshows with hshows
    exact hw.ordered.no_loop hx hentry hshows.symm
  have hstay : ¬ GoesWith fs' (fs'.nodes parent) := by
    rw [hrecord, hf.calm.goesWith]
    exact hw.ordered.stays hx
  obtain ⟨g, g', hrel, hlock, hg', hcalm, hplace⟩ :=
    hw.handled.handed_over hf hne hs hstay hlive'
  refine ⟨g, hrel, fun hc => absurd rfl hc, fun _ => ⟨g', hlock, ?_⟩⟩
  unfold Created
  rw [← hw.calm.tree.inodes, he]
  exact ⟨rfl, hplace, hg'.ordered, (hw.calm.trans hf.calm).trans hcalm, hg'.tally⟩

/-- The directory is full. -/
theorem finishes_full (hw : Walk fs0 fs [parent]) (hdir : is_directory (fs.nodes parent) = true)
    (hs : Fits fs0) (he : (fs.inodes (fs.nodes parent).fs_data).child name = none)
    (hfull : RAMFS_NODE_MAX_CHILDREN ≤ (fs.inodes (fs.nodes parent).fs_data).children.length)
    (hu : fs.Unused fs.next_block) :
    Finishes fs0 parent (fs.nodes parent).fs_data name type
      (with_node fs type 0 0, RESOURCE_RESULT_ALLOCATION_ERROR, 0) := by
  have hlive := hw.tally.live parent List.mem_cons_self
  obtain ⟨-, hx, -⟩ := hw.ordered.shows_directory hlive hdir
  have hstay : ¬ GoesWith (with_node fs type 0 0) ((with_node fs type 0 0).nodes parent) := by
    rintro ⟨-, hz⟩
    have hold : (with_node fs type 0 0).inodes (fs.nodes parent).fs_data = _ :=
      with_node_old hu.2 (hx.mem hw.ordered.tree)
    change ((with_node fs type 0 0).inodes (fs.nodes parent).fs_data).link_count = 0 at hz
    rw [hold] at hz
    exact hw.ordered.tree.link_count_pos hx hz
  have hedit : Handled fs0 (with_node fs type 0 0) [parent] :=
    hw.handled.edited (hw.ordered.node_more hu) sameVfs_with_node rfl rfl
  obtain ⟨g, hrel, -, hg, hcalm⟩ := hedit.given_back hs List.not_mem_nil hstay
  refine ⟨g, hrel, fun _ => ?_, fun hc => by cases hc⟩
  unfold Created
  rw [← hw.calm.tree.inodes, he]
  dsimp only
  rw [if_pos hfull]
  have hleft : Undisturbed (with_node fs type 0 0) g := hcalm.undisturbed
  refine ⟨rfl, hg, ?_⟩
  have hstep := undisturbed_with_node hu type
  refine Undisturbed.after hw.calm ⟨?_, ?_, hleft.memory.trans hstep.memory,
    hleft.root_node.trans hstep.root_node⟩
  · intro a ha
    exact (hleft.inodes a (Finset.mem_insert_of_mem ha)).trans (hstep.inodes a ha)
  · intro a ha
    rw [hcalm.tree.inode_blocks]
    exact Or.inl (Finset.mem_insert_of_mem ha)

/-- The name is new. -/
theorem finishes_new (hw : Walk fs0 fs [parent]) (hdir : is_directory (fs.nodes parent) = true)
    (hs : Fits fs0) (he : (fs.inodes (fs.nodes parent).fs_data).child name = none)
    (hroom : (fs.inodes (fs.nodes parent).fs_data).children.length < RAMFS_NODE_MAX_CHILDREN)
    (hu : fs.Unused fs.next_block)
    (hf : Fetched (with_name fs (fs.nodes parent).fs_data name type) fs' node
      (.inode fs.next_block)) :
    Finishes fs0 parent (fs.nodes parent).fs_data name type (fs', RESOURCE_RESULT_OK, node) := by
  have hlive := hw.tally.live parent List.mem_cons_self
  obtain ⟨hop, hx, hxdir⟩ := hw.ordered.shows_directory hlive hdir
  have hm := hx.mem hw.ordered.tree
  have hgrown := grown_with_name hu.2 hm name type
  have hedit : Handled fs0 (with_name fs (fs.nodes parent).fs_data name type) [parent] :=
    hw.handled.edited (hw.ordered.with_name hu hx hxdir he hroom) ⟨rfl, rfl, rfl, rfl⟩ rfl rfl
  have hlive' : parent ∈ fs'.node_blocks ∧ fs'.nodes parent = fs.nodes parent ∧ node ≠ parent := by
    have hshows := hf.shows
    have hne : fs'.nodes parent = fs.nodes parent → node ≠ parent := by
      rintro hrec rfl
      rw [hrec, place_of_inode.mpr ⟨hop, rfl⟩] at hshows
      injection hshows with hshows
      exact hu.2 (hshows ▸ hm)
    rcases hf.origin with ⟨hsame, -⟩ | ⟨n, hadd, -⟩
    · have hrec : fs'.nodes parent = fs.nodes parent := by rw [hsame]; rfl
      refine ⟨?_, hrec, hne hrec⟩
      rw [hsame]
      exact hlive
    · have hnp : parent ≠ node := fun hc => hadd.unused.1 (hc ▸ hlive)
      refine ⟨?_, hadd.others parent hnp, hnp.symm⟩
      rw [hadd.node_blocks]
      exact Finset.mem_insert_of_mem hlive
  obtain ⟨hlive', hrecord, hne⟩ := hlive'
  have hstay : ¬ GoesWith fs' (fs'.nodes parent) := by
    rintro ⟨-, hz⟩
    rw [hrecord, hf.calm.tree.inodes, hgrown.directory] at hz
    exact hw.ordered.tree.link_count_pos hx hz
  obtain ⟨g, g', hrel, hlock, hg', hcalm, hplace⟩ := hedit.handed_over hf hne hs hstay hlive'
  refine ⟨g, hrel, fun hc => absurd rfl hc, fun _ => ⟨g', hlock, ?_⟩⟩
  unfold Created
  rw [← hw.calm.tree.inodes, he]
  dsimp only
  rw [if_neg (Nat.not_le.mpr hroom)]
  exact ⟨rfl, hg', fs.next_block, hplace, hgrown.between hw.calm (hf.calm.trans hcalm)⟩

/-- The last steps of `vfs_create`. -/
theorem finishes_post (hw : Walk fs0 fs [parent]) (hdir : is_directory (fs.nodes parent) = true)
    (hs : Fits fs0) (name : List Char) (type : vfs_node_type) :
    Post (· = .taken) (Finishes fs0 parent (fs.nodes parent).fs_data name type)
      (ramfs_create fs parent name type) := by
  have hlive := hw.tally.live parent List.mem_cons_self
  apply (ramfs_create_post hw.ordered hlive hdir name type).mono fun _ => id
  rintro ⟨g, r, node⟩ hx
  cases he : (fs.inodes (fs.nodes parent).fs_data).child name with
  | some e =>
    rw [he] at hx
    obtain ⟨rfl, hf⟩ := hx
    exact finishes_found hw hdir hs he hf
  | none =>
    rw [he] at hx
    obtain ⟨hu, hx⟩ := hx
    by_cases hroom : RAMFS_NODE_MAX_CHILDREN ≤ (fs.inodes (fs.nodes parent).fs_data).children.length
    · rw [if_pos hroom] at hx
      rw [hx]
      exact finishes_full hw hdir hs he hroom hu
    · rw [if_neg hroom] at hx
      obtain ⟨rfl, hf⟩ := hx
      exact finishes_new hw hdir hs he (Nat.lt_of_not_le hroom) hu hf

end finish

/-- `vfs_create`: what it leaves in the directory that it changes, or nodes that stay locked. -/
theorem vfs_create_post (h : Resting fs) (path : List Char) (type : vfs_node_type) :
    Post (· = .taken)
      (fun x => match edit_folder fs path with
        | .error r => x.2 = (r, 0) ∧ r ≠ RESOURCE_RESULT_OK ∧
          ∃ rest, rest.length ≤ 2 ∧ rest.Nodup ∧ Walk fs x.1 rest
        | .ok y => Created fs y (cut_path path).1 type x)
      (vfs_create fs path type) := by
  have hparent := parent_post h path
  have hcut : vfs_split_path (path_copy path) = cut_path path := rfl
  unfold vfs_create edit_folder
  rw [hcut]
  generalize cut_path path = cut at hparent
  obtain ⟨name, parent_path⟩ := cut
  dsimp only at hparent ⊢
  by_cases hname : name = []
  · simp only [if_pos hname]
    exact ⟨rfl, by decide, [], Nat.zero_le 2, List.nodup_nil, Walk.refl h.ordered h.fits⟩
  simp only [if_neg hname]
  refine hparent.bind ?_
  rintro ⟨g, result, parent⟩ hx
  dsimp only at hx ⊢
  cases hy : parent_folder fs parent_path with
  | error r =>
    rw [hy] at hx
    obtain ⟨hr, ⟨hres, rest, hlen, hnodup, hw⟩ | ⟨rfl, rfl, hlive, hdir, g1, rest, hrel, hlen, hw⟩⟩ := hx
    · obtain ⟨rfl, -⟩ := Prod.mk.inj hres
      rw [if_pos hr]
      exact ⟨rfl, hr, rest, hlen, hnodup, hw⟩
    · rw [if_neg (by decide), node_ok.mpr ⟨hlive, rfl⟩, ok_bind, hdir, if_pos (by decide), hrel,
        ok_bind]
      exact ⟨rfl, hr, rest, by omega, nodup_short hlen, hw⟩
  | ok y =>
    rw [hy] at hx
    obtain ⟨rfl, hlive, hdir, rfl, hw⟩ := hx
    rw [if_neg (by decide), node_ok.mpr ⟨hlive, rfl⟩, ok_bind, hdir, if_neg (by decide)]
    refine (finishes_post hw hdir h.fits name type).bind ?_
    rintro ⟨g1, result, child⟩ ⟨g2, hrel, hfail, hok⟩
    dsimp only at hrel hfail hok ⊢
    rw [hrel, ok_bind]
    by_cases hr : result = RESOURCE_RESULT_OK
    · obtain ⟨g3, hlock, hcreated⟩ := hok hr
      rw [if_neg (not_not.mpr hr), hlock, ok_bind]
      exact hcreated
    · rw [if_pos hr]
      exact hfail hr

/-- The references that `vfs_create` keeps: one to the node that it hands over, or a few that a walk
that failed leaves. -/
theorem vfs_create_handled (h : Resting fs) {path : List Char} {type : vfs_node_type}
    {r : resource_result_t} {node : Nat} (hc : vfs_create fs path type = .ok (fs', r, node)) :
    ∃ held, held.length ≤ 2 ∧ held.Nodup ∧ Handled fs fs' held ∧
      (r = RESOURCE_RESULT_OK → held = [node] ∧ ∃ y, place_of (fs'.nodes node) = .inode y) := by
  have hx := (vfs_create_post h path type).result hc
  cases hfolder : edit_folder fs path with
  | error e =>
    rw [hfolder] at hx
    obtain ⟨hres, hne, rest, hlen, hnodup, hw⟩ := hx
    obtain ⟨rfl, -⟩ := Prod.mk.inj hres
    exact ⟨rest, hlen, hnodup, hw.handled, fun hok => absurd hok hne⟩
  | ok y =>
    rw [hfolder] at hx
    dsimp only at hx
    unfold Created at hx
    have hone : ([node] : List Nat).length ≤ 2 := Nat.le_succ 1
    cases he : (fs.inodes y).child (cut_path path).1 with
    | some e =>
      rw [he] at hx
      obtain ⟨-, hplace, hw⟩ := hx
      exact ⟨[node], hone, List.nodup_singleton node, hw.handled, fun _ => ⟨rfl, _, hplace⟩⟩
    | none =>
      rw [he] at hx
      dsimp only at hx
      by_cases hfull : RAMFS_NODE_MAX_CHILDREN ≤ (fs.inodes y).children.length
      · rw [if_pos hfull] at hx
        obtain ⟨hres, hh, -⟩ := hx
        obtain ⟨rfl, -⟩ := Prod.mk.inj hres
        exact ⟨[], Nat.zero_le 2, List.nodup_nil, hh, fun hok => by cases hok⟩
      · rw [if_neg hfull] at hx
        obtain ⟨-, hh, c, hplace, -⟩ := hx
        exact ⟨[node], hone, List.nodup_singleton node, hh, fun _ => ⟨rfl, c, hplace⟩⟩

/-! ## `vfs_unlink` -/

/-- The directory `y` lost the entry `e`, and its file a name. The file goes with its last name,
unless a node of the VFS shows it. -/
structure Shrunk (fs fs' : fs_t) (y : Nat) (e : ramfs_dirent_t) : Prop where
  inode_blocks : fs'.inode_blocks = fs.inode_blocks ∨
    ((fs.inodes e.node).link_count = 1 ∧ fs'.inode_blocks = fs.inode_blocks.erase e.node ∧
      ∀ a ∈ fs'.node_blocks, place_of (fs'.nodes a) ≠ .inode e.node)
  directory : (fs.inodes y).children.Perm (e :: (fs'.inodes y).children)
  children : ∀ a, a ≠ y → (fs'.inodes a).children = (fs.inodes a).children
  file : fs'.inodes e.node =
    { fs.inodes e.node with link_count := (fs.inodes e.node).link_count - 1 }
  others : ∀ a, a ≠ y → a ≠ e.node → fs'.inodes a = fs.inodes a
  kept : ∀ a, a ≠ e.node → ∃ l, fs'.inodes a = { fs.inodes a with children := l }
  memory : fs'.memory = fs.memory

theorem Shrunk.between {g g' : fs_t} {y : Nat} {e : ramfs_dirent_t} (h : Shrunk g g' y e)
    (hg : Calm fs g) (hg' : Calm g' fs')
    (hgone : ∀ a ∈ fs'.node_blocks, a ∈ g'.node_blocks ∧ place_of (fs'.nodes a) = place_of (g'.nodes a)) :
    Shrunk fs fs' y e := by
  refine ⟨?_, ?_, ?_, ?_, ?_, ?_, ?_⟩
  · rw [hg'.tree.inode_blocks, ← hg.tree.inode_blocks, ← hg.tree.inodes]
    refine h.inode_blocks.imp id fun ⟨hone, hb, hnone⟩ => ⟨hone, hb, fun a ha => ?_⟩
    obtain ⟨ha', hp⟩ := hgone a ha
    rw [hp]
    exact hnone a ha'
  · rw [hg'.tree.inodes, ← hg.tree.inodes]
    exact h.directory
  · rw [hg'.tree.inodes, ← hg.tree.inodes]
    exact h.children
  · rw [hg'.tree.inodes, ← hg.tree.inodes]
    exact h.file
  · rw [hg'.tree.inodes, ← hg.tree.inodes]
    exact h.others
  · rw [hg'.tree.inodes, ← hg.tree.inodes]
    exact h.kept
  · rw [hg'.memory, h.memory, hg.memory]

theorem shrunk_without_name {y : Nat} {e : ramfs_dirent_t} {name : List Char} (hne : e.node ≠ y)
    (hc : (fs.inodes y).child name = some e) :
    Shrunk fs (without_name fs y name e.node) y e := by
  have hrem := removed_without_name hne hc
  refine ⟨Or.inl rfl, hrem.self, hrem.others, ?_, ?_, ?_, rfl⟩
  · unfold without_name
    rw [setInode_self]
  · intro a hay hae
    unfold without_name
    rw [setInode_ne _ _ hae, setInode_ne _ _ hay]
  · intro a hae
    unfold without_name
    rw [setInode_ne _ _ hae]
    by_cases hay : a = y
    · rw [hay, setInode_self]
      exact ⟨_, rfl⟩
    · rw [setInode_ne _ _ hay]
      exact ⟨_, rfl⟩

/-- What `vfs_unlink` leaves in the directory `y`. -/
def Unlinked (fs : fs_t) (y : Nat) (name : List Char) (x : fs_t × resource_result_t) : Prop :=
  match (fs.inodes y).child name with
  | none => x.2 = RESOURCE_RESULT_NOT_FOUND ∧ Walk fs x.1 []
  | some e =>
    if (fs.inodes e.node).type = VFS_NODE_TYPE_DIRECTORY then
      x.2 = RESOURCE_RESULT_BAD_PARAMETER ∧ Walk fs x.1 []
    else x.2 = RESOURCE_RESULT_OK ∧ Handled fs x.1 [] ∧ Shrunk fs x.1 y e

/-- A release keeps what the nodes of the VFS show. -/
theorem released_places {a : Nat} (h : released fs a = fs') :
    ∀ b ∈ fs'.node_blocks, b ∈ fs.node_blocks ∧ place_of (fs'.nodes b) = place_of (fs.nodes b) := by
  intro b hb
  have hplace := place_of_released fs a b
  have hcases := released_eq fs a
  rw [h] at hplace hcases
  refine ⟨?_, hplace⟩
  rcases hcases with hr | hr
  · rw [hr] at hb
    exact hb
  · rw [hr, evicted_node_blocks] at hb
    exact Finset.mem_of_mem_erase hb

/-- The last steps of `vfs_unlink`, on the directory that the walk ended at. -/
theorem unlinked_post {parent : Nat} (hw : Walk fs0 fs [parent])
    (hdir : is_directory (fs.nodes parent) = true) (hs : Fits fs0) (name : List Char) :
    Post (fun _ => False)
      (fun x => ∃ g, vfs_release_node x.1 parent = .ok g ∧
        Unlinked fs0 (fs.nodes parent).fs_data name (g, x.2))
      (ramfs_unlink fs parent name) := by
  have hlive := hw.tally.live parent List.mem_cons_self
  obtain ⟨-, hx, hxdir⟩ := hw.ordered.shows_directory hlive hdir
  have hstay := hw.ordered.stays hx
  apply (ramfs_unlink_post hw.ordered hlive hdir name).mono fun _ => id
  rintro ⟨g, r⟩ hpost
  dsimp only at hpost ⊢
  unfold Unlinked
  rw [← hw.calm.tree.inodes]
  cases hc : (fs.inodes (fs.nodes parent).fs_data).child name with
  | none =>
    rw [hc] at hpost
    cases hpost
    obtain ⟨g1, hrel, hw1⟩ := hw.given_back hs List.not_mem_nil hstay
    exact ⟨g1, hrel, rfl, hw1⟩
  | some e =>
    rw [hc] at hpost
    dsimp only at hpost ⊢
    by_cases htype : (fs.inodes e.node).type = VFS_NODE_TYPE_DIRECTORY
    · rw [if_pos htype] at hpost
      cases hpost
      obtain ⟨g1, hrel, hw1⟩ := hw.given_back hs List.not_mem_nil hstay
      refine ⟨g1, hrel, ?_⟩
      rw [if_pos htype]
      exact ⟨rfl, hw1⟩
    · rw [if_neg htype] at hpost
      obtain ⟨hok, hg, hstate⟩ := hpost
      have hne : e.node ≠ (fs.nodes parent).fs_data := by
        intro hed
        rw [hed] at htype
        exact htype hxdir
      have hbase := shrunk_without_name hne hc
      have hsame : SameVfs fs g ∧ g.root = fs.root ∧ g.root_node = fs.root_node ∧
          Shrunk fs g (fs.nodes parent).fs_data e := by
        rcases hstate with rfl | ⟨hz, rfl⟩
        · exact ⟨⟨rfl, rfl, rfl, rfl⟩, rfl, rfl, hbase⟩
        · refine ⟨⟨rfl, rfl, rfl, rfl⟩, rfl, rfl, ⟨Or.inr ⟨?_, rfl, ?_⟩, hbase.directory,
            hbase.children, hbase.file, hbase.others, hbase.kept, rfl⟩⟩
          · have hl := (removed_without_name hne hc).links (hx.mem hw.ordered.tree) e.node
            rw [if_pos rfl, hz] at hl
            rw [hw.ordered.tree.counted (hx.mem hw.ordered.tree) (child_mem hc).1]
            omega
          · intro a ha hp
            obtain ⟨hop, hd⟩ := place_of_inode.mp hp
            have hthere := ((hg.views a ha).shown hop).there
            rw [hd] at hthere
            exact Finset.ne_of_mem_erase hthere rfl
      obtain ⟨hvfs, hroot, hroot_node, hshrunk⟩ := hsame
      have hstay' : ¬ GoesWith g (g.nodes parent) := by
        rintro ⟨-, hz⟩
        obtain ⟨l, hl⟩ := hshrunk.kept _ hne.symm
        rw [hvfs.nodes, hl] at hz
        exact hw.ordered.tree.link_count_pos hx hz
      obtain ⟨g1, hrel, hreleased, hg1, hcalm⟩ :=
        (hw.handled.edited hg hvfs hroot hroot_node).given_back hs List.not_mem_nil hstay'
      refine ⟨g1, hrel, ?_⟩
      rw [if_neg htype]
      exact ⟨hok, hg1, hshrunk.between hw.calm hcalm (released_places hreleased)⟩

/-- `vfs_unlink`: what it leaves in the directory that it changes, or nodes that stay locked. -/
theorem vfs_unlink_post (h : Resting fs) (path : List Char) :
    Post (· = .taken)
      (fun x => match edit_folder fs path with
        | .error r => x.2 = r ∧ r ≠ RESOURCE_RESULT_OK ∧
          ∃ rest, rest.length ≤ 2 ∧ rest.Nodup ∧ Walk fs x.1 rest
        | .ok y => Unlinked fs y (cut_path path).1 x)
      (vfs_unlink fs path) := by
  have hparent := parent_post h path
  have hcut : vfs_split_path (path_copy path) = cut_path path := rfl
  unfold vfs_unlink edit_folder
  rw [hcut]
  generalize cut_path path = cut at hparent
  obtain ⟨name, parent_path⟩ := cut
  dsimp only at hparent ⊢
  by_cases hname : name = []
  · simp only [if_pos hname]
    exact ⟨rfl, by decide, [], Nat.zero_le 2, List.nodup_nil, Walk.refl h.ordered h.fits⟩
  simp only [if_neg hname]
  refine hparent.bind ?_
  rintro ⟨g, result, parent⟩ hx
  dsimp only at hx ⊢
  cases hy : parent_folder fs parent_path with
  | error r =>
    rw [hy] at hx
    obtain ⟨hr, ⟨hres, rest, hlen, hnodup, hw⟩ | ⟨rfl, rfl, hlive, hdir, g1, rest, hrel, hlen, hw⟩⟩ := hx
    · obtain ⟨rfl, -⟩ := Prod.mk.inj hres
      rw [if_pos hr]
      exact ⟨rfl, hr, rest, hlen, hnodup, hw⟩
    · rw [if_neg (by decide), node_ok.mpr ⟨hlive, rfl⟩, ok_bind, hdir, if_pos (by decide), hrel,
        ok_bind]
      exact ⟨rfl, hr, rest, by omega, nodup_short hlen, hw⟩
  | ok y =>
    rw [hy] at hx
    obtain ⟨rfl, hlive, hdir, rfl, hw⟩ := hx
    rw [if_neg (by decide), node_ok.mpr ⟨hlive, rfl⟩, ok_bind, hdir, if_neg (by decide)]
    refine ((unlinked_post hw hdir h.fits name).mono (fun _ hf => hf.elim) fun _ hx => hx).bind ?_
    rintro ⟨g1, result⟩ ⟨g2, hrel, hunlinked⟩
    dsimp only at hrel hunlinked ⊢
    rw [hrel, ok_bind]
    exact hunlinked

theorem vfs_unlink_handled (h : Resting fs) {path : List Char} {r : resource_result_t}
    (hc : vfs_unlink fs path = .ok (fs', r)) :
    ∃ held, held.Nodup ∧ Handled fs fs' held := by
  have hx := (vfs_unlink_post h path).result hc
  cases hfolder : edit_folder fs path with
  | error e =>
    rw [hfolder] at hx
    obtain ⟨-, -, rest, -, hnodup, hw⟩ := hx
    exact ⟨rest, hnodup, hw.handled⟩
  | ok y =>
    rw [hfolder] at hx
    dsimp only at hx
    unfold Unlinked at hx
    cases he : (fs.inodes y).child (cut_path path).1 with
    | none =>
      rw [he] at hx
      exact ⟨[], List.nodup_nil, hx.2.handled⟩
    | some e =>
      rw [he] at hx
      dsimp only at hx
      split at hx
      · exact ⟨[], List.nodup_nil, hx.2.handled⟩
      · exact ⟨[], List.nodup_nil, hx.2.1⟩

end alura_os.vfs
