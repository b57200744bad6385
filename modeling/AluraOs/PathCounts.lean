-- The counts of references around `vfs_resolve`: the walk gives back what it took,
-- except where it crosses a mount point or fails.
import AluraOs.FsResolve
import AluraOs.PathResolve

namespace alura_os.vfs

open alura_os.memory alura_os.resource faults
open resource_result_t resource_type_t vfs_node_type

variable {fs fs' : fs_t}

/-! ## The whole walk -/

/-- The file systems between two calls: in order, with the root of the ramfs at the top, the devices
mounted and every node referred to by the cache. -/
structure Settled (fs : fs_t) : Prop where
  ordered : Ordered fs
  root : fs.root ∈ fs.node_blocks
  top : place_of (fs.nodes fs.root) = .inode fs.root_node
  mounts : MountRule fs
  counts : Spare fs 1

/-- What a walk needs of them: the counts may have wrapped, as long as what is mounted stays. -/
structure Resting (fs : fs_t) : Prop where
  ordered : Ordered fs
  root : fs.root ∈ fs.node_blocks
  top : place_of (fs.nodes fs.root) = .inode fs.root_node
  mounts : MountRule fs
  fits : Fits fs

theorem Settled.resting (h : Settled fs) : Resting fs :=
  ⟨h.ordered, h.root, h.top, h.mounts, h.counts.fits⟩

/-- `vfs_resolve` ends at the place that the path leads to, or leaves a node locked. It uses no
freed memory, and only a name that is too long overflows the buffer. -/
theorem resolve_post (h : Resting fs) (path : List Char) :
    Post (fun e => e = .taken ∨
        (e = .overflow ∧ LongAhead fs (.inode fs.root_node) (components [] path)))
      (fun x => ¬ LongAhead fs (.inode fs.root_node) (components [] path) ∧
        match leads fs (.inode fs.root_node) (components [] path) with
        | .ok p => x.2.1 = RESOURCE_RESULT_OK ∧ place_of (x.1.nodes x.2.2) = p ∧
          ∃ rest, (rest = [] ↔ ¬ Crosses fs (.inode fs.root_node) (components [] path)) ∧
            Left fs x.1 x.2.2 rest ∧ Walk fs x.1 (x.2.2 :: rest)
        | .error r => x.2 = (r, 0) ∧
          ∃ rest, rest ≠ [] ∧ rest.length ≤ 2 ∧ rest.Nodup ∧ Walk fs x.1 rest)
      (vfs_resolve fs path) := by
  have hstart := (Walk.refl h.ordered h.fits).locked h.root
  have hroot : place_of ((locked fs fs.root).nodes fs.root) = .inode fs.root_node := by
    rw [place_of_locked, h.top]
  have hwalk := walk_post hstart h.mounts h.fits
    ⟨Nat.zero_le 1, fun a ha => absurd ha List.not_mem_nil, Or.inl rfl, List.not_mem_nil⟩
    (components [] path)
  rw [hroot] at hwalk
  unfold vfs_resolve
  rw [vfs_lock_node_eq (h.ordered.ne_null h.root) h.root, ok_bind]
  apply hwalk.mono fun _ => id
  rintro x ⟨hshort, hx⟩
  refine ⟨hshort, ?_⟩
  cases hl : leads fs (.inode fs.root_node) (components [] path) with
  | error r =>
    rw [hl] at hx
    exact hx
  | ok p =>
    rw [hl] at hx
    obtain ⟨hok, hp, rest, hrest, hleft, hw⟩ := hx
    refine ⟨hok, hp, rest, ?_, hleft, hw⟩
    rw [hrest]
    simp

/-! ## The counts -/

/-- The caller has one reference more, to the node that it was given, or none at all. The
reference of the cache to a new node counts. -/
def Neutral (fs fs' : fs_t) (result : resource_result_t) (node : Nat) : Prop :=
  if result = RESOURCE_RESULT_OK then
    (fs'.nodes node).ref_count =
        (if node ∈ fs.node_blocks then (fs.nodes node).ref_count else 1) + 1 ∧
      ∀ a ∈ fs.node_blocks, a ∈ fs'.node_blocks → a ≠ node →
        (fs'.nodes a).ref_count = (fs.nodes a).ref_count
  else
    (∀ a ∈ fs.node_blocks, a ∈ fs'.node_blocks →
      (fs'.nodes a).ref_count = (fs.nodes a).ref_count) ∧
    ∀ a ∈ fs'.node_blocks, a ∈ fs.node_blocks

/-- The path leads to a place without going on behind a mount point, and the count of its node can
be raised. -/
def LeadsStraight (fs : fs_t) (path : List Char) : Prop :=
  ∃ p, leads fs (.inode fs.root_node) (components [] path) = .ok p ∧
    ¬ Crosses fs (.inode fs.root_node) (components [] path) ∧
    ∀ a ∈ fs.node_blocks, place_of (fs.nodes a) = p → (fs.nodes a).ref_count < 0xFFFFFFFF

/-- A count that was raised once or twice differs. -/
theorem raised_ne {n k : Nat} (h1 : 1 ≤ k) (h2 : k ≤ 2) : u32 (n + k) ≠ n := by
  unfold u32
  omega

/-- A reference that is left on a node shows in its count, or the node is new. -/
theorem Walk.left_behind {rest : List Nat} (hw : Walk fs fs' rest) {a : Nat} (ha : a ∈ rest)
    (hlen : rest.count a ≤ 2) :
    a ∈ fs'.node_blocks ∧
      (a ∈ fs.node_blocks → (fs'.nodes a).ref_count ≠ (fs.nodes a).ref_count) := by
  have hlive := hw.tally.live a ha
  refine ⟨hlive, fun hold => ?_⟩
  rw [hw.tally.old a hold hlive]
  exact raised_ne (List.count_pos_iff.mpr ha) hlen

/-- Without a crossing a path stays in the ramfs. -/
theorem straight_inode {p : place} {x : Nat} {path : List (List Char)}
    (hl : leads fs (.inode x) path = .ok p) (hc : ¬ Crosses fs (.inode x) path) :
    ∃ y, p = .inode y := by
  induction path generalizing x with
  | nil =>
    cases hl
    exact ⟨x, rfl⟩
  | cons name path ih =>
    rw [crosses_cons, not_or] at hc
    obtain ⟨hm, hrest⟩ := hc
    have hhere : crossed fs (.inode x) = .inode x := if_neg hm
    cases he : enter fs (.inode x) name with
    | error r =>
      rw [leads_error (by rw [hhere]; exact he)] at hl
      cases hl
    | ok q =>
      rw [leads_ok (by rw [hhere]; exact he)] at hl
      have hq : ∃ y, q = .inode y := by
        unfold enter at he
        dsimp only at he
        split at he
        · cases he
          exact ⟨_, rfl⟩
        · cases he
      obtain ⟨y, rfl⟩ := hq
      exact ih hl fun hcross => hrest ⟨_, he, hcross⟩

theorem leads_ne_ok {p : place} {path : List (List Char)} {r : resource_result_t}
    (hl : leads fs p path = .error r) : r ≠ RESOURCE_RESULT_OK := by
  induction path generalizing p with
  | nil => cases hl
  | cons name path ih =>
    cases he : enter fs (crossed fs p) name with
    | error e =>
      rw [leads_error he] at hl
      cases hl
      exact enter_ne_ok he
    | ok q =>
      rw [leads_ok he] at hl
      exact ih hl

/-- A walk that left a node locked does not look neutral. -/
theorem Walk.not_neutral {rest : List Nat} {r : resource_result_t} {node : Nat}
    (hw : Walk fs fs' rest) (hne : rest ≠ []) (hlen : rest.length ≤ 2)
    (hr : r ≠ RESOURCE_RESULT_OK) : ¬ Neutral fs fs' r node := by
  obtain ⟨a, ha⟩ := List.exists_mem_of_ne_nil rest hne
  obtain ⟨hlive, hcount⟩ := hw.left_behind ha (le_trans List.count_le_length hlen)
  unfold Neutral
  rw [if_neg hr]
  rintro ⟨hsame, hold⟩
  exact hcount (hold a hlive) (hsame a (hold a hlive) hlive)

/-- Neither does one that left a mount point locked behind the node that it gives. -/
theorem Walk.crossing_not_neutral {a node : Nat} (hw : Walk fs fs' [node, a])
    (ha : a ∈ fs.node_blocks) : ¬ Neutral fs fs' RESOURCE_RESULT_OK node := by
  have hlive := hw.tally.live a (by simp)
  unfold Neutral
  rw [if_pos rfl]
  rintro ⟨hself, hothers⟩
  by_cases han : a = node
  · subst han
    rw [if_pos ha, hw.tally.old a ha hlive] at hself
    have htwo : [a, a].count a = 2 := by simp
    rw [htwo] at hself
    unfold u32 at hself
    omega
  · refine (hw.left_behind (by simp) ?_).2 ha (hothers a ha hlive han)
    exact List.count_le_length

/-- The node that a straight path leads to has the only count that changed. -/
theorem Walk.straight_neutral_iff {node : Nat} (h : Settled fs) (hw : Walk fs fs' [node]) {y : Nat}
    (hp : place_of (fs'.nodes node) = .inode y) :
    Neutral fs fs' RESOURCE_RESULT_OK node ↔
      ∀ a ∈ fs.node_blocks, place_of (fs.nodes a) = .inode y → (fs.nodes a).ref_count < 0xFFFFFFFF := by
  have hlive := hw.tally.live node List.mem_cons_self
  have hself : [node].count node = 1 := by simp
  unfold Neutral
  rw [if_pos rfl]
  constructor
  · rintro ⟨hone, -⟩ a ha hpa
    by_contra hmax
    obtain ⟨hal, k, hk⟩ := hw.tally.kept a ha (by omega)
    have hsame : place_of (fs'.nodes a) = .inode y := by rw [hk]; exact hpa
    obtain ⟨hopa, hda⟩ := place_of_inode.mp hsame
    obtain ⟨hopn, hdn⟩ := place_of_inode.mp hp
    have han : a = node := by
      by_contra hne
      exact hw.ordered.shown_ne hlive hal hopn hopa hne (hda.trans hdn.symm)
    subst han
    rw [if_pos ha, hw.tally.old a ha hlive, hself] at hone
    unfold u32 at hone
    omega
  · intro hmax
    constructor
    · by_cases hn : node ∈ fs.node_blocks
      · rw [if_pos hn, hw.tally.old node hn hlive, hself]
        apply u32_of_lt
        by_cases hone : (fs.nodes node).ref_count = 1
        · rw [hone]
          decide
        · obtain ⟨-, k, hk⟩ := hw.tally.kept node hn hone
          have := hmax node hn (by rw [hk] at hp; exact hp)
          omega
      · rw [if_neg hn, (hw.tally.new node hlive hn).1, hself]
        rfl
    · intro a ha hal hne
      have hbound := (h.counts a ha).2
      have hzero : [node].count a = 0 := by simp [Ne.symm hne]
      rw [hw.tally.old a ha hal, hzero]
      exact u32_of_lt (by omega)

/-- `vfs_resolve` gives back every reference but that of its result exactly when the path leads
straight to a node. -/
theorem resolve_gives_its_references_back_iff (h : Settled fs) {path : List Char}
    {r : resource_result_t} {node : Nat} (hres : vfs_resolve fs path = .ok (fs', r, node)) :
    Neutral fs fs' r node ↔ LeadsStraight fs path := by
  have hx := ((resolve_post h.resting path).result hres).2
  unfold LeadsStraight
  cases hl : leads fs (.inode fs.root_node) (components [] path) with
  | error e =>
    rw [hl] at hx
    obtain ⟨hr, rest, hne, hlen, -, hw⟩ := hx
    obtain ⟨rfl, -⟩ := Prod.mk.inj hr
    constructor
    · exact fun hn => absurd hn (hw.not_neutral hne hlen (leads_ne_ok hl))
    · rintro ⟨p, hp, -⟩
      cases hp
  | ok p =>
    rw [hl] at hx
    obtain ⟨hok, hp, rest, hrest, hleft, hw⟩ := hx
    dsimp only at hok hp hw hleft
    subst hok
    by_cases hc : Crosses fs (.inode fs.root_node) (components [] path)
    · have hne : rest ≠ [] := fun he => hrest.mp he hc
      obtain ⟨a, rfl⟩ := List.length_eq_one_iff.mp
        (le_antisymm hleft.1 (List.length_pos_iff.mpr hne))
      constructor
      · exact fun hn => absurd hn (hw.crossing_not_neutral (hleft.2.1 a List.mem_cons_self))
      · rintro ⟨q, -, hno, -⟩
        exact absurd hc hno
    · obtain rfl := hrest.mpr hc
      obtain ⟨y, rfl⟩ := straight_inode hl hc
      rw [hw.straight_neutral_iff h hp]
      constructor
      · exact fun hmax => ⟨_, rfl, hc, hmax⟩
      · rintro ⟨q, hq, -, hmax⟩
        cases hq
        exact hmax

/-! ### A directory with one file -/

theorem shelf_one_entry {d : Nat} (hd : d ∈ (shelf 1).inode_blocks) {e : ramfs_dirent_t}
    (he : e ∈ ((shelf 1).inodes d).children) : d = 8 ∧ e.node = 16 := by
  obtain ⟨rfl, i, hi, hn⟩ := shelf_entry he
  exact ⟨rfl, by omega⟩

theorem tree_shelf_one : Tree (shelf 1) := by
  constructor
  · decide
  · rfl
  · decide
  · decide
  · decide
  · decide
  · decide
  · decide
  · decide
  · decide
  · decide
  · intro d hd e he hr
    obtain ⟨rfl, -⟩ := shelf_one_entry hd he
    exact Reachable.root
  · decide
  · exact fun i hi => absurd hi List.not_mem_nil
  · exact List.nodup_nil

theorem settled_shelf_one : Settled (shelf 1) where
  ordered := by
    refine ⟨(mirrored_shelf 1).cached, tree_shelf_one, ?_, ?_, (mirrored_shelf 1).heap⟩
    · unfold OnlyDirectories
      decide
    · intro a ha
      have hop : ((shelf 1).nodes a).operations = .ramfs := rfl
      have hroot : 8 ∈ (shelf 1).inode_blocks := by decide
      unfold Viewed
      rw [if_pos hop]
      exact ⟨hroot, rfl, rfl, rfl, rfl, Or.inl Reachable.root, Or.inl rfl⟩
  root := by decide
  top := rfl
  mounts := fun a _ hm => absurd rfl hm
  counts := by
    unfold Spare
    decide

/-- `/b` is not there, and the root stays locked. -/
theorem a_missing_file_leaves_the_root_locked :
    ∃ fs' r node, vfs_resolve (shelf 1) ['/', 'b'] = .ok (fs', r, node) ∧
      ¬ Neutral (shelf 1) fs' r node := by
  refine ⟨locked (shelf 1) 4, RESOURCE_RESULT_NOT_FOUND, 0, rfl, ?_⟩
  unfold Neutral
  rw [if_neg (by decide)]
  rintro ⟨hsame, -⟩
  have hroot := hsame 4 (by decide) (by decide)
  rw [locked_self] at hroot
  revert hroot
  decide

/-- `/a` leads straight to the file. -/
theorem a_file_is_found_without_a_trace :
    ∃ fs' r node, vfs_resolve (shelf 1) ['/', 'a'] = .ok (fs', r, node) ∧
      Neutral (shelf 1) fs' r node := by
  have hmounted : ¬ Mounted (shelf 1) (.inode 8) := by
    rintro ⟨a, -, -, hm⟩
    exact hm rfl
  have hstraight : LeadsStraight (shelf 1) ['/', 'a'] := by
    refine ⟨.inode 16, ?_, ?_, ?_⟩
    · show leads (shelf 1) (.inode 8) [['a']] = _
      rw [leads_ok]
      · rfl
      · rw [crossed, if_neg hmounted]
        rfl
    · rintro (hm | ⟨q, -, ⟨⟩⟩)
      exact hmounted hm
    · decide
  refine ⟨_, _, _, rfl, (resolve_gives_its_references_back_iff settled_shelf_one rfl).mpr
    hstraight⟩

end alura_os.vfs
