-- The walk of `vfs_resolve` on file systems in order: the place that a path
-- leads to, and the references that the walk leaves behind. A mount point that
-- the walk crosses stays locked, and so does the node at which it fails.
import AluraOs.FsCounts
import AluraOs.RamfsPaths

namespace alura_os.vfs

open alura_os.memory alura_os.resource faults
open resource_result_t resource_type_t vfs_node_type

variable {fs0 fs fs' : fs_t} {held : List Nat} {current : Nat}

/-! ## Where a path leads -/

/-- Something is mounted on a node of the VFS for the place. -/
def Mounted (fs : fs_t) (p : place) : Prop :=
  ∃ a ∈ fs.node_blocks, place_of (fs.nodes a) = p ∧ (fs.nodes a).mount ≠ 0

instance (fs : fs_t) (p : place) : Decidable (Mounted fs p) :=
  inferInstanceAs (Decidable (∃ a ∈ fs.node_blocks, _ ∧ _))

/-- The place at which the next name of a path is looked up. -/
def crossed (fs : fs_t) (p : place) : place := if Mounted fs p then .devices else p

/-- The place that the names of a path lead to. -/
def leads (fs : fs_t) (p : place) : List (List Char) → Except resource_result_t place
  | [] => .ok p
  | name :: path =>
    match enter fs (crossed fs p) name with
    | .ok q => leads fs q path
    | .error r => .error r

/-- A path goes on behind a mount point. -/
def Crosses (fs : fs_t) (p : place) : List (List Char) → Prop
  | [] => False
  | name :: path => Mounted fs p ∨ ∃ q, enter fs p name = .ok q ∧ Crosses fs q path

/-- Only the directory of the devices is mounted, on nodes of the ramfs, and what is mounted and
the mount points are not evicted. -/
def MountRule (fs : fs_t) : Prop :=
  ∀ a ∈ fs.node_blocks, (fs.nodes a).mount ≠ 0 →
    (fs.nodes a).operations = .ramfs ∧ (fs.nodes a).ref_count ≠ 1 ∧
      (fs.nodes a).mount ∈ fs.node_blocks ∧
      (fs.nodes (fs.nodes a).mount).operations = .devfs ∧
      (fs.nodes (fs.nodes a).mount).ref_count ≠ 1

theorem place_of_inode {n : vfs_node_t} {x : Nat} :
    place_of n = .inode x ↔ n.operations = .ramfs ∧ n.fs_data = x := by
  unfold place_of
  cases n.operations <;> simp

theorem place_of_devices {n : vfs_node_t} : place_of n = .devices ↔ n.operations = .devfs := by
  unfold place_of
  cases n.operations <;> simp

theorem enter_ne_ok {p : place} {name : List Char} {r : resource_result_t}
    (h : enter fs p name = .error r) : r ≠ RESOURCE_RESULT_OK := by
  unfold enter at h
  split at h
  · split at h <;> cases h
    decide
  · split at h <;> cases h
    decide
  · cases h
    decide

theorem MountRule.not_device (h : MountRule fs) (i : Nat) : ¬ Mounted fs (.device i) := by
  rintro ⟨a, ha, hp, hm⟩
  have hop := (h a ha hm).1
  unfold place_of at hp
  rw [hop] at hp
  cases hp

/-! ## Lookups -/

theorem devfs_entry {i : Nat} {e : List Char × vfs_node_operations_t × resource_type_t}
    (h : devfs_entries[i]? = some e) : e.2.1 ≠ .ramfs ∧ e.2.1 ≠ .devfs := by
  have hm := List.mem_of_getElem? h
  unfold devfs_entries at hm
  simp only [List.mem_cons, List.not_mem_nil, or_false] at hm
  rcases hm with rfl | rfl | rfl <;> decide

theorem place_of_other {n : vfs_node_t} (h1 : n.operations ≠ .ramfs) (h2 : n.operations ≠ .devfs) :
    place_of n = .device n.index.toNat := by
  unfold place_of
  cases hop : n.operations with
  | ramfs => exact absurd hop h1
  | devfs => exact absurd hop h2
  | keyboard => rfl
  | terminal => rfl
  | framebuffer => rfl

theorem ramfs_lookup_post (h : Ordered fs) {d : Nat} (hd : d ∈ fs.node_blocks)
    (hop : (fs.nodes d).operations = .ramfs) (name : List Char) :
    Post (· = .taken)
      (fun x => match enter fs (.inode (fs.nodes d).fs_data) name with
        | .ok p => x.2.1 = RESOURCE_RESULT_OK ∧ Fetched fs x.1 x.2.2 p
        | .error r => x = (fs, r, 0))
      (ramfs_lookup fs d name) := by
  have hn : fs.node d = .ok (fs.nodes d) := node_ok.mpr ⟨hd, rfl⟩
  have hs := (h.views d hd).shown hop
  unfold ramfs_lookup
  rw [hn, ok_bind, ramfs_find_child_eq hs.there, ok_bind]
  unfold enter
  dsimp only
  cases hc : (fs.inodes (fs.nodes d).fs_data).child name with
  | none => rfl
  | some e => exact ramfs_node_of_post h hd hop (child_mem hc).1

theorem devfs_lookup_post (h : Ordered fs) {d : Nat} (hd : d ∈ fs.node_blocks)
    (hop : (fs.nodes d).operations = .devfs) (name : List Char) :
    Post (· = .taken)
      (fun x => match enter fs .devices name with
        | .ok p => x.2.1 = RESOURCE_RESULT_OK ∧ Fetched fs x.1 x.2.2 p
        | .error r => x = (fs, r, 0))
      (devfs_lookup fs d name) := by
  have hview := h.views d hd
  unfold Viewed at hview
  rw [if_neg (by rw [hop]; decide)] at hview
  have hn : fs.node d = .ok (fs.nodes d) := node_ok.mpr ⟨hd, rfl⟩
  have hindex : (devfs_entries.findIdx fun e => e.1 = name) = device_index name := rfl
  unfold devfs_lookup enter
  dsimp only
  rw [hindex]
  cases he : devfs_entries[device_index name]? with
  | none =>
    rw [if_neg (by rw [List.getElem?_eq_none_iff] at he; omega)]
    rfl
  | some e =>
    obtain ⟨entry, operations, resource_type⟩ := e
    obtain ⟨hlt, -⟩ := List.getElem?_eq_some_iff.mp he
    obtain ⟨h1, h2⟩ := devfs_entry he
    rw [if_pos hlt]
    dsimp only
    obtain ⟨found, hq, hfound⟩ := h.query hd (device_index name : Int)
    unfold devfs_node_of
    rw [hn, ok_bind, hq, ok_bind]
    cases found with
    | some a =>
      obtain ⟨ha, hci, hid⟩ := (hfound a).mp rfl
      have hva := h.views a ha
      -- The node has the cache index of the devices, and the id of one of them.
      have hopa : (fs.nodes a).operations ≠ .ramfs := by
        intro hr
        exact hview.1 (hci.symm.trans (hva.shown hr).index)
      have hopd : (fs.nodes a).operations ≠ .devfs := by
        intro hr
        unfold Viewed at hva
        rw [if_neg hopa, if_pos hr] at hva
        have := hva.2.1
        omega
      refine ⟨rfl, h, ?_, Or.inl ⟨rfl, ha⟩⟩
      rw [place_of_other hopa hopd, hid]
      rfl
    | none =>
      have hplace : place_of ⟨0, operations, VFS_NODE_TYPE_FILE, resource_type, 0,
          (fs.nodes d).cache_index, (device_index name : Int), 0⟩ = .device (device_index name) :=
        place_of_other h1 h2
      rw [← hplace]
      apply h.create_node hd
      · intro a ha hci hid
        exact absurd ((hfound a).mpr ⟨ha, hci, hid⟩) (by simp)
      · unfold Viewed
        rw [if_neg h1, if_neg h2]
        exact ⟨hview.1, device_index name, rfl, rfl, entry, he⟩

/-- A lookup on a node of the VFS fetches a node for what the name means there. -/
theorem lookup_post (h : Ordered fs) {d : Nat} (hd : d ∈ fs.node_blocks) (name : List Char) :
    Post (· = .taken)
      (fun x => match enter fs (place_of (fs.nodes d)) name with
        | .ok p => x.2.1 = RESOURCE_RESULT_OK ∧ Fetched fs x.1 x.2.2 p
        | .error r => x = (fs, r, 0))
      (lookup fs d name) := by
  have hn : fs.node d = .ok (fs.nodes d) := node_ok.mpr ⟨hd, rfl⟩
  unfold lookup
  rw [hn, ok_bind]
  cases hop : (fs.nodes d).operations with
  | ramfs =>
    rw [place_of_inode.mpr ⟨hop, rfl⟩]
    exact ramfs_lookup_post h hd hop name
  | devfs =>
    rw [place_of_devices.mpr hop]
    exact devfs_lookup_post h hd hop name
  | keyboard => rw [place_of_other (by simp [hop]) (by simp [hop])]; rfl
  | terminal => rw [place_of_other (by simp [hop]) (by simp [hop])]; rfl
  | framebuffer => rw [place_of_other (by simp [hop]) (by simp [hop])]; rfl

/-! ## The walk -/

theorem Tally.perm {held' : List Nat} (h : Tally fs0 fs held) (hp : held.Perm held') :
    Tally fs0 fs held' := by
  refine ⟨h.kept, ?_, ?_, ?_, h.mounts⟩
  · intro a ha hl
    rw [← hp.count_eq]
    exact h.old a ha hl
  · intro a hl ha
    rw [← hp.count_eq, ← hp.mem_iff]
    exact h.new a hl ha
  · intro a ha
    exact h.live a (hp.mem_iff.mpr ha)

/-- A call that began in `fs0` has changed no entry so far, and holds these references. -/
structure Walk (fs0 fs : fs_t) (held : List Nat) : Prop where
  ordered : Ordered fs
  calm : Calm fs0 fs
  tally : Tally fs0 fs held

theorem Walk.refl (h : Ordered fs) (hs : Fits fs) : Walk fs fs [] :=
  ⟨h, Calm.refl fs, Tally.refl hs⟩

theorem Walk.perm {held' : List Nat} (h : Walk fs0 fs held) (hp : held.Perm held') :
    Walk fs0 fs held' :=
  ⟨h.ordered, h.calm, h.tally.perm hp⟩

theorem Walk.locked {a : Nat} (h : Walk fs0 fs held) (ha : a ∈ fs.node_blocks) :
    Walk fs0 (vfs.locked fs a) (a :: held) :=
  ⟨h.ordered.locked a, h.calm.trans (sameShape_locked fs a).calm, h.tally.locked ha⟩

/-- A node that a lookup fetched is locked. -/
theorem Walk.fetched {node : Nat} {p : place} (h : Walk fs0 fs held) (hf : Fetched fs fs' node p) :
    Walk fs0 (vfs.locked fs' node) (node :: held) := by
  refine ⟨hf.ordered.locked node,
    (h.calm.trans hf.calm).trans (sameShape_locked fs' node).calm, ?_⟩
  rcases hf.origin with ⟨rfl, hm⟩ | ⟨n, ha, hm⟩
  · exact h.tally.locked hm
  · exact h.tally.fetched ha hm

/-- A node that does not go with its last reference is released. -/
theorem Walk.released {a : Nat} (h : Walk fs0 fs (a :: held)) (hs : Fits fs0) (hout : a ∉ held)
    (hg : ¬ GoesWith fs (fs.nodes a)) : Walk fs0 (vfs.released fs a) held :=
  ⟨h.ordered.released (h.tally.live a List.mem_cons_self), h.calm.trans (calm_released hg),
    h.tally.released hs hout⟩

/-- A mount point is one from the beginning on. -/
theorem Walk.mounted_iff (h : Walk fs0 fs held) (hr : MountRule fs0) {a : Nat}
    (ha : a ∈ fs.node_blocks) :
    Mounted fs0 (place_of (fs.nodes a)) ↔ (fs.nodes a).mount ≠ 0 := by
  constructor
  · rintro ⟨b, hb, hp, hm⟩
    obtain ⟨hop, hcount, -⟩ := hr b hb hm
    obtain ⟨hl, k, hk⟩ := h.tally.kept b hb hcount
    have hopb : (fs.nodes b).operations = .ramfs := by rw [hk]; exact hop
    have hshow := place_of_inode.mp (hp.symm.trans (place_of_inode.mpr ⟨hop, rfl⟩))
    -- Two nodes of the VFS for one node of the ramfs are the same.
    have hab : a = b := by
      by_contra hne
      refine h.ordered.shown_ne hl ha hopb hshow.1 hne ?_
      rw [hk, hshow.2]
    rw [hab, hk]
    exact hm
  · intro hm
    obtain ⟨ha0, he⟩ := h.tally.mounts a ha hm
    rw [← he] at hm
    obtain ⟨-, k, hk⟩ := h.tally.kept a ha0 (hr a ha0 hm).2.1
    exact ⟨a, ha0, by rw [hk]; rfl, hm⟩

/-- What is mounted is there. -/
theorem Walk.mount_root (h : Walk fs0 fs held) (hr : MountRule fs0) {a : Nat}
    (ha : a ∈ fs.node_blocks) (hm : (fs.nodes a).mount ≠ 0) :
    (fs.nodes a).operations = .ramfs ∧ (fs.nodes a).mount ∈ fs.node_blocks ∧
      (fs.nodes (fs.nodes a).mount).operations = .devfs := by
  obtain ⟨ha0, he⟩ := h.tally.mounts a ha hm
  have hm0 := hm
  rw [← he] at hm0
  obtain ⟨hop, hcount, hroot, hdev, hrootcount⟩ := hr a ha0 hm0
  obtain ⟨-, k, hk⟩ := h.tally.kept a ha0 hcount
  obtain ⟨hl, j, hj⟩ := h.tally.kept _ hroot hrootcount
  rw [he] at hl hj hdev
  refine ⟨by rw [hk]; exact hop, hl, by rw [hj]; exact hdev⟩

/-- The node on which the next name is looked up, with the references to it and to a mount point
that was crossed. -/
theorem cross_mount_post (h : Walk fs0 fs (current :: held)) (hr : MountRule fs0) :
    ∃ fs1 node leaks, cross_mount fs current = .ok (fs1, node) ∧
      node ∈ fs1.node_blocks ∧ place_of (fs1.nodes node) = crossed fs0 (place_of (fs.nodes current)) ∧
      Walk fs0 fs1 (node :: (leaks ++ held)) ∧ leaks.length ≤ 1 ∧ node ∉ leaks ∧
      (∀ a ∈ leaks, a ∈ fs0.node_blocks ∧ (fs0.nodes a).mount ≠ 0) ∧
      (leaks = [] ↔ ¬ Mounted fs0 (place_of (fs.nodes current))) ∧
      (leaks = [] → node = current) := by
  have ha := h.tally.live current List.mem_cons_self
  have hn : fs.node current = .ok (fs.nodes current) := node_ok.mpr ⟨ha, rfl⟩
  have hmounted := h.mounted_iff hr ha
  unfold cross_mount crossed
  rw [hn, ok_bind]
  by_cases hm : (fs.nodes current).mount = 0
  · have hno : ¬ Mounted fs0 (place_of (fs.nodes current)) := fun hc => hmounted.mp hc hm
    rw [if_pos hm, if_neg hno]
    exact ⟨fs, current, [], rfl, ha, rfl, h, Nat.zero_le _, List.not_mem_nil,
      fun a hm => absurd hm List.not_mem_nil, ⟨fun _ => hno, fun _ => rfl⟩, fun _ => rfl⟩
  · obtain ⟨hop, hl, hdev⟩ := h.mount_root hr ha hm
    have hyes := hmounted.mpr hm
    have hlock := vfs_lock_node_eq hm hl
    have hne : (fs.nodes current).mount ≠ current := by
      intro he
      rw [he, hop] at hdev
      cases hdev
    rw [if_neg hm, if_pos hyes, hlock, ok_bind]
    refine ⟨_, _, [current], rfl, hl, ?_, h.locked hl, le_refl 1, ?_, ?_, ?_, ?_⟩
    · rw [locked_self, place_of_devices]
      exact hdev
    · simpa using hne
    · intro a hm'
      rw [List.mem_singleton.mp hm']
      obtain ⟨hm0, he⟩ := h.tally.mounts current ha hm
      exact ⟨hm0, by rw [he]; exact hm⟩
    · simp [hyes]
    · simp

/-- The other nodes after a node was fetched and locked. -/
theorem Fetched.record {node : Nat} {p : place} (hf : Fetched fs fs' node p) {a : Nat}
    (ha : a ∈ fs.node_blocks) :
    ∃ k, (locked fs' node).nodes a = { fs.nodes a with ref_count := k } := by
  obtain ⟨k, hk⟩ := setCount_record fs' node (u32 ((fs'.nodes node).ref_count + 1)) a
  refine ⟨k, hk.trans ?_⟩
  rcases hf.origin with ⟨rfl, -⟩ | ⟨n, hadd, -⟩
  · rfl
  · have hne : a ≠ node := fun he => hadd.unused.1 (he ▸ ha)
    rw [hadd.others a hne]

/-- A node on which a name was found does not go. -/
theorem Ordered.entered (h : Ordered fs) {d : Nat} (hd : d ∈ fs.node_blocks) {name : List Char}
    {p : place} (he : enter fs (place_of (fs.nodes d)) name = .ok p) :
    ¬ GoesWith fs (fs.nodes d) := by
  rintro ⟨hop, hz⟩
  rw [place_of_inode.mpr ⟨hop, rfl⟩] at he
  unfold enter at he
  dsimp only at he
  split at he
  · rename_i e hc
    exact h.tree.link_count_pos (h.directory hd hop (child_mem hc).1) hz
  · cases he

/-- No directory that can be reached has an entry for itself. -/
theorem Ordered.no_loop (h : Ordered fs) {a : Nat} {e : ramfs_dirent_t} (ha : Reachable fs a)
    (he : e ∈ (fs.inodes a).children) : e.node ≠ a := by
  intro hea
  have hm := ha.mem h.tree
  have hdir : (fs.inodes a).type = VFS_NODE_TYPE_DIRECTORY := by
    cases ht : (fs.inodes a).type with
    | VFS_NODE_TYPE_FILE =>
      rw [h.only a hm ht] at he
      exact absurd he List.not_mem_nil
    | VFS_NODE_TYPE_DIRECTORY => rfl
  have hone := h.tree.single a hm hdir
  -- The entry is the only one for the directory, so no other directory leads to it.
  have hother : ∀ b, Reachable fs b → b ≠ a := by
    intro b hb
    induction hb with
    | root =>
      intro hr
      exact h.tree.ne_root hm he (hea.trans hr.symm)
    | @child d f hd hf ih =>
      intro hfa
      have hsplit := Finset.add_sum_erase fs.inode_blocks
        (fun x => entries (fs.inodes x).children a) hm
      have hself : 0 < entries (fs.inodes a).children a := entries_pos.mpr ⟨e, he, hea⟩
      have hrest : 0 < ∑ x ∈ fs.inode_blocks.erase a, entries (fs.inodes x).children a := by
        have hd' : d ∈ fs.inode_blocks.erase a := Finset.mem_erase.mpr ⟨ih, hd.mem h.tree⟩
        have hpos : 0 < entries (fs.inodes d).children a := entries_pos.mpr ⟨f, hf, hfa⟩
        exact lt_of_lt_of_le hpos
          (Finset.single_le_sum (fun x _ => Nat.zero_le (entries (fs.inodes x).children a)) hd')
      unfold links at hone
      omega
  exact hother a ha rfl

/-- What is found on a node is another one. -/
theorem Ordered.entered_ne (h : Ordered fs) {d : Nat} (hd : d ∈ fs.node_blocks) {name : List Char}
    {p : place} (he : enter fs (place_of (fs.nodes d)) name = .ok p) :
    p ≠ place_of (fs.nodes d) := by
  rintro rfl
  cases hp : place_of (fs.nodes d) with
  | inode x =>
    obtain ⟨hop, rfl⟩ := place_of_inode.mp hp
    rw [hp] at he
    unfold enter at he
    dsimp only at he
    split at he
    · rename_i e hc
      injection he with he
      injection he with he
      have hentry := (child_mem hc).1
      exact h.no_loop (h.directory hd hop hentry) hentry he
    · cases he
  | devices =>
    rw [hp] at he
    unfold enter at he
    dsimp only at he
    split at he <;> cases he
  | device i =>
    rw [hp] at he
    cases he

section turn

variable {fs1 fs2 fs3 : fs_t} {node next : Nat} {name : List Char} {r : resource_result_t}

theorem turn_found (hshort : name.length < VFS_NODE_NAME_LENGTH)
    (hcross : cross_mount fs current = .ok (fs1, node))
    (hlookup : lookup fs1 node name = .ok (fs2, RESOURCE_RESULT_OK, next)) (hz : next ≠ 0)
    (hlock : vfs_lock_node fs2 next = .ok fs3) (hrel : vfs_release_node fs3 node = .ok fs') :
    resolve_component fs current name = .ok (fs', RESOURCE_RESULT_OK, next) := by
  unfold resolve_component
  rw [if_neg (Nat.not_le.mpr hshort)]
  simp [hcross, hlookup, hlock, hrel, hz]

theorem turn_lost (hshort : name.length < VFS_NODE_NAME_LENGTH)
    (hcross : cross_mount fs current = .ok (fs1, node))
    (hlookup : lookup fs1 node name = .ok (fs2, r, next)) (hr : r ≠ RESOURCE_RESULT_OK) :
    resolve_component fs current name = .ok (fs2, r, 0) := by
  unfold resolve_component
  rw [if_neg (Nat.not_le.mpr hshort)]
  simp [hcross, hlookup, hr]

theorem turn_faults {e : fault_t} (hshort : name.length < VFS_NODE_NAME_LENGTH)
    (hcross : cross_mount fs current = .ok (fs1, node))
    (hlookup : lookup fs1 node name = .error e) :
    resolve_component fs current name = .error e := by
  unfold resolve_component
  rw [if_neg (Nat.not_le.mpr hshort)]
  simp [hcross, hlookup]

theorem turn_overflows (hlong : VFS_NODE_NAME_LENGTH ≤ name.length) :
    resolve_component fs current name = .error .overflow := by
  unfold resolve_component
  rw [if_pos hlong]
  rfl

end turn

/-- A release keeps what every record shows. -/
theorem place_of_released (fs : fs_t) (a b : Nat) :
    place_of ((released fs a).nodes b) = place_of (fs.nodes b) := by
  rw [released_nodes]
  obtain ⟨k, hk⟩ := setCount_record fs a (sub32 (fs.nodes a).ref_count 1) b
  rw [hk]
  rfl

theorem place_of_locked (fs : fs_t) (a b : Nat) :
    place_of ((locked fs a).nodes b) = place_of (fs.nodes b) := by
  obtain ⟨k, hk⟩ := setCount_record fs a (u32 ((fs.nodes a).ref_count + 1)) b
  unfold locked
  rw [hk]
  rfl

/-- The node that was looked up is locked, and the one on which it was found is released. -/
theorem walk_handed_on {node next : Nat} {rest : List Nat} {p : place} {name : List Char}
    (h : Walk fs0 fs (node :: rest)) (hf : Fetched fs fs' next p)
    (he : enter fs (place_of (fs.nodes node)) name = .ok p) (hs : Fits fs0) (hout : node ∉ rest) :
    ∃ fs2, vfs_release_node (locked fs' next) node = .ok fs2 ∧
      place_of (fs2.nodes next) = p ∧ Walk fs0 fs2 (next :: rest) := by
  have hnode := h.tally.live node List.mem_cons_self
  have h2 := (h.fetched hf).perm (List.Perm.swap node next rest)
  obtain ⟨k, hk⟩ := hf.record hnode
  have hstay : ¬ GoesWith (locked fs' next) ((locked fs' next).nodes node) := by
    rw [hk, goesWith_count,
      (hf.calm.trans (sameShape_locked fs' next).calm).goesWith (fs.nodes node)]
    exact h.ordered.entered hnode he
  have hshows : place_of ((released (locked fs' next) node).nodes next) = p := by
    rw [place_of_released, place_of_locked]
    exact hf.shows
  have hne : node ≠ next := by
    rintro rfl
    refine h.ordered.entered_ne hnode he ?_
    rw [← hshows, place_of_released, hk]
    rfl
  exact ⟨_, h2.ordered.release_ok (h2.tally.live node List.mem_cons_self), hshows,
    h2.released hs (by simp [hne, hout]) hstay⟩

/-- A name is looked up on the node, which is among the references held. -/
theorem looked_up_post {node : Nat} {rest : List Nat} {p : place} {name : List Char}
    (h : Walk fs0 fs (node :: rest)) (hp : place_of (fs.nodes node) = p) (hs : Fits fs0)
    (hout : ∀ q, enter fs0 p name = .ok q → node ∉ rest) :
    Post (· = .taken)
      (fun x => match enter fs0 p name with
        | .ok q => x.2.1 = RESOURCE_RESULT_OK ∧ ∃ fs1 fs2,
          vfs_lock_node x.1 x.2.2 = .ok fs1 ∧ vfs_release_node fs1 node = .ok fs2 ∧ x.2.2 ≠ 0 ∧
          place_of (fs2.nodes x.2.2) = q ∧ Walk fs0 fs2 (x.2.2 :: rest)
        | .error r => x = (fs, r, 0))
      (lookup fs node name) := by
  have henter := h.calm.tree.enter (place_of (fs.nodes node)) name
  have hpost := lookup_post h.ordered (h.tally.live node List.mem_cons_self) name
  rw [henter, hp] at hpost
  cases he : enter fs0 p name with
  | error r =>
    rw [he] at hpost
    exact hpost
  | ok q =>
    rw [he] at hpost
    apply hpost.mono fun _ => id
    rintro ⟨fs', result, next⟩ ⟨hok, hf⟩
    dsimp only at hok hf
    have hz : next ≠ 0 := hf.ordered.ne_null hf.live
    obtain ⟨fs2, hrel, hplace, hw⟩ := walk_handed_on h hf (by rw [henter, hp]; exact he) hs
      (hout q he)
    exact ⟨hok, _, fs2, vfs_lock_node_eq hz hf.live, hrel, hz, hplace, hw⟩

theorem nodup_short {l : List Nat} (h : l.length ≤ 1) : l.Nodup := by
  rcases l with _ | ⟨a, _ | ⟨b, l⟩⟩
  · exact List.nodup_nil
  · exact List.nodup_singleton a
  · simp at h

/-- A mount point shows a node of the ramfs. -/
theorem Walk.mount_point (h : Walk fs0 fs held) (hr : MountRule fs0) {a : Nat}
    (ha : a ∈ fs0.node_blocks) (hm : (fs0.nodes a).mount ≠ 0) (i : Nat) :
    place_of (fs.nodes a) ≠ .device i := by
  obtain ⟨hop, hcount, -⟩ := hr a ha hm
  obtain ⟨-, k, hk⟩ := h.tally.kept a ha hcount
  have hplace : place_of (fs.nodes a) = .inode (fs0.nodes a).fs_data := by
    rw [hk]
    exact place_of_inode.mpr ⟨hop, rfl⟩
  rw [hplace]
  exact fun hc => by cases hc

/-- Behind the directory of the devices there are devices only. -/
theorem enter_device {p q : place} {name : List Char} (hp : p = .devices ∨ ∃ i, p = .device i)
    (he : enter fs p name = .ok q) : ∃ i, q = .device i := by
  unfold enter at he
  rcases hp with rfl | ⟨i, rfl⟩
  · dsimp only at he
    split at he
    · cases he
      exact ⟨_, rfl⟩
    · cases he
  · cases he

/-- One turn of the loop of `vfs_resolve`. -/
theorem component_post (h : Walk fs0 fs (current :: held)) (hr : MountRule fs0) (hs : Fits fs0)
    (hheld : held = [] ∨ (held.Nodup ∧ ∃ i, place_of (fs.nodes current) = .device i))
    (hout : current ∉ held) {name : List Char} (hshort : name.length < VFS_NODE_NAME_LENGTH) :
    Post (· = .taken)
      (fun x => match enter fs0 (crossed fs0 (place_of (fs.nodes current))) name with
        | .ok p => x.2.1 = RESOURCE_RESULT_OK ∧ place_of (x.1.nodes x.2.2) = p ∧
          ∃ leaks : List Nat, leaks.length ≤ 1 ∧ (∀ a ∈ leaks, a ∈ fs0.node_blocks) ∧
            (leaks = [] ↔ ¬ Mounted fs0 (place_of (fs.nodes current))) ∧ x.2.2 ∉ leaks ∧
            Walk fs0 x.1 (x.2.2 :: (leaks ++ held))
        | .error r => x.2 = (r, 0) ∧ ∃ leaks : List Nat, leaks ≠ [] ∧
          (Mounted fs0 (place_of (fs.nodes current)) ∨ leaks.length ≤ 1) ∧ leaks.length ≤ 2 ∧
          (leaks ++ held).Nodup ∧ Walk fs0 x.1 (leaks ++ held))
      (resolve_component fs current name) := by
  obtain ⟨fs1, node, leaks, hcross, hnode, hplace, h1, hll, hnl, hold, hiff, hself⟩ :=
    cross_mount_post h hr
  -- Nothing is looked up on a device, and nothing is held before one.
  have hnone : ∀ q, enter fs0 (crossed fs0 (place_of (fs.nodes current))) name = .ok q →
      held = [] := by
    intro q he
    rcases hheld with h0 | ⟨-, i, hi⟩
    · exact h0
    · rw [crossed, if_neg (hi ▸ hr.not_device i), hi] at he
      cases he
  have hpost := looked_up_post h1 hplace hs fun q he => by
    rw [hnone q he, List.append_nil]
    exact hnl
  cases hlookup : lookup fs1 node name with
  | error e =>
    rw [turn_faults hshort hcross hlookup]
    exact hpost.fault hlookup
  | ok x =>
    have hx := hpost.result hlookup
    obtain ⟨fs2, result, next⟩ := x
    cases he : enter fs0 (crossed fs0 (place_of (fs.nodes current))) name with
    | error r =>
      rw [he] at hx
      cases hx
      rw [turn_lost hshort hcross hlookup (enter_ne_ok he)]
      refine ⟨rfl, node :: leaks, List.cons_ne_nil _ _, ?_, Nat.succ_le_succ hll, ?_, h1⟩
      · by_cases hm : Mounted fs0 (place_of (fs.nodes current))
        · exact Or.inl hm
        · rw [hiff.mpr hm]
          exact Or.inr (le_refl 1)
      · rcases hheld with rfl | ⟨hnodup, i, hi⟩
        · rw [List.append_nil]
          exact List.nodup_cons.mpr ⟨hnl, nodup_short hll⟩
        · have hempty := hiff.mpr (hi ▸ hr.not_device i)
          rw [hempty, hself hempty]
          exact List.nodup_cons.mpr ⟨hout, hnodup⟩
    | ok p =>
      rw [he] at hx
      obtain ⟨hok, fs3, fs4, hlock, hrel, hz, hshows, h4⟩ := hx
      dsimp only at hok hlock hrel hz hshows h4
      subst hok
      rw [turn_found hshort hcross hlookup hz hlock hrel]
      refine ⟨rfl, hshows, leaks, hll, fun a ha => (hold a ha).1, hiff, ?_, h4⟩
      -- What is behind a mount point is a device.
      intro hmem
      have hm : Mounted fs0 (place_of (fs.nodes current)) := by
        by_contra hm
        rw [hiff.mpr hm] at hmem
        exact List.not_mem_nil hmem
      rw [crossed, if_pos hm] at he
      obtain ⟨i, rfl⟩ := enter_device (Or.inl rfl) he
      obtain ⟨h0, hm0⟩ := hold _ hmem
      exact h4.mount_point hr h0 hm0 i hshows

/-- A path has a name that the walk reaches and that does not fit the buffer of a component. -/
def LongAhead (fs : fs_t) (p : place) : List (List Char) → Prop
  | [] => False
  | name :: path => VFS_NODE_NAME_LENGTH ≤ name.length ∨
    ∃ q, enter fs (crossed fs p) name = .ok q ∧ LongAhead fs q path

theorem longAhead_cons (fs : fs_t) (p : place) (name : List Char) (path : List (List Char)) :
    LongAhead fs p (name :: path) ↔ VFS_NODE_NAME_LENGTH ≤ name.length ∨
      ∃ q, enter fs (crossed fs p) name = .ok q ∧ LongAhead fs q path := Iff.rfl

/-- The references that a walk leaves behind once it stands on `current`: at most one, to the mount
point, and then only the devices are ahead. -/
def Left (fs0 fs : fs_t) (current : Nat) (held : List Nat) : Prop :=
  held.length ≤ 1 ∧ (∀ a ∈ held, a ∈ fs0.node_blocks) ∧
    (held = [] ∨ ∃ i, place_of (fs.nodes current) = .device i) ∧ current ∉ held

theorem crosses_cons (fs : fs_t) (p : place) (name : List Char) (path : List (List Char)) :
    Crosses fs p (name :: path) ↔
      Mounted fs p ∨ ∃ q, enter fs p name = .ok q ∧ Crosses fs q path := Iff.rfl

theorem leads_ok {p q : place} {name : List Char} (he : enter fs (crossed fs p) name = .ok q)
    (path : List (List Char)) : leads fs p (name :: path) = leads fs q path := by
  rw [leads, he]

theorem leads_error {p : place} {name : List Char} {r : resource_result_t}
    (he : enter fs (crossed fs p) name = .error r) (path : List (List Char)) :
    leads fs p (name :: path) = .error r := by
  rw [leads, he]

/-- The loop of `vfs_resolve`: it ends at the place that the path leads to, and it leaves a mount
point locked when the path goes on behind one. A walk that fails leaves a node locked. Only a name
that is too long overflows the buffer. -/
theorem walk_post (h : Walk fs0 fs (current :: held)) (hr : MountRule fs0) (hs : Fits fs0)
    (hleft : Left fs0 fs current held) (path : List (List Char)) :
    Post (fun e => e = .taken ∨ (e = .overflow ∧ LongAhead fs0 (place_of (fs.nodes current)) path))
      (fun x => ¬ LongAhead fs0 (place_of (fs.nodes current)) path ∧
        match leads fs0 (place_of (fs.nodes current)) path with
        | .ok p => x.2.1 = RESOURCE_RESULT_OK ∧ place_of (x.1.nodes x.2.2) = p ∧
          ∃ rest, (rest = [] ↔ held = [] ∧ ¬ Crosses fs0 (place_of (fs.nodes current)) path) ∧
            Left fs0 x.1 x.2.2 rest ∧ Walk fs0 x.1 (x.2.2 :: rest)
        | .error r => x.2 = (r, 0) ∧
          ∃ rest, rest ≠ [] ∧ rest.length ≤ 2 ∧ rest.Nodup ∧ Walk fs0 x.1 rest)
      (resolve_components fs current path) := by
  induction path generalizing fs current held with
  | nil => exact ⟨id, rfl, rfl, held, by simp [Crosses], hleft, h⟩
  | cons name path ih =>
    have hheld : held = [] ∨ (held.Nodup ∧ ∃ i, place_of (fs.nodes current) = .device i) :=
      hleft.2.2.1.imp_right fun hi => ⟨nodup_short hleft.1, hi⟩
    unfold resolve_components
    by_cases hlong : VFS_NODE_NAME_LENGTH ≤ name.length
    · rw [turn_overflows hlong, error_bind]
      exact Or.inr ⟨rfl, Or.inl hlong⟩
    have hturn := component_post h hr hs hheld hleft.2.2.2 (Nat.lt_of_not_le hlong)
    refine (hturn.mono (fun e he => Or.inl he) fun _ hx => hx).bind ?_
    rintro ⟨fs1, result, next⟩ hx
    dsimp only at hx ⊢
    cases he : enter fs0 (crossed fs0 (place_of (fs.nodes current))) name with
    | error r =>
      rw [he] at hx
      obtain ⟨hres, leaks, hne, hmount, hlt, hnodup, hw⟩ := hx
      have hr' := (Prod.mk.inj hres).1
      subst hr'
      rw [if_pos (enter_ne_ok he), leads_error he]
      refine ⟨?_, rfl, leaks ++ held, by simp [hne], ?_, hnodup, hw⟩
      · rw [longAhead_cons, he]
        simp [hlong]
      rw [List.length_append]
      rcases hleft.2.2.1 with rfl | ⟨i, hi⟩
      · simpa using hlt
      · have hone := hmount.resolve_left (hi ▸ hr.not_device i)
        have := hleft.1
        omega
    | ok p =>
      rw [he] at hx
      obtain ⟨hok, hplace, leaks, hll, hold, hiff, hnl, hw⟩ := hx
      subst hok
      rw [if_neg (by simp), leads_ok he]
      -- A device is behind every mount point, and nothing is behind a device.
      have hnone : held = [] := by
        rcases hleft.2.2.1 with h0 | ⟨i, hi⟩
        · exact h0
        · rw [crossed, if_neg (hi ▸ hr.not_device i), hi] at he
          cases he
      subst hnone
      rw [List.append_nil] at hw
      have hdevice : leaks = [] ∨ ∃ i, place_of (fs1.nodes next) = .device i := by
        by_cases hm : Mounted fs0 (place_of (fs.nodes current))
        · rw [crossed, if_pos hm] at he
          obtain ⟨i, rfl⟩ := enter_device (Or.inl rfl) he
          exact Or.inr ⟨i, hplace⟩
        · exact Or.inl (hiff.mpr hm)
      have hnext := ih hw ⟨hll, hold, hdevice, hnl⟩
      have hahead : LongAhead fs0 (place_of (fs.nodes current)) (name :: path) ↔
          LongAhead fs0 p path := by
        rw [longAhead_cons, he]
        simp [hlong]
      rw [hplace] at hnext
      rw [hahead]
      apply hnext.mono fun _ => id
      rintro x ⟨hshort, hx⟩
      refine ⟨hshort, ?_⟩
      cases hl : leads fs0 p path with
      | error r =>
        rw [hl] at hx
        exact hx
      | ok q =>
        rw [hl] at hx
        obtain ⟨hok, hq, rest, hrest, hleft', hw'⟩ := hx
        refine ⟨hok, hq, rest, ?_, hleft', hw'⟩
        rw [hrest, hiff]
        rw [crosses_cons]
        by_cases hm : Mounted fs0 (place_of (fs.nodes current))
        · simp [hm]
        · rw [crossed, if_neg hm] at he
          simp [hm, he]

end alura_os.vfs
