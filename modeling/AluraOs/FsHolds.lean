-- The pointers to the nodes of the VFS beside those of the cache: of open resources,
-- of `vfs.root` and of the mount points. Each of them is counted, so a node does not go
-- while one of them points to it.
import AluraOs.FsLinks
import AluraOs.InitrdFiles

namespace alura_os.vfs

open alura_os.memory alura_os.resource faults
open resource_result_t resource_type_t vfs_node_type ramfs_result_t

variable {fs fs' : fs_t} {refs taken : Nat → Nat} {held : List Nat} {a : Nat}

/-! ## Pointers -/

/-- The nodes that a node is mounted on. -/
def mount_points (fs : fs_t) (a : Nat) : Finset Nat :=
  {b ∈ fs.node_blocks | (fs.nodes b).mount = a}

/-- How many pointers to a node there are: those that `refs` counts, of open resources, then
`vfs.root`, and the mount pointers. -/
def pointers (fs : fs_t) (refs : Nat → Nat) (a : Nat) : Nat :=
  refs a + (if a = fs.root then 1 else 0) + (mount_points fs a).card

/-- The references beside that of the cache: `devfs_module_init` leaves its mount point locked. -/
def references (fs : fs_t) (refs : Nat → Nat) (a : Nat) : Nat :=
  pointers fs refs a + if (fs.nodes a).mount = 0 then 0 else 1

/-- Every pointer to a node is counted, beside the reference of the cache. -/
structure Held (fs : fs_t) (refs : Nat → Nat) : Prop where
  ordered : Ordered fs
  root : fs.root ∈ fs.node_blocks
  top : place_of (fs.nodes fs.root) = .inode fs.root_node
  mounts : ∀ b ∈ fs.node_blocks, (fs.nodes b).mount ≠ 0 →
    (fs.nodes b).operations = .ramfs ∧ (fs.nodes b).mount ∈ fs.node_blocks ∧
      (fs.nodes (fs.nodes b).mount).operations = .devfs
  opened : ∀ a, 0 < refs a → a ∈ fs.node_blocks
  counts : ∀ a ∈ fs.node_blocks, 1 + references fs refs a ≤ (fs.nodes a).ref_count
  fits : Fits fs

theorem mem_mount_points {b : Nat} :
    b ∈ mount_points fs a ↔ b ∈ fs.node_blocks ∧ (fs.nodes b).mount = a := by
  unfold mount_points
  exact Finset.mem_filter

theorem refs_le_references (fs : fs_t) (refs : Nat → Nat) (a : Nat) :
    refs a ≤ references fs refs a := by
  unfold references pointers
  omega

theorem root_referred (fs : fs_t) (refs : Nat → Nat) : 0 < references fs refs fs.root := by
  unfold references pointers
  rw [if_pos rfl]
  omega

theorem mount_referred (refs : Nat → Nat) {b : Nat} (hb : b ∈ fs.node_blocks) :
    0 < references fs refs (fs.nodes b).mount := by
  have hpos : 0 < (mount_points fs (fs.nodes b).mount).card :=
    Finset.card_pos.mpr ⟨b, mem_mount_points.mpr ⟨hb, rfl⟩⟩
  unfold references pointers
  omega

theorem mount_point_referred (refs : Nat → Nat) (hm : (fs.nodes a).mount ≠ 0) :
    0 < references fs refs a := by
  unfold references
  rw [if_neg hm]
  omega

/-- A node with a pointer to it is referred to beside the cache. -/
theorem Held.count_ne_one (h : Held fs refs) (ha : a ∈ fs.node_blocks)
    (hp : 0 < references fs refs a) : (fs.nodes a).ref_count ≠ 1 := by
  have := h.counts a ha
  omega

theorem Held.mount_rule (h : Held fs refs) : MountRule fs := by
  intro b hb hm
  obtain ⟨hop, hl, hdev⟩ := h.mounts b hb hm
  exact ⟨hop, h.count_ne_one hb (mount_point_referred refs hm), hl, hdev,
    h.count_ne_one hl (mount_referred refs hb)⟩

theorem Held.steady (h : Held fs refs)
    (hroom : ∀ a ∈ fs.node_blocks, (fs.nodes a).ref_count + 1 ≤ 0x100000000) : Steady fs := by
  refine ⟨⟨h.ordered, h.root, h.top, h.mount_rule, fun a ha => ⟨?_, hroom a ha⟩⟩, ?_⟩
  · have := h.counts a ha
    omega
  · exact h.count_ne_one h.root (root_referred fs refs)

/-! ## Calls -/

/-- A call adds no mount pointer. -/
theorem Tally.mount_points_subset (h : Tally fs fs' held) (ha : a ≠ 0) :
    mount_points fs' a ⊆ mount_points fs a := by
  intro b hb
  obtain ⟨hl, rfl⟩ := mem_mount_points.mp hb
  exact mem_mount_points.mpr (h.mounts b hl ha)

theorem Handled.references_le (h : Handled fs fs' held) (refs taken : Nat → Nat)
    (ha : a ∈ fs'.node_blocks) :
    references fs' (fun b => refs b + taken b) a ≤ references fs refs a + taken a := by
  have hcard := Finset.card_le_card
    (h.tally.mount_points_subset (fun hz => h.ordered.cached.null (hz ▸ ha)) : mount_points fs' a ⊆ _)
  have hmount : (if (fs'.nodes a).mount = 0 then 0 else 1) ≤
      if (fs.nodes a).mount = 0 then 0 else 1 := by
    by_cases hm : (fs'.nodes a).mount = 0
    · rw [if_pos hm]
      exact Nat.zero_le _
    · obtain ⟨-, he⟩ := h.tally.mounts a ha hm
      rw [he]
  unfold references pointers
  rw [h.root]
  dsimp only
  omega

/-- What has no node has no references. -/
theorem Held.no_references (h : Held fs refs) (ha : a ∉ fs.node_blocks) (hz : a ≠ 0) :
    pointers fs refs a = 0 := by
  have hrefs : refs a = 0 := by
    by_contra hne
    exact ha (h.opened a (Nat.pos_of_ne_zero hne))
  have hroot : a ≠ fs.root := fun he => ha (he ▸ h.root)
  have hnone : mount_points fs a = ∅ := by
    rw [Finset.eq_empty_iff_forall_notMem]
    intro b hb
    obtain ⟨hl, rfl⟩ := mem_mount_points.mp hb
    exact ha (h.mounts b hl hz).2.1
  unfold pointers
  rw [hrefs, if_neg hroot, hnone]
  rfl

/-- A call that takes references keeps those that there are, if no count wraps. Some of the new
ones may be for pointers that open resources get. -/
theorem Held.handled (h : Held fs refs) (hh : Handled fs fs' held)
    (hroom : ∀ a ∈ fs.node_blocks, (fs.nodes a).ref_count + held.count a < 0x100000000)
    (hlen : ∀ a, 1 + held.count a < 0x100000000) (taken : Nat → Nat)
    (htaken : ∀ a, taken a ≤ held.count a) : Held fs' fun a => refs a + taken a := by
  have hkept : ∀ b ∈ fs.node_blocks, 0 < references fs refs b →
      b ∈ fs'.node_blocks ∧ ∃ k, fs'.nodes b = { fs.nodes b with ref_count := k } :=
    fun b hb hp => hh.tally.kept b hb (h.count_ne_one hb hp)
  obtain ⟨hroot, k, hk⟩ := hkept fs.root h.root (root_referred fs refs)
  refine ⟨hh.ordered, ?_, ?_, ?_, ?_, ?_, hh.tally.fits⟩
  · rw [hh.root]
    exact hroot
  · rw [hh.root, hh.root_node, hk]
    exact h.top
  · intro b hb hm
    obtain ⟨hb0, he⟩ := hh.tally.mounts b hb hm
    rw [← he] at hm ⊢
    obtain ⟨hop, hl, hdev⟩ := h.mounts b hb0 hm
    obtain ⟨-, j, hj⟩ := hkept b hb0 (mount_point_referred refs hm)
    obtain ⟨hl', i, hi⟩ := hkept _ hl (mount_referred refs hb0)
    exact ⟨by rw [hj]; exact hop, hl', by rw [hi]; exact hdev⟩
  · intro b hpos
    by_cases hb : 0 < refs b
    · exact (hkept b (h.opened b hb) (Nat.lt_of_lt_of_le hb (refs_le_references fs refs b))).1
    · refine hh.tally.live b (List.count_pos_iff.mp ?_)
      have := htaken b
      omega
  · intro b hb
    have hle := hh.references_le refs taken hb
    have htook := htaken b
    by_cases hb0 : b ∈ fs.node_blocks
    · have hcount := h.counts b hb0
      rw [hh.tally.old b hb0 hb, u32_of_lt (hroom b hb0)]
      omega
    · have hz : b ≠ 0 := fun hz => hh.ordered.cached.null (hz ▸ hb)
      have hmount : (fs'.nodes b).mount = 0 := by
        by_contra hm
        exact hb0 (hh.tally.mounts b hb hm).1
      have hcard := Finset.card_le_card (hh.tally.mount_points_subset hz)
      have hnone := h.no_references hb0 hz
      rw [(hh.tally.new b hb hb0).1, u32_of_lt (hlen b)]
      unfold references pointers
      unfold pointers at hnone
      rw [if_pos hmount, hh.root]
      dsimp only
      omega

/-- A change of the directories or of file data leaves the references. -/
theorem Held.edited (h : Held fs refs) (ho : Ordered fs') (hs : SameVfs fs fs')
    (hr : fs'.root = fs.root) (hn : fs'.root_node = fs.root_node) : Held fs' refs := by
  have hrefs : references fs' refs = references fs refs := by
    funext b
    unfold references pointers mount_points
    rw [hs.nodes, hs.node_blocks, hr]
  refine ⟨ho, ?_, ?_, ?_, ?_, ?_, ?_⟩
  · rw [hr, hs.node_blocks]
    exact h.root
  · rw [hr, hn, hs.nodes]
    exact h.top
  · rw [hs.node_blocks, hs.nodes]
    exact h.mounts
  · rw [hs.node_blocks]
    exact h.opened
  · rw [hs.node_blocks, hs.nodes, hrefs]
    exact h.counts
  · unfold Fits
    rw [hs.node_blocks, hs.nodes]
    exact h.fits

/-! ## Closes -/

theorem released_record (fs : fs_t) (a b : Nat) :
    ∃ k, (released fs a).nodes b = { fs.nodes b with ref_count := k } := by
  rw [released_nodes]
  exact setCount_record fs a _ b

theorem released_root (fs : fs_t) (a : Nat) :
    (released fs a).root = fs.root ∧ (released fs a).root_node = fs.root_node := by
  rcases released_eq fs a with he | he
  · rw [he]
    exact ⟨rfl, rfl⟩
  · rw [he, evicted_root, evicted_root_node]
    exact ⟨rfl, rfl⟩

/-- The nodes after a release: the one that was released goes if only the cache refers to it. -/
theorem released_blocks (fs : fs_t) (a : Nat) :
    (released fs a).node_blocks =
      if sub32 (fs.nodes a).ref_count 1 = 1 then fs.node_blocks.erase a else fs.node_blocks := by
  by_cases hone : sub32 (fs.nodes a).ref_count 1 = 1
  · have he : released fs a = evicted (fs.setCount a (sub32 (fs.nodes a).ref_count 1)) a := by
      unfold released
      exact if_pos hone
    rw [if_pos hone, he]
    exact evicted_node_blocks _ a
  · have he : released fs a = fs.setCount a (sub32 (fs.nodes a).ref_count 1) := by
      unfold released
      exact if_neg hone
    rw [if_neg hone, he]
    rfl

/-- The pointer of an open resource goes, and its reference with it. -/
theorem Held.released (h : Held fs refs) (hp : 0 < refs a) :
    Held (vfs.released fs a) (Function.update refs a (refs a - 1)) := by
  have ha := h.opened a hp
  have hcount := h.counts a ha
  have hrefs := refs_le_references fs refs a
  have hsub : sub32 (fs.nodes a).ref_count 1 = (fs.nodes a).ref_count - 1 := by
    have hfit := h.fits a ha
    unfold sub32
    omega
  have hblocks := released_blocks fs a
  rw [hsub] at hblocks
  have hrecord := released_record fs a
  have hordered := h.ordered.released ha
  obtain ⟨hroot, hroot_node⟩ := released_root fs a
  have hself : ((vfs.released fs a).nodes a).ref_count = (fs.nodes a).ref_count - 1 := by
    rw [released_nodes, setCount_self]
    exact hsub
  have hother : ∀ b, b ≠ a → (vfs.released fs a).nodes b = fs.nodes b := by
    intro b hb
    rw [released_nodes, setCount_ne fs _ hb]
  generalize vfs.released fs a = g at *
  have hsubset : ∀ b ∈ g.node_blocks, b ∈ fs.node_blocks := by
    intro b hb
    rw [hblocks] at hb
    split at hb
    · exact Finset.mem_of_mem_erase hb
    · exact hb
  -- What another pointer leads to stays.
  have hstays : ∀ b ∈ fs.node_blocks, (b = a → 1 < references fs refs b) → b ∈ g.node_blocks := by
    intro b hb hmore
    rw [hblocks]
    split
    · refine Finset.mem_erase.mpr ⟨fun he => ?_, hb⟩
      have := hmore he
      rw [he] at this
      omega
    · exact hb
  have hmount : ∀ b, (g.nodes b).mount = (fs.nodes b).mount := by
    intro b
    obtain ⟨k, hk⟩ := hrecord b
    rw [hk]
  have hpoints : ∀ b, mount_points g b ⊆ mount_points fs b := by
    intro b c hc
    obtain ⟨hl, hm⟩ := mem_mount_points.mp hc
    exact mem_mount_points.mpr ⟨hsubset c hl, by rw [← hm, hmount]⟩
  refine ⟨hordered, ?_, ?_, ?_, ?_, ?_, ?_⟩
  · rw [hroot]
    refine hstays _ h.root fun he => ?_
    unfold references pointers
    rw [if_pos rfl, he]
    omega
  · obtain ⟨k, hk⟩ := hrecord fs.root
    rw [hroot, hroot_node, hk]
    exact h.top
  · intro b hb hm
    rw [hmount] at hm ⊢
    obtain ⟨hop, hl, hdev⟩ := h.mounts b (hsubset b hb) hm
    obtain ⟨k, hk⟩ := hrecord b
    obtain ⟨j, hj⟩ := hrecord (fs.nodes b).mount
    refine ⟨by rw [hk]; exact hop, hstays _ hl fun he => ?_, by rw [hj]; exact hdev⟩
    have hpos : 0 < (mount_points fs (fs.nodes b).mount).card :=
      Finset.card_pos.mpr ⟨b, mem_mount_points.mpr ⟨hsubset b hb, rfl⟩⟩
    unfold references pointers
    rw [he] at hpos ⊢
    omega
  · intro b hb
    by_cases hba : b = a
    · rw [hba, Function.update_self] at hb
      refine hstays b (hba ▸ ha) fun _ => ?_
      rw [hba]
      omega
    · rw [Function.update_of_ne hba] at hb
      exact hstays b (h.opened b hb) fun he => absurd he hba
  · intro b hb
    have hcard := Finset.card_le_card (hpoints b)
    have hold := h.counts b (hsubset b hb)
    unfold references pointers at hold ⊢
    rw [hmount, hroot]
    by_cases hba : b = a
    · subst hba
      rw [Function.update_self, hself]
      omega
    · rw [Function.update_of_ne hba, hother b hba]
      omega
  · intro b hb
    have hfit := h.fits b (hsubset b hb)
    by_cases hba : b = a
    · rw [hba] at hfit ⊢
      rw [hself]
      omega
    · rw [hother b hba]
      exact hfit

/-! ## The boot -/

/-- Nothing is open and nothing is mounted. -/
theorem Unmounted.held_after {fs0 : fs_t} (h : Unmounted fs0) (hh : Handled fs0 fs held)
    (hlen : held.length ≤ 7) : Held fs fun _ => 0 := by
  obtain ⟨hspare, hmounts, hmore, hroot, htop⟩ := h.handled hh hlen
  refine ⟨hh.ordered, hroot, htop, fun b hb hm => absurd (hmounts b hb) hm, ?_, ?_, hspare.fits⟩
  · exact fun b hb => absurd hb (Nat.lt_irrefl 0)
  · intro b hb
    have hone := (hspare b hb).1
    have hnone : mount_points fs b = ∅ := by
      rw [Finset.eq_empty_iff_forall_notMem]
      intro c hc
      obtain ⟨hl, rfl⟩ := mem_mount_points.mp hc
      exact hh.ordered.cached.null (hmounts c hl ▸ hb)
    unfold references pointers
    rw [if_pos (hmounts b hb), hnone, Finset.card_empty]
    dsimp only
    by_cases hbr : b = fs.root
    · have := hmore b hb (Or.inr hbr)
      rw [if_pos hbr]
      omega
    · rw [if_neg hbr]
      omega

/-- The devices are mounted on a node that stays locked. -/
theorem DevicesMounted.held_after {fs0 : fs_t} {dev m : Nat} (hd : DevicesMounted fs fs' dev m)
    (h : Unmounted fs0) (hh : Handled fs0 fs held) (hlen : held.length ≤ 7) (hdev : dev ∈ held)
    (hop : (fs.nodes dev).operations = .ramfs) : Held fs' fun _ => 0 := by
  have hsteady := hd.steady h hh hlen hdev hop
  obtain ⟨-, hmounts, hmore, hroot, -⟩ := h.handled hh hlen
  obtain ⟨-, hmm, hmc⟩ := hd.root_of_devices
  have hlive := hh.tally.live dev hdev
  have hroot' := hsteady.settled.root
  have hdirectory := hd.directory
  rw [hd.root] at hroot'
  have hmount : ∀ b ∈ fs'.node_blocks, (fs'.nodes b).mount ≠ 0 →
      b = dev ∧ (fs'.nodes b).mount = m := by
    intro b hb hm
    rw [hd.node_blocks, Finset.mem_insert] at hb
    rcases hb with rfl | hb
    · exact absurd hmm hm
    · by_cases hbd : b = dev
      · rw [hbd, hdirectory]
        exact ⟨rfl, rfl⟩
      · rw [hd.others b hb hbd] at hm
        exact absurd (hmounts b hb) hm
  -- The mount point was referred to by the cache, by the call, and perhaps by `vfs.root`.
  have hdevcount : (if dev = fs.root then 1 else 0) + 2 ≤ (fs'.nodes dev).ref_count := by
    have hpos := List.count_pos_iff.mpr hdev
    have hle := List.count_le_length (a := dev) (l := held)
    rw [hdirectory]
    dsimp only
    by_cases hd0 : dev ∈ fs0.node_blocks
    · obtain ⟨h1, h2⟩ := h.spare dev hd0
      rw [hh.tally.old dev hd0 hlive, u32_of_lt (by omega)]
      by_cases hdr : dev = fs.root
      · have := h.steady.root
        rw [hh.root] at hdr
        rw [← hdr] at this
        rw [if_pos (by rw [hh.root]; exact hdr)]
        omega
      · rw [if_neg hdr]
        omega
    · have hdr : dev ≠ fs.root := by
        rw [hh.root]
        exact fun he => hd0 (he ▸ h.steady.settled.root)
      rw [(hh.tally.new dev hlive hd0).1, u32_of_lt (by omega), if_neg hdr]
      omega
  refine ⟨hsteady.settled.ordered, hsteady.settled.root, hsteady.settled.top, ?_, ?_, ?_,
    hsteady.settled.counts.fits⟩
  · intro b hb hm
    obtain ⟨hop, -, hl, hdev, -⟩ := hsteady.settled.mounts b hb hm
    exact ⟨hop, hl, hdev⟩
  · exact fun b hb => absurd hb (Nat.lt_irrefl 0)
  · intro b hb
    have hone := (hsteady.settled.counts b hb).1
    have hpoints : ∀ c ∈ mount_points fs' b, c = dev ∧ b = m := by
      intro c hc
      obtain ⟨hl, rfl⟩ := mem_mount_points.mp hc
      exact hmount c hl fun hz => hsteady.settled.ordered.cached.null (hz ▸ hb)
    unfold references pointers
    rw [hd.root]
    dsimp only
    by_cases hbm : b = m
    · -- The root of the devices.
      have hcard : (mount_points fs' b).card ≤ 1 :=
        Finset.card_le_one.mpr fun c hc d hd => by rw [(hpoints c hc).1, (hpoints d hd).1]
      have hbr : b ≠ fs.root := fun he => hd.fresh (hbm ▸ he ▸ hroot)
      rw [if_neg hbr, hbm, hmm, if_pos rfl, hmc]
      rw [hbm] at hcard
      omega
    · have hcard : (mount_points fs' b).card = 0 := by
        rw [Finset.card_eq_zero, Finset.eq_empty_iff_forall_notMem]
        exact fun c hc => hbm (hpoints c hc).2
      by_cases hbd : b = dev
      · rw [hbd] at hcard ⊢
        have : (if (fs'.nodes dev).mount = 0 then 0 else 1) ≤ 1 := by split <;> omega
        omega
      · have hz : (fs'.nodes b).mount = 0 := by
          by_contra hm
          exact hbd (hmount b hb hm).1
        rw [hz, if_pos rfl]
        by_cases hbr : b = fs.root
        · have := hsteady.root
          rw [hd.root, ← hbr] at this
          rw [if_pos hbr]
          omega
        · rw [if_neg hbr]
          omega

/-- After the boot no resource is open, and the references to the nodes are counted. -/
theorem boot_held {memory heap : Nat → Nat} {initrd : List tar_entry_t} (hheap : ∀ n, heap n ≠ 0)
    (hends : FilesAtTheEnds initrd) (hboot : boot memory heap initrd = .ok fs) :
    Held fs fun _ => 0 := by
  obtain ⟨g0, hunmounted, g, held, hlen, hh, rfl | ⟨dev, m, hdev, hop, hd⟩⟩ :=
    boot_ready hheap hends hboot
  · exact hunmounted.held_after hh hlen
  · exact hd.held_after hunmounted hh hlen hdev hop

end alura_os.vfs
