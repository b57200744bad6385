-- The file systems refine a listing of files under names: every call of a task is a call on the
-- listing, in every run from the boot.
import AluraOs.Listings

namespace alura_os.vfs

open alura_os.memory alura_os.task_manager alura_os.resource faults byte_strings name_trees
open resource_result_t resource_type_t vfs_node_type ramfs_result_t

variable {fs fs' : fs_t} {f f' : Files} {c : VfsCall} {r node x : Nat} {path : List Char}
  {result : resource_result_t}

/-! ## The first part of an open -/

theorem vfs_truncate_inode (h : Ordered fs) (hn : node ∈ fs.node_blocks)
    (ht : (fs.nodes node).type = VFS_NODE_TYPE_FILE) (hp : place_of (fs.nodes node) = .inode x)
    (hc : vfs_truncate fs node = .ok (fs', result)) : fs' = truncated fs x := by
  obtain ⟨hop, rfl⟩ := place_of_inode.mp hp
  have hthere := ((h.views node hn).shown hop).there
  unfold vfs_truncate at hc
  rw [if_neg (h.ne_null hn), node_ok.mpr ⟨hn, rfl⟩, ok_bind, if_neg (not_not.mpr ht), hop] at hc
  dsimp only at hc
  unfold ramfs_truncate at hc
  rw [node_ok.mpr ⟨hn, rfl⟩, ok_bind, inode_ok.mpr ⟨hthere, rfl⟩, ok_bind] at hc
  cases hc
  rfl

/-- An open is for what the path leads to, or for a file that `vfs_create` finds or makes. -/
def OpenedAt (fs fs' : fs_t) (path : List Char) (flags : Nat) (p : place) : Prop :=
  (destination fs path = .ok p ∧ entry_at fs' = entry_at fs) ∨
    (destination fs path = .error RESOURCE_RESULT_NOT_FOUND ∧ flags &&& SYSCALL_O_CREAT ≠ 0 ∧
      ∃ c, p = .inode c ∧ MadeAt fs fs' (components [] (path_copy path)) VFS_NODE_TYPE_FILE c)

theorem AtFolder.after {g : fs_t} {held : List Nat} {path : List (List Char)} {y : Nat}
    {name : List Char} (h : AtFolder g path y name) (hw : Walk fs g held) (hr : MountRule fs) :
    AtFolder fs path y name := by
  obtain ⟨folder, hpath, hlead, hdir⟩ := h
  rw [hw.leads_eq hr, hw.calm.tree.root_node] at hlead
  rw [hw.calm.tree.inodes] at hdir
  exact ⟨folder, hpath, hlead, hdir⟩

theorem MadeAt.after {g : fs_t} {held : List Nat} {path : List (List Char)}
    {type : vfs_node_type} {c : Nat} (h : MadeAt g fs' path type c) (hw : Walk fs g held)
    (hr : MountRule fs) : MadeAt fs fs' path type c := by
  obtain ⟨⟨y, name, hat⟩, hends⟩ := h
  rw [hw.calm.tree.entry_at, hw.calm.tree.inode_blocks] at hends
  exact ⟨⟨y, name, hat.after hw hr⟩, hends⟩

theorem vfs_open_node_names (h : Steady fs) {flags : Nat}
    (hc : vfs_open_node fs path flags = .ok (fs', result, node)) :
    (entry_at fs' = entry_at fs ∨ ∃ p, OpenedAt fs fs' path flags p) ∧
      (result = RESOURCE_RESULT_OK →
        OpenedAt fs fs' path flags (place_of (fs'.nodes node)) ∧
          (flags &&& SYSCALL_O_TRUNC ≠ 0 → ∀ x, destination fs path = .ok (.inode x) →
            contents fs' x = [])) := by
  unfold vfs_open_node at hc
  obtain ⟨⟨g, r1, a⟩, hresolve, hc⟩ := bind_ok.mp hc
  obtain ⟨-, hx⟩ := (destination_post h.settled.resting path).result hresolve
  dsimp only at hc hx
  cases hd : destination fs path with
  | ok p =>
    rw [hd] at hx
    obtain ⟨rfl, hp, rest, -, -, -, -, hw, -⟩ := hx
    have hentry := hw.calm.tree.entry_at
    rw [if_neg (not_not.mpr rfl)] at hc
    obtain ⟨n, hn, hc⟩ := bind_ok.mp hc
    obtain ⟨hlive, rfl⟩ := node_ok.mp hn
    by_cases ht : (g.nodes a).type ≠ VFS_NODE_TYPE_FILE
    · rw [if_pos ht] at hc
      cases hc
      exact ⟨Or.inl hentry, fun hr => by cases hr⟩
    rw [if_neg ht] at hc
    by_cases hf : flags &&& SYSCALL_O_TRUNC = 0
    · rw [if_pos hf] at hc
      cases hc
      refine ⟨Or.inl hentry, fun _ => ⟨Or.inl ⟨?_, hentry⟩, fun hno => absurd hf hno⟩⟩
      rw [hd, hp]
    rw [if_neg hf] at hc
    obtain ⟨⟨g1, r1⟩, htruncate, hc⟩ := bind_ok.mp hc
    cases hc
    have hkept : entry_at g1 = entry_at fs ∧ g1.nodes = g.nodes := by
      rcases vfs_truncate_cases hw.ordered hlive htruncate with rfl | ⟨x, -, -, rfl⟩
      · exact ⟨hentry, rfl⟩
      · have hdata := dataOnly_truncated g x
        refine ⟨Eq.trans ?_ hentry, hdata.same.nodes⟩
        exact entry_at_congr hdata.names.root_node fun b => (hdata.names.record b).2.1
    obtain ⟨hentry', hnodes⟩ := hkept
    refine ⟨Or.inl hentry', fun _ => ⟨Or.inl ⟨?_, hentry'⟩, fun _ x hx => ?_⟩⟩
    · rw [hd, hnodes, hp]
    · cases hx
      rw [vfs_truncate_inode hw.ordered hlive (not_not.mp ht) hp htruncate]
      exact contents_truncated
  | error e =>
    rw [hd] at hx
    obtain ⟨hres, hr, rest, -, -, hnodup, hw⟩ := hx
    obtain ⟨rfl, rfl⟩ := Prod.mk.inj hres
    have hentry := hw.calm.tree.entry_at
    rw [if_pos hr] at hc
    by_cases hno : r1 ≠ RESOURCE_RESULT_NOT_FOUND ∨ flags &&& SYSCALL_O_CREAT = 0
    · rw [if_pos hno] at hc
      cases hc
      exact ⟨Or.inl hentry, fun hok => absurd hok hr⟩
    rw [if_neg hno] at hc
    rw [not_or, not_not] at hno
    obtain ⟨rfl, hcreat⟩ := hno
    obtain ⟨⟨g1, r2, child⟩, hcreate, hc⟩ := bind_ok.mp hc
    have hnames := vfs_create_names (h.after hw.handled hnodup) hcreate
    dsimp only at hc
    by_cases hr2 : r2 ≠ RESOURCE_RESULT_OK
    · rw [if_pos hr2] at hc
      rw [if_neg hr2] at hnames
      cases hc
      exact ⟨Or.inl (hnames.trans hentry), fun hok => absurd hok hr2⟩
    rw [if_neg hr2] at hc
    rw [if_pos (not_not.mp hr2)] at hnames
    obtain ⟨c, hplace, hmade⟩ := hnames
    have hopened : OpenedAt fs g1 path flags (.inode c) :=
      Or.inr ⟨hd, hcreat, c, rfl, hmade.after hw h.settled.mounts⟩
    obtain ⟨n, hn, hc⟩ := bind_ok.mp hc
    split at hc
    · cases hc
      exact ⟨Or.inr ⟨_, hopened⟩, fun hok => by cases hok⟩
    · cases hc
      refine ⟨Or.inr ⟨_, hopened⟩, fun _ => ⟨?_, fun _ x hx => ?_⟩⟩
      · rw [hplace]
        exact hopened
      · cases hx

/-! ## The listing of the file systems -/

def view (f : Files) : Listing where
  entries := entry_at f.fs
  mounted x := decide (Mounted f.fs (.inode x))
  kind x := (f.fs.inodes x).type
  bytes := contents f.fs
  opens r :=
    if r ∈ f.store.blocks then some (place_of (f.fs.nodes (f.store.resources r).data)) else none

theorem Held.names_view {refs : Nat → Nat} (h : Held f.fs refs) (path : List (List Char)) :
    (view f).names path = leads f.fs (.inode f.fs.root_node) path := by
  rw [h.mount_rule.leads_eq, lookup_eq (p := []) _ _ _ _ rfl]
  unfold Listing.names view
  simp only [decide_eq_true_eq]
  rfl

theorem view_opens (hr : r ∈ f.store.blocks) :
    (view f).opens r = some (place_of (f.fs.nodes (f.store.resources r).data)) := if_pos hr

theorem view_closed (hr : r ∉ f.store.blocks) : (view f).opens r = none := if_neg hr

theorem opens_some {p : place} : (view f).opens r = some p ↔
    r ∈ f.store.blocks ∧ place_of (f.fs.nodes (f.store.resources r).data) = p := by
  by_cases hr : r ∈ f.store.blocks
  · rw [view_opens hr, Option.some.injEq]
    exact ⟨fun hp => ⟨hr, hp⟩, fun hp => hp.2⟩
  · rw [view_closed hr]
    exact ⟨fun hp => (Option.some_ne_none _ hp.symm).elim, fun hp => absurd hp.1 hr⟩

/-- What can be seen is there. -/
theorem Sound.visible_live (h : Sound f) (hx : (view f).Visible x) : x ∈ f.fs.inode_blocks := by
  rcases hx with ⟨path, hpath⟩ | ⟨r, hr⟩
  · exact h.held.ordered.entry_live hpath
  · obtain ⟨hblock, hplace⟩ := opens_some.mp hr
    obtain ⟨hop, rfl⟩ := place_of_inode.mp hplace
    exact ((h.held.ordered.views _ (h.node_live hblock)).shown hop).there

theorem Sound.unseen (h : Sound f) (hx : x ∉ f.fs.inode_blocks) :
    ¬ (view f).Visible x ∧ (view f).mounted x = false := by
  refine ⟨fun hv => hx (h.visible_live hv), decide_eq_false ?_⟩
  rintro ⟨a, ha, hp, -⟩
  obtain ⟨hop, rfl⟩ := place_of_inode.mp hp
  exact hx ((h.held.ordered.views a ha).shown hop).there

theorem Leaves.stays (hl : Leaves f c f') (h : Sound f) {altered : Nat → Prop}
    (ha : ∀ x, Alters f x c → altered x) : (view f).Stays (view f') altered := by
  refine ⟨?_, fun x hx _ => hl.types x (h.visible_live hx), fun x hx _ hfile hno => ?_⟩
  · funext x
    exact decide_eq_decide.mpr (hl.mounted _)
  · exact hl.bytes x ⟨h.visible_live hx, hfile⟩ fun hc => hno (ha x hc)

theorem Leaves.opens_eq (hl : Leaves f c f') (hr : r ∈ f.store.blocks) (hr' : r ∈ f'.store.blocks) :
    (view f').opens r = (view f).opens r := by
  rw [view_opens hr', view_opens hr, hl.resources r hr hr', hl.nodes r hr hr']

theorem Leaves.same_opens (hl : Leaves f c f') (hb : f'.store.blocks = f.store.blocks) :
    (view f').opens = (view f).opens := by
  funext r
  by_cases hr : r ∈ f.store.blocks
  · exact hl.opens_eq hr (hb ▸ hr)
  · rw [view_closed hr, view_closed (hb ▸ hr)]

theorem Leaves.fewer_opens (hl : Leaves f c f') (hb : f'.store.blocks ⊆ f.store.blocks) (r : Nat) :
    (view f').opens r = (view f).opens r ∨
      ((view f').opens r = none ∧ r ∈ f.store.blocks ∧ r ∉ f'.store.blocks) := by
  by_cases hr' : r ∈ f'.store.blocks
  · exact Or.inl (hl.opens_eq (hb hr') hr')
  · by_cases hr : r ∈ f.store.blocks
    · exact Or.inr ⟨view_closed hr', hr, hr'⟩
    · rw [view_closed hr, view_closed hr']
      exact Or.inl rfl

/-! ## Closed resources -/

theorem remove_blocks_cases (s : Store) (task index : Nat) :
    (resource_remove s task index).1.blocks = s.blocks ∨
      (resource_remove s task index).1.blocks = s.blocks.erase (s.slot task index) := by
  unfold resource_remove
  split
  · exact Or.inl rfl
  dsimp only
  split
  · exact Or.inl rfl
  split
  · unfold close_and_free
    split <;> exact Or.inr rfl
  · exact Or.inl rfl

/-- A removal frees the resource of its slot at most. -/
theorem removed_block {s s' : Store} {task index : Nat}
    (hs : (resource_remove s task index).1 = s') (hr : r ∈ s.blocks) (hgone : r ∉ s'.blocks) :
    r = s.slot task index := by
  have hcases := remove_blocks_cases s task index
  rw [hs] at hcases
  rcases hcases with hb | hb
  · rw [hb] at hgone
    exact absurd hr hgone
  · rw [hb] at hgone
    by_contra hne
    exact hgone (Finset.mem_erase.mpr ⟨hne, hr⟩)

/-- The release loop of a task frees the resources of its slots at most. -/
theorem released_block {s s' : Store} {task : Nat} (hs : release_resources s task = s')
    (hr : r ∈ s.blocks) (hgone : r ∉ s'.blocks) :
    ∃ index < TASK_MAX_RESOURCES, r = s.slot task index := by
  by_contra hnone
  have hstep : ∀ i (s1 : Store), i < TASK_MAX_RESOURCES →
      (r ∈ s1.blocks ∧ ∀ j, i ≤ j → s1.slot task j = s.slot task j) →
      r ∈ (if s1.slot task i = 0 then s1 else (resource_remove s1 task i).1).blocks ∧
        ∀ j, i + 1 ≤ j →
          (if s1.slot task i = 0 then s1 else (resource_remove s1 task i).1).slot task j =
            s.slot task j := by
    intro i s1 hi ⟨hr1, hslots⟩
    by_cases hz : s1.slot task i = 0
    · rw [if_pos hz]
      exact ⟨hr1, fun j hj => hslots j (Nat.le_of_succ_le hj)⟩
    rw [if_neg hz]
    have hslot := fun j => remove_slot (s := s1) (t := task) hi task j
    generalize hs1 : (resource_remove s1 task i).1 = s2 at *
    constructor
    · by_contra hgone1
      exact hnone ⟨i, hi, (removed_block hs1 hr1 hgone1).trans (hslots i (le_refl i))⟩
    · intro j hj
      rw [hslot, if_neg fun he => by omega]
      exact hslots j (Nat.le_of_succ_le hj)
  have hloop := loops.foldl_range hstep ⟨hr, fun _ _ => rfl⟩
  unfold release_resources at hs
  rw [hs] at hloop
  exact hgone hloop.1

/-! ## One call -/

theorem AtFolder.in_folder {refs : Nat → Nat} (hf : Held f.fs refs) {path : List (List Char)}
    {y : Nat} {name : List Char} (h : AtFolder f.fs path y name) : (view f).InFolder path := by
  obtain ⟨folder, hpath, hlead, hdir⟩ := h
  exact ⟨folder, name, y, hpath, (hf.names_view folder).trans hlead, hdir⟩

theorem MadeAt.made (h : Sound f) {path : List (List Char)} {type : vfs_node_type} {c : Nat}
    (hm : MadeAt f.fs f'.fs path type c) : (view f).Made (view f') path type c := by
  obtain ⟨⟨y, name, hat⟩, hends⟩ := hm
  refine ⟨hat.in_folder h.held, hends.imp id ?_⟩
  rintro ⟨hnone, hfresh, htype, hbytes, hentry⟩
  obtain ⟨hunseen, hplain⟩ := h.unseen hfresh
  exact ⟨hnone, hunseen, hplain, htype, hbytes, hentry⟩

theorem OpenedAt.opened (h : Sound f) {flags : Nat} {p : place}
    (ho : OpenedAt f.fs f'.fs path flags p) : (view f).Opened (view f') path flags p := by
  unfold Listing.Opened
  rw [h.held.names_view]
  refine ho.imp id ?_
  rintro ⟨hd, hcreat, c, rfl, hmade⟩
  exact ⟨hd, hcreat, c, rfl, hmade.made h⟩

/-- A read through an open resource gives the bytes of the listing. -/
theorem view_read (h : Sound f) (hr : (view f).opens r = some (.inode x)) (offset length : Nat)
    (device : resource_result_t × List Nat) :
    vfs_read f.fs (f.store.resources r).data offset length device =
      .ok (RESOURCE_RESULT_OK, slice ((view f).bytes x) offset length) := by
  obtain ⟨hblock, hplace⟩ := opens_some.mp hr
  exact OpenFor.read ⟨h, hblock, rfl, hplace, rfl⟩ offset length device

theorem open_answered (h : Sound f) (hroom : Roomy f) {task flags block : Nat}
    (ha : Allowed f (.open_file task path flags block))
    (hc : vfs_call f (.open_file task path flags block) = .ok (f', result)) :
    Answered f.store.slot (view f) (.open_file task path flags block) result (view f') := by
  obtain ⟨hsound, hleaves⟩ := vfs_call_keeps h hroom ha hc
  unfold vfs_call at hc
  obtain ⟨⟨fs', s', r1, index⟩, hopen, hc⟩ := bind_ok.mp hc
  cases hc
  unfold vfs_open at hopen
  obtain ⟨⟨g, r2, node⟩, hnode, hopen⟩ := bind_ok.mp hopen
  obtain ⟨hentries, hok⟩ := vfs_open_node_names (h.steady hroom) hnode
  unfold Answered
  refine ⟨hleaves.stays h fun x hx => ?_, ?_⟩
  · rw [h.held.names_view]
    exact hx
  dsimp only at hopen
  by_cases hr2 : r2 ≠ RESOURCE_RESULT_OK
  · rw [if_pos hr2] at hopen
    cases hopen
    rw [if_neg hr2]
    exact ⟨hleaves.same_opens rfl, hentries.imp id fun ⟨p, hp⟩ => ⟨p, OpenedAt.opened h hp⟩⟩
  rw [if_neg hr2] at hopen
  obtain ⟨hopened, hempty⟩ := hok (not_not.mp hr2)
  obtain ⟨n, -, hopen⟩ := bind_ok.mp hopen
  cases hreg : resource_register f.store task n.resource_type node vfs_operations flags block with
  | none =>
    rw [hreg] at hopen
    cases hopen
  | some y =>
    rw [hreg] at hopen
    obtain ⟨s1, r3, i⟩ := y
    cases hopen
    rcases opened_register hreg with ⟨hne, -, hb, -⟩ | ⟨rfl, -, hnew, hb, hdata, -⟩
    · rw [if_neg hne]
      exact ⟨hleaves.same_opens hb, hentries.imp id fun ⟨p, hp⟩ => ⟨p, OpenedAt.opened h hp⟩⟩
    rw [if_pos rfl]
    have hblock : block ∈ s'.blocks := by
      rw [hb]
      exact Finset.mem_insert_self _ _
    refine ⟨place_of (fs'.nodes node), OpenedAt.opened h hopened, view_closed hnew, ?_, ?_, ?_⟩
    · funext r
      by_cases hr : r = block
      · subst hr
        rw [Function.update_self, view_opens hblock]
        dsimp only
        rw [hdata]
      · rw [Function.update_of_ne hr]
        by_cases hold : r ∈ f.store.blocks
        · exact hleaves.opens_eq hold (by rw [hb]; exact Finset.mem_insert_of_mem hold)
        · rw [view_closed hold, view_closed]
          rw [hb, Finset.mem_insert]
          exact fun hm => hm.elim hr hold
    · intro x hx
      have htype := hsound.files block hblock
      have hlive := hsound.node_live hblock
      dsimp only at htype hlive
      rw [hdata] at htype hlive
      obtain ⟨hop, rfl⟩ := place_of_inode.mp hx
      exact ((hsound.held.ordered.views node hlive).shown hop).type.trans htype
    · intro hflags x hx
      rw [h.held.names_view] at hx
      exact hempty hflags x hx

theorem write_answered (h : Sound f) (hroom : Roomy f) {task index offset length : Nat}
    {buffer : Nat → Nat} {device : resource_result_t × Nat}
    (ha : Allowed f (.write task index offset buffer length device))
    (hc : vfs_call f (.write task index offset buffer length device) = .ok (f', result)) :
    Answered f.store.slot (view f) (.write task index offset buffer length device) result
      (view f') := by
  obtain ⟨hsound, hleaves⟩ := vfs_call_keeps h hroom ha hc
  obtain ⟨hlive, hindex, hslot, hfit⟩ := id ha
  have hblock := h.counted.slots task hlive index hindex hslot
  have hnode := h.node_live hblock
  have htype := h.files _ hblock
  unfold vfs_call at hc
  obtain ⟨⟨fs', r1, n⟩, hwrite, hc⟩ := bind_ok.mp hc
  cases hc
  unfold vfs_write slot_node at hwrite
  rw [node_ok.mpr ⟨hnode, rfl⟩, ok_bind, if_neg (not_not.mpr htype)] at hwrite
  unfold Answered
  have hentry : entry_at fs' = entry_at f.fs := by
    split at hwrite
    · have hdata := ramfs_write_data hwrite
      exact entry_at_congr hdata.names.root_node fun b => (hdata.names.record b).2.1
    all_goals cases hwrite; rfl
  refine ⟨hleaves.stays h fun x hx => ?_, hentry, hleaves.same_opens rfl, fun x hx => ?_⟩
  · exact opens_some.mpr ⟨hblock, hx⟩
  · obtain ⟨-, hplace⟩ := opens_some.mp hx
    obtain ⟨hop, rfl⟩ := place_of_inode.mp hplace
    have hs := (h.held.ordered.views _ hnode).shown hop
    rw [hop] at hwrite
    obtain ⟨-, hok, -, -, -, hbytes, -⟩ := contents_write h.stored
      ⟨hs.there, hs.type.trans htype⟩ (by omega)
      (fun _ => ⟨h.held.ordered.heap.next, le_block_length hfit⟩) hwrite
    exact ⟨hok, hbytes⟩

/-- A call that changes no names and opens nothing. -/
theorem Leaves.quiet (hl : Leaves f c f') (h : Sound f) (hno : ∀ x, ¬ Alters f x c)
    (hentry : entry_at f'.fs = entry_at f.fs) (hb : f'.store.blocks = f.store.blocks) :
    (view f).Stays (view f') (fun _ => False) ∧ (view f').entries = (view f).entries ∧
      (view f').opens = (view f).opens :=
  ⟨hl.stays h fun x hx => hno x hx, hentry, hl.same_opens hb⟩

/-- What `vfs_resolve` answers, and that it leaves the names. -/
theorem Sound.resolve_answer (h : Sound f) {g : fs_t}
    (hc : vfs_resolve f.fs path = .ok (g, result, node)) :
    result = answer ((view f).names (components [] path)) ∧ entry_at g = entry_at f.fs ∧
      ∀ p, (view f).names (components [] path) = .ok p → place_of (g.nodes node) = p := by
  have hrest : Resting f.fs := ⟨h.held.ordered, h.held.root, h.held.top, h.held.mount_rule, h.held.fits⟩
  obtain ⟨-, hx⟩ := (destination_post hrest path).result hc
  rw [h.held.names_view]
  dsimp only at hx
  unfold destination at hx
  cases hd : leads f.fs (.inode f.fs.root_node) (components [] path) with
  | ok p =>
    rw [hd] at hx
    obtain ⟨hok, hp, rest, -, -, -, -, hw, -⟩ := hx
    refine ⟨hok, hw.calm.tree.entry_at, fun q hq => ?_⟩
    cases hq
    exact hp
  | error r =>
    rw [hd] at hx
    obtain ⟨hres, -, rest, -, -, -, hw⟩ := hx
    exact ⟨(Prod.mk.inj hres).1, hw.calm.tree.entry_at, fun q hq => by cases hq⟩

theorem stat_answered (h : Sound f) {fs' : fs_t}
    {x : vfs_node_type × resource_type_t × Nat}
    (hc : vfs_stat f.fs path = .ok (fs', result, x)) :
    result = answer ((view f).names (components [] path)) ∧ entry_at fs' = entry_at f.fs := by
  unfold vfs_stat at hc
  obtain ⟨⟨g, r1, a⟩, hres, hc⟩ := bind_ok.mp hc
  obtain ⟨hanswer, hentry, -⟩ := h.resolve_answer hres
  have hg := vfs_resolve_keeps h.held.ordered hres
  dsimp only at hc
  by_cases hr : r1 ≠ RESOURCE_RESULT_OK
  · rw [if_pos hr] at hc
    cases hc
    exact ⟨hanswer, hentry⟩
  rw [if_neg hr] at hc
  obtain rfl := not_not.mp hr
  obtain ⟨n, -, hc⟩ := bind_ok.mp hc
  have hend : ∀ g', vfs_release_node g a = .ok g' → entry_at g' = entry_at f.fs := fun g' hrel =>
    (((hg.1.release_keeps hrel).2).entry_at hg.1).trans hentry
  split at hc
  · obtain ⟨⟨r2, size⟩, -, hc⟩ := bind_ok.mp hc
    obtain ⟨g', hrel, hc⟩ := bind_ok.mp hc
    cases hc
    exact ⟨hanswer, hend _ hrel⟩
  · rw [pure_bind] at hc
    obtain ⟨g', hrel, hc⟩ := bind_ok.mp hc
    cases hc
    exact ⟨hanswer, hend _ hrel⟩

theorem exec_answered (h : Sound f) {fs' : fs_t} {released : Bool}
    (hc : exec_node f.fs path released = .ok (fs', result)) :
    (result = RESOURCE_RESULT_OK → ∃ p, (view f).names (components [] path) = .ok p) ∧
      entry_at fs' = entry_at f.fs := by
  unfold exec_node at hc
  obtain ⟨⟨g, r1, a⟩, hres, hc⟩ := bind_ok.mp hc
  obtain ⟨hanswer, hentry, -⟩ := h.resolve_answer hres
  have hg := vfs_resolve_keeps h.held.ordered hres
  dsimp only at hc
  by_cases hr : r1 ≠ RESOURCE_RESULT_OK
  · rw [if_pos hr] at hc
    cases hc
    exact ⟨fun hok => absurd hok hr, hentry⟩
  rw [if_neg hr] at hc
  obtain rfl := not_not.mp hr
  have hfound : ∃ p, (view f).names (components [] path) = .ok p := by
    cases hn : (view f).names (components [] path) with
    | ok p => exact ⟨p, rfl⟩
    | error r =>
      rw [h.held.names_view] at hn
      rw [h.held.names_view, hn] at hanswer
      exact absurd hanswer.symm (leads_ne_ok hn)
  have hend : ∀ g', vfs_release_node g a = .ok g' → entry_at g' = entry_at f.fs := fun g' hrel =>
    (((hg.1.release_keeps hrel).2).entry_at hg.1).trans hentry
  refine ⟨fun _ => hfound, ?_⟩
  obtain ⟨n, -, hc⟩ := bind_ok.mp hc
  split at hc
  · obtain ⟨g', hrel, hc⟩ := bind_ok.mp hc
    cases hc
    exact hend _ hrel
  · split at hc
    · obtain ⟨g', hrel, hc⟩ := bind_ok.mp hc
      cases hc
      exact hend _ hrel
    · cases hc
      exact hentry

/-- Every call of the tasks is a call on the listing. -/
theorem vfs_call_answered (h : Sound f) (hroom : Roomy f) (ha : Allowed f c)
    (hc : vfs_call f c = .ok (f', result)) :
    Answered f.store.slot (view f) c result (view f') := by
  obtain ⟨hsound, hleaves⟩ := vfs_call_keeps h hroom ha hc
  have hsteady := h.steady hroom
  cases c with
  | open_file task path flags block => exact open_answered h hroom ha hc
  | write task index offset buffer length device => exact write_answered h hroom ha hc
  | close_file task index =>
    obtain ⟨f1, r1, hclose, -, hstore, hdropped⟩ := h.closed ha index
    obtain ⟨rfl, rfl⟩ : f1 = f' ∧ r1 = result := by
      unfold vfs_call at hc
      dsimp only at hc
      rw [hclose] at hc
      exact Prod.mk.inj (Except.ok.inj hc)
    have hsubset := (remove_opens_nothing f.store task index).blocks
    rw [← hstore] at hsubset
    refine ⟨hleaves.stays h fun x hx => hx, ?_, fun r => ?_⟩
    · exact entry_at_congr hdropped.root_node fun a => by rw [hdropped.inodes]
    · refine (hleaves.fewer_opens hsubset r).imp id fun ⟨hnone, hr, hgone⟩ => ⟨hnone, ?_⟩
      exact removed_block hstore.symm hr hgone
  | destroy task =>
    obtain ⟨f1, hclose, -, hstore, hdropped⟩ := h.all_closed ha
    unfold vfs_call at hc
    dsimp only at hc
    rw [hclose] at hc
    cases hc
    have hsubset := (release_resources_opens_nothing f.store task).blocks
    rw [← hstore] at hsubset
    refine ⟨hleaves.stays h fun x hx => hx, ?_, fun r => ?_⟩
    · exact entry_at_congr hdropped.root_node fun a => by rw [hdropped.inodes]
    · refine (hleaves.fewer_opens hsubset r).imp id fun ⟨hnone, hr, hgone⟩ => ⟨hnone, ?_⟩
      exact released_block hstore.symm hr hgone
  | fork parent child task =>
    cases hc
    have hshare := share_resources_open (new_task f.store child task) child parent
    exact hleaves.quiet h (fun _ hx => hx) rfl hshare.blocks
  | run task after =>
    cases hc
    exact hleaves.quiet h (fun _ hx => hx) rfl rfl
  | seek resource offset flags =>
    cases hc
    exact hleaves.quiet h (fun _ hx => hx) rfl rfl
  | stat path =>
    unfold vfs_call at hc
    obtain ⟨⟨fs', r1, x⟩, hstat, hc⟩ := bind_ok.mp hc
    cases hc
    obtain ⟨hanswer, hentry⟩ := stat_answered h hstat
    obtain ⟨hstays, hentries, hopens⟩ := hleaves.quiet h (fun _ hx => hx) hentry rfl
    exact ⟨hstays, hentries, hopens, hanswer⟩
  | exec path released =>
    unfold vfs_call at hc
    obtain ⟨⟨fs', r1⟩, hexec, hc⟩ := bind_ok.mp hc
    cases hc
    obtain ⟨hfound, hentry⟩ := exec_answered h hexec
    obtain ⟨hstays, hentries, hopens⟩ := hleaves.quiet h (fun _ hx => hx) hentry rfl
    exact ⟨hstays, hentries, hopens, hfound⟩
  | create path type =>
    unfold vfs_call at hc
    obtain ⟨⟨fs', r1, node⟩, hcreate, hc⟩ := bind_ok.mp hc
    cases hc
    have hnames := vfs_create_names hsteady.settled.resting hcreate
    refine ⟨hleaves.stays h fun x hx => hx, hleaves.same_opens rfl, ?_⟩
    split at hnames
    · rename_i hok
      obtain ⟨c, -, hmade⟩ := hnames
      rw [if_pos hok]
      exact ⟨c, MadeAt.made h hmade⟩
    · rename_i hne
      rw [if_neg hne]
      exact hnames
  | link old_path new_path =>
    unfold vfs_call at hc
    obtain ⟨⟨fs', r1⟩, hlink, hc⟩ := bind_ok.mp hc
    cases hc
    have hnames := vfs_link_names hsteady hlink
    refine ⟨hleaves.stays h fun x hx => hx, hleaves.same_opens rfl, ?_⟩
    split at hnames
    · rename_i hok
      obtain ⟨c, y, name, hd, hfile, hat, hnone, hentry⟩ := hnames
      rw [if_pos hok]
      refine ⟨c, (h.held.names_view _).trans hd, hfile.2, hat.in_folder h.held, hnone, hentry⟩
    · rename_i hne
      rw [if_neg hne]
      exact hnames
  | unlink path =>
    unfold vfs_call at hc
    obtain ⟨⟨fs', r1⟩, hunlink, hc⟩ := bind_ok.mp hc
    cases hc
    have hnames := vfs_unlink_names hsteady.settled.resting hunlink
    refine ⟨hleaves.stays h fun x hx => hx, hleaves.same_opens rfl, ?_⟩
    split at hnames
    · rename_i hok
      obtain ⟨c, y, name, hat, hsome, hfile, hentry⟩ := hnames
      rw [if_pos hok]
      exact ⟨c, hat.in_folder h.held, hsome, hfile.2, hentry⟩
    · rename_i hne
      rw [if_neg hne]
      exact hnames

/-! ## Whole runs -/

/-- The file systems refine a listing. In every run from the boot, the calls of the tasks are calls
on the listing of the names, the bytes and the open resources; a walk along a path answers what the
listing has there, and a read through a resource gives the bytes of its file. -/
theorem files_refine_a_listing {memory heap : Nat → Nat} {initrd : List tar_entry_t} {fs : fs_t}
    {s : Store} (hheap : ∀ n, heap n ≠ 0) (hends : FilesAtTheEnds initrd)
    (hboot : boot memory heap initrd = .ok fs) (hempty : Unopened s)
    (hrun : Relation.ReflTransGen VfsStep ⟨fs, s⟩ f) :
    Relation.ReflTransGen ListingStep (view ⟨fs, s⟩) (view f) ∧
      (Roomy f → ∀ c result f', Allowed f c → vfs_call f c = .ok (f', result) →
        Answered f.store.slot (view f) c result (view f')) ∧
      (∀ path g result node, vfs_resolve f.fs path = .ok (g, result, node) →
        result = answer ((view f).names (components [] path)) ∧
          ∀ p, (view f).names (components [] path) = .ok p → place_of (g.nodes node) = p) ∧
      ∀ r x offset length device, (view f).opens r = some (.inode x) →
        vfs_read f.fs (f.store.resources r).data offset length device =
          .ok (RESOURCE_RESULT_OK, slice ((view f).bytes x) offset length) := by
  have hbooted := boot_sound hheap hends hboot hempty
  have h := hbooted.run hrun
  refine ⟨?_, fun hroom c result f' => vfs_call_answered h hroom, fun path g result node hc => ?_,
    fun r x offset length device hr => view_read h hr offset length device⟩
  · clear h
    induction hrun with
    | refl => exact .refl
    | tail hrun hstep ih =>
      obtain ⟨hroom, c, result, ha, hc⟩ := hstep
      exact .tail ih ⟨_, c, result, vfs_call_answered (hbooted.run hrun) hroom ha hc⟩
  · obtain ⟨hanswer, -, hplace⟩ := h.resolve_answer hc
    exact ⟨hanswer, hplace⟩

theorem an_unlinked_file_is_open_in_the_listing : ∃ fs f,
    Relation.ReflTransGen ListingStep (view ⟨fs, oneTask⟩) (view f) ∧
      (view f).entries ["a".toList] = none ∧ (view f).opens 16 = some (.inode 16) := by
  have hsome : (booted_calls one_member (opened_and_written ++ [.unlink "/a".toList])).any
      (fun x => decide (entry_at x.2.fs ["a".toList] = none ∧ 16 ∈ x.2.store.blocks ∧
        place_of (x.2.fs.nodes (x.2.store.resources 16).data) = .inode 16)) = true := by
    decide +kernel
  obtain ⟨fs, f, hboot, hrun, hfacts⟩ := booted_calls_run hsome
  obtain ⟨hentry, hblock, hplace⟩ := of_decide_eq_true hfacts
  exact ⟨fs, f, (files_refine_a_listing (fun n => by omega) one_member_ends hboot unopened_oneTask
    hrun).1, hentry, opens_some.mpr ⟨hblock, hplace⟩⟩

/-! ## Two names of one file -/

theorem Sound.entry_of_name (h : Sound f) {path : List (List Char)}
    (hp : (view f).names path = .ok (.inode x)) : (view f).entries path = some x := by
  rw [h.held.names_view] at hp
  exact leads_entry hp

/-- What a path leads to stays until the path is unlinked. -/
theorem Sound.name_kept (h : Sound f) (hroom : Roomy f) (ha : Allowed f c)
    (hc : vfs_call f c = .ok (f', result)) {path : List (List Char)}
    (hp : (view f).names path = .ok (.inode x)) (hno : ¬ Unlinks c path) :
    (view f').names path = .ok (.inode x) := by
  have hanswered := vfs_call_answered h hroom ha hc
  have hmounted := ((vfs_call_keeps h hroom ha hc).2.stays h fun x hx => hx).mounted
  have hentry := h.entry_of_name hp
  have hkept : ∀ q, q <+: path → (view f').entries q = (view f).entries q := by
    rintro q ⟨rest, rfl⟩
    obtain ⟨y, hy, hrest⟩ := follow_prefix hentry
    have hq : (view f).entries q = some y := hy
    rw [hq]
    refine hanswered.entry_kept hq fun hunlinks => ?_
    cases rest with
    | nil =>
      rw [List.append_nil] at hno
      exact absurd hunlinks hno
    | cons name rest =>
      obtain ⟨z, hz, -⟩ := follow_prefix (p := [name]) hrest
      have hchild : child_of f.fs y name = some z := by
        rw [follow, Option.bind_eq_some_iff] at hz
        obtain ⟨w, hw, hlast⟩ := hz
        cases hlast
        exact hw
      have hdir := h.held.ordered.one_tree.parent q y name z hy hchild
      intro hfile
      have hkind : (f.fs.inodes y).type = VFS_NODE_TYPE_FILE := hfile
      rw [hdir] at hkind
      cases hkind
  rw [← hp]
  unfold Listing.names
  rw [hmounted]
  exact seen_congr _ _ _ _ hkept

/-- One call more, that takes none of two names away. -/
def NamedStep (p q : List (List Char)) (f f' : Files) : Prop :=
  Roomy f ∧ ∃ c result, Allowed f c ∧ ¬ Unlinks c p ∧ ¬ Unlinks c q ∧
    vfs_call f c = .ok (f', result)

theorem Sound.names_kept (h : Sound f) {p q : List (List Char)} {x y : Nat}
    (hp : (view f).names p = .ok (.inode x)) (hq : (view f).names q = .ok (.inode y))
    (hrun : Relation.ReflTransGen (NamedStep p q) f f') :
    Sound f' ∧ (view f').names p = .ok (.inode x) ∧ (view f').names q = .ok (.inode y) := by
  induction hrun with
  | refl => exact ⟨h, hp, hq⟩
  | tail _ hstep ih =>
    obtain ⟨hroom, c, result, ha, hnp, hnq, hc⟩ := hstep
    obtain ⟨hsound, hp', hq'⟩ := ih
    exact ⟨(vfs_call_keeps hsound hroom ha hc).1, hsound.name_kept hroom ha hc hp' hnp,
      hsound.name_kept hroom ha hc hq' hnq⟩

/-- Two paths that lead to one file lead to one node of the VFS. -/
theorem Sound.one_node (h : Sound f) (hroom : Roomy f) {p q : List Char}
    (hp : (view f).names (components [] p) = .ok (.inode x))
    (hq : (view f).names (components [] q) = .ok (.inode x)) {g1 g2 : fs_t} {r1 r2 : resource_result_t}
    {a b : Nat} (h1 : vfs_resolve f.fs p = .ok (g1, r1, a)) (h2 : vfs_resolve g1 q = .ok (g2, r2, b)) :
    r1 = RESOURCE_RESULT_OK ∧ r2 = RESOURCE_RESULT_OK ∧ b = a := by
  have hsteady := h.steady hroom
  rw [h.held.names_view] at hp hq
  have hx1 := ((destination_post hsteady.settled.resting p).result h1).2
  dsimp only at hx1
  unfold destination at hx1
  rw [hp] at hx1
  obtain ⟨rfl, hplace, rest, -, -, hnone, -, hw, -⟩ := hx1
  obtain rfl := hnone x rfl
  have hrest := hsteady.after hw.handled (List.nodup_singleton a)
  have hx2 := ((destination_post hrest q).result h2).2
  dsimp only at hx2
  rw [hw.destination_eq hsteady.settled.mounts] at hx2
  unfold destination at hx2
  rw [hq] at hx2
  obtain ⟨rfl, hplace', rest', -, -, -, -, hw', -⟩ := hx2
  refine ⟨rfl, rfl, ?_⟩
  obtain ⟨hlive, k, hk⟩ := hw.held_record hw' hsteady.settled.counts (List.nodup_singleton a)
    List.mem_cons_self
  have hsame : place_of (g2.nodes a) = .inode x := by
    rw [hk]
    exact hplace
  obtain ⟨hop, hdata⟩ := place_of_inode.mp hsame
  obtain ⟨hop', hdata'⟩ := place_of_inode.mp hplace'
  by_contra hne
  exact hw'.ordered.shown_ne hlive (hw'.tally.live b List.mem_cons_self) hop hop' hne
    (hdata'.trans hdata.symm)

/-- The directory of a path stays over a call that does not unlink what comes before the end. -/
theorem AtFolder.kept (h : Sound f) (hroom : Roomy f) (ha : Allowed f c)
    (hc : vfs_call f c = .ok (f', result)) {path : List (List Char)}
    (hno : ∀ front, Unlinks c front → path.length ≤ front.length) {y : Nat} {name : List Char}
    (hat : AtFolder f.fs path y name) : AtFolder f'.fs path y name := by
  obtain ⟨hsound, hleaves⟩ := vfs_call_keeps h hroom ha hc
  obtain ⟨folder, hpath, hlead, hdir⟩ := hat
  have hshort : ¬ Unlinks c folder := fun hu => by
    have := hno folder hu
    rw [hpath, List.length_append, List.length_singleton] at this
    omega
  have hkept := h.name_kept hroom ha hc ((h.held.names_view folder).trans hlead) hshort
  rw [hsound.held.names_view] at hkept
  have hlive := h.held.ordered.entry_live (leads_entry hlead)
  exact ⟨folder, hpath, hkept, (hleaves.types y hlive).trans hdir⟩

/-- What a path into a directory leads to. -/
theorem Sound.name_at (h : Sound f) {path : List (List Char)} {y : Nat} {name : List Char}
    (hat : AtFolder f.fs path y name) :
    (view f).names path = if Mounted f.fs (.inode y) then behind_devices name []
      else match entry_at f.fs path with
        | some x => .ok (.inode x)
        | none => .error RESOURCE_RESULT_NOT_FOUND := by
  obtain ⟨-, -, -, hentry⟩ := hat.entry_at
  obtain ⟨folder, rfl, hlead, -⟩ := hat
  rw [h.held.names_view, hentry]
  exact h.held.mount_rule.leads_concat hlead name

/-- Two names of one file stay names of one file. After a link, and until one of the two paths is
unlinked, both paths lead to the same node of the VFS. -/
theorem two_names_of_one_file {memory heap : Nat → Nat} {initrd : List tar_entry_t} {fs : fs_t}
    {s : Store} (hheap : ∀ n, heap n ≠ 0) (hends : FilesAtTheEnds initrd)
    (hboot : boot memory heap initrd = .ok fs) (hempty : Unopened s)
    (hrun : Relation.ReflTransGen VfsStep ⟨fs, s⟩ f) (hroom : Roomy f)
    {old_path new_path : List Char} (hlen : new_path.length ≤ 255)
    (hplain : ∀ y, edit_folder f.fs new_path = .ok y → ¬ Mounted f.fs (.inode y)) {f1 : Files}
    (hlink : vfs_call f (.link old_path new_path) = .ok (f1, RESOURCE_RESULT_OK))
    (hlater : Relation.ReflTransGen
      (NamedStep (components [] old_path) (components [] new_path)) f1 f') (hroom' : Roomy f')
    {g1 g2 : fs_t} {r1 r2 : resource_result_t} {a b : Nat}
    (h1 : vfs_resolve f'.fs old_path = .ok (g1, r1, a))
    (h2 : vfs_resolve g1 new_path = .ok (g2, r2, b)) :
    r1 = RESOURCE_RESULT_OK ∧ r2 = RESOURCE_RESULT_OK ∧ b = a := by
  have h := (boot_sound hheap hends hboot hempty).run hrun
  have hcopy : path_copy new_path = new_path := List.take_of_length_le hlen
  have ha : Allowed f (.link old_path new_path) := trivial
  obtain ⟨hsound1, hleaves⟩ := vfs_call_keeps h hroom ha hlink
  have hnames := hlink
  unfold vfs_call at hnames
  obtain ⟨⟨fs1, r⟩, hlinked, hnames⟩ := bind_ok.mp hnames
  cases hnames
  obtain ⟨x, y, hold, -, hfolder, hgiven⟩ :=
    ((vfs_link_post (h.steady hroom) old_path new_path).result hlinked).named rfl
  have hentries := vfs_link_names (h.steady hroom) hlinked
  rw [if_pos rfl, hcopy] at hentries
  obtain ⟨x', -, -, hold', -, -, -, hentries⟩ := hentries
  rw [hold] at hold'
  cases hold'
  have hat := edit_folder_at hfolder
  rw [hcopy] at hat
  have hold1 := h.name_kept hroom ha hlink ((h.held.names_view _).trans hold) id
  have hat1 := hat.kept h hroom ha hlink fun _ hu => hu.elim
  have hplain1 : ¬ Mounted fs1 (.inode y) := fun hm => hplain y hfolder ((hleaves.mounted _).mp hm)
  have hnew1 : (view ⟨fs1, f.store⟩).names (components [] new_path) = .ok (.inode x) := by
    rw [hsound1.name_at hat1, if_neg hplain1]
    dsimp only
    rw [hentries, Function.update_self]
  obtain ⟨hsound, hp, hq⟩ := hsound1.names_kept hold1 hnew1 hlater
  exact hsound.one_node hroom' hp hq h1 h2

/-- The directory of a path is not a mount point. -/
def plain_folder (f : Files) (path : List Char) : Bool :=
  match edit_folder f.fs path with
  | .ok y => !decide (Mounted f.fs (.inode y))
  | .error _ => true

theorem plain_folder_sound (h : plain_folder f path = true) {y : Nat}
    (hy : edit_folder f.fs path = .ok y) : ¬ Mounted f.fs (.inode y) := by
  unfold plain_folder at h
  rw [hy] at h
  exact of_decide_eq_false (Bool.not_eq_true' _ ▸ h)

/-- A file gets a second name, and both are looked up. -/
def linked_and_found (f : Files) (p q : List Char) :
    Option (Files × (fs_t × resource_result_t × Nat) × fs_t × resource_result_t × Nat) :=
  match vfs_call f (.link p q) with
  | .ok (f1, RESOURCE_RESULT_OK) => match vfs_resolve f1.fs p with
    | .ok (g1, r1, a) => match vfs_resolve g1 q with
      | .ok x => some (f1, (g1, r1, a), x)
      | .error _ => none
    | .error _ => none
  | _ => none

theorem linked_and_found_eq {p q : List Char}
    {x : Files × (fs_t × resource_result_t × Nat) × fs_t × resource_result_t × Nat}
    (h : linked_and_found f p q = some x) :
    vfs_call f (.link p q) = .ok (x.1, RESOURCE_RESULT_OK) ∧ vfs_resolve x.1.fs p = .ok x.2.1 ∧
      vfs_resolve x.2.1.1 q = .ok x.2.2 := by
  unfold linked_and_found at h
  split at h
  · rename_i f1 hlink
    split at h
    · rename_i g1 r1 a hp
      split at h
      · rename_i y hq
        cases h
        exact ⟨hlink, hp, hq⟩
      · cases h
    · cases h
  · cases h

theorem a_linked_file_has_one_node : ∃ (f : Files) (g1 g2 : fs_t) (a : Nat),
    vfs_resolve f.fs "/a".toList = .ok (g1, RESOURCE_RESULT_OK, a) ∧
      vfs_resolve g1 "/b".toList = .ok (g2, RESOURCE_RESULT_OK, a) := by
  have hsome : (booted_calls one_member []).any (fun x => decide (Roomy x.2 ∧
      plain_folder x.2 "/b".toList = true ∧
      (linked_and_found x.2 "/a".toList "/b".toList).any (fun y => decide (Roomy y.1)) = true)) =
        true := by
    decide +kernel
  obtain ⟨fs, f, hboot, hrun, hfacts⟩ := booted_calls_run hsome
  obtain ⟨hroom, hplain, hafter⟩ := of_decide_eq_true hfacts
  obtain ⟨⟨f1, ⟨g1, r1, a⟩, g2, r2, b⟩, hfound, hroom'⟩ := (Option.any_eq_true _ _).mp hafter
  obtain ⟨hlink, hp, hq⟩ := linked_and_found_eq hfound
  obtain ⟨rfl, rfl, rfl⟩ := two_names_of_one_file (fun n => by omega) one_member_ends hboot
    unopened_oneTask hrun hroom (by decide) (fun _ => plain_folder_sound hplain) hlink .refl
    (of_decide_eq_true hroom') hp hq
  exact ⟨f1, g1, g2, _, hp, hq⟩

/-! ## New names and names that are gone -/

/-- What the call holds keeps its record over a walk. -/
theorem Handled.held_record {fs g : fs_t} {held rest : List Nat} (h : Handled fs fs' held)
    (hw : Walk fs' g rest) (hs : Spare fs 1) (hn : held.Nodup) (ha : node ∈ held) :
    node ∈ g.node_blocks ∧ ∃ k, g.nodes node = { fs'.nodes node with ref_count := k } := by
  have hl := h.tally.live node ha
  exact hw.tally.kept node hl (h.tally.count_ne_one hs (List.nodup_iff_count_le_one.mp hn)
    (by decide) hl (Or.inl ha))

theorem vfs_create_folder {fs : fs_t} (h : Resting fs) {type : vfs_node_type}
    (hc : vfs_create fs path type = .ok (fs', RESOURCE_RESULT_OK, node)) :
    ∃ y, edit_folder fs path = .ok y := by
  have hx := (vfs_create_post h path type).result hc
  cases hfolder : edit_folder fs path with
  | ok y => exact ⟨y, rfl⟩
  | error e =>
    rw [hfolder] at hx
    exact absurd (Prod.mk.inj hx.1).1.symm hx.2.1

/-- What `vfs_create` hands over is what the path leads to afterwards, unless the directory is a
mount point. -/
theorem Sound.created_name (h : Sound f) (hroom : Roomy f) (hlen : path.length ≤ 255)
    {type : vfs_node_type} {g : fs_t} {n : Nat}
    (hc : vfs_create f.fs path type = .ok (fs', RESOURCE_RESULT_OK, node))
    (hres : vfs_resolve fs' path = .ok (g, result, n)) :
    (result = RESOURCE_RESULT_OK ∧ n = node) ↔
      ∀ y, edit_folder f.fs path = .ok y → ¬ Mounted f.fs (.inode y) := by
  have hsteady := h.steady hroom
  have hcall : vfs_call f (.create path type) = .ok (⟨fs', f.store⟩, RESOURCE_RESULT_OK) := by
    unfold vfs_call
    dsimp only
    rw [hc]
    rfl
  have ha : Allowed f (.create path type) := trivial
  obtain ⟨hsound, hleaves⟩ := vfs_call_keeps h hroom ha hcall
  obtain ⟨y, hfolder⟩ := vfs_create_folder hsteady.settled.resting hc
  have hcopy : path_copy path = path := List.take_of_length_le hlen
  have hat := (edit_folder_at hfolder).kept h hroom ha hcall fun _ hu => hu.elim
  have hnames := vfs_create_names hsteady.settled.resting hc
  rw [if_pos rfl] at hnames
  rw [hcopy] at hat hnames
  obtain ⟨x, hplace, -, hmade⟩ := hnames
  have hentry : entry_at fs' (components [] path) = some x := by
    rcases hmade with ⟨hsome, he⟩ | ⟨-, -, -, -, he⟩
    · rw [he, hsome]
    · rw [he, Function.update_self]
  have hleads := hsound.name_at hat
  rw [hsound.held.names_view] at hleads
  dsimp only at hleads
  rw [hentry] at hleads
  obtain ⟨held, -, hnodup, hh, hok⟩ := vfs_create_handled hsteady.settled.resting hc
  obtain ⟨rfl, -⟩ := hok rfl
  obtain ⟨-, hx⟩ := (destination_post (hsteady.after hh hnodup) path).result hres
  dsimp only at hx
  unfold destination at hx
  constructor
  · rintro ⟨rfl, rfl⟩ y' hy' hm
    rw [hfolder] at hy'
    cases hy'
    have hm' : Mounted fs' (.inode y) := (hleaves.mounted _).mpr hm
    rw [hleads, if_pos hm'] at hx
    unfold behind_devices at hx
    by_cases hi : device_index (cut_path path).1 < devfs_entries.length
    · rw [if_pos hi, if_pos rfl] at hx
      obtain ⟨-, hp, rest, -, -, -, -, hw, -⟩ := hx
      obtain ⟨-, k, hk⟩ := hh.held_record hw hsteady.settled.counts hnodup List.mem_cons_self
      rw [hk, show place_of { fs'.nodes n with ref_count := k } = _ from hplace] at hp
      cases hp
    · rw [if_neg hi] at hx
      exact absurd (Prod.mk.inj hx.1).1.symm hx.2.1
  · intro hplain
    have hm' : ¬ Mounted fs' (.inode y) := fun hm => hplain y hfolder ((hleaves.mounted _).mp hm)
    rw [hleads, if_neg hm'] at hx
    obtain ⟨rfl, hp, rest, -, -, -, -, hw, -⟩ := hx
    refine ⟨rfl, ?_⟩
    obtain ⟨hlive, k, hk⟩ := hh.held_record hw hsteady.settled.counts hnodup List.mem_cons_self
    have hsame : place_of (g.nodes node) = .inode x := by
      rw [hk]
      exact hplace
    obtain ⟨hop, hdata⟩ := place_of_inode.mp hsame
    obtain ⟨hop', hdata'⟩ := place_of_inode.mp hp
    by_contra hne
    exact hw.ordered.shown_ne hlive (hw.tally.live n List.mem_cons_self) hop hop' hne
      (hdata'.trans hdata.symm)

/-- What was unlinked is not found. -/
theorem Sound.unlinked_name (h : Sound f) (hroom : Roomy f) (hlen : path.length ≤ 255)
    {g : fs_t} {n : Nat} (hc : vfs_unlink f.fs path = .ok (fs', RESOURCE_RESULT_OK))
    (hres : vfs_resolve fs' path = .ok (g, result, n))
    (hplain : ∀ y, edit_folder f.fs path = .ok y → ¬ Mounted f.fs (.inode y)) :
    result = RESOURCE_RESULT_NOT_FOUND := by
  have hsteady := h.steady hroom
  have hcall : vfs_call f (.unlink path) = .ok (⟨fs', f.store⟩, RESOURCE_RESULT_OK) := by
    unfold vfs_call
    dsimp only
    rw [hc]
    rfl
  have ha : Allowed f (.unlink path) := trivial
  obtain ⟨hsound, hleaves⟩ := vfs_call_keeps h hroom ha hcall
  have hcopy : path_copy path = path := List.take_of_length_le hlen
  have hx := (vfs_unlink_post hsteady.settled.resting path).result hc
  cases hfolder : edit_folder f.fs path with
  | error e =>
    rw [hfolder] at hx
    exact absurd hx.1.symm hx.2.1
  | ok y =>
    have hat := (edit_folder_at hfolder).kept h hroom ha hcall fun front hu => by
      unfold Unlinks at hu
      rw [hu]
    have hnames := vfs_unlink_names hsteady.settled.resting hc
    rw [if_pos rfl] at hnames
    rw [hcopy] at hat hnames
    obtain ⟨-, -, -, -, -, -, hentries⟩ := hnames
    have hm' : ¬ Mounted fs' (.inode y) := fun hm => hplain y hfolder ((hleaves.mounted _).mp hm)
    obtain ⟨hanswer, -, -⟩ := hsound.resolve_answer hres
    rw [hanswer, hsound.name_at hat, if_neg hm']
    dsimp only
    rw [hentries, Function.update_self]
    rfl

/-- A new name is found, and one that is gone is not. In every state of every run from the boot,
after `vfs_create` ended well the path leads to the node that it handed over, if and only if its
directory is not a mount point; and after `vfs_unlink` ended well the path leads nowhere. -/
theorem created_and_unlinked_names {memory heap : Nat → Nat} {initrd : List tar_entry_t} {fs : fs_t}
    {s : Store} (hheap : ∀ n, heap n ≠ 0) (hends : FilesAtTheEnds initrd)
    (hboot : boot memory heap initrd = .ok fs) (hempty : Unopened s)
    (hrun : Relation.ReflTransGen VfsStep ⟨fs, s⟩ f) (hroom : Roomy f) (hlen : path.length ≤ 255) :
    (∀ type fs' node g r n, vfs_create f.fs path type = .ok (fs', RESOURCE_RESULT_OK, node) →
      vfs_resolve fs' path = .ok (g, r, n) →
      ((r = RESOURCE_RESULT_OK ∧ n = node) ↔
        ∀ y, edit_folder f.fs path = .ok y → ¬ Mounted f.fs (.inode y))) ∧
      ∀ fs' g r n, vfs_unlink f.fs path = .ok (fs', RESOURCE_RESULT_OK) →
        vfs_resolve fs' path = .ok (g, r, n) →
        (∀ y, edit_folder f.fs path = .ok y → ¬ Mounted f.fs (.inode y)) →
        r = RESOURCE_RESULT_NOT_FOUND := by
  have h := (boot_sound hheap hends hboot hempty).run hrun
  exact ⟨fun _ _ _ _ _ _ hc hres => h.created_name hroom hlen hc hres,
    fun _ _ _ _ hc hres hplain => h.unlinked_name hroom hlen hc hres hplain⟩

/-- A file is created and looked up. -/
def created_and_found (f : Files) (path : List Char) :
    Option ((fs_t × Nat) × fs_t × resource_result_t × Nat) :=
  match vfs_create f.fs path VFS_NODE_TYPE_FILE with
  | .ok (fs', RESOURCE_RESULT_OK, node) => match vfs_resolve fs' path with
    | .ok x => some ((fs', node), x)
    | .error _ => none
  | _ => none

theorem created_and_found_eq {x : (fs_t × Nat) × fs_t × resource_result_t × Nat}
    (h : created_and_found f path = some x) :
    vfs_create f.fs path VFS_NODE_TYPE_FILE = .ok (x.1.1, RESOURCE_RESULT_OK, x.1.2) ∧
      vfs_resolve x.1.1 path = .ok x.2 := by
  unfold created_and_found at h
  split at h
  · rename_i g node hcreate
    split at h
    · rename_i y hres
      cases h
      exact ⟨hcreate, hres⟩
    · cases h
  · cases h

theorem a_created_file_is_found : ∃ (f : Files) (fs' g : fs_t) (node : Nat),
    vfs_create f.fs "/b".toList VFS_NODE_TYPE_FILE = .ok (fs', RESOURCE_RESULT_OK, node) ∧
      vfs_resolve fs' "/b".toList = .ok (g, RESOURCE_RESULT_OK, node) := by
  have hsome : (booted_calls one_member []).any (fun x => decide (Roomy x.2 ∧
      plain_folder x.2 "/b".toList = true ∧
      (created_and_found x.2 "/b".toList).isSome = true)) = true := by
    decide +kernel
  obtain ⟨fs, f, hboot, hrun, hfacts⟩ := booted_calls_run hsome
  obtain ⟨hroom, hplain, hafter⟩ := of_decide_eq_true hfacts
  obtain ⟨⟨⟨fs', node⟩, g, r, n⟩, hfound⟩ := Option.isSome_iff_exists.mp hafter
  obtain ⟨hc, hres⟩ := created_and_found_eq hfound
  obtain ⟨rfl, rfl⟩ := ((created_and_unlinked_names (fun n => by omega) one_member_ends hboot
    unopened_oneTask hrun hroom (by decide)).1 _ _ _ _ _ _ hc hres).mpr
    fun _ => plain_folder_sound hplain
  exact ⟨f, fs', g, _, hc, hres⟩

end alura_os.vfs
