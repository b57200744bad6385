-- Where the files of the initrd stand: `ramfs_get_or_create_directory` goes
-- through a file as it does through a directory, but it meets none when no
-- member of the initrd lies below one that is a file.
import AluraOs.FsBoot
import AluraOs.RamfsTree

namespace alura_os.vfs

open alura_os.memory alura_os.resource faults
open resource_result_t resource_type_t vfs_node_type ramfs_result_t

variable {fs fs' : fs_t} {root current node x : Nat} {q path : List (List Char)} {name : List Char}
  {type : vfs_node_type}

/-! ## Members below a file -/

/-- The path of a member, as `tar_create_ramfs_node` hands it on. -/
def member_path (entry : tar_entry_t) : List Char :=
  let path := tar_path entry.full_name
  match entry.type with
  | VFS_NODE_TYPE_DIRECTORY => if path.getLast? = some '/' then path.dropLast else path
  | VFS_NODE_TYPE_FILE => path

/-- The names of the path: those of the directories, and the last one. -/
def member_names (entry : tar_entry_t) : List (List Char) :=
  directories (member_path entry) ++ [last_name (member_path entry)]

/-- No member of the initrd lies below an earlier one that is a file. -/
def FilesAtTheEnds (initrd : List tar_entry_t) : Prop :=
  initrd.Pairwise fun file entry => file.type = VFS_NODE_TYPE_FILE →
    ¬ member_names file <+: directories (member_path entry)

/-! ## Paths in a tree -/

/-- A node with one entry has one directory. -/
theorem links_one {a b : Nat} {e e' : ramfs_dirent_t} (hl : links fs x ≤ 1)
    (ha : a ∈ fs.inode_blocks) (hb : b ∈ fs.inode_blocks) (he : e ∈ (fs.inodes a).children)
    (he' : e' ∈ (fs.inodes b).children) (hx : e.node = x) (hx' : e'.node = x) : a = b ∧ e = e' := by
  have hone : ∀ {d e}, d ∈ fs.inode_blocks → e ∈ (fs.inodes d).children → e.node = x →
      1 ≤ entries (fs.inodes d).children x :=
    fun _ hm hn => entries_pos.mpr ⟨_, hm, hn⟩
  have hab : a = b := by
    by_contra hne
    have hb' : b ∈ fs.inode_blocks.erase a := Finset.mem_erase.mpr ⟨Ne.symm hne, hb⟩
    have hsplit := Finset.add_sum_erase fs.inode_blocks
      (fun d => entries (fs.inodes d).children x) ha
    have hrest := Finset.single_le_sum
      (fun d _ => Nat.zero_le (entries (fs.inodes d).children x)) hb'
    have h1 := hone ha he hx
    have h2 := hone hb he' hx'
    unfold links at hl
    omega
  refine ⟨hab, ?_⟩
  subst hab
  by_contra hne
  have hle : entries (fs.inodes a).children x ≤ 1 :=
    le_trans (Finset.single_le_sum
      (fun d _ => Nat.zero_le (entries (fs.inodes d).children x)) ha) hl
  have hrest : e' ∈ (fs.inodes a).children.erase e := (List.mem_erase_of_ne (Ne.symm hne)).mpr he'
  have hperm := (List.perm_cons_erase he).trans ((List.perm_cons_erase hrest).cons e)
  have htwo : entries (fs.inodes a).children x = _ := hperm.countP_eq _
  rw [htwo] at hle
  simp [hx, hx'] at hle

/-- While the initrd is imported: the directories, with the names of the members that are files.
Only they lead to a file. -/
structure Filed (fs : fs_t) (root : Nat) (files : List (List (List Char))) : Prop where
  imported : Imported fs root
  only : OnlyDirectories fs
  files : ∀ q a, At fs root q a → (fs.inodes a).type = VFS_NODE_TYPE_FILE → q ∈ files

variable {files : List (List (List Char))}

theorem Filed.at_live (h : Filed fs root files) (ha : At fs root q x) : x ∈ fs.inode_blocks := by
  induction q using List.reverseRecOn generalizing x with
  | nil =>
    rw [at_nil] at ha
    exact ha ▸ h.imported.root_mem
  | append_singleton q name ih =>
    obtain ⟨b, e, hb, he, rfl⟩ := at_snoc.mp ha
    exact h.imported.tree.targets b (ih hb) e (child_mem he).1

/-- The paths to a node below a directory, when no other path leads to the directory. -/
theorem Filed.at_entry (h : Filed fs root files) {d : Nat} {e : ramfs_dirent_t}
    (hd : d ∈ fs.inode_blocks) (he : (fs.inodes d).child name = some e)
    (hq : ∀ p, At fs root p d → p = q) (ht : (fs.inodes e.node).type = VFS_NODE_TYPE_DIRECTORY)
    {p : List (List Char)} (hp : At fs root p e.node) : p = q ++ [name] := by
  obtain ⟨hmem, hname⟩ := child_mem he
  have htarget := h.imported.tree.targets d hd e hmem
  rcases List.eq_nil_or_concat p with rfl | ⟨p, token, rfl⟩
  · rw [at_nil] at hp
    exact absurd hp.symm (h.imported.tree.ne_root hd hmem)
  · rw [List.concat_eq_append] at hp ⊢
    obtain ⟨b, e', hb, he', hnode⟩ := at_snoc.mp hp
    obtain ⟨hmem', hname'⟩ := child_mem he'
    obtain ⟨rfl, rfl⟩ := links_one (h.imported.tree.single _ htarget ht) hd (h.at_live hb) hmem hmem'
      rfl hnode
    rw [hq p hb, ← hname, hname']

/-- A new node brings one path at most for each path to its directory. -/
theorem Attempted.at_cases (ha : Attempted fs fs' x name type node) (h : Filed fs root files)
    {p : List (List Char)} {a : Nat} (hp : At fs' root p a) :
    At fs root p a ∨ (a = node ∧ ∃ q, At fs root q x ∧ p = q ++ [name]) := by
  induction p using List.reverseRecOn generalizing a with
  | nil =>
    rw [at_nil] at hp
    exact Or.inl (at_nil.mpr hp)
  | append_singleton p token ih =>
    obtain ⟨b, e, hb, he, rfl⟩ := at_snoc.mp hp
    rcases ih hb with hold | ⟨rfl, -⟩
    · have hlive := h.at_live hold
      have hsame : (fs'.inodes b).children = (fs.inodes b).children →
          At fs root (p ++ [token]) e.node := by
        intro hc
        refine at_snoc.mpr ⟨b, e, hold, ?_, rfl⟩
        unfold ramfs_node_t.child at he ⊢
        rwa [hc] at he
      by_cases hbx : b = x
      · rcases ha.self with hc | hc
        · exact Or.inl (hsame (hbx ▸ hc))
        · subst hbx
          unfold ramfs_node_t.child at he
          rw [hc, List.find?_append] at he
          cases hfound : (fs.inodes b).children.find? fun e => e.name = token with
          | some e' =>
            rw [hfound] at he
            obtain rfl := Option.some.inj he
            exact Or.inl (at_snoc.mpr ⟨b, e', hold, hfound, rfl⟩)
          | none =>
            rw [hfound] at he
            have hnew := List.find?_some he
            have hmem := List.mem_of_find?_eq_some he
            rw [List.mem_singleton.mp hmem] at hnew ⊢
            have htoken : name = token := by simpa using hnew
            exact Or.inr ⟨rfl, p, hold, by rw [htoken]⟩
      · exact Or.inl (hsame (ha.others b hlive hbx))
    · unfold ramfs_node_t.child at he
      rw [ha.new.2] at he
      cases he

/-- The node is a directory at the end of the path, or it has no name and is empty. -/
structure Stands (fs : fs_t) (root x : Nat) (q : List (List Char)) : Prop where
  there : x ∈ fs.inode_blocks
  directory : (fs.inodes x).type = VFS_NODE_TYPE_DIRECTORY
  unique : ∀ p, At fs root p x → p = q
  named : At fs root q x ∨ (fs.inodes x).children = []

theorem Filed.stands_root (h : Filed fs root files) : Stands fs root root [] := by
  refine ⟨h.imported.root_mem, h.imported.tree.directory, ?_, Or.inl (at_nil.mpr rfl)⟩
  intro p hp
  rcases List.eq_nil_or_concat p with rfl | ⟨p, token, rfl⟩
  · rfl
  · rw [List.concat_eq_append] at hp
    obtain ⟨b, e, hb, he, hnode⟩ := at_snoc.mp hp
    exact absurd hnode (h.imported.tree.ne_root (h.at_live hb) (child_mem he).1)

/-- A name that is there and does not lead to a file leads to a directory. -/
theorem Filed.stands_entry (h : Filed fs root files) (hs : Stands fs root x q) {e : ramfs_dirent_t}
    (he : (fs.inodes x).child name = some e) (hf : q ++ [name] ∉ files) :
    Stands fs root e.node (q ++ [name]) := by
  have hmem := (child_mem he).1
  have hat : At fs root (q ++ [name]) e.node := by
    rcases hs.named with hq | hempty
    · exact at_snoc.mpr ⟨x, e, hq, he, rfl⟩
    · rw [hempty] at hmem
      exact absurd hmem List.not_mem_nil
  have ht : (fs.inodes e.node).type = VFS_NODE_TYPE_DIRECTORY := by
    cases ht : (fs.inodes e.node).type with
    | VFS_NODE_TYPE_FILE => exact absurd (h.files _ _ hat ht) hf
    | VFS_NODE_TYPE_DIRECTORY => rfl
  exact ⟨h.imported.tree.targets x hs.there e hmem, ht,
    fun p hp => h.at_entry hs.there he hs.unique ht hp, Or.inl hat⟩

theorem Filed.attempted (h : Filed fs root files) (hs : Stands fs root x q)
    (hi : Imported fs' root) (ha : Attempted fs fs' x name type node) :
    Filed fs' root (if type = VFS_NODE_TYPE_FILE then files ++ [q ++ [name]] else files) := by
  refine ⟨hi, ?_, ?_⟩
  · intro a hm hf
    rw [ha.inode_blocks, Finset.mem_insert] at hm
    rcases hm with rfl | hm
    · exact ha.new.2
    · rw [ha.types a hm] at hf
      have hax : a ≠ x := by
        rintro rfl
        rw [hs.directory] at hf
        cases hf
      rw [ha.others a hm hax]
      exact h.only a hm hf
  · intro p a hp hf
    rcases ha.at_cases h hp with hold | ⟨rfl, p, hq, rfl⟩
    · rw [ha.types a (h.at_live hold)] at hf
      have hmem := h.files p a hold hf
      split
      · exact List.mem_append_left _ hmem
      · exact hmem
    · rw [ha.new.1] at hf
      rw [if_pos hf, hs.unique p hq]
      exact List.mem_append_right _ (List.mem_singleton_self _)

/-- A new directory stands where it was made. -/
theorem Filed.stands_new (h : Filed fs root files) (hs : Stands fs root x q)
    (ha : Attempted fs fs' x name VFS_NODE_TYPE_DIRECTORY node) :
    Stands fs' root node (q ++ [name]) := by
  refine ⟨ha.node_mem, ha.new.1, ?_, Or.inr ha.new.2⟩
  intro p hp
  rcases ha.at_cases h hp with hold | ⟨-, p, hq, rfl⟩
  · exact absurd (h.at_live hold) ha.fresh
  · rw [hs.unique p hq]

theorem Filed.get_or_create {r : Option Nat} (h : Filed fs root files) (hs : Stands fs root current q)
    (hf : ∀ f ∈ files, ¬ f <+: q ++ path)
    (hg : get_or_create_directory fs current path = .ok (fs', r)) :
    Filed fs' root files ∧ ∀ d, r = some d → Stands fs' root d (q ++ path) := by
  induction path generalizing fs current q with
  | nil =>
    cases hg
    rw [List.append_nil]
    exact ⟨h, fun d hd => by cases hd; exact hs⟩
  | cons token path ih =>
    have hsplit : q ++ token :: path = q ++ [token] ++ path := by simp
    have hprefix : ∀ f ∈ files, ¬ f <+: q ++ [token] ++ path := by
      intro f hm
      rw [← hsplit]
      exact hf f hm
    rw [hsplit]
    unfold get_or_create_directory at hg
    rw [ramfs_find_child_eq hs.there, ok_bind] at hg
    cases he : (fs.inodes current).child token with
    | some e =>
      rw [he] at hg
      refine ih h (h.stands_entry hs he fun hm => ?_) hprefix hg
      exact hprefix _ hm (List.prefix_append _ _)
    | none =>
      rw [he] at hg
      obtain ⟨⟨g, r1, node⟩, hnew, hg⟩ := bind_ok.mp hg
      obtain ⟨-, -, rfl, -⟩ := ramfs_create_node_made h.imported.heap hnew
      dsimp only at hg
      rw [if_neg (by decide)] at hg
      obtain ⟨⟨g', r2⟩, hadd, hg⟩ := bind_ok.mp hg
      obtain ⟨hi, ha⟩ := h.imported.attempt hs.there he hnew hadd
      have hfiled := h.attempted hs hi ha
      rw [if_neg (by decide)] at hfiled
      exact ih hfiled (h.stands_new hs ha) hprefix hg

/-! ## The members -/

theorem Filed.more {files' : List (List (List Char))} (h : Filed fs root files)
    (hf : ∀ f ∈ files, f ∈ files') : Filed fs root files' :=
  ⟨h.imported, h.only, fun p a hp ht => hf p (h.files p a hp ht)⟩

theorem Filed.create_path {path : List Char} {r : Option Nat} (h : Filed fs root files)
    (hf : ∀ f ∈ files, ¬ f <+: directories path)
    (hg : ramfs_create_path fs root path type = .ok (fs', r)) :
    Filed fs' root (if type = VFS_NODE_TYPE_FILE then
      files ++ [directories path ++ [last_name path]] else files) := by
  have hmore : ∀ {g}, Filed g root files → Filed g root (if type = VFS_NODE_TYPE_FILE then
      files ++ [directories path ++ [last_name path]] else files) := by
    intro g hfiled
    refine hfiled.more fun f hm => ?_
    split
    · exact List.mem_append_left _ hm
    · exact hm
  rw [ramfs_create_path_eq] at hg
  obtain ⟨⟨g, parent⟩, hdir, hg⟩ := bind_ok.mp hg
  obtain ⟨hfiled, hparent⟩ := h.get_or_create h.stands_root (q := []) hf hdir
  dsimp only at hg
  cases parent with
  | none =>
    cases hg
    exact hmore hfiled
  | some parent =>
    have hs := hparent parent rfl
    rw [List.nil_append] at hs
    dsimp only at hg
    unfold create_last at hg
    rw [ramfs_find_child_eq hs.there, ok_bind] at hg
    cases he : (g.inodes parent).child (last_name path) with
    | some e =>
      rw [he] at hg
      cases hg
      exact hmore hfiled
    | none =>
      rw [he] at hg
      obtain ⟨⟨g1, r1, node⟩, hnew, hg⟩ := bind_ok.mp hg
      obtain ⟨-, -, rfl, -⟩ := ramfs_create_node_made hfiled.imported.heap hnew
      dsimp only at hg
      rw [if_neg (by decide)] at hg
      obtain ⟨⟨g2, r2⟩, hadd, hg⟩ := bind_ok.mp hg
      obtain ⟨hi, ha⟩ := hfiled.imported.attempt hs.there he hnew hadd
      have hmade := hfiled.attempted hs hi ha
      dsimp only at hg
      by_cases hr : r2 ≠ RAMFS_RESULT_OK
      · rw [if_pos hr] at hg
        cases hg
        exact hmade
      · rw [if_neg hr] at hg
        cases hg
        exact hmade

theorem Filed.data (h : Filed fs root files) (hi : Imported fs' root) (hs : SameNames fs fs') :
    Filed fs' root files := by
  refine ⟨hi, h.only.same_names hs, ?_⟩
  intro p a hp hf
  unfold At at hp
  rw [walk_entries fun a => (hs.record a).2.1] at hp
  rw [(hs.record a).2.2.1] at hf
  exact h.files p a hp hf

theorem Filed.entry {entry : tar_entry_t} (h : Filed fs root files)
    (hf : ∀ f ∈ files, ¬ f <+: directories (member_path entry))
    (hg : tar_create_entry root fs entry = .ok fs') :
    Filed fs' root (if entry.type = VFS_NODE_TYPE_FILE then files ++ [member_names entry]
      else files) := by
  unfold member_names
  unfold tar_create_entry at hg
  dsimp only at hg
  by_cases hpath : tar_path entry.full_name = [] ∨ tar_path entry.full_name = ['/']
  · rw [if_pos hpath] at hg
    cases hg
    refine h.more fun f hm => ?_
    split
    · exact List.mem_append_left _ hm
    · exact hm
  rw [if_neg hpath] at hg
  unfold member_path at hf ⊢
  dsimp only at hf ⊢
  cases ht : entry.type with
  | VFS_NODE_TYPE_DIRECTORY =>
    rw [ht] at hg hf
    obtain ⟨⟨g, r⟩, hcreate, hg⟩ := bind_ok.mp hg
    cases hg
    exact h.create_path hf hcreate
  | VFS_NODE_TYPE_FILE =>
    rw [ht] at hg hf
    obtain ⟨⟨g, r⟩, hcreate, hg⟩ := bind_ok.mp hg
    have hfiled := h.create_path hf hcreate
    cases r with
    | none => cases hg
    | some node =>
      exact hfiled.data (hfiled.imported.copy_data hg)
        (tar_copy_data_names hfiled.imported.heap hg).1

/-- The import enters nothing below a file. -/
theorem Filed.members {initrd : List tar_entry_t} (h : Filed fs root files)
    (hends : FilesAtTheEnds initrd)
    (hf : ∀ f ∈ files, ∀ entry ∈ initrd, ¬ f <+: directories (member_path entry))
    (hg : initrd.foldlM (tar_create_entry root) fs = .ok fs') : OnlyDirectories fs' := by
  induction initrd generalizing fs files with
  | nil =>
    cases hg
    exact h.only
  | cons entry initrd ih =>
    rw [List.foldlM_cons] at hg
    obtain ⟨g, hentry, hg⟩ := bind_ok.mp hg
    obtain ⟨hfirst, hends⟩ := List.pairwise_cons.mp hends
    have hfiled := h.entry (fun f hm => hf f hm entry List.mem_cons_self) hentry
    refine ih hfiled hends ?_ hg
    intro f hm m hrest
    have hold : f ∈ files → ¬ f <+: directories (member_path m) :=
      fun hm => hf f hm m (List.mem_cons_of_mem _ hrest)
    by_cases ht : entry.type = VFS_NODE_TYPE_FILE
    · rw [if_pos ht, List.mem_append, List.mem_singleton] at hm
      rcases hm with hm | rfl
      · exact hold hm
      · exact hfirst m hrest ht
    · rw [if_neg ht] at hm
      exact hold hm

theorem ramfs_driver_init_only {memory heap : Nat → Nat} {initrd : List tar_entry_t}
    (hh : ∀ n, heap n ≠ 0) (hends : FilesAtTheEnds initrd)
    (hg : ramfs_driver_init (unmounted memory heap) initrd = .ok fs) : OnlyDirectories fs := by
  unfold ramfs_driver_init at hg
  obtain ⟨⟨g, r, root⟩, hnew, hg⟩ := bind_ok.mp hg
  have hserves : HeapServes (unmounted memory heap) := hh
  obtain ⟨-, rfl, rfl, rfl⟩ := ramfs_create_node_made hserves hnew
  dsimp only at hg
  rw [if_neg (by decide)] at hg
  obtain ⟨g1, hmembers, hg⟩ := bind_ok.mp hg
  cases hg
  have hroot : Imported (with_node (unmounted memory heap) VFS_NODE_TYPE_DIRECTORY 0 9) (heap 0) :=
    imported_root hh 0 9
  have hempty : ∀ a, ((with_node (unmounted memory heap) VFS_NODE_TYPE_DIRECTORY 0 9).inodes a).children =
      [] := by
    intro a
    by_cases ha : a = heap 0
    · rw [ha]
      exact congrArg ramfs_node_t.children (with_node_self VFS_NODE_TYPE_DIRECTORY 0 9)
    · rw [with_node_ne ha]
      rfl
  have hfiled : Filed (with_node (unmounted memory heap) VFS_NODE_TYPE_DIRECTORY 0 9) (heap 0) [] := by
    refine ⟨hroot, fun a _ _ => hempty a, ?_⟩
    intro p a hp hf
    rcases List.eq_nil_or_concat p with rfl | ⟨p, token, rfl⟩
    · obtain rfl := at_nil.mp hp
      rw [hroot.tree.directory] at hf
      cases hf
    · rw [List.concat_eq_append] at hp
      obtain ⟨b, e, -, he, -⟩ := at_snoc.mp hp
      have hmem := (child_mem he).1
      rw [hempty b] at hmem
      exact absurd hmem List.not_mem_nil
  have honly : OnlyDirectories g1 :=
    hfiled.members hends (fun f hm => absurd hm List.not_mem_nil) hmembers
  exact honly

theorem boot_ready {memory heap : Nat → Nat} {initrd : List tar_entry_t} (hh : ∀ n, heap n ≠ 0)
    (hends : FilesAtTheEnds initrd) (hboot : boot memory heap initrd = .ok fs) :
    ∃ g, Unmounted g ∧ DevicesReady g fs :=
  boot_unmounted hh hboot fun _ hg => ramfs_driver_init_only hh hends hg

/-- The boot leaves steady file systems, when no member of the initrd lies below a file. -/
theorem boot_steady {memory heap : Nat → Nat} {initrd : List tar_entry_t} (hh : ∀ n, heap n ≠ 0)
    (hends : FilesAtTheEnds initrd) (hboot : boot memory heap initrd = .ok fs) : Steady fs := by
  obtain ⟨g, hunmounted, hready⟩ := boot_ready hh hends hboot
  exact hunmounted.steady_boot hready

end alura_os.vfs
