-- A path cut at its last slash, and the walk along it. `vfs_split_path` looks
-- for the slash with `strrchr`, and `vfs_resolve` reads the path from the front:
-- both come to the same parent and the same name.
import AluraOs.CacheIndex
import AluraOs.PathResolve

namespace alura_os.vfs

open alura_os.memory alura_os.resource faults
open resource_result_t resource_type_t vfs_node_type

variable {fs fs' : fs_t}

/-! ## The last slash -/

/-- The loop of `strrchr`, with the index of the next character and the last occurrence so far. -/
def strrchr_loop (target : Char) : Nat → Option Nat → List Char → Option Nat
  | _, last_occurrence, [] => last_occurrence
  | i, last_occurrence, c :: str =>
    strrchr_loop target (i + 1) (if c = target then some i else last_occurrence) str

/-- `strrchr` for a character other than the one that ends the string. -/
def strrchr (str : List Char) (target : Char) : Option Nat := strrchr_loop target 0 none str

theorem strrchr_loop_append (target : Char) (front back : List Char) (i : Nat) (last : Option Nat) :
    strrchr_loop target i last (front ++ back) =
      strrchr_loop target (i + front.length) (strrchr_loop target i last front) back := by
  induction front generalizing i last with
  | nil => rfl
  | cons c front ih =>
    rw [List.cons_append, strrchr_loop, ih, strrchr_loop, List.length_cons, Nat.add_assoc,
      Nat.add_comm 1]

theorem strrchr_loop_without {target : Char} {str : List Char} (h : ∀ c ∈ str, c ≠ target)
    (i : Nat) (last : Option Nat) : strrchr_loop target i last str = last := by
  induction str generalizing i with
  | nil => rfl
  | cons c str ih =>
    rw [strrchr_loop, if_neg (h c List.mem_cons_self)]
    exact ih (fun x hx => h x (List.mem_cons_of_mem _ hx)) _

/-- A path with a slash is what is before the last one, the slash and the last name. -/
theorem path_with_slash {path : List Char} (h : '/' ∈ path) :
    (path.rdropWhile fun c => c ≠ '/').dropLast ++ '/' :: last_name path = path := by
  have hcut : (path.rdropWhile fun c => c ≠ '/') ++ last_name path = path :=
    List.rdropWhile_append_rtakeWhile
  have hne : path.rdropWhile (fun c => c ≠ '/') ≠ [] := by
    intro hd
    rw [hd] at hcut
    have hname : last_name path = path := hcut
    exact last_name_plain path '/' (by rw [hname]; exact h) rfl
  have hlast : (path.rdropWhile fun c => c ≠ '/').getLast hne = '/' := by
    simpa using List.rdropWhile_last_not _ _ hne
  have hinit := List.dropLast_append_getLast hne
  rw [hlast] at hinit
  rw [← hinit, List.append_assoc] at hcut
  exact hcut

theorem strrchr_path {path : List Char} (h : '/' ∈ path) :
    strrchr path '/' = some (path.rdropWhile fun c => c ≠ '/').dropLast.length := by
  have hsplit := path_with_slash h
  have hplain := last_name_plain path
  generalize (path.rdropWhile fun c => c ≠ '/').dropLast = init at hsplit
  generalize last_name path = name at hsplit hplain
  unfold strrchr
  rw [← hsplit, strrchr_loop_append, strrchr_loop, strrchr_loop_without hplain, Nat.zero_add]
  rfl

/-- `vfs_split_path` as the source has it: the copy ends where `strrchr` found the last slash. -/
theorem vfs_split_path_eq (path : List Char) :
    vfs_split_path path =
      match strrchr path '/' with
      | some last_slash =>
        (path.drop (last_slash + 1),
          if path.take last_slash = [] then ['/'] else path.take last_slash)
      | none => (path, ['/']) := by
  unfold vfs_split_path
  by_cases h : '/' ∈ path
  · rw [if_pos h, strrchr_path h]
    dsimp only
    have hsplit := path_with_slash h
    have hname : path.rtakeWhile (fun c => c ≠ '/') = last_name path := rfl
    rw [hname]
    generalize last_name path = name at hsplit ⊢
    generalize (path.rdropWhile fun c => c ≠ '/').dropLast = init at hsplit ⊢
    rw [← hsplit]
    simp
  · have hplain : ∀ c ∈ path, c ≠ '/' := by
      rintro c hc rfl
      exact h hc
    have hnone : strrchr path '/' = none := strrchr_loop_without hplain 0 none
    rw [if_neg h, hnone]

/-- What `vfs_split_path` gives: the last name, and a path with the components before it. -/
theorem split_path_parts (path : List Char) :
    (vfs_split_path path).1 = last_name path ∧
      components [] (vfs_split_path path).2 = directories path := by
  unfold vfs_split_path
  by_cases hs : '/' ∈ path
  · rw [if_pos hs]
    refine ⟨rfl, ?_⟩
    dsimp only
    unfold directories
    split
    · rename_i hinit
      rw [hinit]
      rfl
    · rfl
  · rw [if_neg hs]
    have hplain : ∀ c ∈ path, decide (c ≠ '/') = true := by
      intro c hc
      rw [decide_eq_true_eq]
      rintro rfl
      exact hs hc
    constructor
    · exact (List.rtakeWhile_eq_self_iff.mpr hplain).symm
    · unfold directories
      rw [List.rdropWhile_eq_nil_iff.mpr hplain]
      rfl

/-! ## The components -/

/-- The components of a path are its parts between slashes that are not empty. -/
theorem components_splitOn (path component : List Char) :
    components component path =
      ((path.splitOn '/').modifyHead (component ++ ·)).filter fun part => part ≠ [] := by
  induction path generalizing component with
  | nil =>
    rw [components, List.splitOn_nil]
    by_cases hc : component = [] <;> simp [hc]
  | cons c path ih =>
    unfold List.splitOn at ih ⊢
    rw [components, List.splitOnP_cons_eq_if_modifyHead]
    by_cases hc : c = '/'
    · subst hc
      have hrest : components [] path =
          (path.splitOnP fun x => x == '/').filter fun part => part ≠ [] := by
        rw [ih []]
        congr 1
        cases path.splitOnP fun x => x == '/' <;> rfl
      rw [if_pos rfl, if_pos (beq_self_eq_true '/'), hrest]
      by_cases hn : component = [] <;> simp [hn]
    · rw [if_neg hc, if_neg (by simpa using hc), ih, List.modifyHead_modifyHead]
      congr 2
      funext x
      simp

/-! ## The loop over the path -/

theorem components_skip (path : List Char) :
    components [] path = components [] (path.dropWhile fun c => c = '/') := by
  induction path with
  | nil => rfl
  | cons c path ih =>
    by_cases hc : c = '/'
    · rw [List.dropWhile_cons_of_pos (by simpa using hc), ← ih, components, if_pos hc, if_pos rfl]
    · rw [List.dropWhile_cons_of_neg (by simpa using hc)]

theorem components_take (path component : List Char) (hne : component ≠ []) :
    components component path = (component ++ path.takeWhile fun c => c ≠ '/') ::
      components [] (path.dropWhile fun c => c ≠ '/') := by
  induction path generalizing component with
  | nil => simp [components, hne]
  | cons c path ih =>
    rw [components]
    by_cases hc : c = '/'
    · rw [if_pos hc, if_neg hne, List.takeWhile_cons_of_neg (by simpa using hc),
        List.dropWhile_cons_of_neg (by simpa using hc), List.append_nil, components, if_pos hc,
        if_pos rfl]
    · rw [if_neg hc, List.takeWhile_cons_of_pos (by simpa using hc),
        List.dropWhile_cons_of_pos (by simpa using hc), ih _ (by simp), List.append_assoc]
      rfl

/-- The loop of `vfs_resolve` on the characters of the path: it skips slashes, reads a component and
looks it up. -/
def vfs_resolve_loop (fs : fs_t) (current : Nat) (path : List Char) :
    Except fault_t (fs_t × resource_result_t × Nat) :=
  match _h : path.dropWhile (fun c => c = '/') with
  | [] => .ok (fs, RESOURCE_RESULT_OK, current)
  | c :: rest => do
    let (fs, result, next) ←
      resolve_component fs current (c :: rest.takeWhile fun c => c ≠ '/')
    if result ≠ RESOURCE_RESULT_OK then return (fs, result, 0)
    vfs_resolve_loop fs next (rest.dropWhile fun c => c ≠ '/')
termination_by path.length
decreasing_by
  have hskip := (List.dropWhile_sublist (l := path) fun c => c = '/').length_le
  have hread := (List.dropWhile_sublist (l := rest) fun c => c ≠ '/').length_le
  rw [_h, List.length_cons] at hskip
  omega

theorem vfs_resolve_loop_eq (fs : fs_t) (current : Nat) (path : List Char) :
    vfs_resolve_loop fs current path = resolve_components fs current (components [] path) := by
  induction hn : path.length using Nat.strong_induction_on generalizing fs current path with
  | _ n ih =>
    rw [vfs_resolve_loop, components_skip]
    have hskip := (List.dropWhile_sublist (l := path) fun c => c = '/').length_le
    split
    · rename_i hp
      rw [hp]
      rfl
    · rename_i c rest hp
      have hc : c ≠ '/' := by
        have hne : path.dropWhile (fun c => c = '/') ≠ [] := by rw [hp]; simp
        have hhead := List.head_dropWhile_not (fun c => decide (c = '/')) hne
        simpa [hp] using hhead
      have hread := (List.dropWhile_sublist (l := rest) fun c => c ≠ '/').length_le
      rw [hp, List.length_cons] at hskip
      rw [hp, components, if_neg hc, List.nil_append, components_take rest [c] (by simp)]
      unfold resolve_components
      dsimp only [List.singleton_append]
      congr 1
      funext x
      split
      · rfl
      · exact ih _ (by omega) _ _ _ rfl

/-- `vfs_resolve` runs the loop from the root. -/
theorem vfs_resolve_eq_loop (fs : fs_t) (path : List Char) :
    vfs_resolve fs path =
      (vfs_lock_node fs fs.root >>= fun fs1 => vfs_resolve_loop fs1 fs1.root path) := by
  unfold vfs_resolve
  congr 1
  funext fs1
  rw [vfs_resolve_loop_eq]

/-! ## The walk -/

/-- From one node to another: the names are looked up one after the other, and each is found. -/
inductive Visits : fs_t → Nat → List (List Char) → fs_t → Nat → Prop
  | here (fs : fs_t) (node : Nat) : Visits fs node [] fs node
  | next {fs fs1 fs2 : fs_t} {current node last : Nat} {name : List Char}
      {names : List (List Char)} :
      resolve_component fs current name = .ok (fs1, RESOURCE_RESULT_OK, node) →
      Visits fs1 node names fs2 last → Visits fs current (name :: names) fs2 last

theorem resolve_components_cons (fs : fs_t) (current : Nat) (name : List Char)
    (names : List (List Char)) :
    resolve_components fs current (name :: names) =
      (resolve_component fs current name >>= fun x =>
        if x.2.1 ≠ RESOURCE_RESULT_OK then .ok (x.1, x.2.1, 0)
        else resolve_components x.1 x.2.2 names) := rfl

theorem resolved_iff_visits {current node : Nat} {names : List (List Char)} :
    resolve_components fs current names = .ok (fs', RESOURCE_RESULT_OK, node) ↔
      Visits fs current names fs' node := by
  induction names generalizing fs current with
  | nil =>
    constructor
    · intro h
      cases h
      exact Visits.here _ _
    · rintro ⟨⟩
      rfl
  | cons name names ih =>
    rw [resolve_components_cons, bind_ok]
    constructor
    · rintro ⟨⟨fs1, r, next⟩, hturn, hrest⟩
      dsimp only at hrest
      split at hrest
      · rename_i hr
        cases hrest
        exact absurd rfl hr
      · rename_i hr
        rw [not_not] at hr
        subst hr
        exact Visits.next hturn (ih.mp hrest)
    · rintro (_ | ⟨hturn, hrest⟩)
      exact ⟨_, hturn, by rw [if_neg (by simp)]; exact ih.mpr hrest⟩

/-- A walk that fails has visited the names before the one that it fails at. -/
theorem failed_visits {current node : Nat} {names : List (List Char)} {r : resource_result_t}
    (hr : r ≠ RESOURCE_RESULT_OK) (h : resolve_components fs current names = .ok (fs', r, node)) :
    ∃ front name rest fs1 d lost, names = front ++ name :: rest ∧ Visits fs current front fs1 d ∧
      resolve_component fs1 d name = .ok (fs', r, lost) := by
  induction names generalizing fs current with
  | nil =>
    cases h
    exact absurd rfl hr
  | cons name names ih =>
    rw [resolve_components_cons, bind_ok] at h
    obtain ⟨⟨fs1, r1, next⟩, hturn, hrest⟩ := h
    dsimp only at hrest
    split at hrest
    · cases hrest
      exact ⟨[], name, names, fs, current, next, rfl, Visits.here fs current, hturn⟩
    · rename_i hok
      rw [not_not] at hok
      subst hok
      obtain ⟨front, name', rest, fs2, d, lost, rfl, hv, hfail⟩ := ih hrest
      exact ⟨name :: front, name', rest, fs2, d, lost, rfl, Visits.next hturn hv, hfail⟩

theorem visits_append {fs fs2 : fs_t} {current last : Nat} {front : List (List Char)}
    {name : List Char} :
    Visits fs current (front ++ [name]) fs2 last ↔ ∃ fs1 d, Visits fs current front fs1 d ∧
      resolve_component fs1 d name = .ok (fs2, RESOURCE_RESULT_OK, last) := by
  induction front generalizing fs current with
  | nil =>
    constructor
    · rintro (_ | ⟨hturn, ⟨⟩⟩)
      exact ⟨fs, current, Visits.here fs current, hturn⟩
    · rintro ⟨fs1, d, ⟨⟩, hturn⟩
      exact Visits.next hturn (Visits.here fs2 last)
  | cons first front ih =>
    constructor
    · rintro (_ | ⟨hturn, hrest⟩)
      obtain ⟨fs1, d, hv, hlast⟩ := ih.mp hrest
      exact ⟨fs1, d, Visits.next hturn hv, hlast⟩
    · rintro ⟨fs1, d, (_ | ⟨hturn, hrest⟩), hlast⟩
      exact Visits.next hturn (ih.mpr ⟨fs1, d, hrest, hlast⟩)

/-! ## One turn -/

/-- A turn that finds its name has looked it up, on what is mounted or on the node itself. -/
theorem component_found {current next : Nat} {name : List Char}
    (h : resolve_component fs current name = .ok (fs', RESOURCE_RESULT_OK, next)) :
    ∃ fs1 d fs2 fs3, cross_mount fs current = .ok (fs1, d) ∧
      lookup fs1 d name = .ok (fs2, RESOURCE_RESULT_OK, next) ∧
      vfs_lock_node fs2 next = .ok fs3 ∧ vfs_release_node fs3 d = .ok fs' := by
  unfold resolve_component at h
  split at h
  · cases h
  · obtain ⟨⟨fs1, d⟩, hcross, h⟩ := bind_ok.mp h
    obtain ⟨⟨fs2, r, node⟩, hlookup, h⟩ := bind_ok.mp h
    dsimp only at h
    split at h
    · rename_i hr
      cases h
      exact absurd rfl hr
    · rename_i hr
      rw [not_not] at hr
      subst hr
      obtain ⟨fs3, hlock, h⟩ := bind_ok.mp h
      obtain ⟨fs4, hrel, h⟩ := bind_ok.mp h
      split at h
      · cases h
      · cases h
        exact ⟨fs1, d, fs2, fs3, hcross, hlookup, hlock, hrel⟩

theorem Indexed.cross {current d : Nat} (h : Indexed fs)
    (hc : cross_mount fs current = .ok (fs', d)) : Indexed fs' := by
  unfold cross_mount at hc
  obtain ⟨n, -, hc⟩ := bind_ok.mp hc
  split at hc
  · cases hc
    exact h
  · obtain ⟨fs1, hlock, hc⟩ := bind_ok.mp hc
    cases hc
    exact h.lock hlock

theorem Indexed.visits {current last : Nat} {names : List (List Char)} (h : Indexed fs)
    (hv : Visits fs current names fs' last) : Indexed fs' := by
  induction hv with
  | here => exact h
  | next hturn _ ih =>
    obtain ⟨fs1, d, fs2, fs3, hcross, hlookup, hlock, hrel⟩ := component_found hturn
    exact ih ((((h.cross hcross).lookup hlookup).indexed.lock hlock).release hrel)

/-- A lookup that finds a name uses live memory. -/
theorem lookup_found {d next : Nat} {name : List Char}
    (h : lookup fs d name = .ok (fs', RESOURCE_RESULT_OK, next)) :
    d ∈ fs.node_blocks ∧
      ((fs.nodes d).operations = .ramfs → (fs.nodes d).fs_data ∈ fs.inode_blocks) := by
  unfold lookup at h
  obtain ⟨n, hn, h⟩ := bind_ok.mp h
  obtain ⟨hd, rfl⟩ := node_ok.mp hn
  refine ⟨hd, fun hop => ?_⟩
  rw [hop] at h
  dsimp only at h
  unfold ramfs_lookup at h
  rw [hn, ok_bind] at h
  obtain ⟨found, hfind, -⟩ := bind_ok.mp h
  unfold ramfs_find_child at hfind
  obtain ⟨p, hp, -⟩ := bind_ok.mp hfind
  exact (inode_ok.mp hp).1

/-- On a node that nothing is mounted on, a turn finds what the lookup of the name finds. -/
theorem found_iff_looked_up {d next : Nat} {name : List Char} (h : Indexed fs)
    (hm : (fs.nodes d).mount = 0) (hshort : name.length < VFS_NODE_NAME_LENGTH) :
    (∃ fs', resolve_component fs d name = .ok (fs', RESOURCE_RESULT_OK, next)) ↔
      ∃ fs', lookup fs d name = .ok (fs', RESOURCE_RESULT_OK, next) := by
  constructor
  · rintro ⟨fs', hturn⟩
    obtain ⟨fs1, node, fs2, fs3, hcross, hlookup, -⟩ := component_found hturn
    unfold cross_mount at hcross
    obtain ⟨n, hn, hcross⟩ := bind_ok.mp hcross
    obtain ⟨-, rfl⟩ := node_ok.mp hn
    rw [if_pos hm] at hcross
    cases hcross
    exact ⟨fs2, hlookup⟩
  · rintro ⟨fs2, hlookup⟩
    obtain ⟨hd, hdata⟩ := lookup_found hlookup
    have hn : fs.node d = .ok (fs.nodes d) := node_ok.mpr ⟨hd, rfl⟩
    have hcross : cross_mount fs d = .ok (fs, d) := by
      unfold cross_mount
      rw [hn, ok_bind, if_pos hm]
      rfl
    have hkept := h.lookup hlookup
    obtain ⟨hz, hlive⟩ := hkept.found rfl
    have hlock := vfs_lock_node_eq hz hlive
    -- The lock changes the count of the node that was found, and no other field.
    obtain ⟨k, hk⟩ := (sameShape_locked fs2 next).nodes d
    rw [hkept.records d hd] at hk
    obtain ⟨fs4, hrel⟩ := (hkept.indexed.lock hlock).release_ok (hkept.live hd) (by
      rw [hk, (sameShape_locked fs2 next).inode_blocks, hkept.inodes]
      exact hdata)
    refine ⟨fs4, ?_⟩
    unfold resolve_component
    rw [if_neg (Nat.not_le.mpr hshort)]
    simp [hcross, hlookup, hlock, hrel, hz]

/-! ## The law -/

theorem vfs_resolve_iff {path : List Char} {node : Nat} :
    vfs_resolve fs path = .ok (fs', RESOURCE_RESULT_OK, node) ↔
      ∃ fs1, vfs_lock_node fs fs.root = .ok fs1 ∧
        Visits fs1 fs1.root (components [] path) fs' node := by
  unfold vfs_resolve
  rw [bind_ok]
  simp only [resolved_iff_visits]

/-- A path leads where the lookup of its last name leads from its parent, and the walk along it
visits its components that are not empty, in order. -/
theorem a_path_leads_where_its_name_leads_from_its_parent (h : Indexed fs) {path : List Char}
    (hne : path ≠ []) (hlen : path.length ≤ 255) (hlast : path.getLast? ≠ some '/')
    (hmount : ∀ fs1 parent,
      vfs_resolve fs (vfs_split_path path).2 = .ok (fs1, RESOURCE_RESULT_OK, parent) →
        (fs1.nodes parent).mount = 0) :
    (∀ node, (∃ fs', vfs_resolve fs path = .ok (fs', RESOURCE_RESULT_OK, node)) ↔
      ∃ fs1 parent fs2,
        vfs_resolve fs (vfs_split_path path).2 = .ok (fs1, RESOURCE_RESULT_OK, parent) ∧
        lookup fs1 parent (vfs_split_path path).1 = .ok (fs2, RESOURCE_RESULT_OK, node)) ∧
    (∀ fs' node, vfs_resolve fs path = .ok (fs', RESOURCE_RESULT_OK, node) ↔
      ∃ fs1, vfs_lock_node fs fs.root = .ok fs1 ∧
        Visits fs1 fs1.root ((path.splitOn '/').filter fun part => part ≠ []) fs' node) ∧
    ∀ fs' r node, r ≠ RESOURCE_RESULT_OK → vfs_resolve fs path = .ok (fs', r, node) →
      ∃ fs1 front name rest fs2 d lost, vfs_lock_node fs fs.root = .ok fs1 ∧
        ((path.splitOn '/').filter fun part => part ≠ []) = front ++ name :: rest ∧
        Visits fs1 fs1.root front fs2 d ∧ resolve_component fs2 d name = .ok (fs', r, lost) := by
  obtain ⟨hname, hparent⟩ := split_path_parts path
  have hparts : components [] path = (path.splitOn '/').filter fun part => part ≠ [] := by
    rw [components_splitOn]
    congr 1
    cases path.splitOn '/' <;> rfl
  have hshort : (last_name path).length < VFS_NODE_NAME_LENGTH := by
    have hmem : last_name path ∈ components [] path := by
      rw [components_path hne hlast]
      simp
    have := components_length [] path _ hmem
    rw [List.length_nil] at this
    unfold VFS_NODE_NAME_LENGTH
    omega
  refine ⟨fun node => ?_, fun fs' node => ?_, fun fs' r node hr hres => ?_⟩
  · simp only [vfs_resolve_iff, components_path hne hlast, visits_append] at hmount ⊢
    rw [hname]
    simp only [hparent] at hmount ⊢
    constructor
    · rintro ⟨fs', fs0, hlock, fs1, d, hv, hturn⟩
      have hd := (h.lock hlock).visits hv
      obtain ⟨fs2, hlookup⟩ := (found_iff_looked_up hd (hmount fs1 d ⟨fs0, hlock, hv⟩) hshort).mp
        ⟨fs', hturn⟩
      exact ⟨fs1, d, fs2, ⟨fs0, hlock, hv⟩, hlookup⟩
    · rintro ⟨fs1, d, fs2, ⟨fs0, hlock, hv⟩, hlookup⟩
      have hd := (h.lock hlock).visits hv
      obtain ⟨fs', hturn⟩ := (found_iff_looked_up hd (hmount fs1 d ⟨fs0, hlock, hv⟩) hshort).mpr
        ⟨fs2, hlookup⟩
      exact ⟨fs', fs0, hlock, fs1, d, hv, hturn⟩
  · rw [vfs_resolve_iff, hparts]
  · unfold vfs_resolve at hres
    obtain ⟨fs1, hlock, hres⟩ := bind_ok.mp hres
    rw [hparts] at hres
    obtain ⟨front, name, rest, fs2, d, lost, hsplit, hv, hfail⟩ := failed_visits hr hres
    exact ⟨fs1, front, name, rest, fs2, d, lost, hlock, hsplit, hv, hfail⟩

/-- `//aa` in a root with two files leads where `aa` leads from `/`. -/
theorem a_path_with_two_slashes :
    (∀ node, (∃ fs', vfs_resolve (shelf 2) ['/', '/', 'a', 'a'] =
        .ok (fs', RESOURCE_RESULT_OK, node)) ↔
      ∃ fs1 parent fs2, vfs_resolve (shelf 2) ['/'] = .ok (fs1, RESOURCE_RESULT_OK, parent) ∧
        lookup fs1 parent ['a', 'a'] = .ok (fs2, RESOURCE_RESULT_OK, node)) ∧
    ∀ fs' node, vfs_resolve (shelf 2) ['/', '/', 'a', 'a'] = .ok (fs', RESOURCE_RESULT_OK, node) ↔
      ∃ fs1, vfs_lock_node (shelf 2) 4 = .ok fs1 ∧ Visits fs1 fs1.root [['a', 'a']] fs' node := by
  have hlaw := a_path_leads_where_its_name_leads_from_its_parent (mirrored_shelf 2).cached.indexed
    (show ['/', '/', 'a', 'a'] ≠ [] by decide) (by decide) (by decide) (by
      intro fs1 parent hres
      have hroot : vfs_resolve (shelf 2) ['/'] =
          .ok (locked (shelf 2) 4, RESOURCE_RESULT_OK, 4) := rfl
      have hres' : vfs_resolve (shelf 2) ['/'] = .ok (fs1, RESOURCE_RESULT_OK, parent) := hres
      rw [hroot] at hres'
      cases hres'
      rfl)
  exact ⟨hlaw.1, hlaw.2.1⟩

end alura_os.vfs
