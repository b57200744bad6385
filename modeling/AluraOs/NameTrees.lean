-- Trees of names over any type of files: what a path leads to, what one entry more or less
-- changes of that, and where a path leads when other trees are mounted.
import Mathlib.Logic.Function.Basic
import Mathlib.Data.List.Infix

namespace name_trees

variable {F N A : Type*} {child child' : F → N → Option F} {root x y z : F} {p q d : List N}
  {name : N}

/-! ## Paths -/

/-- What a path leads to from `x`. `child` gives what a name in a directory leads to. -/
def follow (child : F → N → Option F) (x : F) : List N → Option F
  | [] => some x
  | name :: path => (child x name).bind fun y => follow child y path

theorem follow_cons (h : child x name = some y) (path : List N) :
    follow child x (name :: path) = follow child y path := by
  rw [follow, h, Option.bind_some]

theorem follow_append (child : F → N → Option F) (x : F) (p q : List N) :
    follow child x (p ++ q) = (follow child x p).bind fun y => follow child y q := by
  induction p generalizing x with
  | nil => rfl
  | cons name p ih =>
    rw [List.cons_append, follow, follow]
    cases child x name with
    | none => rfl
    | some y => exact ih y

theorem follow_concat : follow child x (p ++ [name]) = some z ↔
    ∃ y, follow child x p = some y ∧ child y name = some z := by
  rw [follow_append, Option.bind_eq_some_iff]
  refine exists_congr fun y => and_congr_right fun _ => ?_
  rw [follow, Option.bind_eq_some_iff]
  constructor
  · rintro ⟨w, hw, hz⟩
    cases hz
    exact hw
  · exact fun hz => ⟨z, hz, rfl⟩

/-- On the way to the end of a path there is something everywhere. -/
theorem follow_prefix (h : follow child x (p ++ q) = some z) :
    ∃ y, follow child x p = some y ∧ follow child y q = some z := by
  rw [follow_append, Option.bind_eq_some_iff] at h
  exact h

/-- The same entries below `x` give the same paths. -/
theorem follow_congr (h : ∀ p a, follow child root p = some a → child' a = child a) :
    follow child' root = follow child root := by
  suffices hfrom : ∀ q p a, follow child root p = some a → follow child' a q = follow child a q from
    funext fun q => hfrom q [] root rfl
  intro q
  induction q with
  | nil => exact fun _ _ _ => rfl
  | cons name q ih =>
    intro p a ha
    rw [follow, follow, h p a ha]
    cases hc : child a name with
    | none => rfl
    | some b => exact ih (p ++ [name]) b (follow_concat.mpr ⟨a, ha, hc⟩)

/-- A directory has one name at most, only directories have entries, and none of them is for the
root. -/
structure OneTree (child : F → N → Option F) (root : F) (directory : F → Prop) : Prop where
  top : ∀ p a name, follow child root p = some a → child a name ≠ some root
  parent : ∀ p a name b, follow child root p = some a → child a name = some b → directory a
  single : ∀ p a name q a' name' b, follow child root p = some a → follow child root q = some a' →
    directory b → child a name = some b → child a' name' = some b → a = a' ∧ name = name'

/-- One path leads to a directory. -/
theorem OneTree.one_path {directory : F → Prop} (h : OneTree child root directory)
    (hz : directory z) (hp : follow child root p = some z) (hq : follow child root q = some z) :
    p = q := by
  induction p using List.reverseRecOn generalizing q z with
  | nil =>
    cases hp
    rcases List.eq_nil_or_concat q with rfl | ⟨q, name, rfl⟩
    · rfl
    · rw [List.concat_eq_append] at hq
      obtain ⟨a, ha, hc⟩ := follow_concat.mp hq
      exact absurd hc (h.top q a name ha)
  | append_singleton p name ih =>
    obtain ⟨a, ha, hc⟩ := follow_concat.mp hp
    rcases List.eq_nil_or_concat q with rfl | ⟨q, name', rfl⟩
    · cases hq
      exact absurd hc (h.top p a name ha)
    · rw [List.concat_eq_append] at hq ⊢
      obtain ⟨a', ha', hc'⟩ := follow_concat.mp hq
      obtain ⟨rfl, rfl⟩ := h.single p a name q a' name' z ha ha' hz hc hc'
      rw [ih (h.parent p a name z ha hc) ha ha']

/-! ## One entry -/

/-- Only the entry `name` of the directory `y` differs, and what it was and is for has no
entries. -/
structure OneEntry (child child' : F → N → Option F) (root y : F) (name : N) : Prop where
  others : ∀ p a m, follow child root p = some a → ¬ (a = y ∧ m = name) → child' a m = child a m
  before : ∀ c, child y name = some c → ∀ m, child c m = none
  after : ∀ c, child' y name = some c → ∀ m, child' c m = none

/-- A path that does not go through the entry leads to what it led to. -/
theorem OneEntry.follow_other (h : OneEntry child child' root y name)
    (hone : ∀ p, follow child root p = some y → p = d) (hp : follow child root p = some x)
    (hno : ¬ d ++ [name] <+: p ++ q) : follow child' x q = follow child x q := by
  induction q generalizing p x with
  | nil => rfl
  | cons m q ih =>
    have hc : child' x m = child x m := by
      refine h.others p x m hp ?_
      rintro ⟨rfl, rfl⟩
      rw [hone p hp] at hno
      exact hno ⟨q, by rw [List.append_assoc, List.singleton_append]⟩
    rw [follow, follow, hc]
    cases hb : child x m with
    | none => rfl
    | some b =>
      refine ih (follow_concat.mpr ⟨x, hp, hb⟩) ?_
      rwa [List.append_assoc, List.singleton_append]

/-- An entry that leads to something without entries is the end of a path. -/
theorem follow_leaf (hy : follow child root d = some y)
    (hleaf : ∀ c, child y name = some c → ∀ m, child c m = none) (q : List N) :
    follow child root (d ++ [name] ++ q) = if q = [] then child y name else none := by
  have hend : follow child root (d ++ [name]) = child y name := by
    rw [follow_append, hy, Option.bind_some, follow]
    exact Option.bind_fun_some _
  rw [follow_append, hend]
  cases hc : child y name with
  | none => rw [Option.bind_none, ite_self]
  | some c =>
    rw [Option.bind_some]
    cases q with
    | nil => rfl
    | cons m q =>
      rw [if_neg (List.cons_ne_nil m q), follow, hleaf c hc m]
      rfl

/-- One entry changes one path. -/
theorem OneEntry.follow_eq [DecidableEq N] (h : OneEntry child child' root y name)
    (hone : ∀ p, follow child root p = some y → p = d) (hd : follow child root d = some y) :
    follow child' root = Function.update (follow child root) (d ++ [name]) (child' y name) := by
  have hshort : ¬ d ++ [name] <+: [] ++ d := fun hpre => by
    have := hpre.length_le
    rw [List.length_append, List.nil_append, List.length_singleton] at this
    omega
  have hd' : follow child' root d = some y := (h.follow_other (p := []) hone rfl hshort).trans hd
  funext p
  by_cases hpre : d ++ [name] <+: p
  · obtain ⟨q, rfl⟩ := hpre
    rw [follow_leaf hd' h.after]
    by_cases hq : q = []
    · rw [if_pos hq, hq, List.append_nil, Function.update_self]
    · have hne : d ++ [name] ++ q ≠ d ++ [name] := fun he => hq (List.append_right_eq_self.mp he)
      rw [if_neg hq, Function.update_of_ne hne, follow_leaf hd h.before, if_neg hq]
  · have hne : p ≠ d ++ [name] := fun he => hpre (he ▸ List.prefix_refl _)
    rw [Function.update_of_ne hne]
    exact h.follow_other (p := []) hone rfl hpre

/-! ## Mount points -/

section mounts

variable (mounted : F → Prop) [DecidablePred mounted] (behind : N → List N → A) (found : F → A)
  (missing : A)

/-- What a path leads to, when what is behind a mount point is answered by something else. -/
def lookup (child : F → N → Option F) (x : F) : List N → A
  | [] => found x
  | name :: path =>
    if mounted x then behind name path
    else match child x name with
      | some y => lookup child y path
      | none => missing

/-- The same, from what the paths lead to below the mount points. -/
def seen (entries : List N → Option F) (front : List N) : List N → A
  | [] => match entries front with
    | some x => found x
    | none => missing
  | name :: path => match entries front with
    | some x => if mounted x then behind name path else seen entries (front ++ [name]) path
    | none => missing

theorem seen_none {entries : List N → Option F} (h : entries p = none) (path : List N) :
    seen mounted behind found missing entries p path = missing := by
  cases path with
  | nil => rw [seen, h]
  | cons name path => rw [seen, h]

/-- The beginnings of a path determine what it leads to. -/
theorem seen_congr {entries entries' : List N → Option F} {path : List N}
    (h : ∀ q, q <+: path → entries' (p ++ q) = entries (p ++ q)) :
    seen mounted behind found missing entries' p path =
      seen mounted behind found missing entries p path := by
  induction path generalizing p with
  | nil =>
    have hp := h [] (List.prefix_refl [])
    rw [List.append_nil] at hp
    rw [seen, seen, hp]
  | cons name path ih =>
    have hp := h [] (List.nil_prefix)
    rw [List.append_nil] at hp
    have hrest := ih (p := p ++ [name]) fun q hq => by
      have := h (name :: q) (List.cons_prefix_cons.mpr ⟨rfl, hq⟩)
      rwa [List.append_assoc, List.singleton_append]
    rw [seen, seen, hp, hrest]

/-- The lookup is determined by what the paths lead to below the mount points. -/
theorem lookup_eq (hp : follow child root p = some x) (path : List N) :
    lookup mounted behind found missing child x path =
      seen mounted behind found missing (follow child root) p path := by
  induction path generalizing p x with
  | nil => rw [lookup, seen, hp]
  | cons name path ih =>
    rw [lookup, seen, hp]
    dsimp only
    by_cases hm : mounted x
    · rw [if_pos hm, if_pos hm]
    rw [if_neg hm, if_neg hm]
    cases hc : child x name with
    | some y => exact ih (follow_concat.mpr ⟨x, hp, hc⟩)
    | none =>
      refine (seen_none mounted behind found missing ?_ path).symm
      rw [follow_append, hp, Option.bind_some, follow, hc, Option.bind_none]

end mounts

end name_trees
