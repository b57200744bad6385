-- Chains of next pointers: the path that a walk along `next` takes. A list
-- that ends in a null pointer and a ring through a sentinel are both paths.
import Mathlib.Tactic

namespace chains

variable {α : Type*} {next next' : α → α}

/-- The walk along `next` from `a` visits the nodes of `xs` in order, and
then stands at `b`. -/
def Path (next : α → α) : α → List α → α → Prop
  | a, [], b => a = b
  | a, x :: xs, b => a = x ∧ Path next (next x) xs b

@[simp] theorem path_nil {a b : α} : Path next a [] b ↔ a = b := Iff.rfl

@[simp] theorem path_cons {a x b : α} {xs : List α} :
    Path next a (x :: xs) b ↔ a = x ∧ Path next (next x) xs b := Iff.rfl

theorem path_append {a b : α} {xs ys : List α} :
    Path next a (xs ++ ys) b ↔ ∃ c, Path next a xs c ∧ Path next c ys b := by
  induction xs generalizing a with
  | nil => simp
  | cons x xs ih =>
    simp only [List.cons_append, path_cons, ih]
    constructor
    · rintro ⟨rfl, c, h1, h2⟩; exact ⟨c, ⟨rfl, h1⟩, h2⟩
    · rintro ⟨c, ⟨rfl, h1⟩, h2⟩; exact ⟨rfl, c, h1, h2⟩

/-- A path split at one of its nodes. -/
theorem path_split {a x b : α} {xs ys : List α} :
    Path next a (xs ++ x :: ys) b ↔ Path next a xs x ∧ Path next (next x) ys b := by
  rw [path_append]
  constructor
  · rintro ⟨c, h1, rfl, h2⟩; exact ⟨h1, h2⟩
  · rintro ⟨h1, h2⟩; exact ⟨x, h1, rfl, h2⟩

/-- A walk reads only the pointers of the nodes it visits. -/
theorem path_congr {a b : α} {xs : List α} (h : ∀ x ∈ xs, next' x = next x) :
    Path next' a xs b ↔ Path next a xs b := by
  induction xs generalizing a with
  | nil => simp
  | cons x xs ih =>
    simp only [path_cons, h x (by simp)]
    rw [ih (fun y hy => h y (by simp [hy]))]

theorem path_update [DecidableEq α] {a b x y : α} {xs : List α} (h : x ∉ xs) :
    Path (Function.update next x y) a xs b ↔ Path next a xs b := by
  apply path_congr
  intro z hz
  rw [Function.update_of_ne]
  rintro rfl
  exact h hz

/-- The pointers of the nodes of a path are its nodes, one further on. -/
theorem path_map_next {a b : α} {xs : List α} (h : Path next a (a :: xs) b) :
    (a :: xs).map next = xs ++ [b] := by
  induction xs generalizing a with
  | nil => simpa using h
  | cons x xs ih =>
    obtain ⟨-, rfl, h⟩ := h
    simp only [List.map_cons, List.cons_append, List.cons.injEq, true_and]
    exact ih ⟨rfl, h⟩

/-- Only one path leads from `a` to the first visit of `c`. -/
theorem path_unique {a c : α} {xs ys : List α} (hx : Path next a xs c) (hy : Path next a ys c)
    (hcx : c ∉ xs) (hcy : c ∉ ys) : xs = ys := by
  induction xs generalizing a ys with
  | nil =>
    cases ys with
    | nil => rfl
    | cons y ys =>
      obtain ⟨rfl, -⟩ := hy
      simp only [path_nil] at hx
      simp [hx] at hcy
  | cons x xs ih =>
    obtain ⟨rfl, hx⟩ := hx
    cases ys with
    | nil =>
      simp only [path_nil] at hy
      simp [hy] at hcx
    | cons y ys =>
      obtain ⟨rfl, hy⟩ := hy
      rw [ih hx hy (by simp at hcx; exact hcx.2) (by simp at hcy; exact hcy.2)]

/-- A path that meets its end only at the end visits no node twice. -/
theorem path_nodup {a b : α} {xs : List α} (h : Path next a xs b) (hb : b ∉ xs) :
    xs.Nodup := by
  induction xs generalizing a with
  | nil => simp
  | cons x xs ih =>
    obtain ⟨rfl, h⟩ := h
    simp only [List.mem_cons, not_or] at hb
    refine List.nodup_cons.mpr ⟨fun hx => ?_, ih h hb.2⟩
    obtain ⟨l, r, rfl⟩ := List.append_of_mem hx
    have h2 := (path_split.mp h).2
    -- The rest of the walk from `a` is both `l ++ a :: r` and `r`.
    have := path_unique h h2 hb.2 (by simp at hb; tauto)
    have := congrArg List.length this
    simp at this
    omega

/-! ## Loops with fuel -/

/-- The loop `f` ends and gives `r`: any fuel from some amount on is enough. -/
def Ends {β : Type*} (f : Nat → Option β) (r : β) : Prop := ∃ N, ∀ fuel, N ≤ fuel → f fuel = some r

theorem Ends.unique {β : Type*} {f : Nat → Option β} {r r' : β} (h : Ends f r) (h' : Ends f r') :
    r = r' := by
  obtain ⟨N, hN⟩ := h
  obtain ⟨M, hM⟩ := h'
  have h1 := hN (max N M) (by omega)
  rw [hM (max N M) (by omega)] at h1
  exact (Option.some.inj h1).symm

/-! ## Rings -/

/-- The ring through `b`: from `b`, the walk visits the nodes of `xs` and
comes back to `b`. -/
def Loop (next : α → α) (b : α) (xs : List α) : Prop := Path next b (b :: xs) b

theorem loop_inj {b x y : α} {xs : List α} (h : Loop next b xs) (hn : (b :: xs).Nodup)
    (hx : x ∈ b :: xs) (hy : y ∈ b :: xs) (he : next x = next y) : x = y := by
  have hm : ((b :: xs).map next).Nodup := by
    rw [path_map_next h]
    exact (List.perm_append_singleton b xs).nodup_iff.mpr hn
  exact List.inj_on_of_nodup_map hm hx hy he

/-- From the node after `a`, the ring leads through all other nodes back to `a`. -/
theorem loop_rotate {a b : α} {xs pre post : List α} (h : Loop next b xs)
    (hx : b :: xs = pre ++ a :: post) : Path next (next a) (post ++ pre) a := by
  unfold Loop at h
  rw [hx] at h
  obtain ⟨h1, h2⟩ := path_split.mp h
  exact path_append.mpr ⟨b, h2, h1⟩

/-- Between any two nodes of a ring runs a path through nodes of the ring. -/
theorem loop_path {b x t : α} {xs : List α} (h : Loop next b xs) (hn : (b :: xs).Nodup)
    (hx : x ∈ b :: xs) (ht : t ∈ b :: xs) :
    ∃ ys, Path next x ys t ∧ t ∉ ys ∧ (∀ y ∈ ys, y ∈ b :: xs) ∧ ys.length ≤ xs.length := by
  obtain ⟨l, r, hlr⟩ := List.append_of_mem ht
  unfold Loop at h
  have hlen : xs.length + 1 = l.length + r.length + 1 := by
    have := congrArg List.length hlr; simp at this; omega
  rw [hlr] at h hn hx ⊢
  obtain ⟨h1, h2⟩ := path_split.mp h
  have htl : t ∉ l ∧ t ∉ r := by
    have := List.nodup_append.mp hn
    refine ⟨fun hl => this.2.2 t hl t (by simp) rfl, ?_⟩
    exact (List.nodup_cons.mp this.2.1).1
  simp only [List.mem_append, List.mem_cons] at hx
  rcases hx with hx | rfl | hx
  · -- `x` stands before `t`.
    obtain ⟨u, v, rfl⟩ := List.append_of_mem hx
    have h3 := (path_split.mp h1).2
    refine ⟨x :: v, ⟨rfl, h3⟩, ?_, ?_, ?_⟩
    · intro hm; exact htl.1 (List.mem_append_right _ hm)
    · intro y hy; simp only [List.mem_append]; exact Or.inl (Or.inr hy)
    · simp at hlen ⊢; omega
  · exact ⟨[], rfl, by simp, by simp, by simp⟩
  · -- `x` stands after `t`: the path passes `b`.
    obtain ⟨u, v, rfl⟩ := List.append_of_mem hx
    have h3 := (path_split.mp h2).2
    refine ⟨x :: v ++ l, path_append.mpr ⟨b, ⟨rfl, h3⟩, h1⟩, ?_, ?_, ?_⟩
    · intro hm
      rcases List.mem_append.mp hm with hm | hm
      · exact htl.2 (List.mem_append_right _ hm)
      · exact htl.1 hm
    · intro y hy
      rcases List.mem_append.mp hy with hm | hm
      · simp only [List.mem_append, List.mem_cons] at hm ⊢; tauto
      · exact List.mem_append_left _ hm
    · simp at hlen ⊢; omega

end chains
