-- Lists of records that are linked by pointers and end in a null pointer: the
-- walk to the last node, the walk to the node before another, and what a write
-- of a link does to the list. A list with links back is two such lists.
import AluraOs.Chains

namespace chains

variable {α : Type*} {next prev : α → α} {null : α}

/-! ## Walks -/

/-- `while (head->next != NULL) head = head->next;` with at most `n` nodes to visit. -/
def lastNode [DecidableEq α] (next : α → α) (null : α) : Nat → α → Option α
  | 0, _ => none
  | n + 1, head => if next head = null then some head else lastNode next null n (next head)

/-- `while (head->next != NULL) { if (head->next == node) break; head = head->next; }`: the
node before `node`, or `null` when the walk does not meet it. -/
def nodeBefore [DecidableEq α] (next : α → α) (null node : α) : Nat → α → Option α
  | 0, _ => none
  | n + 1, head =>
    if next head = null then some null
    else if next head = node then some head
    else nodeBefore next null node n (next head)

theorem path_null_iff {a : α} {xs : List α} (h : Path next a xs null) (hn : null ∉ xs) :
    a = null ↔ xs = [] := by
  cases xs with
  | nil => simpa using h
  | cons x xs =>
    obtain ⟨rfl, -⟩ := h
    constructor
    · rintro rfl
      simp at hn
    · intro he
      cases he

/-- A walk starts at its first node. -/
theorem path_start {a b : α} {xs : List α} (h : Path next a xs b) : a = xs.headD b := by
  cases xs with
  | nil => exact h
  | cons x xs => exact h.1

/-- The walk along the end of a list. -/
theorem path_suffix {a b : α} {xs ys : List α} (h : Path next a (xs ++ ys) b) :
    Path next (ys.headD b) ys b := by
  obtain ⟨c, -, h2⟩ := path_append.mp h
  rwa [← path_start h2]

theorem lastNode_path [DecidableEq α] {a x : α} {xs : List α} {n : Nat} (h : Path next a (xs ++ [x]) null)
    (hnull : null ∉ xs ++ [x]) (hn : xs.length < n) : lastNode next null n a = some x := by
  induction xs generalizing a n with
  | nil =>
    obtain ⟨rfl, h⟩ := h
    cases n with
    | zero => omega
    | succ n => exact if_pos h
  | cons y ys ih =>
    obtain ⟨rfl, h⟩ := h
    rw [List.cons_append, List.mem_cons, not_or] at hnull
    cases n with
    | zero => omega
    | succ n =>
      have hne : next a ≠ null := by
        rw [Ne, path_null_iff h hnull.2]
        simp
      unfold lastNode
      rw [if_neg hne]
      exact ih h hnull.2 (by simpa using hn)

theorem nodeBefore_found [DecidableEq α] {a x t : α} {xs ys : List α} {n : Nat}
    (h : Path next a (xs ++ x :: t :: ys) null) (hnull : null ∉ xs ++ x :: t :: ys)
    (ht : t ∉ xs ++ [x]) (hn : xs.length < n) : nodeBefore next null t n a = some x := by
  induction xs generalizing a n with
  | nil =>
    obtain ⟨rfl, h⟩ := h
    have h1 : next a = t := h.1
    cases n with
    | zero => omega
    | succ n =>
      have hne : t ≠ null := by
        rintro rfl
        simp at hnull
      unfold nodeBefore
      rw [h1, if_neg hne, if_pos rfl]
  | cons y ys ih =>
    obtain ⟨rfl, h⟩ := h
    rw [List.cons_append, List.mem_cons, not_or] at hnull ht
    cases n with
    | zero => omega
    | succ n =>
      have hne : next a ≠ null := by
        rw [Ne, path_null_iff h hnull.2]
        simp
      have hnt : next a ≠ t := by
        rintro rfl
        cases ys with
        | nil => exact ht.2 (by simpa using h.1)
        | cons z zs => exact ht.2 (by simp [← h.1])
      unfold nodeBefore
      rw [if_neg hne, if_neg hnt]
      exact ih h hnull.2 ht.2 (by simpa using hn)

theorem nodeBefore_absent [DecidableEq α] {a t x : α} {xs : List α} {n : Nat} (h : Path next a (x :: xs) null)
    (hnull : null ∉ xs) (ht : t ∉ xs) (hn : xs.length < n) :
    nodeBefore next null t n a = some null := by
  induction xs generalizing a x n with
  | nil =>
    obtain ⟨rfl, h⟩ := h
    cases n with
    | zero => omega
    | succ n => exact if_pos h
  | cons y ys ih =>
    obtain ⟨rfl, h⟩ := h
    have h1 : next a = y := h.1
    rw [List.mem_cons, not_or] at hnull ht
    cases n with
    | zero => omega
    | succ n =>
      unfold nodeBefore
      rw [h1, if_neg (Ne.symm hnull.1), if_neg (Ne.symm ht.1), ← h1]
      exact ih h hnull.2 ht.2 (by simpa using hn)

/-! ## Writes -/

/-- The last node is linked to a new one. -/
theorem path_link [DecidableEq α] {a x t : α} {xs : List α} (h : Path next a (xs ++ [x]) null) (hx : x ∉ xs)
    (ht : t ∉ xs ++ [x]) (hnext : next t = null) :
    Path (Function.update next x t) a (xs ++ [x] ++ [t]) null := by
  obtain ⟨c, h1, h2⟩ := path_append.mp h
  obtain ⟨rfl, -⟩ := h2
  have htc : t ≠ c := by
    rintro rfl
    simp at ht
  rw [List.append_assoc, path_append]
  refine ⟨c, (path_update hx).mpr h1, rfl, ?_, ?_⟩
  · exact Function.update_self _ _ _
  · rw [path_nil, Function.update_of_ne htc]
    exact hnext

/-- A node is taken out of a list, behind the node `x`. -/
theorem path_unlink [DecidableEq α] {a x t : α} {xs ys : List α} (h : Path next a (xs ++ x :: t :: ys) null)
    (hd : (xs ++ x :: t :: ys).Nodup) :
    Path (Function.update (Function.update next x (next t)) t null) a (xs ++ x :: ys) null := by
  rw [List.nodup_append] at hd
  obtain ⟨-, hd2, hd3⟩ := hd
  rw [List.nodup_cons, List.nodup_cons] at hd2
  have htxs : t ∉ xs := fun hm => hd3 t hm t (by simp) rfl
  have hxxs : x ∉ xs := fun hm => hd3 x hm x (by simp) rfl
  have hxt : x ≠ t := by
    rintro rfl
    simp at hd2
  obtain ⟨h1, h2⟩ := path_split.mp h
  have h3 : Path next (next t) ys null := h2.2
  apply path_split.mpr
  refine ⟨(path_update htxs).mpr ((path_update hxxs).mpr h1), ?_⟩
  rw [Function.update_of_ne hxt, Function.update_self]
  exact (path_update hd2.2.1).mpr ((path_update fun hm => hd2.1 (by simp [hm])).mpr h3)

theorem path_unlink_head [DecidableEq α] {a x : α} {xs : List α} (h : Path next a (x :: xs) null)
    (hd : (x :: xs).Nodup) : Path (Function.update next x null) (next x) xs null :=
  (path_update (List.nodup_cons.mp hd).1).mpr h.2

/-! ## Lists with links back -/

/-- `head` and `tail` are the two ends of a list whose links `next` and `prev` are inverse to
each other. -/
def Linked (next prev : α → α) (null head tail : α) (xs : List α) : Prop :=
  Path next head xs null ∧ Path prev tail xs.reverse null

theorem Linked.congr {next' prev' : α → α} {head tail : α} {xs : List α}
    (h : Linked next prev null head tail xs) (hn : ∀ x ∈ xs, next' x = next x)
    (hp : ∀ x ∈ xs, prev' x = prev x) : Linked next' prev' null head tail xs := by
  refine ⟨(path_congr hn).mpr h.1, (path_congr ?_).mpr h.2⟩
  intro x hx
  exact hp x (List.mem_reverse.mp hx)

theorem Linked.symm {head tail : α} {xs : List α} (h : Linked next prev null head tail xs) :
    Linked prev next null tail head xs.reverse := by
  refine ⟨h.2, ?_⟩
  rw [List.reverse_reverse]
  exact h.1

/-- A new node at the end of an empty list. -/
theorem linked_singleton {x : α} (hn : next x = null) (hp : prev x = null) :
    Linked next prev null x x [x] := ⟨⟨rfl, hn⟩, ⟨rfl, hp⟩⟩

/-- The end of a list that is not empty is its last node. -/
theorem Linked.tail_eq {head tail x : α} {xs : List α}
    (h : Linked next prev null head tail (xs ++ [x])) : tail = x := by
  have h2 := h.2
  rw [List.reverse_append] at h2
  exact h2.1

theorem Linked.tail_mem {head tail : α} {xs : List α} (h : Linked next prev null head tail xs)
    (hne : xs ≠ []) : tail ∈ xs := by
  rcases List.eq_nil_or_concat xs with rfl | ⟨ys, y, rfl⟩
  · exact absurd rfl hne
  rw [List.concat_eq_append] at *
  rw [h.tail_eq]
  simp

/-- A new node behind the last one. -/
theorem linked_link [DecidableEq α] {head tail t : α} {xs : List α} (h : Linked next prev null head tail xs)
    (hne : xs ≠ []) (hd : xs.Nodup) (ht : t ∉ xs) (hn : next t = null) (hp : prev t = tail) :
    Linked (Function.update next tail t) prev null head t (xs ++ [t]) := by
  rcases List.eq_nil_or_concat xs with rfl | ⟨ys, y, rfl⟩
  · exact absurd rfl hne
  rw [List.concat_eq_append] at *
  have htail : tail = y := h.tail_eq
  have hy : y ∉ ys := by
    intro hm
    rw [List.nodup_append] at hd
    exact hd.2.2 y hm y (by simp) rfl
  refine ⟨?_, ?_⟩
  · rw [htail]
    exact path_link h.1 hy ht hn
  · rw [List.reverse_append]
    exact ⟨rfl, hp ▸ h.2⟩

/-- The node before a place in a list, or `null`. -/
def before (null : α) (xs : List α) : α := xs.getLast?.getD null

theorem prev_eq {head tail x : α} {xs ys : List α}
    (h : Linked next prev null head tail (xs ++ x :: ys)) : prev x = before null xs := by
  have h2 := h.2
  rw [List.reverse_append, List.reverse_cons, List.append_assoc] at h2
  have h3 : Path prev (prev x) xs.reverse null := (path_split.mp h2).2
  rcases List.eq_nil_or_concat xs with rfl | ⟨zs, z, rfl⟩
  · exact h3
  · rw [List.concat_eq_append] at *
    rw [List.reverse_append] at h3
    simpa [before] using h3.1

/-- A link back leads to a node of the list, or ends it. -/
theorem Linked.prev_mem {head tail x : α} {xs : List α} (h : Linked next prev null head tail xs)
    (hx : x ∈ xs) : prev x = null ∨ prev x ∈ xs := by
  obtain ⟨ys, zs, rfl⟩ := List.append_of_mem hx
  rw [prev_eq h]
  rcases List.eq_nil_or_concat ys with rfl | ⟨ws, w, rfl⟩
  · exact Or.inl rfl
  · right
    simp [before]

/-- A link back leads to another node. -/
theorem Linked.prev_ne {head tail x : α} {xs : List α} (h : Linked next prev null head tail xs)
    (hx : x ∈ xs) (hnull : null ∉ xs) (hd : xs.Nodup) : prev x ≠ x := by
  obtain ⟨ys, zs, rfl⟩ := List.append_of_mem hx
  rw [prev_eq h]
  rcases List.eq_nil_or_concat ys with rfl | ⟨ws, w, rfl⟩
  · rintro rfl
    exact hnull (by simp [before])
  · rw [List.concat_eq_append, List.nodup_append] at hd
    rw [List.concat_eq_append]
    have hw : before null (ws ++ [w]) = w := by simp [before]
    rw [hw]
    exact hd.2.2 w (by simp) x (by simp)

theorem Linked.next_mem {head tail x : α} {xs : List α} (h : Linked next prev null head tail xs)
    (hx : x ∈ xs) : next x = null ∨ next x ∈ xs := by
  have := h.symm.prev_mem (List.mem_reverse.mpr hx)
  rwa [List.mem_reverse] at this

/-- The list without the node `x`: the link of the node before it, or else the head, moves on. -/
theorem path_skip [DecidableEq α] {head x : α} {xs ys : List α} (h : Path next head (xs ++ x :: ys) null)
    (hnull : null ∉ xs ++ x :: ys) (hd : (xs ++ x :: ys).Nodup) :
    Path (if before null xs = null then next else Function.update next (before null xs) (next x))
      (if before null xs = null then next x else head) (xs ++ ys) null := by
  rcases List.eq_nil_or_concat xs with rfl | ⟨zs, z, rfl⟩
  · simpa [before] using h.2
  rw [List.concat_eq_append] at *
  have hz : before null (zs ++ [z]) = z := by simp [before]
  have hne : z ≠ null := by
    rintro rfl
    simp at hnull
  rw [hz, if_neg hne, if_neg hne]
  rw [List.append_assoc] at h hd ⊢
  rw [List.nodup_append] at hd
  obtain ⟨-, hd2, hd3⟩ := hd
  have hzs : z ∉ zs := fun hm => hd3 z hm z (by simp) rfl
  have hzy : z ∉ ys := by
    intro hm
    exact (List.nodup_cons.mp hd2).1 (by simp [hm])
  obtain ⟨h1, h2⟩ := path_split.mp h
  apply path_split.mpr
  refine ⟨(path_update hzs).mpr h1, ?_⟩
  rw [Function.update_self]
  exact (path_update hzy).mpr h2.2

/-- A node is taken out of a list with links back. -/
theorem linked_unlink [DecidableEq α] {head tail x : α} {xs ys : List α}
    (h : Linked next prev null head tail (xs ++ x :: ys)) (hnull : null ∉ xs ++ x :: ys)
    (hd : (xs ++ x :: ys).Nodup) :
    Linked (if prev x = null then next else Function.update next (prev x) (next x))
      (if next x = null then prev else Function.update prev (next x) (prev x)) null
      (if prev x = null then next x else head) (if next x = null then prev x else tail)
      (xs ++ ys) := by
  have hrev : (xs ++ x :: ys).reverse = ys.reverse ++ x :: xs.reverse := by simp
  have hp : prev x = before null xs := prev_eq h
  have hn : next x = before null ys.reverse := by
    have h' := h.symm
    rw [hrev] at h'
    exact prev_eq h'
  refine ⟨?_, ?_⟩
  · rw [hp]
    exact path_skip h.1 hnull hd
  · have h2 := h.2
    rw [hrev] at h2
    rw [hn, List.reverse_append]
    exact path_skip h2 (by rw [← hrev, List.mem_reverse]; exact hnull)
      (by rw [← hrev, List.nodup_reverse]; exact hd)

end chains
