-- The laws of the kernel heap: the free blocks form one ring in address
-- order, no two blocks overlap, no two free blocks touch, and the search
-- loops of malloc and free always end.
import AluraOs.KernelHeap
import AluraOs.Chains
import AluraOs.Blocks

namespace alura_os.kernel_heap

open alura_os.memory chains blocks

variable {σ : Type}

/-! ## Writes to headers -/

namespace kernel_heap_t

@[simp] theorem setNext_next (k : kernel_heap_t σ) (a v : Nat) :
    (k.setNext a v).next = Function.update k.next a v := by
  funext b
  by_cases h : b = a
  · subst h; simp [next, setNext]
  · simp [next, setNext, h]

@[simp] theorem setNext_size (k : kernel_heap_t σ) (a v : Nat) : (k.setNext a v).size = k.size := by
  funext b
  by_cases h : b = a
  · subst h; simp [size, setNext]
  · simp [size, setNext, h]

@[simp] theorem setSize_size (k : kernel_heap_t σ) (a v : Nat) :
    (k.setSize a v).size = Function.update k.size a v := by
  funext b
  by_cases h : b = a
  · subst h; simp [size, setSize]
  · simp [size, setSize, h]

@[simp] theorem setSize_next (k : kernel_heap_t σ) (a v : Nat) : (k.setSize a v).next = k.next := by
  funext b
  by_cases h : b = a
  · subst h; simp [next, setSize]
  · simp [next, setSize, h]

@[simp] theorem setNext_fields (k : kernel_heap_t σ) (a v : Nat) :
    (k.setNext a v).base = k.base ∧ (k.setNext a v).free_headers_head = k.free_headers_head ∧
      (k.setNext a v).heap_start = k.heap_start ∧ (k.setNext a v).heap_end = k.heap_end ∧
      (k.setNext a v).heap_break = k.heap_break ∧ (k.setNext a v).pages = k.pages :=
  ⟨rfl, rfl, rfl, rfl, rfl, rfl⟩

@[simp] theorem setSize_fields (k : kernel_heap_t σ) (a v : Nat) :
    (k.setSize a v).base = k.base ∧ (k.setSize a v).free_headers_head = k.free_headers_head ∧
      (k.setSize a v).heap_start = k.heap_start ∧ (k.setSize a v).heap_end = k.heap_end ∧
      (k.setSize a v).heap_break = k.heap_break ∧ (k.setSize a v).pages = k.pages :=
  ⟨rfl, rfl, rfl, rfl, rfl, rfl⟩

@[simp] theorem setHead_fields (k : kernel_heap_t σ) (a : Nat) :
    (k.setHead a).next = k.next ∧ (k.setHead a).size = k.size ∧ (k.setHead a).base = k.base ∧
      (k.setHead a).free_headers_head = a ∧ (k.setHead a).heap_start = k.heap_start ∧
      (k.setHead a).heap_end = k.heap_end ∧ (k.setHead a).heap_break = k.heap_break ∧
      (k.setHead a).pages = k.pages :=
  ⟨rfl, rfl, rfl, rfl, rfl, rfl, rfl, rfl⟩

/-- The bytes of the block whose header is at `b`. -/
def bytes (k : kernel_heap_t σ) (b : Nat) : Nat := 8 * k.size b

end kernel_heap_t

theorem bytes_update (s : Nat → Nat) (a v : Nat) :
    (fun b => 8 * Function.update s a v b) = Function.update (fun b => 8 * s b) a (8 * v) := by
  funext b
  by_cases h : b = a
  · subst h; simp
  · simp [h]

/-! ## The invariant -/

/-- The fixed addresses of the heap, and a break inside its window. -/
structure Window (k : kernel_heap_t σ) : Prop where
  base_pos : 0 < k.base
  base_low : k.base + 8 ≤ 0xF0000000
  base_size : k.size k.base = 0
  start_eq : k.heap_start = 0xF0000000
  end_eq : k.heap_end = 0xF7FFF000
  break_low : 0xF0000000 ≤ k.heap_break
  break_high : k.heap_break ≤ 0xF7FFF000
  break_mod : k.heap_break % 4096 = 0

/-- The heap holds the free blocks `free` and the live blocks `live`, each
named by the address of its header. -/
structure Inv (k : kernel_heap_t σ) (free live : List Nat) : Prop where
  window : Window k
  ring : Loop k.next k.base free
  sorted : (k.base :: free).Pairwise (· < ·)
  head_mem : k.free_headers_head ∈ k.base :: free
  layout : Layout k.bytes k.heap_start k.heap_break (free ++ live)
  aligned : ∀ b ∈ free ++ live, b % 8 = 0
  gap : ∀ b ∈ free, ∀ c ∈ free, b + k.bytes b ≠ c

/-- The state inside `kernel_heap_free` once the freed block `f` is linked to
the free blocks `r` above it. The free blocks `l` below it end in `location`,
and only the link of `location` is still the old one. -/
structure Open (k : kernel_heap_t σ) (l₀ : List Nat) (location : Nat) (l : List Nat) (f : Nat)
    (r live : List Nat) : Prop where
  window : Window k
  split : l₀ ++ [location] = k.base :: l
  low : Path k.next k.base l₀ location
  high : Path k.next (k.next f) r k.base
  sorted : (k.base :: l ++ f :: r).Pairwise (· < ·)
  layout : Layout k.bytes k.heap_start k.heap_break (l ++ f :: r ++ live)
  aligned : ∀ b ∈ l ++ f :: r ++ live, b % 8 = 0
  touch : ∀ b ∈ l ++ f :: r, ∀ c ∈ l ++ f :: r, b + k.bytes b = c → b = location ∧ c = f

/-- A header in the heap, and the end of its block, fit 32 bits. -/
theorem block_bounds {k : kernel_heap_t σ} {bs : List Nat} (hw : Window k)
    (hl : Layout k.bytes k.heap_start k.heap_break bs) {b : Nat} (hb : b ∈ bs) :
    0xF0000000 ≤ b ∧ b + 8 * k.size b ≤ 0xF7FFF000 ∧ 0 < k.size b := by
  have h1 := hl.low b hb
  have h2 := hl.high b hb
  have h3 := hl.pos b hb
  have h4 := hw.start_eq
  have h5 := hw.break_high
  unfold kernel_heap_t.bytes at h2 h3
  omega

theorem endOf_eq {k : kernel_heap_t σ} {bs : List Nat} (hw : Window k)
    (hl : Layout k.bytes k.heap_start k.heap_break bs) {b : Nat} (hb : b ∈ bs) :
    k.endOf b = b + k.bytes b := by
  have := block_bounds hw hl hb
  unfold kernel_heap_t.endOf kernel_heap_t.bytes
  exact u32_of_lt (by omega)

/-! ## The place of a freed block -/

/-- A sorted list splits at an address that is not in it. -/
theorem sorted_split {b f : Nat} {free : List Nat} (hs : (b :: free).Pairwise (· < ·))
    (hb : b < f) (hf : f ∉ free) :
    ∃ l r, free = l ++ r ∧ (∀ x ∈ b :: l, x < f) ∧ ∀ x ∈ r, f < x := by
  induction free generalizing b with
  | nil => exact ⟨[], [], rfl, by simpa using hb, by simp⟩
  | cons x xs ih =>
    simp only [List.mem_cons, not_or] at hf
    rcases Nat.lt_or_ge x f with hx | hx
    · obtain ⟨l, r, rfl, h1, h2⟩ := ih (List.pairwise_cons.mp hs).2 hx hf.2
      refine ⟨x :: l, r, rfl, ?_, h2⟩
      simp only [List.mem_cons, forall_eq_or_imp] at h1 ⊢
      exact ⟨hb, h1⟩
    · refine ⟨[], x :: xs, rfl, by simpa using hb, ?_⟩
      intro y hy
      have hxy := (List.pairwise_cons.mp (List.pairwise_cons.mp hs).2).1
      simp only [List.mem_cons] at hy
      rcases hy with rfl | hy
      · omega
      · have := hxy y hy; omega

/-- The search passes over the nodes of a path on which it does not stop, and
stops at its end. -/
theorem free_location_path {k : kernel_heap_t σ} {f x t : Nat} {ys : List Nat}
    (hp : Path k.next x ys t)
    (hskip : ∀ y ∈ ys, ¬ (y < f ∧ f < k.next y) ∧
      ¬ (k.next y ≤ y ∧ (y < f ∨ f < k.next y)))
    (hstop : (t < f ∧ f < k.next t) ∨ (k.next t ≤ t ∧ (t < f ∨ f < k.next t))) (fuel : Nat) :
    kernel_heap_free_location k f (ys.length + 1 + fuel) x = some t := by
  induction ys generalizing x with
  | nil =>
    simp only [path_nil] at hp
    subst hp
    rw [List.length_nil, show 0 + 1 + fuel = fuel + 1 by omega, kernel_heap_free_location]
    rcases hstop with h | h
    · simp [h]
    · simp [h]
  | cons y ys ih =>
    obtain ⟨rfl, hp⟩ := hp
    obtain ⟨h1, h2⟩ := hskip x (by simp)
    rw [List.length_cons, show ys.length + 1 + 1 + fuel = (ys.length + 1 + fuel) + 1 by omega,
      kernel_heap_free_location]
    simp only [h1, h2, if_false]
    exact ih hp (fun y hy => hskip y (by simp [hy]))

/-- The nodes of a sorted ring before and after an address: the pointer of every
node but `location` leads to a node on the same side, or back to the base. -/
theorem ring_skip {k : kernel_heap_t σ} {l₀ l r : List Nat} {location f : Nat}
    (hr : Loop k.next k.base (l ++ r)) (hs : (k.base :: (l ++ r)).Pairwise (· < ·))
    (hsplit : l₀ ++ [location] = k.base :: l) (hl : ∀ x ∈ k.base :: l, x < f)
    (hrf : ∀ x ∈ r, f < x) :
    ∀ y ∈ l₀ ++ r, ¬ (y < f ∧ f < k.next y) ∧
      ¬ (k.next y ≤ y ∧ (y < f ∨ f < k.next y)) := by
  have hring : Path k.next k.base (l₀ ++ location :: r) k.base := by
    have : k.base :: (l ++ r) = l₀ ++ location :: r := by
      rw [← List.cons_append, ← hsplit]; simp
    unfold Loop at hr
    rwa [this] at hr
  have hs' : (l₀ ++ location :: r).Pairwise (· < ·) := by
    have : k.base :: (l ++ r) = l₀ ++ location :: r := by
      rw [← List.cons_append, ← hsplit]; simp
    rwa [this] at hs
  have hl' : ∀ x ∈ l₀ ++ [location], x < f := by rw [hsplit]; exact hl
  intro y hy
  rcases List.mem_append.mp hy with hy | hy
  · -- Below the address the next node is larger, and still below it.
    obtain ⟨a, b, rfl⟩ := List.append_of_mem hy
    have hp : Path k.next (k.next y) b location :=
      (path_split.mp (path_split.mp hring).1).2
    have hmem : k.next y ∈ b ++ [location] := by
      cases b with
      | nil => simp at hp; simp [hp]
      | cons z zs => simp [hp.1]
    have h1 : k.next y < f := by
      apply hl'
      rcases List.mem_append.mp hmem with h | h
      · simp [h]
      · simp only [List.mem_singleton] at h; simp [h]
    have h2 : y < k.next y := by
      have hpw : (y :: (b ++ location :: r)).Pairwise (· < ·) := by
        have : a ++ y :: b ++ location :: r = a ++ (y :: (b ++ location :: r)) := by simp
        rw [this] at hs'
        exact (List.pairwise_append.mp hs').2.1
      apply (List.pairwise_cons.mp hpw).1
      rcases List.mem_append.mp hmem with h | h
      · simp [h]
      · simp only [List.mem_singleton] at h; simp [h]
    omega
  · -- Above the address the next node is larger, or it is the base.
    obtain ⟨a, b, rfl⟩ := List.append_of_mem hy
    have hp : Path k.next (k.next y) b k.base :=
      (path_split.mp (path_split.mp hring).2).2
    have hyf := hrf y (by simp)
    have hbf := hl k.base (by simp)
    cases b with
    | nil => simp only [path_nil] at hp; omega
    | cons z zs =>
      have hz : k.next y = z := hp.1
      have hzy : y < z := by
        have h3 := (List.pairwise_append.mp hs').2.1
        have h4 := (List.pairwise_append.mp (List.pairwise_cons.mp h3).2).2.1
        exact (List.pairwise_cons.mp h4).1 z (by simp)
      omega

/-- Where `kernel_heap_free` puts the block `f`: after the last node of the ring
below it. -/
theorem free_location_spec {k : kernel_heap_t σ} {free live : List Nat} {f : Nat}
    (h : Inv k free (f :: live)) :
    ∃ l₀ location l r, free = l ++ r ∧ l₀ ++ [location] = k.base :: l ∧
      (∀ x ∈ k.base :: l, x < f) ∧ (∀ x ∈ r, f < x) ∧
      ∀ fuel, free.length + 1 ≤ fuel →
        kernel_heap_free_location k f fuel k.free_headers_head = some location := by
  have hf := block_bounds h.window h.layout (b := f) (by simp)
  have hbase := h.window.base_low
  have hnot : f ∉ free := by
    have := List.nodup_append.mp h.layout.nodup
    intro hm
    exact this.2.2 f hm f (by simp) rfl
  obtain ⟨l, r, rfl, hl, hrf⟩ := sorted_split h.sorted (by omega) hnot
  obtain ⟨l₀, location, hsplit⟩ : ∃ l₀ location, l₀ ++ [location] = k.base :: l :=
    ⟨(k.base :: l).dropLast, (k.base :: l).getLast (by simp), List.dropLast_append_getLast _⟩
  refine ⟨l₀, location, l, r, rfl, hsplit, hl, hrf, ?_⟩
  have hnd : (k.base :: (l ++ r)).Nodup := h.sorted.imp (fun hlt => Nat.ne_of_lt hlt)
  have heq : k.base :: (l ++ r) = l₀ ++ location :: r := by
    rw [← List.cons_append, ← hsplit]; simp
  have hloc : location ∈ k.base :: (l ++ r) := by rw [heq]; simp
  obtain ⟨ys, hp, hnys, hsub, hlen⟩ := loop_path h.ring hnd h.head_mem hloc
  have hskip := ring_skip h.ring h.sorted hsplit hl hrf
  have hlocf : location < f := hl location (by rw [← hsplit]; simp)
  have hstop : (location < f ∧ f < k.next location) ∨
      (k.next location ≤ location ∧ (location < f ∨ f < k.next location)) := by
    have hring := h.ring
    unfold Loop at hring
    rw [heq] at hring
    have hp2 := (path_split.mp hring).2
    cases r with
    | nil =>
      simp only [path_nil] at hp2
      have : k.base ≤ location := by
        have hm : location ∈ k.base :: l := by rw [← hsplit]; simp
        rcases List.mem_cons.mp hm with hm | hm
        · omega
        · have := (List.pairwise_cons.mp h.sorted).1 location (by simp [hm]); omega
      exact Or.inr ⟨by omega, Or.inl hlocf⟩
    | cons z zs => exact Or.inl ⟨hlocf, by rw [hp2.1]; exact hrf z (by simp)⟩
  intro fuel hfuel
  have hsk : ∀ y ∈ ys, ¬ (y < f ∧ f < k.next y) ∧
      ¬ (k.next y ≤ y ∧ (y < f ∨ f < k.next y)) := by
    intro y hy
    apply hskip
    have hm := hsub y hy
    rw [heq] at hm
    simp only [List.mem_append, List.mem_cons] at hm ⊢
    rcases hm with hm | hm | hm
    · exact Or.inl hm
    · subst hm; exact absurd hy hnys
    · exact Or.inr hm
  have := free_location_path hp hsk hstop (fuel - (ys.length + 1))
  rwa [show ys.length + 1 + (fuel - (ys.length + 1)) = fuel by omega] at this

/-! ## Linking the freed block -/

theorem window_setNext {k : kernel_heap_t σ} (h : Window k) (a v : Nat) :
    Window (k.setNext a v) := by
  obtain ⟨h1, h2, h3, h4, h5, h6, h7, h8⟩ := h
  exact ⟨h1, h2, by simpa using h3, h4, h5, h6, h7, h8⟩

theorem window_setSize {k : kernel_heap_t σ} (h : Window k) {a : Nat} (v : Nat)
    (ha : a ≠ k.base) : Window (k.setSize a v) := by
  obtain ⟨h1, h2, h3, h4, h5, h6, h7, h8⟩ := h
  exact ⟨h1, h2, by simpa [Function.update_of_ne ha.symm] using h3, h4, h5, h6, h7, h8⟩

theorem window_setHead {k : kernel_heap_t σ} (h : Window k) (a : Nat) : Window (k.setHead a) := by
  obtain ⟨h1, h2, h3, h4, h5, h6, h7, h8⟩ := h
  exact ⟨h1, h2, h3, h4, h5, h6, h7, h8⟩

theorem bytes_setSize (k : kernel_heap_t σ) (a v : Nat) :
    (k.setSize a v).bytes = Function.update k.bytes a (8 * v) := by
  unfold kernel_heap_t.bytes
  rw [kernel_heap_t.setSize_size]
  exact bytes_update _ _ _

theorem bytes_setNext (k : kernel_heap_t σ) (a v : Nat) : (k.setNext a v).bytes = k.bytes := by
  unfold kernel_heap_t.bytes
  rw [kernel_heap_t.setNext_size]

theorem bytes_setHead (k : kernel_heap_t σ) (a : Nat) : (k.setHead a).bytes = k.bytes := rfl

/-- The freed block in its place in the address order. -/
theorem sorted_insert {b f : Nat} {l r : List Nat} (hs : (b :: (l ++ r)).Pairwise (· < ·))
    (hl : ∀ x ∈ b :: l, x < f) (hr : ∀ x ∈ r, f < x) : (b :: l ++ f :: r).Pairwise (· < ·) := by
  rw [← List.cons_append] at hs
  obtain ⟨h1, h2, h3⟩ := List.pairwise_append.mp hs
  refine List.pairwise_append.mpr ⟨h1, List.pairwise_cons.mpr ⟨hr, h2⟩, ?_⟩
  intro x hx y hy
  rcases List.mem_cons.mp hy with rfl | hy
  · exact hl x hx
  · exact h3 x hx y hy

/-- The first step of `kernel_heap_free`: the freed block takes in the next free
block if they touch, and links to the free blocks above it. -/
theorem open_of_free_next {k : kernel_heap_t σ} {l₀ l r live : List Nat} {location f : Nat}
    (h : Inv k (l ++ r) (f :: live)) (hsplit : l₀ ++ [location] = k.base :: l)
    (hl : ∀ x ∈ k.base :: l, x < f) (hr : ∀ x ∈ r, f < x) :
    ∃ r', Open (kernel_heap_free_next k f location) l₀ location l f r' live ∧
      (r' = r ∨ ∃ n, r = n :: r') ∧ k.size f ≤ (kernel_heap_free_next k f location).size f ∧
      total (kernel_heap_free_next k f location).bytes (l ++ f :: r' ++ live) =
        total k.bytes (l ++ f :: r ++ live) := by
  have hloop : Path k.next k.base (l₀ ++ location :: r) k.base := by
    have : k.base :: (l ++ r) = l₀ ++ location :: r := by
      rw [← List.cons_append, ← hsplit]; simp
    have hk := h.ring
    unfold Loop at hk
    rwa [this] at hk
  obtain ⟨hlow, hhigh⟩ := path_split.mp hloop
  have hfb : f ≠ k.base := Nat.ne_of_gt (hl k.base (by simp))
  have hfl : f ∉ l₀ := by
    intro hm
    have := hl f (by rw [← hsplit]; simp [hm])
    omega
  have hlocf : location ≠ f := Nat.ne_of_lt (hl location (by rw [← hsplit]; simp))
  have hperm : (l ++ f :: r ++ live).Perm (l ++ r ++ f :: live) := by
    simp only [List.append_assoc]
    refine List.Perm.append_left l ?_
    simpa using (List.perm_middle : (r ++ f :: live).Perm (f :: (r ++ live))).symm
  have hlay : Layout k.bytes k.heap_start k.heap_break (l ++ f :: r ++ live) :=
    layout_perm h.layout hperm
  have hal : ∀ b ∈ l ++ f :: r ++ live, b % 8 = 0 := fun b hb => h.aligned b (hperm.subset hb)
  have hfend := endOf_eq h.window h.layout (b := f) (by simp)
  -- Two free blocks never touch, so a block that touches another has `f` at one side.
  have hgap : ∀ b ∈ l ++ r, ∀ c ∈ l ++ r, b + k.bytes b ≠ c := h.gap
  have hbelow : ∀ b ∈ l ++ f :: r, b + k.bytes b = f → b = location := by
    intro b hb hbf
    have hposb := hlay.pos b (List.mem_append_left _ hb)
    have hbl : b ∈ l := by
      simp only [List.mem_append, List.mem_cons] at hb
      rcases hb with hb | rfl | hb
      · exact hb
      · omega
      · have := hr b hb; omega
    by_contra hne
    -- `location` stands between `b` and `f`, inside the block at `b`.
    have hlocl : location ∈ l := by
      have hm : location ∈ k.base :: l := by rw [← hsplit]; simp
      rcases List.mem_cons.mp hm with hm | hm
      · exfalso
        have hl0 : l = [] := by
          cases l₀ with
          | nil => simp at hsplit; exact hsplit.2
          | cons z zs =>
            exfalso
            have hnd : (k.base :: (l ++ r)).Nodup := h.sorted.imp (fun hlt => Nat.ne_of_lt hlt)
            simp only [List.cons_append, List.cons.injEq] at hsplit
            have : k.base ∈ l := by rw [← hsplit.2, ← hm]; simp
            exact (List.nodup_cons.mp hnd).1 (by simp [this])
        rw [hl0] at hbl
        simp at hbl
      · exact hm
    have hin := hlay.not_inside (b := b) (c := location)
      (by simp [hbl]) (by simp [hlocl]) hne
    have hlt := hl location (by simp [hlocl])
    have hb0 : b ∈ l₀ := by
      have hm : b ∈ l₀ ++ [location] := by rw [hsplit]; simp [hbl]
      simp only [List.mem_append, List.mem_singleton] at hm
      exact hm.resolve_right hne
    have hsrt : (l₀ ++ [location]).Pairwise (· < ·) := by
      rw [hsplit]
      have := h.sorted
      rw [← List.cons_append] at this
      exact (List.pairwise_append.mp this).1
    have := (List.pairwise_append.mp hsrt).2.2 b hb0 location (by simp)
    omega
  unfold kernel_heap_free_next
  rw [hfend]
  split
  · -- The freed block ends where the next free block starts.
    rename_i htouch
    cases r with
    | nil =>
      exfalso
      simp only [path_nil] at hhigh
      have := hl k.base (by simp)
      omega
    | cons n r' =>
      obtain ⟨hn, hhigh⟩ := hhigh
      rw [hn] at htouch ⊢
      have hnf : n ≠ f := Nat.ne_of_gt (hr n (by simp))
      have hbn := block_bounds h.window h.layout (b := n) (by simp)
      have hbf := block_bounds h.window h.layout (b := f) (by simp)
      have hsz : u32 (k.size f + k.size n) = k.size f + k.size n :=
        u32_of_lt (by unfold kernel_heap_t.bytes at htouch; omega)
      have hperm2 : (f :: n :: (l ++ r' ++ live)).Perm (l ++ f :: n :: r' ++ live) := by
        have h1 : (l ++ f :: n :: r' ++ live) = l ++ f :: (n :: (r' ++ live)) := by simp
        rw [h1]
        refine (List.Perm.trans ?_ List.perm_middle.symm)
        refine List.Perm.cons f ?_
        have h2 : n :: (l ++ r' ++ live) = n :: (l ++ (r' ++ live)) := by simp
        rw [h2]
        exact List.perm_middle.symm
      have hmerge := layout_merge (layout_perm hlay hperm2) htouch
      have hperm3 : (l ++ f :: r' ++ live).Perm (f :: (l ++ r' ++ live)) := by
        simp only [List.append_assoc, List.cons_append]
        exact List.perm_middle
      refine ⟨r', ?_, Or.inr ⟨n, rfl⟩, by simp [hsz], ?_⟩
      rotate_left
      · rw [bytes_setNext, bytes_setSize, hsz,
          show 8 * (k.size f + k.size n) = k.bytes f + k.bytes n by
            unfold kernel_heap_t.bytes; omega, total_perm hperm3,
          total_merge (layout_perm hlay hperm2).nodup, total_perm hperm2]
      simp only [kernel_heap_t.setSize_next, hn, hsz]
      have hnr : f ∉ r' := by
        intro hm
        have := hr f (by simp [hm])
        omega
      refine ⟨window_setNext (window_setSize h.window _ hfb) _ _, hsplit, ?_, ?_, ?_, ?_, ?_, ?_⟩
      · simp only [kernel_heap_t.setNext_next, kernel_heap_t.setSize_next]
        exact (path_update hfl).mpr hlow
      · simp only [kernel_heap_t.setNext_next, kernel_heap_t.setSize_next, Function.update_self]
        exact (path_update hnr).mpr hhigh
      · have := sorted_insert h.sorted hl hr
        refine this.sublist ?_
        simp
      · rw [bytes_setNext, bytes_setSize]
        have he : 8 * (k.size f + k.size n) = k.bytes f + k.bytes n := by
          unfold kernel_heap_t.bytes; omega
        rw [he]
        refine layout_perm hmerge ?_
        simp
      · intro b hb
        apply hal
        simp only [List.mem_append, List.mem_cons] at hb ⊢
        tauto
      · intro b hb c hc hbc
        rw [bytes_setNext, bytes_setSize] at hbc
        have hbn' : b ≠ n ∧ c ≠ n := by
          have hnd := (hperm2.nodup_iff.mpr hlay.nodup)
          simp only [List.nodup_cons, List.mem_cons, List.mem_append, not_or] at hnd
          simp only [List.mem_append, List.mem_cons] at hb hc
          constructor
          · rintro rfl; tauto
          · rintro rfl; tauto
        by_cases hbf' : b = f
        · -- The end of the joined block is the end of `n`.
          subst hbf'
          rw [Function.update_self] at hbc
          exfalso
          simp only [List.mem_append, List.mem_cons] at hc
          have hcl : c ∈ l ++ n :: r' := by
            simp only [List.mem_append, List.mem_cons]
            rcases hc with hc | hc | hc
            · exact Or.inl hc
            · omega
            · exact Or.inr (Or.inr hc)
          apply hgap n (by simp) c hcl
          unfold kernel_heap_t.bytes at htouch ⊢
          omega
        · rw [Function.update_of_ne hbf'] at hbc
          by_cases hcf : c = f
          · subst hcf
            refine ⟨hbelow b ?_ hbc, rfl⟩
            simp only [List.mem_append, List.mem_cons] at hb ⊢
            tauto
          · exfalso
            refine hgap b ?_ c ?_ hbc
            · simp only [List.mem_append, List.mem_cons] at hb ⊢; tauto
            · simp only [List.mem_append, List.mem_cons] at hc ⊢; tauto
  · rename_i htouch
    have hnr : f ∉ r := by
      intro hm
      have := hr f hm
      omega
    refine ⟨r, ?_, Or.inl rfl, by simp, by rw [bytes_setNext]⟩
    refine ⟨window_setNext h.window _ _, hsplit, ?_, ?_, sorted_insert h.sorted hl hr, ?_, hal, ?_⟩
    · simp only [kernel_heap_t.setNext_next]
      exact (path_update hfl).mpr hlow
    · simp only [kernel_heap_t.setNext_next, Function.update_self]
      exact (path_update hnr).mpr hhigh
    · rw [bytes_setNext]; exact hlay
    · intro b hb c hc hbc
      rw [bytes_setNext] at hbc
      by_cases hcf : c = f
      · subst hcf
        exact ⟨hbelow b hb hbc, rfl⟩
      · exfalso
        have hcl : c ∈ l ++ r := by
          simp only [List.mem_append, List.mem_cons] at hc ⊢; tauto
        by_cases hbf' : b = f
        · subst hbf'
          have hposb := hlay.pos b (by simp)
          -- `c` is the next free block, since it starts where the freed block ends.
          cases r with
          | nil =>
            have := hl c (by simp at hcl; simp [hcl])
            omega
          | cons n r' =>
            apply htouch
            rw [hhigh.1, hbc]
            have hcr : c ∈ n :: r' := by
              rcases List.mem_append.mp hcl with hc' | hc'
              · have := hl c (by simp [hc']); omega
              · exact hc'
            rcases List.mem_cons.mp hcr with hc' | hc'
            · exact hc'
            · exfalso
              have hlt : n < c := by
                have := h.sorted
                rw [← List.cons_append] at this
                exact (List.pairwise_cons.mp (List.pairwise_append.mp this).2.1).1 c hc'
              have hnb := hr n (by simp)
              have := hlay.not_inside (b := b) (c := n) (by simp) (by simp) (by omega)
              omega
        · refine hgap b ?_ c hcl hbc
          simp only [List.mem_append, List.mem_cons] at hb ⊢; tauto

/-- The second step of `kernel_heap_free`: the free block before the freed one
takes it in if they touch, else it links to it. The ring is closed again, and
the block `w` of the ring covers the freed block. -/
theorem inv_of_free_previous {k : kernel_heap_t σ} {l₀ l r live : List Nat} {location f : Nat}
    (h : Open k l₀ location l f r live) :
    ∃ l' w, Inv ((kernel_heap_free_previous k f location).setHead location) (l' ++ w :: r) live ∧
      ((l' = l ∧ w = f ∧ (kernel_heap_free_previous k f location).size = k.size) ∨
        l = l' ++ [w] ∧ w + k.bytes w = f ∧ (kernel_heap_free_previous k f location).size =
          Function.update k.size w (k.size w + k.size f)) ∧
      k.size f ≤ (kernel_heap_free_previous k f location).size w ∧
      (∀ x, k.size x ≤ (kernel_heap_free_previous k f location).size x) ∧
      total (kernel_heap_free_previous k f location).bytes (l' ++ w :: r ++ live) =
        total k.bytes (l ++ f :: r ++ live) := by
  have hw := h.window
  have hmemloc : location ∈ k.base :: l := by rw [← h.split]; simp
  have hsrt := h.sorted
  have hbf : k.base < f := by
    rw [List.cons_append] at hsrt
    exact (List.pairwise_cons.mp hsrt).1 f (by simp)
  have hlf : ∀ x ∈ k.base :: l, x < f := by
    intro x hx
    exact (List.pairwise_append.mp hsrt).2.2 x hx f (by simp)
  have hfr : ∀ x ∈ r, f < x := (List.pairwise_cons.mp (List.pairwise_append.mp hsrt).2.1).1
  have hlocf := hlf location hmemloc
  have hnd : (k.base :: l ++ f :: r).Nodup := hsrt.imp (fun hlt => Nat.ne_of_lt hlt)
  have hloc0 : location ∉ l₀ := by
    have : (l₀ ++ [location]).Nodup := by
      rw [h.split]; exact (List.nodup_append.mp hnd).1
    intro hm
    exact (List.nodup_append.mp this).2.2 location hm location (by simp) rfl
  have hlocr : location ∉ r := by
    intro hm
    have := hfr location hm
    omega
  have hfmem : f ∈ l ++ f :: r ++ live := by simp
  have hbounds := block_bounds hw h.layout hfmem
  unfold kernel_heap_free_previous
  split
  · -- The block before ends where the freed block starts, so it is not the base.
    rename_i htouch
    have hne : location ≠ k.base := by
      intro he
      unfold kernel_heap_t.endOf at htouch
      rw [he, hw.base_size, u32_of_lt (by have := hw.base_low; omega)] at htouch
      omega
    have hlocl : location ∈ l := (List.mem_cons.mp hmemloc).resolve_left hne
    obtain ⟨l', rfl⟩ : ∃ l', l = l' ++ [location] := by
      have hsp := h.split
      cases l₀ with
      | nil =>
        simp only [List.nil_append, List.cons.injEq] at hsp
        exact absurd hsp.1 hne
      | cons z zs =>
        simp only [List.cons_append, List.cons.injEq] at hsp
        exact ⟨zs, hsp.2.symm⟩
    have hlb := block_bounds hw h.layout (b := location) (by simp)
    rw [endOf_eq hw h.layout (b := location) (by simp)] at htouch
    have hsz : u32 (k.size location + k.size f) = k.size location + k.size f :=
      u32_of_lt (by unfold kernel_heap_t.bytes at htouch; omega)
    have hl0 : l₀ = k.base :: l' := by
      have hsp := h.split
      rw [← List.cons_append] at hsp
      exact List.append_inj_left' hsp rfl
    subst hl0
    have hperm : (location :: f :: (l' ++ r ++ live)).Perm
        (l' ++ [location] ++ f :: r ++ live) := by
      have h1 : l' ++ [location] ++ f :: r ++ live = l' ++ location :: (f :: (r ++ live)) := by
        simp
      rw [h1]
      refine List.Perm.trans ?_ List.perm_middle.symm
      refine List.Perm.cons _ ?_
      rw [List.append_assoc]
      exact List.perm_middle.symm
    have hjoined : (l' ++ location :: r ++ live).Perm (location :: (l' ++ r ++ live)) := by
      simp only [List.append_assoc, List.cons_append]
      exact List.perm_middle
    have he : 8 * (k.size location + k.size f) = k.bytes location + k.bytes f := by
      unfold kernel_heap_t.bytes; omega
    refine ⟨l', location, ⟨?_, ?_, ?_, ?_, ?_, ?_, ?_⟩, Or.inr ⟨rfl, htouch, by simp [hsz]⟩, ?_, ?_, ?_⟩
    · exact window_setHead (window_setNext (window_setSize hw _ hne) _ _) _
    · simp only [kernel_heap_t.setHead_fields, kernel_heap_t.setNext_next,
        kernel_heap_t.setNext_fields, kernel_heap_t.setSize_next, kernel_heap_t.setSize_fields]
      unfold Loop
      rw [← List.cons_append, path_split, Function.update_self]
      exact ⟨(path_update hloc0).mpr h.low, (path_update hlocr).mpr h.high⟩
    · refine hsrt.sublist ?_
      simp
    · simp
    · rw [bytes_setHead, bytes_setNext, bytes_setSize, hsz]
      rw [he]
      exact layout_perm (layout_merge (layout_perm h.layout hperm) htouch) hjoined
    · intro b hb
      apply h.aligned
      simp only [List.mem_append, List.mem_cons] at hb ⊢
      tauto
    · intro b hb c hc hbc
      have hcf : c ≠ f := by
        rintro rfl
        have := (List.nodup_append.mp hnd).2
        simp only [List.mem_append, List.mem_cons] at hc
        rcases hc with hc | hc | hc
        · have := hlf c (by simp [hc]); omega
        · omega
        · have := hfr c hc; omega
      have hc' : c ∈ l' ++ [location] ++ f :: r := by
        simp only [List.mem_append, List.mem_cons] at hc ⊢; tauto
      rw [bytes_setHead, bytes_setNext, bytes_setSize, hsz] at hbc
      by_cases hbl : b = location
      · subst hbl
        rw [Function.update_self] at hbc
        -- The end of the joined block is the end of `f`.
        have := h.touch f (by simp) c hc' (by unfold kernel_heap_t.bytes at htouch ⊢; omega)
        exact hcf this.2
      · rw [Function.update_of_ne hbl] at hbc
        have hb' : b ∈ l' ++ [location] ++ f :: r := by
          simp only [List.mem_append, List.mem_cons] at hb ⊢; tauto
        exact hcf (h.touch b hb' c hc' hbc).2
    · simp [hsz]
    · intro x
      by_cases hx : x = location
      · subst hx; simp [hsz]
      · simp [Function.update_of_ne hx]
    · rw [bytes_setNext, bytes_setSize, hsz, he, total_perm hjoined,
        total_merge (layout_perm h.layout hperm).nodup, total_perm hperm]
  · rename_i htouch
    refine ⟨l, f, ⟨?_, ?_, ?_, ?_, ?_, ?_, ?_⟩, Or.inl ⟨rfl, rfl, by simp⟩, ?_, ?_,
      by rw [bytes_setNext]⟩
    · exact window_setHead (window_setNext hw _ _) _
    · simp only [kernel_heap_t.setHead_fields, kernel_heap_t.setNext_fields]
      unfold Loop
      have hlist : k.base :: (l ++ f :: r) = l₀ ++ location :: (f :: r) := by
        rw [← List.cons_append, ← h.split]; simp
      rw [hlist, path_split]
      simp only [kernel_heap_t.setNext_next, Function.update_self, path_cons, true_and]
      refine ⟨(path_update hloc0).mpr h.low, ?_⟩
      rw [Function.update_of_ne (by omega : f ≠ location)]
      exact (path_update hlocr).mpr h.high
    · exact hsrt
    · show location ∈ k.base :: (l ++ f :: r)
      rcases List.mem_cons.mp hmemloc with hm | hm
      · simp [hm]
      · simp [hm]
    · rw [bytes_setHead, bytes_setNext]
      exact h.layout
    · exact h.aligned
    · intro b hb c hc hbc
      rw [bytes_setHead, bytes_setNext] at hbc
      obtain ⟨rfl, rfl⟩ := h.touch b hb c hc hbc
      apply htouch
      have hbl : b ∈ l := by
        simp only [List.mem_append, List.mem_cons] at hb
        rcases hb with hb | hb | hb
        · exact hb
        · omega
        · exact absurd hb hlocr
      rw [endOf_eq hw h.layout (b := b) (by simp [hbl])]
      exact hbc
    · simp
    · intro x; simp

/-- The fields that malloc and free leave alone, growth apart. -/
structure SameWindow (k k' : kernel_heap_t σ) : Prop where
  base : k'.base = k.base
  heap_break : k'.heap_break = k.heap_break
  pages : k'.pages = k.pages

theorem free_next_same (k : kernel_heap_t σ) (f location : Nat) :
    SameWindow k (kernel_heap_free_next k f location) := by
  unfold kernel_heap_free_next
  split <;> exact ⟨rfl, rfl, rfl⟩

theorem free_previous_same (k : kernel_heap_t σ) (f location : Nat) :
    SameWindow k (kernel_heap_free_previous k f location) := by
  unfold kernel_heap_free_previous
  split <;> exact ⟨rfl, rfl, rfl⟩

theorem free_next_size_ne (k : kernel_heap_t σ) {f x : Nat} (location : Nat) (h : x ≠ f) :
    (kernel_heap_free_next k f location).size x = k.size x := by
  unfold kernel_heap_free_next
  split <;> simp [Function.update_of_ne h]

theorem free_previous_size_ne (k : kernel_heap_t σ) {location x : Nat} (f : Nat)
    (h : x ≠ location) : (kernel_heap_free_previous k f location).size x = k.size x := by
  unfold kernel_heap_free_previous
  split <;> simp [Function.update_of_ne h]

/-- `kernel_heap_free` of a live block ends, and gives a heap in which that block
is free: on its own, or joined to the free blocks it touches. -/
theorem kernel_heap_free_spec {k : kernel_heap_t σ} {free live : List Nat} {f : Nat}
    (h : Inv k free (f :: live)) :
    ∃ k' l r l' w r', free = l ++ r ∧ (∀ x ∈ r, f < x) ∧ (r' = r ∨ ∃ n, r = n :: r') ∧
      ((l' = l ∧ w = f ∧ ∀ x, x ≠ f → k'.size x = k.size x) ∨
        l = l' ++ [w] ∧ w + k.bytes w = f ∧ k.size w + k.size f ≤ k'.size w ∧
          ∀ x, x ≠ f → x ≠ w → k'.size x = k.size x) ∧
      Inv k' (l' ++ w :: r') live ∧ k.size f ≤ k'.size w ∧
      SameWindow k k' ∧ (∀ x ∈ live, k'.size x = k.size x) ∧
      (∀ x, x ≠ f → k.size x ≤ k'.size x) ∧
      (∃ l₀, l₀ ++ [k'.free_headers_head] = k.base :: l) ∧
      total k'.bytes (l' ++ w :: r' ++ live) = total k.bytes (free ++ f :: live) ∧
      ∀ fuel, free.length + 1 ≤ fuel → kernel_heap_free fuel k (f + 8) = some k' := by
  obtain ⟨l₀, location, l, r, rfl, hsplit, hl, hr, hfuel⟩ := free_location_spec h
  obtain ⟨r', hopen, hr', hgrow, htotal⟩ := open_of_free_next h hsplit hl hr
  obtain ⟨l', w, hinv, hl', hsize, hmono, htotal'⟩ := inv_of_free_previous hopen
  refine ⟨_, l, r, l', w, r', rfl, hr, hr', ?_, hinv, ?_, ?_, ?_, ?_, ⟨l₀, hsplit⟩, ?_, ?_⟩
  · rcases hl' with ⟨h1, h2, hsame⟩ | ⟨rfl, htouch, hjoin⟩
    · refine Or.inl ⟨h1, h2, fun x hx => ?_⟩
      rw [← free_next_size_ne k location hx]
      exact congrFun hsame x
    · have hwf : w ≠ f := Nat.ne_of_lt (hl w (by simp))
      refine Or.inr ⟨rfl, ?_, ?_, fun x hx hxw => ?_⟩
      · unfold kernel_heap_t.bytes at htouch ⊢
        rwa [free_next_size_ne k location hwf] at htouch
      · have hself := congrFun hjoin w
        rw [Function.update_self, free_next_size_ne k location hwf] at hself
        exact le_trans (Nat.add_le_add_left hgrow _) (le_of_eq hself.symm)
      · rw [← free_next_size_ne k location hx]
        exact (congrFun hjoin x).trans (Function.update_of_ne hxw _ _)
  · exact le_trans hgrow hsize
  · obtain ⟨a1, a2, a3⟩ := free_next_same k f location
    obtain ⟨b1, b2, b3⟩ := free_previous_same (kernel_heap_free_next k f location) f location
    exact ⟨b1.trans a1, b2.trans a2, b3.trans a3⟩
  · intro x hx
    have hnd := List.nodup_append.mp h.layout.nodup
    have hxf : x ≠ f := by
      rintro rfl
      exact (List.nodup_cons.mp hnd.2.1).1 hx
    have hxl : x ≠ location := by
      rintro rfl
      have hm : x ∈ k.base :: l := by rw [← hsplit]; simp
      rcases List.mem_cons.mp hm with hm | hm
      · have h1 := (block_bounds h.window h.layout (b := x) (by simp [hx])).1
        have h2 := h.window.base_low
        omega
      · exact hnd.2.2 x (by simp [hm]) x (by simp [hx]) rfl
    show (kernel_heap_free_previous _ f location).size x = k.size x
    rw [free_previous_size_ne _ _ hxl, free_next_size_ne _ _ hxf]
  · intro x hx
    rw [← free_next_size_ne k location hx]
    exact hmono x
  · rw [bytes_setHead, htotal', htotal]
    apply total_perm
    simp only [List.append_assoc, List.cons_append]
    exact List.perm_middle.symm.append_left l
  · intro fuel hle
    have hf := block_bounds h.window h.layout (b := f) (by simp)
    unfold kernel_heap_free
    rw [if_neg (by omega), sub32_of_le (by omega) (by omega), Nat.add_sub_cancel]
    simp only [hfuel fuel hle]

/-! ## Taking a block -/

/-- Every node of the ring but the base follows another node. -/
theorem loop_split_at {k : kernel_heap_t σ} {free : List Nat} {previous current : Nat}
    (hr : Loop k.next k.base free) (hn : (k.base :: free).Nodup)
    (hp : previous ∈ k.base :: free) (hc : current ∈ free) (hnext : k.next previous = current) :
    ∃ l r, k.base :: free = l ++ previous :: current :: r := by
  obtain ⟨l, r, rfl⟩ := List.append_of_mem hc
  obtain ⟨l₀, x, hx⟩ : ∃ l₀ x, l₀ ++ [x] = k.base :: l :=
    ⟨(k.base :: l).dropLast, (k.base :: l).getLast (by simp), List.dropLast_append_getLast _⟩
  have heq : k.base :: (l ++ current :: r) = l₀ ++ x :: current :: r := by
    rw [← List.cons_append, ← hx]; simp
  have hpath := hr
  unfold Loop at hpath
  rw [heq] at hpath
  have hxc : k.next x = current := (path_split.mp hpath).2.1
  have : previous = x := by
    refine loop_inj hr hn hp ?_ (hnext.trans hxc.symm)
    rw [heq]; simp
  subst this
  exact ⟨l₀, r, heq⟩

/-- A block of the ring that is large enough serves the request. -/
theorem kernel_heap_take_spec {k : kernel_heap_t σ} {free live : List Nat}
    {n previous current : Nat} (h : Inv k free live) (hn : 0 < n)
    (hp : previous ∈ k.base :: free) (hc : current ∈ k.base :: free)
    (hnext : k.next previous = current) (hfit : n ≤ k.size current) :
    ∃ k' free' b, kernel_heap_take k n previous current = (k', b + 8) ∧ Inv k' free' (b :: live) ∧
      k'.size b = n ∧ SameWindow k k' ∧ (∀ x ∈ live, k'.size x = k.size x) ∧
      total k'.bytes (free' ++ b :: live) = total k.bytes (free ++ live) ∧
      b + 8 * n = current + k.bytes current := by
  have hbs := h.window.base_size
  have hcf : current ∈ free := by
    rcases List.mem_cons.mp hc with rfl | hm
    · omega
    · exact hm
  have hnd : (k.base :: free).Nodup := h.sorted.imp (fun hlt => Nat.ne_of_lt hlt)
  obtain ⟨l, r, heq⟩ := loop_split_at h.ring hnd hp hcf hnext
  have hcb := block_bounds h.window h.layout (b := current) (by simp [hcf])
  have hcbase : current ≠ k.base := by have := h.window.base_low; omega
  have hnd' : (l ++ previous :: current :: r).Nodup := heq ▸ hnd
  have hpath : Path k.next k.base (l ++ previous :: current :: r) k.base := by
    have := h.ring
    unfold Loop at this
    rwa [heq] at this
  obtain ⟨hlow, -, hhigh⟩ := path_split.mp hpath
  have hperm : (k.base :: free).Perm (current :: (l ++ previous :: r)) := by
    rw [heq]
    have : l ++ previous :: current :: r = (l ++ [previous]) ++ current :: r := by simp
    rw [this]
    refine List.perm_middle.trans ?_
    simp
  unfold kernel_heap_take
  split
  · -- An exact fit leaves the ring.
    rename_i hexact
    obtain ⟨free', hf'⟩ : ∃ free', l ++ previous :: r = k.base :: free' := by
      cases l with
      | nil =>
        simp only [List.nil_append, List.cons.injEq] at heq
        exact ⟨r, by simp [heq.1]⟩
      | cons z zs =>
        simp only [List.cons_append, List.cons.injEq] at heq
        exact ⟨zs ++ previous :: r, by simp [heq.1]⟩
    have hfree : free.Perm (current :: free') := by
      rw [hf'] at hperm
      have := hperm.trans (List.Perm.swap k.base current free')
      exact this.cons_inv
    refine ⟨(k.setNext previous (k.next current)).setHead previous, free', current, ?_,
      ⟨?_, ?_, ?_, ?_, ?_, ?_, ?_⟩, ?_, ⟨rfl, rfl, rfl⟩, ?_, ?_,
      by rw [← hexact]; rfl⟩
    · rw [u32_of_lt (by omega)]
    · exact window_setHead (window_setNext h.window _ _) _
    · simp only [kernel_heap_t.setHead_fields, kernel_heap_t.setNext_fields]
      unfold Loop
      rw [← hf', path_split]
      simp only [kernel_heap_t.setNext_next, Function.update_self]
      have h1 := List.nodup_append.mp hnd'
      have hpl : previous ∉ l := fun hm => h1.2.2 previous hm previous (by simp) rfl
      have hpr : previous ∉ r := fun hm => (List.nodup_cons.mp h1.2.1).1 (by simp [hm])
      exact ⟨(path_update hpl).mpr hlow, (path_update hpr).mpr hhigh⟩
    · show (k.base :: free').Pairwise _
      rw [← hf']
      have := h.sorted
      rw [heq] at this
      refine this.sublist ?_
      simp
    · show previous ∈ k.base :: free'
      rw [← hf']; simp
    · rw [bytes_setHead, bytes_setNext]
      refine layout_perm h.layout ?_
      refine List.perm_middle.trans ?_
      rw [← List.cons_append]
      exact (hfree.append_right live).symm
    · intro b hb
      apply h.aligned
      simp only [List.mem_append, List.mem_cons] at hb ⊢
      rcases hb with hb | rfl | hb
      · exact Or.inl (hfree.symm.subset (by simp [hb]))
      · exact Or.inl hcf
      · exact Or.inr hb
    · intro b hb c hc'
      rw [bytes_setHead, bytes_setNext]
      exact h.gap b (hfree.symm.subset (by simp [hb])) c (hfree.symm.subset (by simp [hc']))
    · simpa using hexact
    · intro x hx; simp
    · rw [bytes_setHead, bytes_setNext]
      apply total_perm
      refine List.perm_middle.trans ?_
      rw [← List.cons_append]
      exact (hfree.append_right live).symm
  · -- A larger block keeps its front.
    rename_i hne
    have hlt : n < k.size current := by omega
    obtain ⟨u, v, rfl⟩ := List.append_of_mem hcf
    have hend : (k.setSize current (k.size current - n)).endOf current =
        current + 8 * (k.size current - n) := by
      unfold kernel_heap_t.endOf
      simp only [kernel_heap_t.setSize_size, Function.update_self]
      exact u32_of_lt (by omega)
    simp only [hend]
    set t := current + 8 * (k.size current - n) with ht
    have hlay : Layout (Function.update (Function.update k.bytes current (k.bytes current - 8 * n)) t
        (8 * n)) k.heap_start k.heap_break (current :: t :: (u ++ v ++ live)) := by
      refine layout_cut (layout_perm h.layout ?_) (by omega) ?_ ?_
      · simp only [List.append_assoc, List.cons_append]
        exact List.perm_middle.symm
      · unfold kernel_heap_t.bytes; omega
      · rw [ht]; unfold kernel_heap_t.bytes; omega
    have hbytes : ((k.setSize current (k.size current - n)).setSize t n).bytes =
        Function.update (Function.update k.bytes current (k.bytes current - 8 * n)) t (8 * n) := by
      rw [bytes_setSize, bytes_setSize]
      congr 2
      unfold kernel_heap_t.bytes; omega
    have htnew : t ∉ u ++ current :: v ++ live := by
      have hnd2 := hlay.nodup
      simp only [List.nodup_cons, List.mem_cons, List.mem_append, not_or] at hnd2
      simp only [List.mem_append, List.mem_cons, not_or]
      exact ⟨⟨hnd2.2.1.1.1, fun he => hnd2.1.1 he.symm, hnd2.2.1.1.2⟩, hnd2.2.1.2⟩
    have htbase : t ≠ k.base := by have := h.window.base_low; omega
    refine ⟨((k.setSize current (k.size current - n)).setSize t n).setHead previous,
      u ++ current :: v, t, ?_, ⟨?_, ?_, ?_, ?_, ?_, ?_, ?_⟩, ?_, ⟨rfl, rfl, rfl⟩, ?_, ?_,
      by unfold kernel_heap_t.bytes; omega⟩
    · rw [u32_of_lt (by omega)]
    · exact window_setHead (window_setSize (window_setSize h.window _ hcbase) _ htbase) _
    · simpa using h.ring
    · exact h.sorted
    · exact hp
    · rw [bytes_setHead, hbytes]
      refine layout_perm hlay ?_
      have h1 : (u ++ current :: v) ++ t :: live = u ++ current :: (v ++ t :: live) := by simp
      rw [h1]
      refine List.perm_middle.trans (List.Perm.cons _ ?_)
      have h2 : u ++ (v ++ t :: live) = (u ++ v) ++ t :: live := by simp
      rw [h2]
      exact List.perm_middle
    · intro b hb
      simp only [List.mem_append, List.mem_cons] at hb
      have hca := h.aligned current (by simp)
      rcases hb with hb | rfl | hb
      · exact h.aligned b (by simp only [List.mem_append, List.mem_cons]; tauto)
      · omega
      · exact h.aligned b (by simp [hb])
    · intro b hb c hc' hbc
      rw [bytes_setHead, hbytes] at hbc
      have hbt : b ≠ t := by rintro rfl; exact htnew (List.mem_append_left _ hb)
      rw [Function.update_of_ne hbt] at hbc
      by_cases hbc' : b = current
      · -- The front now ends at the new block, which no free block can be.
        subst hbc'
        rw [Function.update_self] at hbc
        apply htnew
        refine List.mem_append_left _ ?_
        have : t = c := by rw [ht]; unfold kernel_heap_t.bytes at hbc; omega
        rwa [this]
      · rw [Function.update_of_ne hbc'] at hbc
        exact h.gap b hb c hc' hbc
    · simp
    · intro x hx
      have hxt : x ≠ t := by rintro rfl; exact htnew (by simp [hx])
      have hxc : x ≠ current := by
        rintro rfl
        have := List.nodup_append.mp h.layout.nodup
        exact this.2.2 x (by simp) x hx rfl
      simp [Function.update_of_ne hxt, Function.update_of_ne hxc]
    · have hnd2 := hlay.nodup
      simp only [List.nodup_cons, List.mem_cons, not_or] at hnd2
      have hfront : (u ++ current :: v ++ t :: live).Perm (current :: t :: (u ++ v ++ live)) := by
        have h1 : (u ++ current :: v) ++ t :: live = u ++ current :: (v ++ t :: live) := by simp
        rw [h1]
        refine List.perm_middle.trans (List.Perm.cons _ ?_)
        rw [← List.append_assoc]
        exact List.perm_middle
      have hback : (u ++ current :: v ++ live).Perm (current :: (u ++ v ++ live)) := by
        simp only [List.append_assoc, List.cons_append]
        exact List.perm_middle
      rw [bytes_setHead, hbytes, total_perm hfront, total_perm hback]
      refine total_cut hnd2.1.2 ?_ (by unfold kernel_heap_t.bytes; omega)
      simp only [List.mem_cons, not_or]
      exact ⟨fun he => hnd2.1.1 he.symm, hnd2.2.1⟩

end alura_os.kernel_heap
