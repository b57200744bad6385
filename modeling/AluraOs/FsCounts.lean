-- The references to the nodes of the VFS over a call: how many the call holds,
-- which nodes came and which went. A node goes with its last reference beside
-- that of the cache.
import AluraOs.FsSteps

namespace alura_os.vfs

open alura_os.memory alura_os.resource faults
open resource_result_t resource_type_t vfs_node_type

variable {fs0 fs fs' : fs_t} {held : List Nat}

/-! ## The tally -/

/-- Between `fs0` and `fs` a call took the references `held` and no other. A node that only the
cache referred to may have gone, and its address may be that of a new node. -/
structure Tally (fs0 fs : fs_t) (held : List Nat) : Prop where
  kept : ∀ a ∈ fs0.node_blocks, (fs0.nodes a).ref_count ≠ 1 →
    a ∈ fs.node_blocks ∧ ∃ k, fs.nodes a = { fs0.nodes a with ref_count := k }
  old : ∀ a ∈ fs0.node_blocks, a ∈ fs.node_blocks →
    (fs.nodes a).ref_count = u32 ((fs0.nodes a).ref_count + held.count a)
  new : ∀ a ∈ fs.node_blocks, a ∉ fs0.node_blocks →
    (fs.nodes a).ref_count = u32 (1 + held.count a) ∧ a ∈ held
  live : ∀ a ∈ held, a ∈ fs.node_blocks
  mounts : ∀ a ∈ fs.node_blocks, (fs.nodes a).mount ≠ 0 →
    a ∈ fs0.node_blocks ∧ (fs0.nodes a).mount = (fs.nodes a).mount

/-- Every count fits its field. -/
def Fits (fs : fs_t) : Prop := ∀ a ∈ fs.node_blocks, (fs.nodes a).ref_count < 0x100000000

/-- The cache refers to every node, and `n` more references do not make a count wrap to that of
the cache alone. -/
def Spare (fs : fs_t) (n : Nat) : Prop :=
  ∀ a ∈ fs.node_blocks, 1 ≤ (fs.nodes a).ref_count ∧ (fs.nodes a).ref_count + n ≤ 0x100000000

theorem Spare.less {n k : Nat} (h : Spare fs n) (hk : k ≤ n) : Spare fs k := by
  intro a ha
  obtain ⟨h1, h2⟩ := h a ha
  exact ⟨h1, by omega⟩

theorem Spare.fits (h : Spare fs 1) : Fits fs := by
  intro a ha
  obtain ⟨-, h2⟩ := h a ha
  omega

theorem Tally.refl (h : Fits fs) : Tally fs fs [] := by
  constructor
  · exact fun a ha _ => ⟨ha, _, rfl⟩
  · intro a ha _
    simp only [List.count_nil, Nat.add_zero]
    exact (u32_of_lt (h a ha)).symm
  · exact fun a ha hn => absurd ha hn
  · simp
  · exact fun a ha _ => ⟨ha, rfl⟩

/-! ## Locks -/

@[simp]
theorem locked_self (fs : fs_t) (a : Nat) :
    (locked fs a).nodes a = { fs.nodes a with ref_count := u32 ((fs.nodes a).ref_count + 1) } :=
  setCount_self fs a _

theorem locked_ne (fs : fs_t) {a b : Nat} (h : b ≠ a) : (locked fs a).nodes b = fs.nodes b :=
  setCount_ne fs _ h

/-- A change of one count keeps the rest of every record. -/
theorem setCount_record (fs : fs_t) (a n b : Nat) :
    ∃ k, (fs.setCount a n).nodes b = { fs.nodes b with ref_count := k } :=
  (sameShape_setCount fs a n).nodes b

theorem u32_succ (n k : Nat) : u32 (u32 n + k) = u32 (n + k) := by
  unfold u32
  omega

theorem Tally.locked {a : Nat} (h : Tally fs0 fs held) (ha : a ∈ fs.node_blocks) :
    Tally fs0 (vfs.locked fs a) (a :: held) := by
  have hrecord := setCount_record fs a (u32 ((fs.nodes a).ref_count + 1))
  constructor
  · intro b hb hn
    obtain ⟨hl, k, hk⟩ := h.kept b hb hn
    obtain ⟨j, hj⟩ := hrecord b
    exact ⟨hl, j, hj.trans (by rw [hk])⟩
  · intro b hb hl
    have hcount := h.old b hb hl
    by_cases hba : b = a
    · subst hba
      rw [locked_self, hcount, List.count_cons_self, u32_succ, Nat.add_assoc]
    · rw [locked_ne fs hba, hcount, List.count_cons_of_ne (Ne.symm hba)]
  · intro b hb hn
    obtain ⟨hcount, hmem⟩ := h.new b hb hn
    refine ⟨?_, List.mem_cons_of_mem _ hmem⟩
    by_cases hba : b = a
    · subst hba
      rw [locked_self, hcount, List.count_cons_self, u32_succ, Nat.add_assoc]
    · rw [locked_ne fs hba, hcount, List.count_cons_of_ne (Ne.symm hba)]
  · intro b hb
    rcases List.mem_cons.mp hb with rfl | hb
    · exact ha
    · exact h.live b hb
  · intro b hb hm
    obtain ⟨j, hj⟩ := hrecord b
    have he := congrArg vfs_node_t.mount hj
    change ((vfs.locked fs a).nodes b).mount = (fs.nodes b).mount at he
    rw [he] at hm ⊢
    exact h.mounts b hb hm

/-- A new node is locked right away. -/
theorem Tally.fetched {node : Nat} {n : vfs_node_t} (h : Tally fs0 fs held)
    (ha : Added fs fs' node n) (hm : n.mount = 0) :
    Tally fs0 (vfs.locked fs' node) (node :: held) := by
  have hfree : node ∉ fs.node_blocks := ha.unused.1
  have hnone : held.count node = 0 := List.count_eq_zero.mpr fun hc => hfree (h.live node hc)
  have hself : ((vfs.locked fs' node).nodes node).ref_count = 2 := by
    rw [locked_self, ha.self]
    rfl
  have hother : ∀ b, b ≠ node → (vfs.locked fs' node).nodes b = fs.nodes b := by
    intro b hb
    rw [locked_ne fs' hb, ha.others b hb]
  have hblocks : (vfs.locked fs' node).node_blocks = insert node fs.node_blocks := ha.node_blocks
  constructor
  · intro b hb hn
    obtain ⟨hl, k, hk⟩ := h.kept b hb hn
    have hne : b ≠ node := fun he => hfree (he ▸ hl)
    exact ⟨by rw [hblocks]; exact Finset.mem_insert_of_mem hl, k, by rw [hother b hne, hk]⟩
  · intro b hb hl
    by_cases hbn : b = node
    · subst hbn
      have hone : (fs0.nodes b).ref_count = 1 := by
        by_contra hn
        exact hfree (h.kept b hb hn).1
      rw [hself, hone, List.count_cons_self, hnone]
      rfl
    · rw [hblocks, Finset.mem_insert] at hl
      rw [hother b hbn, List.count_cons_of_ne (Ne.symm hbn)]
      exact h.old b hb (hl.resolve_left hbn)
  · intro b hl hb
    by_cases hbn : b = node
    · subst hbn
      rw [hself, List.count_cons_self, hnone]
      exact ⟨rfl, List.mem_cons_self⟩
    · rw [hblocks, Finset.mem_insert] at hl
      rw [hother b hbn, List.count_cons_of_ne (Ne.symm hbn)]
      obtain ⟨hcount, hmem⟩ := h.new b (hl.resolve_left hbn) hb
      exact ⟨hcount, List.mem_cons_of_mem _ hmem⟩
  · intro b hb
    rw [hblocks, Finset.mem_insert]
    rcases List.mem_cons.mp hb with rfl | hb
    · exact Or.inl rfl
    · exact Or.inr (h.live b hb)
  · intro b hl hmount
    by_cases hbn : b = node
    · subst hbn
      rw [locked_self, ha.self] at hmount
      exact absurd hm hmount
    · rw [hother b hbn] at hmount ⊢
      rw [hblocks, Finset.mem_insert] at hl
      exact h.mounts b (hl.resolve_left hbn) hmount

/-! ## Releases -/

theorem sub32_succ (n : Nat) : sub32 (u32 (n + 1)) 1 = u32 n := by
  unfold sub32 u32
  omega

/-- The reference that is given back counts no more. -/
theorem Tally.count_released {a : Nat} (h : Tally fs0 fs (a :: held)) :
    (∀ b ∈ fs0.node_blocks, b ∈ fs.node_blocks →
      ((fs.setCount a (sub32 (fs.nodes a).ref_count 1)).nodes b).ref_count =
        u32 ((fs0.nodes b).ref_count + held.count b)) ∧
    ∀ b ∈ fs.node_blocks, b ∉ fs0.node_blocks →
      ((fs.setCount a (sub32 (fs.nodes a).ref_count 1)).nodes b).ref_count =
        u32 (1 + held.count b) := by
  constructor
  · intro b hb hl
    have hcount := h.old b hb hl
    by_cases hba : b = a
    · subst hba
      rw [setCount_self, hcount, List.count_cons_self, ← Nat.add_assoc, sub32_succ]
    · rw [setCount_ne fs _ hba, hcount, List.count_cons_of_ne (Ne.symm hba)]
  · intro b hl hb
    obtain ⟨hcount, -⟩ := h.new b hl hb
    by_cases hba : b = a
    · subst hba
      rw [setCount_self, hcount, List.count_cons_self, ← Nat.add_assoc, sub32_succ]
    · rw [setCount_ne fs _ hba, hcount, List.count_cons_of_ne (Ne.symm hba)]

/-- The records after the count of a reference that is given back. -/
theorem Tally.records_released {a : Nat} (h : Tally fs0 fs (a :: held)) :
    (∀ b ∈ fs0.node_blocks, (fs0.nodes b).ref_count ≠ 1 → b ∈ fs.node_blocks ∧
      ∃ k, (fs.setCount a (sub32 (fs.nodes a).ref_count 1)).nodes b =
        { fs0.nodes b with ref_count := k }) ∧
    ∀ b ∈ fs.node_blocks,
      ((fs.setCount a (sub32 (fs.nodes a).ref_count 1)).nodes b).mount ≠ 0 →
        b ∈ fs0.node_blocks ∧ (fs0.nodes b).mount =
          ((fs.setCount a (sub32 (fs.nodes a).ref_count 1)).nodes b).mount := by
  have hrecord := setCount_record fs a (sub32 (fs.nodes a).ref_count 1)
  constructor
  · intro b hb hn
    obtain ⟨hl, k, hk⟩ := h.kept b hb hn
    obtain ⟨j, hj⟩ := hrecord b
    exact ⟨hl, j, hj.trans (by rw [hk])⟩
  · intro b hb hmount
    obtain ⟨j, hj⟩ := hrecord b
    have he := congrArg vfs_node_t.mount hj
    rw [he] at hmount ⊢
    exact h.mounts b hb hmount

/-- A node that is referred to beside the cache stays. -/
theorem Tally.released_more {a : Nat} (h : Tally fs0 fs (a :: held))
    (hmore : sub32 (fs.nodes a).ref_count 1 ≠ 1) : Tally fs0 (vfs.released fs a) held := by
  obtain ⟨hold, hnew⟩ := h.count_released
  obtain ⟨hkept, hmounts⟩ := h.records_released
  unfold vfs.released
  dsimp only
  rw [if_neg hmore]
  constructor
  · exact hkept
  · exact hold
  · intro b hl hb
    refine ⟨hnew b hl hb, ?_⟩
    rcases List.mem_cons.mp (h.new b hl hb).2 with rfl | hmem
    · -- A new node that nothing holds any more would have gone.
      by_contra hout
      have hcount := hnew b hl hb
      rw [List.count_eq_zero.mpr hout, setCount_self] at hcount
      exact hmore hcount
    · exact hmem
  · exact fun b hb => h.live b (List.mem_cons_of_mem _ hb)
  · exact hmounts

/-- A node that is not held any more can go. -/
theorem Tally.released {a : Nat} (h : Tally fs0 fs (a :: held)) (hs : Fits fs0) (hout : a ∉ held) :
    Tally fs0 (vfs.released fs a) held := by
  by_cases hone : sub32 (fs.nodes a).ref_count 1 = 1
  · obtain ⟨hold, hnew⟩ := h.count_released
    obtain ⟨hkept, hmounts⟩ := h.records_released
    have ha := h.live a List.mem_cons_self
    -- The node goes: only the cache referred to it.
    have hlast : a ∈ fs0.node_blocks → (fs0.nodes a).ref_count = 1 := by
      intro hin
      have hcount := hold a hin ha
      rw [setCount_self, List.count_eq_zero.mpr hout, Nat.add_zero, u32_of_lt (hs a hin)] at hcount
      exact hcount.symm.trans hone
    unfold vfs.released
    dsimp only
    rw [if_pos hone]
    constructor
    · intro b hb hn
      obtain ⟨hl, hk⟩ := hkept b hb hn
      have hne : b ≠ a := fun he => hn (he ▸ hlast (he ▸ hb))
      rw [evicted_node_blocks, evicted_nodes]
      exact ⟨Finset.mem_erase.mpr ⟨hne, hl⟩, hk⟩
    · intro b hb hl
      rw [evicted_node_blocks, Finset.mem_erase] at hl
      rw [evicted_nodes]
      exact hold b hb hl.2
    · intro b hl hb
      rw [evicted_node_blocks, Finset.mem_erase] at hl
      rw [evicted_nodes]
      refine ⟨hnew b hl.2 hb, ?_⟩
      exact (List.mem_cons.mp (h.new b hl.2 hb).2).resolve_left hl.1
    · intro b hb
      rw [evicted_node_blocks]
      exact Finset.mem_erase.mpr ⟨fun he => hout (he ▸ hb), h.live b (List.mem_cons_of_mem _ hb)⟩
    · intro b hl hmount
      rw [evicted_node_blocks, Finset.mem_erase] at hl
      rw [evicted_nodes] at hmount ⊢
      exact hmounts b hl.2 hmount
  · exact h.released_more hone

/-- Of a node that is held more than once, one reference is given back. -/
theorem Tally.dropped {a : Nat} (h : Tally fs0 fs (a :: held)) (hs : Spare fs0 1)
    (hn : held.Nodup) : Tally fs0 (vfs.released fs a) held := by
  by_cases hout : a ∈ held
  · apply h.released_more
    have ha := h.live a List.mem_cons_self
    have hone : held.count a = 1 := List.count_eq_one_of_mem hn hout
    obtain ⟨hold, hnew⟩ := h.count_released
    have hself : ((fs.setCount a (sub32 (fs.nodes a).ref_count 1)).nodes a).ref_count =
        sub32 (fs.nodes a).ref_count 1 := by
      rw [setCount_self]
    rw [← hself]
    by_cases hin : a ∈ fs0.node_blocks
    · obtain ⟨h1, h2⟩ := hs a hin
      rw [hold a hin ha, hone]
      unfold u32
      omega
    · rw [hnew a ha hin, hone]
      decide
  · exact h.released hs.fits hout

end alura_os.vfs
