-- The laws of the open resources: the count of a resource is the number of the
-- slots that point to it, and it is closed when the last of them goes.
import AluraOs.Loops
import AluraOs.Resource

namespace alura_os.resource

open alura_os.memory alura_os.task_manager resource_result_t

/-! ## The invariant -/

/-- The slots, of the tasks that exist, that point to a resource. -/
def refs (s : Store) (resource : Nat) : Finset (Nat × Nat) :=
  (s.live ×ˢ Finset.range TASK_MAX_RESOURCES).filter fun p => s.slot p.1 p.2 = resource

/-- The tasks lie apart in the window of the kernel heap. -/
def Spread (live : Finset Nat) : Prop :=
  ∀ a ∈ live, KERNEL_HEAP_VIRTUAL_START ≤ a ∧ a + SIZEOF_TASK ≤ KERNEL_HEAP_VIRTUAL_END + 1 ∧
    ∀ b ∈ live, b ≠ a → a + SIZEOF_TASK ≤ b ∨ b + SIZEOF_TASK ≤ a

structure Counted (s : Store) : Prop where
  counts : ∀ r ∈ s.blocks, (s.resources r).ref_count = (refs s r).card
  used : ∀ r ∈ s.blocks, (refs s r).Nonempty
  slots : ∀ t ∈ s.live, ∀ i < TASK_MAX_RESOURCES, s.slot t i ≠ 0 → s.slot t i ∈ s.blocks
  null : 0 ∉ s.blocks
  closes : ∀ r ∈ s.blocks, (s.resources r).operations.close = true
  ledger : pools.Ledger ∅ s.ledger s.blocks
  spread : Spread s.live

/-! ## How many slots there are -/

theorem Spread.card_le {live : Finset Nat} (h : Spread live) : live.card ≤ 55924 := by
  have hmaps : ∀ a ∈ live, (a - KERNEL_HEAP_VIRTUAL_START) / SIZEOF_TASK ∈ Finset.range 55924 := by
    intro a ha
    obtain ⟨h1, h2, -⟩ := h a ha
    unfold KERNEL_HEAP_VIRTUAL_START KERNEL_HEAP_VIRTUAL_END SIZEOF_TASK at *
    rw [Finset.mem_range]
    omega
  have hinj : Set.InjOn (fun a => (a - KERNEL_HEAP_VIRTUAL_START) / SIZEOF_TASK) live := by
    intro a ha b hb he
    by_contra hne
    obtain ⟨h1, -, h2⟩ := h a ha
    obtain ⟨h3, -, -⟩ := h b hb
    have h4 := h2 b hb (Ne.symm hne)
    unfold KERNEL_HEAP_VIRTUAL_START SIZEOF_TASK at *
    simp only at he
    omega
  have := Finset.card_le_card_of_injOn _ hmaps hinj
  simpa using this

theorem Spread.insert {live : Finset Nat} {a : Nat} (h : Spread live) (ha : TaskBlock live a) :
    Spread (insert a live) := by
  obtain ⟨h1, h2, h3⟩ := ha
  intro b hb
  rcases Finset.mem_insert.mp hb with rfl | hb
  · refine ⟨h1, h2, fun c hc hne => ?_⟩
    rcases Finset.mem_insert.mp hc with rfl | hc
    · exact absurd rfl hne
    · exact h3 c hc
  · obtain ⟨g1, g2, g3⟩ := h b hb
    refine ⟨g1, g2, fun c hc hne => ?_⟩
    rcases Finset.mem_insert.mp hc with rfl | hc
    · exact (h3 b ‹b ∈ live›).symm
    · exact g3 c hc hne

theorem Spread.erase {live : Finset Nat} {a : Nat} (h : Spread live) : Spread (live.erase a) := by
  intro b hb
  obtain ⟨g1, g2, g3⟩ := h b (Finset.mem_of_mem_erase hb)
  exact ⟨g1, g2, fun c hc => g3 c (Finset.mem_of_mem_erase hc)⟩

theorem TaskBlock.fresh {live : Finset Nat} {a : Nat} (h : TaskBlock live a) : a ∉ live := by
  intro ha
  have := h.2.2 a ha
  unfold SIZEOF_TASK at this
  omega

theorem refs_card_lt {s : Store} (h : Spread s.live) (r : Nat) :
    (refs s r).card < 0x100000000 := by
  have h1 : (refs s r).card ≤ (s.live ×ˢ Finset.range TASK_MAX_RESOURCES).card :=
    Finset.card_filter_le _ _
  rw [Finset.card_product, Finset.card_range] at h1
  have h2 := h.card_le
  unfold TASK_MAX_RESOURCES at h1
  omega

/-! ## One slot -/

theorem mem_refs {s : Store} {r t i : Nat} :
    (t, i) ∈ refs s r ↔ t ∈ s.live ∧ i < TASK_MAX_RESOURCES ∧ s.slot t i = r := by
  simp [refs, and_assoc]

theorem slot_setSlot (s : Store) (t i v t' i' : Nat) :
    (s.setSlot t i v).slot t' i' = if t' = t ∧ i' = i then v else s.slot t' i' := by
  unfold Store.setSlot Store.slot
  by_cases ht : t' = t
  · subst ht
    by_cases hi : i' = i
    · subst hi
      simp
    · simp [hi]
  · simp [ht]

theorem refs_setSlot {s : Store} {t i : Nat} (ht : t ∈ s.live) (hi : i < TASK_MAX_RESOURCES)
    (v r : Nat) :
    refs (s.setSlot t i v) r = if v = r then insert (t, i) (refs s r) else (refs s r).erase (t, i) := by
  ext ⟨t', i'⟩
  have hlive : (s.setSlot t i v).live = s.live := rfl
  rw [mem_refs, slot_setSlot, hlive]
  by_cases hv : v = r
  · simp only [hv, if_true, Finset.mem_insert, mem_refs, Prod.mk.injEq]
    by_cases he : t' = t ∧ i' = i
    · obtain ⟨rfl, rfl⟩ := he
      simp [ht, hi]
    · simp [he]
  · simp only [hv, if_false, Finset.mem_erase, mem_refs, ne_eq, Prod.mk.injEq]
    by_cases he : t' = t ∧ i' = i
    · simp [he, hv]
    · simp [he]

@[simp] theorem refs_setResource (s : Store) (a : Nat) (x : resource_t) (r : Nat) :
    refs (s.setResource a x) r = refs s r := rfl

theorem Counted.slot_refs {s : Store} (_h : Counted s) {t i : Nat} (ht : t ∈ s.live)
    (hi : i < TASK_MAX_RESOURCES) : (t, i) ∈ refs s (s.slot t i) := mem_refs.mpr ⟨ht, hi, rfl⟩

/-! ## Registering -/

theorem free_slot_spec {s : Store} {t i : Nat} (h : free_slot s t = some i) :
    i < TASK_MAX_RESOURCES ∧ s.slot t i = 0 := by
  have h1 := List.mem_of_find?_eq_some h
  have h2 := List.find?_some h
  exact ⟨List.mem_range.mp h1, by simpa using h2⟩

/-- No slot points to a block that is not in use. -/
theorem Counted.refs_empty {s : Store} (h : Counted s) {r : Nat} (h0 : r ≠ 0) (hr : r ∉ s.blocks) :
    refs s r = ∅ := by
  rw [Finset.eq_empty_iff_forall_notMem]
  rintro ⟨t, i⟩ hm
  obtain ⟨h1, h2, rfl⟩ := mem_refs.mp hm
  exact hr (h.slots t h1 i h2 h0)

/-- A slot that was `NULL` takes a new resource. -/
theorem Counted.new_slot {s : Store} {t i block : Nat} {r : resource_t} (h : Counted s)
    (ht : t ∈ s.live) (hi : i < TASK_MAX_RESOURCES) (hz : s.slot t i = 0) (hb : Block s.blocks block)
    (hc : r.ref_count = 1) (hclose : r.operations.close = true) :
    Counted ((new_resource s block r).setSlot t i block) := by
  obtain ⟨hb0, -, hbn⟩ := hb
  have hrefs : ∀ x, refs ((new_resource s block r).setSlot t i block) x =
      if block = x then insert (t, i) (refs s x) else (refs s x).erase (t, i) := fun x =>
    refs_setSlot (s := new_resource s block r) ht hi block x
  have hsame : ∀ x ∈ s.blocks, refs ((new_resource s block r).setSlot t i block) x = refs s x := by
    intro x hx
    have hne : block ≠ x := by rintro rfl; exact hbn hx
    have hx0 : x ≠ 0 := by rintro rfl; exact h.null hx
    rw [hrefs, if_neg hne, Finset.erase_eq_of_notMem]
    intro hm
    exact hx0 ((mem_refs.mp hm).2.2.symm.trans hz)
  have hone : refs ((new_resource s block r).setSlot t i block) block = {(t, i)} := by
    rw [hrefs, if_pos rfl, h.refs_empty hb0 hbn]
    rfl
  have hres : ∀ x ∈ s.blocks, ((new_resource s block r).setSlot t i block).resources x =
      s.resources x := by
    intro x hx
    have hne : x ≠ block := by rintro rfl; exact hbn hx
    exact Function.update_of_ne hne _ _
  have hres' : ((new_resource s block r).setSlot t i block).resources block = r :=
    Function.update_self _ _ _
  refine ⟨?_, ?_, ?_, ?_, ?_, h.ledger.taken hbn, h.spread⟩
  · intro x hx
    rcases Finset.mem_insert.mp hx with rfl | hx
    · rw [hone, hres', hc]
      rfl
    · rw [hsame x hx, hres x hx]
      exact h.counts x hx
  · intro x hx
    rcases Finset.mem_insert.mp hx with rfl | hx
    · rw [hone]
      exact Finset.singleton_nonempty _
    · rw [hsame x hx]
      exact h.used x hx
  · intro t' ht' i' hi' hne
    rw [slot_setSlot] at hne ⊢
    split
    · exact Finset.mem_insert_self _ _
    · rename_i hcase
      rw [if_neg hcase] at hne
      exact Finset.mem_insert_of_mem (h.slots t' ht' i' hi' hne)
  · intro hm
    rcases Finset.mem_insert.mp hm with he | hm
    · exact hb0 he.symm
    · exact h.null hm
  · intro x hx
    rcases Finset.mem_insert.mp hx with rfl | hx
    · rw [hres', hclose]
    · rw [hres x hx]
      exact h.closes x hx

theorem Counted.register {s s' : Store} {t data flags block index : Nat} {type : resource_type_t}
    {result : resource_result_t} (h : Counted s) (ht : t ∈ s.live)
    (hr : resource_register s t type data vfs_operations flags block = some (s', result, index)) :
    Counted s' := by
  unfold resource_register at hr
  split at hr
  · cases hr
    exact h
  · rename_i i hfree
    obtain ⟨hi, hz⟩ := free_slot_spec hfree
    split at hr
    · rename_i hb
      cases hr
      exact h.new_slot ht hi hz hb rfl rfl
    · cases hr

/-! ## Removing -/

/-- The refs of the other resources, when a slot goes back to `NULL`. -/
theorem refs_cleared {s : Store} {t i x : Nat} (ht : t ∈ s.live) (hi : i < TASK_MAX_RESOURCES)
    (hx : x ≠ 0) : refs (s.setSlot t i 0) x = (refs s x).erase (t, i) := by
  rw [refs_setSlot ht hi, if_neg (Ne.symm hx)]

theorem refs_cleared_other {s : Store} {t i x : Nat} (ht : t ∈ s.live)
    (hi : i < TASK_MAX_RESOURCES) (hx : x ≠ 0) (hne : x ≠ s.slot t i) :
    refs (s.setSlot t i 0) x = refs s x := by
  rw [refs_cleared ht hi hx, Finset.erase_eq_of_notMem]
  intro hm
  exact hne (mem_refs.mp hm).2.2.symm

/-- The slots that a cleared one leaves. -/
theorem slots_cleared {s : Store} {t i : Nat} {p : Nat → Prop}
    (h : ∀ t' ∈ s.live, ∀ i' < TASK_MAX_RESOURCES, s.slot t' i' ≠ 0 → (t', i') ≠ (t, i) →
      p (s.slot t' i')) :
    ∀ t' ∈ s.live, ∀ i' < TASK_MAX_RESOURCES, (s.setSlot t i 0).slot t' i' ≠ 0 →
      p ((s.setSlot t i 0).slot t' i') := by
  intro t' ht' i' hi' hne
  rw [slot_setSlot] at hne ⊢
  by_cases he : t' = t ∧ i' = i
  · simp [he] at hne
  · rw [if_neg he] at hne ⊢
    exact h t' ht' i' hi' hne (by simpa using he)

/-- A slot goes while others still share its resource. -/
theorem Counted.drop {s : Store} {t i n : Nat} {r : resource_t} (h : Counted s) (ht : t ∈ s.live)
    (hi : i < TASK_MAX_RESOURCES) (h0 : s.slot t i ≠ 0)
    (hcard : (refs s (s.slot t i)).card = n + 1) (hn : 0 < n) (hc : r.ref_count = n)
    (hclose : r.operations.close = true) :
    Counted ((s.setResource (s.slot t i) r).setSlot t i 0) := by
  have hmem := h.slot_refs ht hi
  have hrefs : refs ((s.setResource (s.slot t i) r).setSlot t i 0) (s.slot t i) =
      (refs s (s.slot t i)).erase (t, i) := refs_cleared (s := s.setResource _ r) ht hi h0
  have hcard' : ((refs s (s.slot t i)).erase (t, i)).card = n := by
    rw [Finset.card_erase_of_mem hmem, hcard]
    rfl
  have hother : ∀ x ∈ s.blocks, x ≠ s.slot t i →
      refs ((s.setResource (s.slot t i) r).setSlot t i 0) x = refs s x := by
    intro x hx hne
    have hx0 : x ≠ 0 := by rintro rfl; exact h.null hx
    exact refs_cleared_other (s := s.setResource _ r) ht hi hx0 hne
  have hres : ∀ x, x ≠ s.slot t i →
      ((s.setResource (s.slot t i) r).setSlot t i 0).resources x = s.resources x := fun x hne =>
    Function.update_of_ne hne _ _
  have hres' : ((s.setResource (s.slot t i) r).setSlot t i 0).resources (s.slot t i) = r :=
    Function.update_self _ _ _
  refine ⟨?_, ?_, ?_, h.null, ?_, h.ledger, h.spread⟩
  · intro x hx
    by_cases he : x = s.slot t i
    · rw [he, hres', hrefs, hcard', hc]
    · rw [hres x he, hother x hx he]
      exact h.counts x hx
  · intro x hx
    by_cases he : x = s.slot t i
    · rw [he, hrefs, ← Finset.card_pos, hcard']
      exact hn
    · rw [hother x hx he]
      exact h.used x hx
  · exact slots_cleared (s := s.setResource _ r) fun t' ht' i' hi' hne _ => h.slots t' ht' i' hi' hne
  · intro x hx
    by_cases he : x = s.slot t i
    · rw [he, hres', hclose]
    · rw [hres x he]
      exact h.closes x hx

/-- The store after the close of the resource at `a`, whose record became `r`. -/
def discarded (s : Store) (a : Nat) (r : resource_t) : Store :=
  { s with
    resources := Function.update s.resources a r
    blocks := s.blocks.erase a
    ledger := .returned a :: s.ledger }

/-- The last slot goes, and the resource with it. -/
theorem Counted.drop_last {s : Store} {t i : Nat} {r : resource_t} (h : Counted s)
    (ht : t ∈ s.live) (hi : i < TASK_MAX_RESOURCES) (h0 : s.slot t i ≠ 0)
    (hcard : (refs s (s.slot t i)).card = 1) (hclose : r.operations.close = true) :
    Counted ((close_and_free (s.setResource (s.slot t i) r) (s.slot t i)).setSlot t i 0) ∧
      ((close_and_free (s.setResource (s.slot t i) r) (s.slot t i)).setSlot t i 0).ledger =
        .returned (s.slot t i) :: s.ledger := by
  have hmem := h.slot_refs ht hi
  have hblock : s.slot t i ∈ s.blocks := h.slots t ht i hi h0
  have honly : ∀ p ∈ refs s (s.slot t i), p = (t, i) := by
    intro p hp
    exact Finset.card_le_one.mp (le_of_eq hcard) p hp _ hmem
  have hfree : close_and_free (s.setResource (s.slot t i) r) (s.slot t i) =
      discarded s (s.slot t i) r := by
    simp [close_and_free, discarded, Store.setResource, hclose]
  have hrefs : ∀ x ∈ s.blocks, x ≠ s.slot t i →
      refs ((discarded s (s.slot t i) r).setSlot t i 0) x = refs s x := by
    intro x hx hne
    have hx0 : x ≠ 0 := by rintro rfl; exact h.null hx
    exact refs_cleared_other (s := discarded s _ r) ht hi hx0 hne
  have hres : ∀ x, x ≠ s.slot t i →
      ((discarded s (s.slot t i) r).setSlot t i 0).resources x = s.resources x := fun x hne =>
    Function.update_of_ne hne _ _
  rw [hfree]
  refine ⟨⟨?_, ?_, ?_, ?_, ?_, h.ledger.returned hblock, h.spread⟩, rfl⟩
  · intro x hx
    obtain ⟨hne, hx⟩ := Finset.mem_erase.mp hx
    rw [hrefs x hx hne, hres x hne]
    exact h.counts x hx
  · intro x hx
    obtain ⟨hne, hx⟩ := Finset.mem_erase.mp hx
    rw [hrefs x hx hne]
    exact h.used x hx
  · refine slots_cleared (s := discarded s _ r) (p := fun x => x ∈ s.blocks.erase (s.slot t i)) ?_
    intro t' ht' i' hi' hne hpair
    refine Finset.mem_erase.mpr ⟨fun he => ?_, h.slots t' ht' i' hi' hne⟩
    exact hpair (honly _ (mem_refs.mpr ⟨ht', hi', he⟩))
  · intro hm
    exact h.null (Finset.mem_of_mem_erase hm)
  · intro x hx
    obtain ⟨hne, hx⟩ := Finset.mem_erase.mp hx
    rw [hres x hne]
    exact h.closes x hx

/-- `resource_remove` on a slot in use: the count stays right, and `close` is called if no
other slot points to the resource. -/
theorem Counted.remove {s : Store} {t i : Nat} (h : Counted s) (ht : t ∈ s.live)
    (hi : i < TASK_MAX_RESOURCES) (h0 : s.slot t i ≠ 0) :
    Counted (resource_remove s t i).1 ∧
      (resource_remove s t i).1.ledger =
        if refs s (s.slot t i) = {(t, i)} then .returned (s.slot t i) :: s.ledger else s.ledger := by
  have hblock : s.slot t i ∈ s.blocks := h.slots t ht i hi h0
  have hmem := h.slot_refs ht hi
  have hcount := h.counts _ hblock
  have hlt := refs_card_lt h.spread (s.slot t i)
  have hpos : 0 < (refs s (s.slot t i)).card := Finset.card_pos.mpr (h.used _ hblock)
  have hsub : sub32 (s.resources (s.slot t i)).ref_count 1 = (refs s (s.slot t i)).card - 1 := by
    rw [hcount]
    exact sub32_of_le hpos hlt
  simp only [resource_remove, if_neg (not_le.mpr hi), if_neg h0, hsub]
  by_cases hone : (refs s (s.slot t i)).card = 1
  · have hsingle : refs s (s.slot t i) = {(t, i)} := by
      obtain ⟨p, hp⟩ := Finset.card_eq_one.mp hone
      rw [hp] at hmem ⊢
      rw [Finset.mem_singleton.mp hmem]
    simp only [hone, Nat.sub_self, if_true, if_pos hsingle]
    exact h.drop_last ht hi h0 hone (h.closes _ hblock)
  · have hmany : refs s (s.slot t i) ≠ {(t, i)} := by
      intro he
      rw [he] at hone
      exact hone (Finset.card_singleton _)
    have hn : (refs s (s.slot t i)).card - 1 ≠ 0 := by omega
    simp only [if_neg hn, if_neg hmany]
    exact ⟨h.drop (n := (refs s (s.slot t i)).card - 1) ht hi h0 (by omega) (by omega) rfl
      (h.closes _ hblock), rfl⟩

theorem remove_live (s : Store) (t i : Nat) : (resource_remove s t i).1.live = s.live := by
  unfold resource_remove
  split
  · rfl
  · dsimp only
    split
    · rfl
    · split
      · unfold close_and_free
        split <;> rfl
      · rfl

theorem remove_slot {s : Store} {t i : Nat} (hi : i < TASK_MAX_RESOURCES) (t' i' : Nat) :
    (resource_remove s t i).1.slot t' i' = if t' = t ∧ i' = i then 0 else s.slot t' i' := by
  unfold resource_remove
  rw [if_neg (not_le.mpr hi)]
  dsimp only
  by_cases h0 : s.slot t i = 0
  · rw [if_pos h0]
    split
    · rename_i he
      rw [he.1, he.2, h0]
    · rfl
  · rw [if_neg h0, slot_setSlot]
    split
    · rfl
    · split
      · unfold close_and_free
        split <;> rfl
      · rfl

/-! ## Sharing -/

theorem Counted.share {s : Store} {c i r : Nat} (h : Counted s) (hc : c ∈ s.live)
    (hi : i < TASK_MAX_RESOURCES) (h0 : s.slot c i = 0) (hr : r ∈ s.blocks) :
    Counted (resource_share s c i r) := by
  have hr0 : r ≠ 0 := by rintro rfl; exact h.null hr
  have hrefs : ∀ x, refs (resource_share s c i r) x =
      if r = x then insert (c, i) (refs s x) else (refs s x).erase (c, i) := fun x =>
    refs_setSlot (s := s.setResource r _) hc hi r x
  have hfresh : ∀ x ∈ s.blocks, (c, i) ∉ refs s x := by
    intro x hx hm
    have hx0 : x ≠ 0 := by rintro rfl; exact h.null hx
    exact hx0 ((mem_refs.mp hm).2.2.symm.trans h0)
  have hself : refs (resource_share s c i r) r = insert (c, i) (refs s r) := by
    rw [hrefs, if_pos rfl]
  have hother : ∀ x ∈ s.blocks, x ≠ r → refs (resource_share s c i r) x = refs s x := by
    intro x hx hne
    rw [hrefs, if_neg (Ne.symm hne), Finset.erase_eq_of_notMem (hfresh x hx)]
  have hcard : (refs (resource_share s c i r) r).card = (refs s r).card + 1 := by
    rw [hself, Finset.card_insert_of_notMem (hfresh r hr)]
  have hres : ∀ x, x ≠ r → (resource_share s c i r).resources x = s.resources x := fun x hne =>
    Function.update_of_ne hne _ _
  have hres' : (resource_share s c i r).resources r =
      { s.resources r with ref_count := u32 ((s.resources r).ref_count + 1) } :=
    Function.update_self _ _ _
  refine ⟨?_, ?_, ?_, h.null, ?_, h.ledger, h.spread⟩
  · intro x hx
    by_cases he : x = r
    · subst he
      have hlt : (refs (resource_share s c i x) x).card < 0x100000000 :=
        refs_card_lt (s := resource_share s c i x) h.spread x
      rw [hcard] at hlt ⊢
      rw [hres', h.counts x hx]
      exact u32_of_lt hlt
    · rw [hres x he, hother x hx he]
      exact h.counts x hx
  · intro x hx
    by_cases he : x = r
    · rw [he, hself]
      exact Finset.insert_nonempty _ _
    · rw [hother x hx he]
      exact h.used x hx
  · intro t' ht' i' hi' hne
    have hslot : (resource_share s c i r).slot t' i' =
        if t' = c ∧ i' = i then r else s.slot t' i' := slot_setSlot _ _ _ _ _ _
    rw [hslot] at hne ⊢
    split
    · exact hr
    · rename_i hcase
      rw [if_neg hcase] at hne
      exact h.slots t' ht' i' hi' hne
  · intro x hx
    by_cases he : x = r
    · rw [he, hres']
      exact h.closes r hr
    · rw [hres x he]
      exact h.closes x hx

/-- What the sharing loop has done before slot `k`. -/
structure Shared (s0 : Store) (c p k : Nat) (s : Store) : Prop where
  counted : Counted s
  live : s.live = s0.live
  done : ∀ i < k, s.slot c i = s0.slot p i
  rest : ∀ i, k ≤ i → s.slot c i = s0.slot c i
  others : ∀ t i, t ≠ c → s.slot t i = s0.slot t i

/-- The child gets the slots of its parent, and every count stays right. -/
theorem Counted.shared {s : Store} {c p : Nat} (h : Counted s) (hc : c ∈ s.live)
    (hp : p ∈ s.live) (hne : p ≠ c) (h0 : ∀ i < TASK_MAX_RESOURCES, s.slot c i = 0) :
    Shared s c p TASK_MAX_RESOURCES (share_resources s c p) := by
  unfold share_resources
  apply loops.foldl_range (P := Shared s c p)
  · intro i s1 hi h1
    have hpi : s1.slot p i = s.slot p i := h1.others p i hne
    by_cases hz : s1.slot p i = 0
    · rw [if_neg (not_not.mpr hz)]
      refine ⟨h1.counted, h1.live, ?_, fun j hj => h1.rest j (by omega), h1.others⟩
      intro j hj
      rcases Nat.lt_succ_iff_lt_or_eq.mp hj with hj | rfl
      · exact h1.done j hj
      · rw [h1.rest j (le_refl j), h0 j hi, ← hpi, hz]
    · rw [if_pos hz]
      have hc1 : c ∈ s1.live := h1.live.symm ▸ hc
      have hp1 : p ∈ s1.live := h1.live.symm ▸ hp
      have hzero : s1.slot c i = 0 := (h1.rest i (le_refl i)).trans (h0 i hi)
      have hslot : ∀ t' i', (resource_share s1 c i (s1.slot p i)).slot t' i' =
          if t' = c ∧ i' = i then s1.slot p i else s1.slot t' i' := fun t' i' =>
        slot_setSlot _ _ _ _ _ _
      refine ⟨h1.counted.share hc1 hi hzero (h1.counted.slots p hp1 i hi hz), h1.live, ?_, ?_, ?_⟩
      · intro j hj
        rw [hslot]
        rcases Nat.lt_succ_iff_lt_or_eq.mp hj with hj | rfl
        · rw [if_neg (by omega)]
          exact h1.done j hj
        · rw [if_pos ⟨rfl, rfl⟩, hpi]
      · intro j hj
        rw [hslot, if_neg (by omega)]
        exact h1.rest j (by omega)
      · intro t j ht
        rw [hslot, if_neg (by tauto)]
        exact h1.others t j ht
  · exact ⟨h, rfl, fun i hi => absurd hi (Nat.not_lt_zero i), fun _ _ => rfl, fun _ _ _ => rfl⟩

/-! ## Releasing -/

structure Released (s0 : Store) (t k : Nat) (s : Store) : Prop where
  counted : Counted s
  live : s.live = s0.live
  done : ∀ i < k, s.slot t i = 0
  others : ∀ t' i, t' ≠ t → s.slot t' i = s0.slot t' i

theorem Counted.released {s : Store} {t : Nat} (h : Counted s) (ht : t ∈ s.live) :
    Released s t TASK_MAX_RESOURCES (release_resources s t) := by
  unfold release_resources
  apply loops.foldl_range (P := Released s t)
  · intro i s1 hi h1
    by_cases hz : s1.slot t i = 0
    · rw [if_pos hz]
      refine ⟨h1.counted, h1.live, ?_, h1.others⟩
      intro j hj
      rcases Nat.lt_succ_iff_lt_or_eq.mp hj with hj | rfl
      · exact h1.done j hj
      · exact hz
    · rw [if_neg hz]
      refine ⟨(h1.counted.remove (h1.live.symm ▸ ht) hi hz).1, ?_, ?_, ?_⟩
      · rw [remove_live]
        exact h1.live
      · intro j hj
        rw [remove_slot hi]
        split
        · rfl
        · exact h1.done j (by omega)
      · intro t' j hne
        rw [remove_slot hi, if_neg (by tauto)]
        exact h1.others t' j hne
  · exact ⟨h, rfl, fun i hi => absurd hi (Nat.not_lt_zero i), fun _ _ _ => rfl⟩

/-! ## Tasks that come and go -/

theorem refs_congr {s s' : Store} {r : Nat}
    (h : ∀ t i, i < TASK_MAX_RESOURCES →
      (t ∈ s'.live ∧ s'.slot t i = r ↔ t ∈ s.live ∧ s.slot t i = r)) : refs s' r = refs s r := by
  ext ⟨t, i⟩
  rw [mem_refs, mem_refs]
  have := h t i
  tauto

/-- Only the slots of the tasks that exist, the counts and the close operations matter. -/
theorem Counted.congr {s s' : Store} (h : Counted s)
    (hslots : ∀ r ≠ 0, ∀ t i, i < TASK_MAX_RESOURCES →
      (t ∈ s'.live ∧ s'.slot t i = r ↔ t ∈ s.live ∧ s.slot t i = r))
    (hres : ∀ r ∈ s.blocks, (s'.resources r).ref_count = (s.resources r).ref_count ∧
      (s'.resources r).operations = (s.resources r).operations)
    (hb : s'.blocks = s.blocks) (hl : s'.ledger = s.ledger) (hs : Spread s'.live) :
    Counted s' := by
  have hrefs : ∀ r ∈ s.blocks, refs s' r = refs s r := by
    intro r hr
    have hr0 : r ≠ 0 := by rintro rfl; exact h.null hr
    exact refs_congr (hslots r hr0)
  refine ⟨?_, ?_, ?_, hb ▸ h.null, ?_, ?_, hs⟩
  · intro r hr
    rw [hb] at hr
    rw [hrefs r hr, (hres r hr).1]
    exact h.counts r hr
  · intro r hr
    rw [hb] at hr
    rw [hrefs r hr]
    exact h.used r hr
  · intro t ht i hi hne
    have := (hslots _ hne t i hi).mp ⟨ht, rfl⟩
    rw [hb, ← this.2]
    exact h.slots t this.1 i hi (this.2 ▸ hne)
  · intro r hr
    rw [hb] at hr
    rw [(hres r hr).2]
    exact h.closes r hr
  · rw [hb, hl]
    exact h.ledger

/-- The same slots, and the same counts. -/
theorem Counted.same {s s' : Store} (h : Counted s)
    (ht : ∀ t, (s'.tasks t).resources = (s.tasks t).resources) (hlive : s'.live = s.live)
    (hres : ∀ r, (s'.resources r).ref_count = (s.resources r).ref_count ∧
      (s'.resources r).operations = (s.resources r).operations)
    (hb : s'.blocks = s.blocks) (hl : s'.ledger = s.ledger) : Counted s' := by
  refine h.congr ?_ (fun r _ => hres r) hb hl (hlive ▸ h.spread)
  intro r _ t i _
  unfold Store.slot
  rw [hlive, ht]

theorem new_task_slot {s : Store} {a : Nat} {task : task_t} (t i : Nat) :
    (new_task s a task).slot t i = if t = a then task.resources i else s.slot t i := by
  unfold new_task Store.slot
  by_cases ht : t = a
  · subst ht
    simp
  · simp [ht]

theorem Counted.with_task {s : Store} {a : Nat} {task : task_t} (h : Counted s)
    (ha : TaskBlock s.live a) (h0 : ∀ i < TASK_MAX_RESOURCES, task.resources i = 0) :
    Counted (new_task s a task) := by
  apply h.congr
  · intro r hr t i hi
    rw [new_task_slot]
    show t ∈ insert a s.live ∧ _ ↔ _
    rw [Finset.mem_insert]
    by_cases ht : t = a
    · subst ht
      simp [h0 i hi, Ne.symm hr, ha.fresh]
    · simp [ht]
  · exact fun r _ => ⟨rfl, rfl⟩
  · rfl
  · rfl
  · exact h.spread.insert ha

theorem Counted.without_task {s : Store} {a : Nat} (h : Counted s)
    (h0 : ∀ i < TASK_MAX_RESOURCES, s.slot a i = 0) : Counted (free_task s a) := by
  apply h.congr
  · intro r hr t i hi
    show t ∈ s.live.erase a ∧ _ ↔ _
    rw [Finset.mem_erase]
    constructor
    · rintro ⟨⟨-, h1⟩, h2⟩
      exact ⟨h1, h2⟩
    · rintro ⟨h1, h2⟩
      refine ⟨⟨?_, h1⟩, h2⟩
      rintro rfl
      exact hr (h2.symm.trans (h0 i hi))
  · exact fun r _ => ⟨rfl, rfl⟩
  · rfl
  · rfl
  · exact h.spread.erase

/-! ## What stays -/

/-- Of the tasks only the slots of `t` change. -/
structure OnlySlots (t : Nat) (s s' : Store) : Prop where
  live : s'.live = s.live
  others : ∀ a, a ≠ t → s'.tasks a = s.tasks a
  own : s'.tasks t = { s.tasks t with resources := (s'.tasks t).resources }

/-- Of the resources only the counts change. -/
def OnlyCounts (s s' : Store) : Prop :=
  ∀ r, s'.resources r = { s.resources r with ref_count := (s'.resources r).ref_count }

/-- Every other field of a task stays. -/
theorem OnlySlots.task {t : Nat} {s s' : Store} (h : OnlySlots t s s') (a : Nat) :
    ∃ slots, s'.tasks a = { s.tasks a with resources := slots } := by
  by_cases ha : a = t
  · subst ha
    exact ⟨_, h.own⟩
  · exact ⟨(s.tasks a).resources, h.others a ha⟩

theorem OnlySlots.refl (t : Nat) (s : Store) : OnlySlots t s s := ⟨rfl, fun _ _ => rfl, rfl⟩

theorem OnlySlots.trans {t : Nat} {s1 s2 s3 : Store} (h : OnlySlots t s1 s2)
    (h' : OnlySlots t s2 s3) : OnlySlots t s1 s3 := by
  refine ⟨h'.live.trans h.live, fun a ha => (h'.others a ha).trans (h.others a ha), ?_⟩
  rw [h'.own, h.own]

theorem OnlyCounts.trans {s1 s2 s3 : Store} (h : OnlyCounts s1 s2) (h' : OnlyCounts s2 s3) :
    OnlyCounts s1 s3 := by
  intro r
  rw [h' r, h r]

theorem OnlyCounts.congr {s s1 s2 : Store} (h : OnlyCounts s s1)
    (he : s2.resources = s1.resources) : OnlyCounts s s2 := by
  intro r
  rw [he]
  exact h r

theorem setSlot_only (s : Store) (t i v : Nat) : OnlySlots t s (s.setSlot t i v) := by
  refine ⟨rfl, ?_, ?_⟩
  · intro a ha
    simp [Store.setSlot, ha]
  · simp [Store.setSlot]

theorem close_and_free_tasks (s : Store) (r : Nat) :
    (close_and_free s r).tasks = s.tasks ∧ (close_and_free s r).live = s.live ∧
      (close_and_free s r).resources = s.resources := by
  unfold close_and_free
  split <;> exact ⟨rfl, rfl, rfl⟩

theorem setCount_only (s : Store) (r n : Nat) :
    OnlyCounts s (s.setResource r { s.resources r with ref_count := n }) := by
  intro x
  by_cases hx : x = r
  · subst hx
    simp [Store.setResource]
  · simp [Store.setResource, hx]

theorem remove_only (s : Store) (t i : Nat) :
    OnlySlots t s (resource_remove s t i).1 ∧ OnlyCounts s (resource_remove s t i).1 := by
  have hrefl : OnlySlots t s s ∧ OnlyCounts s s := ⟨OnlySlots.refl t s, fun _ => rfl⟩
  unfold resource_remove
  split
  · exact hrefl
  dsimp only
  split
  · exact hrefl
  let s1 := s.setResource (s.slot t i) { s.resources (s.slot t i) with
    ref_count := sub32 (s.resources (s.slot t i)).ref_count 1 }
  have h1 : OnlyCounts s s1 := setCount_only s _ _
  split
  · obtain ⟨ht, hl, hr⟩ := close_and_free_tasks s1 (s.slot t i)
    have h2 := setSlot_only (close_and_free s1 (s.slot t i)) t i 0
    refine ⟨⟨h2.live.trans hl, ?_, ?_⟩, ?_⟩
    · intro a ha
      rw [h2.others a ha, ht]
      rfl
    · rw [h2.own, ht]
      rfl
    · exact h1.congr hr
  · have h2 := setSlot_only s1 t i 0
    exact ⟨⟨h2.live, h2.others, h2.own⟩, h1⟩

theorem share_only (s : Store) (c i r : Nat) :
    OnlySlots c s (resource_share s c i r) ∧ OnlyCounts s (resource_share s c i r) := by
  let s1 := s.setResource r { s.resources r with ref_count := u32 ((s.resources r).ref_count + 1) }
  have h2 := setSlot_only s1 c i r
  exact ⟨⟨h2.live, h2.others, h2.own⟩, setCount_only s _ _⟩

theorem share_resources_only (s : Store) (c p : Nat) :
    OnlySlots c s (share_resources s c p) ∧ OnlyCounts s (share_resources s c p) := by
  unfold share_resources
  apply loops.foldl_range (P := fun _ s' => OnlySlots c s s' ∧ OnlyCounts s s')
  · intro i s1 _ h1
    split
    · have h2 := share_only s1 c i (s1.slot p i)
      exact ⟨h1.1.trans h2.1, h1.2.trans h2.2⟩
    · exact h1
  · exact ⟨OnlySlots.refl c s, fun _ => rfl⟩

theorem release_resources_only (s : Store) (t : Nat) :
    OnlySlots t s (release_resources s t) ∧ OnlyCounts s (release_resources s t) := by
  unfold release_resources
  apply loops.foldl_range (P := fun _ s' => OnlySlots t s s' ∧ OnlyCounts s s')
  · intro i s1 _ h1
    split
    · exact h1
    · have h2 := remove_only s1 t i
      exact ⟨h1.1.trans h2.1, h1.2.trans h2.2⟩
  · exact ⟨OnlySlots.refl t s, fun _ => rfl⟩

/-- No resource is new. -/
structure NothingOpened (s s' : Store) : Prop where
  blocks : s'.blocks ⊆ s.blocks
  opened_flags : s'.opened_flags = s.opened_flags

theorem NothingOpened.refl (s : Store) : NothingOpened s s := ⟨Finset.Subset.refl _, rfl⟩

theorem NothingOpened.trans {s1 s2 s3 : Store} (h : NothingOpened s1 s2) (h' : NothingOpened s2 s3) :
    NothingOpened s1 s3 :=
  ⟨h'.blocks.trans h.blocks, h'.opened_flags.trans h.opened_flags⟩

theorem remove_opens_nothing (s : Store) (t i : Nat) : NothingOpened s (resource_remove s t i).1 := by
  unfold resource_remove
  split
  · exact NothingOpened.refl s
  dsimp only
  split
  · exact NothingOpened.refl s
  split
  · unfold close_and_free
    dsimp only
    split <;> exact ⟨Finset.erase_subset _ _, rfl⟩
  · exact ⟨Finset.Subset.refl _, rfl⟩

theorem share_resources_opens_nothing (s : Store) (c p : Nat) :
    NothingOpened s (share_resources s c p) := by
  unfold share_resources
  apply loops.foldl_range (P := fun _ s' => NothingOpened s s')
  · intro i s1 _ h1
    split
    · exact ⟨h1.blocks, h1.opened_flags⟩
    · exact h1
  · exact NothingOpened.refl s

theorem release_resources_opens_nothing (s : Store) (t : Nat) :
    NothingOpened s (release_resources s t) := by
  unfold release_resources
  apply loops.foldl_range (P := fun _ s' => NothingOpened s s')
  · intro i s1 _ h1
    split
    · exact h1
    · exact h1.trans (remove_opens_nothing s1 t i)
  · exact NothingOpened.refl s

/-- Every resource was there, with its flags, or is the one that is registered. -/
theorem register_flags {s s' : Store} {t data flags block index : Nat} {type : resource_type_t}
    {operations : resource_operations_t} {result : resource_result_t}
    (h : resource_register s t type data operations flags block = some (s', result, index)) (r : Nat)
    (hr : r ∈ s'.blocks) : (r ∈ s.blocks ∧ s'.opened_flags r = s.opened_flags r) ∨
      (s'.opened_flags r = flags ∧ (s'.resources r).flags = flags) := by
  unfold resource_register at h
  split at h
  · cases h
    exact Or.inl ⟨hr, rfl⟩
  split at h
  · cases h
    by_cases hb : r = block
    · subst hb
      right
      simp [Store.setSlot, new_resource]
    · left
      have hin : r ∈ s.blocks := (Finset.mem_insert.mp hr).resolve_left hb
      exact ⟨hin, Function.update_of_ne hb _ _⟩
  · cases h

theorem register_only {s s' : Store} {t data flags block index : Nat} {type : resource_type_t}
    {operations : resource_operations_t} {result : resource_result_t}
    (h : resource_register s t type data operations flags block = some (s', result, index)) :
    OnlySlots t s s' ∧ ∀ r ∈ s.blocks, s'.resources r = s.resources r := by
  unfold resource_register at h
  split at h
  · cases h
    exact ⟨OnlySlots.refl t s, fun _ _ => rfl⟩
  · split at h
    · rename_i hb
      cases h
      have h2 := setSlot_only (new_resource s block { resource_t.zeroed with
        type := type
        data := data
        operations := operations
        ref_count := 1
        flags := flags }) t index block
      refine ⟨⟨h2.live, h2.others, h2.own⟩, ?_⟩
      intro r hr
      have hne : r ≠ block := by
        rintro rfl
        exact hb.2.2 hr
      simp [Store.setSlot, new_resource, hne]
    · cases h

/-! ## Whole runs -/

/-- What the kernel does to tasks and resources: a file is opened, a slot is closed, a task
forks, a zombie is destroyed; and in between the tasks run and use what they hold. -/
inductive Step : Store → Store → Prop
  | register {s s' : Store} {t data flags block index : Nat} {type : resource_type_t}
      {result : resource_result_t} : t ∈ s.live →
      resource_register s t type data vfs_operations flags block = some (s', result, index) →
      Step s s'
  | remove {s : Store} {t i : Nat} : t ∈ s.live → Step s (resource_remove s t i).1
  | fork {s : Store} {p c : Nat} {task : task_t} : p ∈ s.live → TaskBlock s.live c →
      (∀ i < TASK_MAX_RESOURCES, task.resources i = 0) →
      Step s (share_resources (new_task s c task) c p)
  | destroy {s : Store} {t : Nat} : t ∈ s.live → Step s (free_task (release_resources s t) t)
  | task {s : Store} {t : Nat} {task : task_t} : task.resources = (s.tasks t).resources →
      Step s { s with tasks := Function.update s.tasks t task }
  | use {s : Store} {a offset flags : Nat} :
      Step s (s.setResource a { s.resources a with offset := offset, flags := flags })

theorem Counted.step {s s' : Store} (h : Counted s) (hs : Step s s') : Counted s' := by
  cases hs with
  | register ht hr => exact h.register ht hr
  | @remove t i ht =>
    by_cases hi : TASK_MAX_RESOURCES ≤ i
    · rw [show (resource_remove s t i).1 = s by unfold resource_remove; rw [if_pos hi]]
      exact h
    · by_cases h0 : s.slot t i = 0
      · rw [show (resource_remove s t i).1 = s by
          unfold resource_remove
          simp only [if_neg hi, if_pos h0]]
        exact h
      · exact (h.remove ht (not_le.mp hi) h0).1
  | @fork p c task hp hc h0 =>
    have hslot : ∀ i < TASK_MAX_RESOURCES, (new_task s c task).slot c i = 0 := by
      intro i hi
      rw [new_task_slot, if_pos rfl]
      exact h0 i hi
    have hne : p ≠ c := by rintro rfl; exact hc.fresh hp
    exact ((h.with_task hc h0).shared (Finset.mem_insert_self _ _) (Finset.mem_insert_of_mem hp)
      hne hslot).counted
  | destroy ht =>
    have hr := h.released ht
    exact hr.counted.without_task hr.done
  | @task t task hr =>
    apply h.congr
    · intro r _ t' i _
      have hslot : ({ s with tasks := Function.update s.tasks t task } : Store).slot t' i =
          s.slot t' i := by
        unfold Store.slot
        by_cases he : t' = t
        · subst he
          simp [hr]
        · simp [he]
      rw [hslot]
    · exact fun r _ => ⟨rfl, rfl⟩
    · rfl
    · rfl
    · exact h.spread
  | @use a offset flags =>
    apply h.congr
    · exact fun r _ t i _ => Iff.rfl
    · intro r _
      unfold Store.setResource
      by_cases he : r = a
      · subst he
        simp
      · simp [he]
    · rfl
    · rfl
    · exact h.spread

/-- The tasks of a kernel that has opened nothing yet. -/
structure Unopened (s : Store) : Prop where
  slots : ∀ t ∈ s.live, ∀ i < TASK_MAX_RESOURCES, s.slot t i = 0
  blocks : s.blocks = ∅
  ledger : s.ledger = []
  spread : Spread s.live

theorem Unopened.counted {s : Store} (h : Unopened s) : Counted s := by
  refine ⟨?_, ?_, ?_, ?_, ?_, ?_, h.spread⟩
  · simp [h.blocks]
  · simp [h.blocks]
  · intro t ht i hi hne
    exact absurd (h.slots t ht i hi) hne
  · simp [h.blocks]
  · simp [h.blocks]
  · rw [h.blocks, h.ledger]
    exact pools.Ledger.nil

theorem Counted.run {s s' : Store} (h : Counted s) (hrun : Relation.ReflTransGen Step s s') :
    Counted s' := by
  induction hrun with
  | refl => exact h
  | tail _ hs ih => exact ih.step hs

/-- Resources count their slots. In every state of every run, the count of an allocated
resource is the number of the slots that point to it, no slot points to a resource that was freed,
and `resource_remove` calls `close` when it drops the last slot and then only. The ledger says
that what is closed is registered before, and never closed twice on one registration. -/
theorem resources_count_their_slots (s s' : Store) (hboot : Unopened s)
    (hrun : Relation.ReflTransGen Step s s') :
    (∀ r ∈ s'.blocks, (s'.resources r).ref_count = (refs s' r).card ∧ 0 < (refs s' r).card) ∧
    (∀ t ∈ s'.live, ∀ i < TASK_MAX_RESOURCES, s'.slot t i ≠ 0 →
      s'.slot t i ∈ s'.blocks ∧
      (resource_remove s' t i).1.ledger =
        if refs s' (s'.slot t i) = {(t, i)} then .returned (s'.slot t i) :: s'.ledger
        else s'.ledger) ∧
    pools.Ledger ∅ s'.ledger s'.blocks ∧
    ∀ es fs gs r, s'.ledger = es ++ .returned r :: fs ++ .returned r :: gs →
      pools.Event.taken r ∈ fs := by
  have h : Counted s' := hboot.counted.run hrun
  refine ⟨?_, ?_, h.ledger, ?_⟩
  · intro r hr
    exact ⟨h.counts r hr, Finset.card_pos.mpr (h.used r hr)⟩
  · intro t ht i hi h0
    exact ⟨h.slots t ht i hi h0, (h.remove ht hi h0).2⟩
  · intro es fs gs r he
    have hl := h.ledger
    rw [he] at hl
    exact hl.returned_once

/-- A kernel with one task, at the start of the heap. -/
def oneTask : Store where
  tasks := fun _ => task_t.zeroed
  live := {0xF0000008}
  resources := fun _ => resource_t.zeroed
  blocks := ∅
  ledger := []
  opened_flags := fun _ => 0

/-- The task after it opened a file. -/
def oneOpen : Store :=
  (new_resource oneTask 0xF0001000
    { resource_t.zeroed with operations := vfs_operations, ref_count := 1 }).setSlot
      0xF0000008 0 0xF0001000

/-- A fork shares the slot. -/
def twoOpen : Store :=
  share_resources (new_task oneOpen 0xF0002000 task_t.zeroed) 0xF0002000 0xF0000008

/-- The parent closes it, and then the child. -/
def noneOpen : Store :=
  (resource_remove (resource_remove twoOpen 0xF0000008 0).1 0xF0002000 0).1

/-- The child is destroyed. -/
def childDestroyed : Store := free_task (release_resources noneOpen 0xF0002000) 0xF0002000

/-- Two slots are counted, and the resource is closed once. -/
theorem a_shared_resource_counts_its_slots :
    Unopened oneTask ∧ Relation.ReflTransGen Step oneTask twoOpen ∧
      (twoOpen.resources 0xF0001000).ref_count = 2 ∧ (refs twoOpen 0xF0001000).card = 2 ∧
      noneOpen.ledger = [.returned 0xF0001000, .taken 0xF0001000] ∧
      Relation.ReflTransGen Step twoOpen childDestroyed ∧
      pools.Ledger ∅ childDestroyed.ledger childDestroyed.blocks := by
  have hboot : Unopened oneTask := by
    refine ⟨fun _ _ _ _ => rfl, rfl, rfl, ?_⟩
    intro a ha
    rw [Finset.mem_singleton.mp ha]
    refine ⟨by decide, by decide, fun b hb hne => ?_⟩
    exact absurd (Finset.mem_singleton.mp hb) hne
  have hfree : free_slot oneTask 0xF0000008 = some 0 := by decide +kernel
  have hregister : resource_register oneTask 0xF0000008 resource_type_t.RESOURCE_TYPE_FILE 0
      vfs_operations 0 0xF0001000 = some (oneOpen, RESOURCE_RESULT_OK, 0) := by
    unfold resource_register
    rw [hfree]
    exact if_pos (by decide)
  have hopen : Step oneTask oneOpen := Step.register (Finset.mem_singleton_self _) hregister
  have hfork : Step oneOpen twoOpen :=
    Step.fork (Finset.mem_singleton_self _) (by decide) fun _ _ => rfl
  have hparent : Step twoOpen (resource_remove twoOpen 0xF0000008 0).1 :=
    Step.remove (by decide +kernel)
  have hchild : Step (resource_remove twoOpen 0xF0000008 0).1 noneOpen :=
    Step.remove (by decide +kernel)
  have hdestroy : Step noneOpen childDestroyed := Step.destroy (by decide +kernel)
  have hrun := (Relation.ReflTransGen.single hopen).tail hfork
  have hend := ((Relation.ReflTransGen.single hparent).tail hchild).tail hdestroy
  have hcount : (twoOpen.resources 0xF0001000).ref_count = 2 := by decide +kernel
  have hledger : noneOpen.ledger = [.returned 0xF0001000, .taken 0xF0001000] := by decide +kernel
  have hblocks : twoOpen.blocks = {0xF0001000} := by decide +kernel
  obtain ⟨hall, -⟩ := resources_count_their_slots oneTask twoOpen hboot hrun
  rw [hblocks] at hall
  obtain ⟨hcard, -⟩ := hall 0xF0001000 (Finset.mem_singleton_self _)
  refine ⟨hboot, hrun, hcount, hcard.symm.trans hcount, hledger, hend, ?_⟩
  exact (resources_count_their_slots oneTask childDestroyed hboot (hrun.trans hend)).2.2.1

end alura_os.resource
