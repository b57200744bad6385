-- The tree of the processes: each task has a list of its children, and every task
-- but init stands in the list of its parent, which was there before it.
import AluraOs.Processes

namespace alura_os.kernel

open alura_os.memory alura_os.task_manager alura_os.resource chains
open task_state_t task_wait_reason_t task_manager_result_t

variable {k k' : kernel_t} {order : List Nat} {ns : Nat → List Nat} {rules : Rules}

/-! ## The tree -/

/-- The links of the nodes. -/
def kernel_t.after (k : kernel_t) (n : Nat) : Nat := (k.nodes n).next

def kernel_t.behind (k : kernel_t) (n : Nat) : Nat := (k.nodes n).previous

/-- The tasks of a list of nodes. -/
def kernel_t.held (k : kernel_t) (ns : List Nat) : List Nat := ns.map fun n => (k.nodes n).task

/-- `order` lists the tasks but the idle one, parents first, and `ns` gives the nodes of the
children of each. -/
structure Tree (k : kernel_t) (order : List Nat) (ns : Nat → List Nat) : Prop where
  nodup : order.Nodup
  mem : ∀ a, a ∈ order ↔ a ∈ k.live ∧ a ≠ k.idle
  root : order.head? = some k.init
  orphan : (k.tasks k.init).parent = 0
  parents : ∀ pre a post, order = pre ++ a :: post → pre ≠ [] → (k.tasks a).parent ∈ pre
  linked : ∀ p ∈ k.live, Linked k.after k.behind 0 (k.tasks p).children (k.tasks p).children_tail (ns p)
  blocks : ∀ p ∈ k.live, ∀ n ∈ ns p, n ∈ k.node_blocks
  owned : ∀ n ∈ k.node_blocks, ∃ p ∈ k.live, n ∈ ns p
  null : 0 ∉ k.node_blocks
  once : ∀ p ∈ k.live, (k.held (ns p)).Nodup
  children : ∀ p ∈ k.live, ∀ c, c ∈ k.held (ns p) ↔ c ∈ order ∧ (k.tasks c).parent = p
  zombies : ∀ a ∈ k.live, k.state a = TASK_STATE_ZOMBIE → ns a = []
  idle : k.idle ∈ k.live
  spread : Spread k.live

theorem Tree.no_null (h : Tree k order ns) {p : Nat} (hp : p ∈ k.live) : 0 ∉ ns p :=
  fun h0 => h.null (h.blocks p hp 0 h0)

theorem Tree.nodes_nodup (h : Tree k order ns) {p : Nat} (hp : p ∈ k.live) : (ns p).Nodup :=
  List.Nodup.of_map _ (h.once p hp)

theorem Tree.children_zero (h : Tree k order ns) {p : Nat} (hp : p ∈ k.live) :
    (k.tasks p).children = 0 ↔ ns p = [] := path_null_iff (h.linked p hp).1 (h.no_null hp)

theorem Tree.init_mem (h : Tree k order ns) : k.init ∈ order := List.mem_of_mem_head? h.root

theorem Tree.init_live (h : Tree k order ns) : k.init ∈ k.live := ((h.mem _).mp h.init_mem).1

/-- A node tells whose child its task is. -/
theorem Tree.parent_of_node (h : Tree k order ns) {p n : Nat} (hp : p ∈ k.live) (hn : n ∈ ns p) :
    (k.nodes n).task ∈ order ∧ (k.tasks (k.nodes n).task).parent = p :=
  (h.children p hp _).mp (List.mem_map_of_mem hn)

theorem Tree.apart (h : Tree k order ns) {p p' n : Nat} (hp : p ∈ k.live) (hp' : p' ∈ k.live)
    (hn : n ∈ ns p) (hn' : n ∈ ns p') : p = p' :=
  (h.parent_of_node hp hn).2.symm.trans (h.parent_of_node hp' hn').2

theorem Tree.parent_mem (h : Tree k order ns) {a : Nat} (ha : a ∈ order) (hne : a ≠ k.init) :
    (k.tasks a).parent ∈ order := by
  obtain ⟨pre, post, he⟩ := List.append_of_mem ha
  have hpre : pre ≠ [] := by
    rintro rfl
    have := h.root
    rw [he] at this
    exact hne (by simpa using this)
  rw [he]
  exact List.mem_append_left _ (h.parents pre a post he hpre)

theorem Tree.parent_live (h : Tree k order ns) {a : Nat} (ha : a ∈ k.live) (hid : a ≠ k.idle)
    (hp : (k.tasks a).parent ≠ 0) : (k.tasks a).parent ∈ k.live := by
  have hne : a ≠ k.init := by
    rintro rfl
    exact hp h.orphan
  exact ((h.mem _).mp (h.parent_mem ((h.mem a).mpr ⟨ha, hid⟩) hne)).1

/-- No task is its own parent. -/
theorem Tree.parent_ne (h : Tree k order ns) {a : Nat} (ha : a ∈ k.live) (hid : a ≠ k.idle) :
    (k.tasks a).parent ≠ a := by
  have ho := (h.mem a).mpr ⟨ha, hid⟩
  obtain ⟨pre, post, he⟩ := List.append_of_mem ho
  by_cases hpre : pre = []
  · subst hpre
    have hroot := h.root
    rw [he] at hroot
    have hi : a = k.init := by simpa using hroot
    rw [hi, h.orphan]
    exact (Spread.ne_zero h.spread h.init_live).symm
  · intro hc
    have hm := h.parents pre a post he hpre
    rw [hc] at hm
    have hn := h.nodup
    rw [he, List.nodup_append] at hn
    exact hn.2.2 a hm a (by simp) rfl

theorem Tree.order_length (h : Tree k order ns) : order.length < ADDRESSES := by
  have h1 : order.toFinset ⊆ k.live := by
    intro a ha
    exact ((h.mem a).mp (List.mem_toFinset.mp ha)).1
  have h2 := Finset.card_le_card h1
  rw [List.toFinset_card_of_nodup h.nodup] at h2
  have h3 := h.spread.card_le
  unfold ADDRESSES
  omega

theorem Tree.length_lt (h : Tree k order ns) {p : Nat} (hp : p ∈ k.live) :
    (ns p).length < ADDRESSES := by
  have h1 : k.held (ns p) ⊆ order := fun c hc => ((h.children p hp c).mp hc).1
  have h2 := (h.once p hp).subperm h1 |>.length_le
  have h3 := h.order_length
  simp only [kernel_t.held, List.length_map] at h2
  omega

/-- What the tree depends on. -/
theorem Tree.congr (h : Tree k order ns) (hl : k'.live = k.live) (hi : k'.idle = k.idle)
    (hinit : k'.init = k.init) (hn : k'.nodes = k.nodes) (hb : k'.node_blocks = k.node_blocks)
    (ht : ∀ a ∈ k.live, (k'.tasks a).parent = (k.tasks a).parent ∧
      (k'.tasks a).children = (k.tasks a).children ∧
      (k'.tasks a).children_tail = (k.tasks a).children_tail)
    (hz : ∀ a ∈ k.live, k'.state a = TASK_STATE_ZOMBIE → k.state a = TASK_STATE_ZOMBIE ∨ ns a = []) :
    Tree k' order ns := by
  have hafter : k'.after = k.after := by
    unfold kernel_t.after
    rw [hn]
  have hbehind : k'.behind = k.behind := by
    unfold kernel_t.behind
    rw [hn]
  have hheld : k'.held = k.held := by
    unfold kernel_t.held
    rw [hn]
  have hlive : ∀ a ∈ order, a ∈ k.live := fun a ha => ((h.mem a).mp ha).1
  refine ⟨h.nodup, ?_, ?_, ?_, ?_, ?_, ?_, ?_, ?_, ?_, ?_, ?_, ?_, ?_⟩
  · rw [hl, hi]
    exact h.mem
  · rw [hinit]
    exact h.root
  · rw [hinit, (ht _ h.init_live).1]
    exact h.orphan
  · intro pre a post he hpre
    have ha : a ∈ order := by
      rw [he]
      simp
    rw [(ht a (hlive a ha)).1]
    exact h.parents pre a post he hpre
  · intro p hp
    rw [hl] at hp
    rw [hafter, hbehind, (ht p hp).2.1, (ht p hp).2.2]
    exact h.linked p hp
  · rw [hl, hb]
    exact h.blocks
  · rw [hl, hb]
    exact h.owned
  · rw [hb]
    exact h.null
  · rw [hl, hheld]
    exact h.once
  · intro p hp c
    rw [hl] at hp
    rw [hheld, h.children p hp c]
    constructor
    · rintro ⟨hc, hpar⟩
      exact ⟨hc, (ht c (hlive c hc)).1.trans hpar⟩
    · rintro ⟨hc, hpar⟩
      exact ⟨hc, (ht c (hlive c hc)).1.symm.trans hpar⟩
  · intro a ha hs
    rw [hl] at ha
    rcases hz a ha hs with hs | hs
    · exact h.zombies a ha hs
    · exact hs
  · rw [hi, hl]
    exact h.idle
  · rw [hl]
    exact h.spread

/-! ## Fork -/

theorem adopted_task (k : kernel_t) (p c b a : Nat) (h : a ≠ p) :
    (adopted k p c b).tasks a = k.tasks a := by
  unfold adopted
  dsimp only
  split <;> simp [kernel_t.setChildrenTail, kernel_t.setChildren, kernel_t.setNode, kernel_t.newNode,
    kernel_t.setTask, h]

theorem adopted_parent (k : kernel_t) (p c b : Nat) :
    (adopted k p c b).tasks p = { k.tasks p with
      children := if (k.tasks p).children = 0 then b else (k.tasks p).children
      children_tail := b } := by
  unfold adopted
  dsimp only
  split <;> simp [kernel_t.setChildrenTail, kernel_t.setChildren, kernel_t.setNode, kernel_t.newNode,
    kernel_t.setTask]

/-- The nodes after a child was added. -/
theorem adopted_nodes (k : kernel_t) (p c b : Nat) :
    (adopted k p c b).nodes =
      if (k.tasks p).children = 0 then Function.update k.nodes b ⟨c, 0, (k.tasks p).children_tail⟩
      else Function.update (Function.update k.nodes b ⟨c, 0, (k.tasks p).children_tail⟩)
        (k.tasks p).children_tail
        { Function.update k.nodes b ⟨c, 0, (k.tasks p).children_tail⟩ (k.tasks p).children_tail with
          next := b } := by
  unfold adopted
  dsimp only
  split <;> rfl

theorem adopted_after (k : kernel_t) (p c b : Nat) :
    (adopted k p c b).after =
      if (k.tasks p).children = 0 then Function.update k.after b 0
      else Function.update (Function.update k.after b 0) (k.tasks p).children_tail b := by
  funext n
  unfold kernel_t.after
  rw [adopted_nodes]
  split
  · by_cases hn : n = b <;> simp [hn]
  · by_cases ht : n = (k.tasks p).children_tail
    · simp [ht]
    · by_cases hn : n = b
      · simp [ht, ← hn]
      · simp [ht, hn]

theorem adopted_behind (k : kernel_t) (p c b : Nat) :
    (adopted k p c b).behind = Function.update k.behind b (k.tasks p).children_tail := by
  funext n
  unfold kernel_t.behind
  rw [adopted_nodes]
  by_cases hn : n = b
  · split
    · simp [hn]
    · by_cases ht : n = (k.tasks p).children_tail
      · simp [← ht, ← hn]
      · simp [ht, ← hn]
  · split
    · simp [hn]
    · by_cases ht : n = (k.tasks p).children_tail
      · rw [← ht]
        simp [hn]
      · simp [ht, hn]

theorem adopted_holds (k : kernel_t) (p c b n : Nat) :
    ((adopted k p c b).nodes n).task = if n = b then c else (k.nodes n).task := by
  rw [adopted_nodes]
  by_cases hn : n = b
  · split
    · simp [hn]
    · by_cases ht : n = (k.tasks p).children_tail
      · simp [← ht, ← hn]
      · simp [ht, ← hn]
  · split
    · simp [hn]
    · by_cases ht : n = (k.tasks p).children_tail
      · rw [← ht]
        simp [hn]
      · simp [ht, hn]

theorem adopted_rest (k : kernel_t) (p c b : Nat) :
    (adopted k p c b).live = k.live ∧ (adopted k p c b).idle = k.idle ∧
      (adopted k p c b).init = k.init ∧ (adopted k p c b).node_blocks = insert b k.node_blocks := by
  unfold adopted
  dsimp only
  split <;> exact ⟨rfl, rfl, rfl, rfl⟩

/-- The record of a new child, with these slots. -/
def newborn (k : kernel_t) (task_cr3 : Nat) (slots : Nat → Nat) : task_t :=
  { child_record (k.tasks k.current) k.task_id task_cr3
      (sub32 (k.tasks k.current).task_esp (k.tasks k.current).stack_base) with
    resources := slots
    parent := k.current }

/-- A child of the running task, before it stands in a list. -/
def unlisted (k : kernel_t) (child task_cr3 : Nat) : kernel_t :=
  (spawned k k.current child task_cr3).setParent child k.current

/-- Of the tasks only the child is new. -/
structure Born (k : kernel_t) (child task_cr3 : Nat) (k' : kernel_t) : Prop where
  others : ∀ a, a ≠ child → k'.tasks a = k.tasks a
  newborn : ∃ slots, k'.tasks child = newborn k task_cr3 slots
  live : k'.live = insert child k.live
  idle : k'.idle = k.idle
  init : k'.init = k.init
  nodes : k'.nodes = k.nodes
  node_blocks : k'.node_blocks = k.node_blocks

-- The loop over the slots stays closed: `s` stands for the store that it leaves.
theorem born_of_slots {child task_cr3 : Nat} {s : Store}
    (h : OnlySlots child (new_task k.toStore child
      { newborn k task_cr3 (fun _ => 0) with parent := 0 }) s) :
    Born k child task_cr3
      (({ k with toStore := s, task_id := u32 (k.task_id + 1) } : kernel_t).setParent child
        k.current) := by
  have hnew : (new_task k.toStore child
      { newborn k task_cr3 (fun _ => 0) with parent := 0 }).tasks child =
      { newborn k task_cr3 (fun _ => 0) with parent := 0 } := by
    simp [new_task]
  have hown := h.own
  rw [hnew] at hown
  refine ⟨?_, ⟨(s.tasks child).resources, ?_⟩, h.live, rfl, rfl, rfl, rfl⟩
  · intro a ha
    show Function.update s.tasks child _ a = _
    rw [Function.update_of_ne ha, h.others a ha]
    simp [new_task, ha]
  · show Function.update s.tasks child _ child = _
    rw [Function.update_self]
    show ({ s.tasks child with parent := k.current } : task_t) = _
    rw [hown]
    rfl

theorem unlisted_born (k : kernel_t) (child task_cr3 : Nat) :
    Born k child task_cr3 (unlisted k child task_cr3) :=
  born_of_slots (share_resources_only _ child k.current).1

theorem forked_eq (k : kernel_t) (child task_cr3 block : Nat) :
    forked k child task_cr3 block = adopted (unlisted k child task_cr3) k.current child block := rfl

/-- The list that a new node enters. -/
theorem Tree.linked_adopted {k0 : kernel_t} (h : Tree k order ns) {p b c : Nat} (hp : p ∈ k.live)
    (hb : Block k.node_blocks b) (hn : k0.nodes = k.nodes) (ht : k0.tasks p = k.tasks p) :
    Linked (adopted k0 p c b).after (adopted k0 p c b).behind 0
      ((adopted k0 p c b).tasks p).children ((adopted k0 p c b).tasks p).children_tail (ns p ++ [b]) := by
  have hafter : k0.after = k.after := by
    unfold kernel_t.after
    rw [hn]
  have hbehind : k0.behind = k.behind := by
    unfold kernel_t.behind
    rw [hn]
  have hbn : b ∉ ns p := fun hm => hb.2.2 (h.blocks p hp b hm)
  have hl := h.linked p hp
  rw [adopted_parent, adopted_after, adopted_behind, ht, hafter, hbehind]
  dsimp only
  by_cases hz : (k.tasks p).children = 0
  · have hnil : ns p = [] := (h.children_zero hp).mp hz
    have htail : (k.tasks p).children_tail = 0 := by
      have := hl.2
      rw [hnil] at this
      exact this
    rw [if_pos hz, if_pos hz, hnil]
    apply linked_singleton
    · simp
    · simpa using htail
  · rw [if_neg hz, if_neg hz]
    have hne : ns p ≠ [] := fun hc => hz ((h.children_zero hp).mpr hc)
    have hl' : Linked (Function.update k.after b 0)
        (Function.update k.behind b (k.tasks p).children_tail) 0
        (k.tasks p).children (k.tasks p).children_tail (ns p) := by
      apply hl.congr
      · intro n hnn
        rw [Function.update_of_ne]
        rintro rfl
        exact hbn hnn
      · intro n hnn
        rw [Function.update_of_ne]
        rintro rfl
        exact hbn hnn
    exact linked_link hl' hne (h.nodes_nodup hp) hbn (by simp) (by simp)

/-- The lists that a new node does not enter. -/
theorem Tree.linked_other {k0 : kernel_t} (h : Tree k order ns) {p b c x : Nat} (hp : p ∈ k.live)
    (hx : x ∈ k.live) (hne : x ≠ p) (hb : Block k.node_blocks b) (hn : k0.nodes = k.nodes)
    (ht : k0.tasks p = k.tasks p) (hx0 : k0.tasks x = k.tasks x) :
    Linked (adopted k0 p c b).after (adopted k0 p c b).behind 0
      ((adopted k0 p c b).tasks x).children ((adopted k0 p c b).tasks x).children_tail (ns x) := by
  have hbn : b ∉ ns x := fun hm => hb.2.2 (h.blocks x hx b hm)
  have hafter : k0.after = k.after := by
    unfold kernel_t.after
    rw [hn]
  have hbehind : k0.behind = k.behind := by
    unfold kernel_t.behind
    rw [hn]
  rw [adopted_task k0 p c b x hne, hx0]
  apply (h.linked x hx).congr
  · intro n hnn
    have hnb : n ≠ b := by
      rintro rfl
      exact hbn hnn
    rw [adopted_after, ht, hafter]
    split
    · rw [Function.update_of_ne hnb]
    · rename_i hz
      have hnt : n ≠ (k.tasks p).children_tail := by
        rintro rfl
        apply hne
        apply h.apart hx hp hnn
        exact (h.linked p hp).tail_mem fun hc => hz ((h.children_zero hp).mpr hc)
      rw [Function.update_of_ne hnt, Function.update_of_ne hnb]
  · intro n hnn
    have hnb : n ≠ b := by
      rintro rfl
      exact hbn hnn
    rw [adopted_behind, Function.update_of_ne hnb, hbehind]

theorem held_adopted {k0 : kernel_t} {p b c : Nat} {xs : List Nat} (hn : k0.nodes = k.nodes)
    (hb : b ∉ xs) : (adopted k0 p c b).held xs = k.held xs := by
  apply List.map_congr_left
  intro n hx
  have hnb : n ≠ b := by
    rintro rfl
    exact hb hx
  rw [adopted_holds, if_neg hnb, hn]

theorem Tree.after_fork (h : Tree k order ns) {child task_cr3 block : Nat} (hc : k.current ∈ k.live)
    (hid : k.current ≠ k.idle) (hrun : k.state k.current ≠ TASK_STATE_ZOMBIE)
    (ht : TaskBlock k.live child) (hb : Block k.node_blocks block) :
    Tree (forked k child task_cr3 block) (order ++ [child])
      (Function.update (Function.update ns child []) k.current (ns k.current ++ [block])) := by
  rw [forked_eq]
  have hborn := unlisted_born k child task_cr3
  obtain ⟨hlive, hidle, hinit, hblocks⟩ :=
    adopted_rest (unlisted k child task_cr3) k.current child block
  rw [hborn.live] at hlive
  rw [hborn.idle] at hidle
  rw [hborn.init] at hinit
  rw [hborn.node_blocks] at hblocks
  have hnode := hborn.nodes
  have hfresh : child ∉ k.live := ht.fresh
  have hcc : k.current ≠ child := by
    rintro he
    exact hfresh (he ▸ hc)
  have hchild0 : child ≠ 0 := by
    have := ht.1
    unfold KERNEL_HEAP_VIRTUAL_START at this
    omega
  have hco : k.current ∈ order := (h.mem _).mpr ⟨hc, hid⟩
  have hcur : (unlisted k child task_cr3).tasks k.current = k.tasks k.current := hborn.others _ hcc
  obtain ⟨slots, hslots⟩ := hborn.newborn
  generalize unlisted k child task_cr3 = k0 at *
  have hk1 : ∀ a, a ≠ k.current → a ≠ child →
      (adopted k0 k.current child block).tasks a = k.tasks a := by
    intro a ha hac
    rw [adopted_task _ _ _ _ _ ha, hborn.others a hac]
  have hkc : (adopted k0 k.current child block).tasks child = newborn k task_cr3 slots := by
    rw [adopted_task _ _ _ _ _ hcc.symm, hslots]
  have hkp := adopted_parent k0 k.current child block
  rw [hcur] at hkp
  have hparent : ∀ a, a ≠ child →
      ((adopted k0 k.current child block).tasks a).parent = (k.tasks a).parent := by
    intro a ha
    by_cases hac : a = k.current
    · rw [hac, hkp]
    · rw [hk1 a hac ha]
  have hold : ∀ a ∈ order, a ≠ child := by
    rintro a ha rfl
    exact hfresh ((h.mem a).mp ha).1
  have hinitc : k.init ≠ child := hold _ h.init_mem
  have hblock : ∀ p ∈ k.live, block ∉ ns p := fun p hp hm => hb.2.2 (h.blocks p hp block hm)
  -- The lists after the fork: that of the child is empty, and that of its parent one longer.
  generalize hns : Function.update (Function.update ns child []) k.current (ns k.current ++ [block])
    = ns' at *
  have hns_cur : ns' k.current = ns k.current ++ [block] := by
    rw [← hns]
    simp
  have hns_child : ns' child = [] := by
    rw [← hns]
    simp [hcc.symm]
  have hns_other : ∀ p, p ≠ k.current → p ≠ child → ns' p = ns p := by
    intro p hp hpc
    rw [← hns]
    simp [hp, hpc]
  have hcases : ∀ p ∈ (adopted k0 k.current child block).live,
      p = child ∨ p = k.current ∨ p ∈ k.live ∧ p ≠ k.current ∧ p ≠ child := by
    intro p hp
    rw [hlive, Finset.mem_insert] at hp
    by_cases h1 : p = child
    · exact Or.inl h1
    · by_cases h2 : p = k.current
      · exact Or.inr (Or.inl h2)
      · exact Or.inr (Or.inr ⟨hp.resolve_left h1, h2, h1⟩)
  have hnone : ∀ c ∈ order ++ [child],
      ((adopted k0 k.current child block).tasks c).parent ≠ child := by
    intro c hcm
    rcases List.mem_append.mp hcm with hcm | hcm
    · rw [hparent c (hold c hcm)]
      by_cases hi : c = k.init
      · rw [hi, h.orphan]
        exact hchild0.symm
      · exact hold _ (h.parent_mem hcm hi)
    · rw [List.mem_singleton.mp hcm, hkc]
      exact hcc
  have hheld_cur : (adopted k0 k.current child block).held (ns k.current ++ [block]) =
      k.held (ns k.current) ++ [child] := by
    unfold kernel_t.held
    rw [List.map_append]
    congr 1
    · exact held_adopted hnode (hblock _ hc)
    · simp [adopted_holds]
  refine ⟨?_, ?_, ?_, ?_, ?_, ?_, ?_, ?_, ?_, ?_, ?_, ?_, ?_, ?_⟩
  · rw [List.nodup_append]
    refine ⟨h.nodup, List.nodup_singleton _, ?_⟩
    intro a ha b hb
    rw [List.mem_singleton] at hb
    rw [hb]
    exact hold a ha
  · intro a
    rw [hlive, hidle, List.mem_append, List.mem_singleton, Finset.mem_insert, h.mem]
    constructor
    · rintro (⟨h1, h2⟩ | rfl)
      · exact ⟨Or.inr h1, h2⟩
      · exact ⟨Or.inl rfl, fun he => hfresh (he ▸ h.idle)⟩
    · rintro ⟨rfl | h1, h2⟩
      · exact Or.inr rfl
      · exact Or.inl ⟨h1, h2⟩
  · rw [hinit, List.head?_append, h.root]
    rfl
  · rw [hinit, hparent _ hinitc]
    exact h.orphan
  · intro pre a post he hpre
    rcases List.eq_nil_or_concat post with rfl | ⟨post, x, rfl⟩
    · obtain ⟨rfl, hac⟩ := List.append_inj' he rfl
      have hac : child = a := by simpa using hac
      rw [← hac, hkc]
      exact hco
    · rw [List.concat_eq_append, ← List.cons_append, ← List.append_assoc] at he
      obtain ⟨hpre', -⟩ := List.append_inj' he rfl
      have ha : a ∈ order := by
        rw [hpre']
        simp
      rw [hparent a (hold a ha)]
      exact h.parents pre a post hpre' hpre
  · intro p hp
    rcases hcases p hp with rfl | rfl | ⟨hpl, h1, h2⟩
    · rw [hns_child, hkc]
      exact ⟨rfl, rfl⟩
    · rw [hns_cur]
      exact h.linked_adopted hc hb hnode hcur
    · rw [hns_other p h1 h2]
      exact h.linked_other hc hpl h1 hb hnode hcur (hborn.others p h2)
  · intro p hp n hn
    rw [hblocks, Finset.mem_insert]
    rcases hcases p hp with rfl | rfl | ⟨hpl, h1, h2⟩
    · rw [hns_child] at hn
      cases hn
    · rw [hns_cur, List.mem_append, List.mem_singleton] at hn
      rcases hn with hn | hn
      · exact Or.inr (h.blocks _ hc n hn)
      · exact Or.inl hn
    · rw [hns_other p h1 h2] at hn
      exact Or.inr (h.blocks p hpl n hn)
  · intro n hn
    rw [hblocks, Finset.mem_insert] at hn
    rcases hn with rfl | hn
    · refine ⟨k.current, ?_, ?_⟩
      · rw [hlive]
        exact Finset.mem_insert_of_mem hc
      · rw [hns_cur]
        simp
    · obtain ⟨p, hp, hnp⟩ := h.owned n hn
      refine ⟨p, ?_, ?_⟩
      · rw [hlive]
        exact Finset.mem_insert_of_mem hp
      · by_cases hpc : p = k.current
        · subst hpc
          rw [hns_cur]
          exact List.mem_append_left _ hnp
        · rw [hns_other p hpc fun he => hfresh (he ▸ hp)]
          exact hnp
  · rw [hblocks, Finset.mem_insert]
    rintro (h0 | h0)
    · exact hb.1 h0.symm
    · exact h.null h0
  · intro p hp
    rcases hcases p hp with rfl | rfl | ⟨hpl, h1, h2⟩
    · rw [hns_child]
      exact List.nodup_nil
    · rw [hns_cur, hheld_cur, List.nodup_append]
      refine ⟨h.once _ hc, List.nodup_singleton _, ?_⟩
      intro a ha b hb
      rw [List.mem_singleton] at hb
      rw [hb]
      exact hold a ((h.children _ hc a).mp ha).1
    · rw [hns_other p h1 h2, held_adopted hnode (hblock p hpl)]
      exact h.once p hpl
  · intro p hp c
    rcases hcases p hp with rfl | rfl | ⟨hpl, h1, h2⟩
    · rw [hns_child]
      refine ⟨fun hm => absurd hm List.not_mem_nil, fun hm => absurd hm.2 (hnone c hm.1)⟩
    · rw [hns_cur, hheld_cur, List.mem_append, List.mem_append, List.mem_singleton, h.children _ hc]
      constructor
      · rintro (⟨hm, hpar⟩ | rfl)
        · exact ⟨Or.inl hm, (hparent c (hold c hm)).trans hpar⟩
        · exact ⟨Or.inr rfl, by rw [hkc]; rfl⟩
      · rintro ⟨hm | hm, hpar⟩
        · exact Or.inl ⟨hm, (hparent c (hold c hm)).symm.trans hpar⟩
        · exact Or.inr hm
    · rw [hns_other p h1 h2, held_adopted hnode (hblock p hpl), h.children p hpl, List.mem_append,
        List.mem_singleton]
      constructor
      · rintro ⟨hm, hpar⟩
        exact ⟨Or.inl hm, (hparent c (hold c hm)).trans hpar⟩
      · rintro ⟨hm | rfl, hpar⟩
        · exact ⟨hm, (hparent c (hold c hm)).symm.trans hpar⟩
        · rw [hkc] at hpar
          exact absurd hpar.symm h1
  · intro a ha hz
    rcases hcases a ha with rfl | rfl | ⟨hpl, h1, h2⟩
    · exact hns_child
    · exfalso
      apply hrun
      have : (adopted k0 k.current child block).state k.current = k.state k.current := by
        show ((adopted k0 k.current child block).tasks k.current).task_state = _
        rw [hkp]
        rfl
      rw [← this]
      exact hz
    · rw [hns_other a h1 h2]
      apply h.zombies a hpl
      show (k.tasks a).task_state = _
      rw [← hk1 a h1 h2]
      exact hz
  · rw [hidle, hlive]
    exact Finset.mem_insert_of_mem h.idle
  · rw [hlive]
    exact h.spread.insert ht

/-! ## Exit and reaping -/

/-- A change of a task that leaves its place in the tree. -/
theorem Tree.touch (h : Tree k order ns) {a : Nat} {t : task_t}
    (hp : t.parent = (k.tasks a).parent) (hc : t.children = (k.tasks a).children)
    (ht : t.children_tail = (k.tasks a).children_tail)
    (hz : t.task_state = TASK_STATE_ZOMBIE → k.state a = TASK_STATE_ZOMBIE ∨ ns a = []) :
    Tree (k.setTask a t) order ns := by
  refine h.congr rfl rfl rfl rfl rfl ?_ ?_
  · intro b _
    by_cases hb : b = a
    · subst hb
      simp [kernel_t.setTask, hp, hc, ht]
    · simp [kernel_t.setTask, hb]
  · intro b _ hs
    by_cases hb : b = a
    · subst hb
      exact hz (by simpa [kernel_t.state, kernel_t.setTask] using hs)
    · exact Or.inl ((state_setTask_ne k t hb).symm.trans hs)

theorem Tree.after_exit (h : Tree k order ns) {a : Nat} (ha : a ∈ k.live)
    (hc : (k.tasks a).children = 0) : Tree (exited k a) order ns := by
  have h1 : Tree (k.setState a TASK_STATE_ZOMBIE) order ns :=
    h.touch rfl rfl rfl fun _ => Or.inr ((h.children_zero ha).mp hc)
  unfold exited
  dsimp only
  split
  · exact h1.touch rfl rfl rfl fun hs =>
      absurd (show TASK_STATE_READY = TASK_STATE_ZOMBIE from hs) (by decide)
  · exact h1

theorem cut_task (k : kernel_t) (p head a : Nat) (h : a ≠ p) :
    (cut k p head).tasks a = k.tasks a := by
  unfold cut
  dsimp only
  split <;> split <;> simp [kernel_t.setChildrenTail, kernel_t.setChildren, kernel_t.setNode,
    kernel_t.freeNode, kernel_t.setTask, h]

theorem cut_parent (k : kernel_t) (p head : Nat) :
    (cut k p head).tasks p = { k.tasks p with
      children := if k.behind head = 0 then k.after head else (k.tasks p).children
      children_tail := if k.after head = 0 then k.behind head else (k.tasks p).children_tail } := by
  unfold cut kernel_t.behind kernel_t.after
  dsimp only
  split <;> split <;> simp [kernel_t.setChildrenTail, kernel_t.setChildren, kernel_t.setNode,
    kernel_t.freeNode, kernel_t.setTask]

theorem after_setNode (k : kernel_t) (a : Nat) (n : task_node_t) :
    (k.setNode a n).after = Function.update k.after a n.next := by
  funext x
  by_cases hx : x = a <;> simp [kernel_t.after, kernel_t.setNode, hx]

theorem behind_setNode (k : kernel_t) (a : Nat) (n : task_node_t) :
    (k.setNode a n).behind = Function.update k.behind a n.previous := by
  funext x
  by_cases hx : x = a <;> simp [kernel_t.behind, kernel_t.setNode, hx]

theorem held_setNode (k : kernel_t) {a : Nat} {n : task_node_t} (h : n.task = (k.nodes a).task) :
    (k.setNode a n).held = k.held := by
  unfold kernel_t.held
  have : (fun x => ((k.setNode a n).nodes x).task) = fun x => (k.nodes x).task := by
    funext x
    by_cases hx : x = a
    · subst hx
      simp [kernel_t.setNode, h]
    · simp [kernel_t.setNode, hx]
  rw [this]

/-- The first write of `cut`. -/
def cut_next (k : kernel_t) (p head : Nat) : kernel_t :=
  if k.behind head = 0 then k.setChildren p (k.after head)
  else k.setNode (k.behind head) { k.nodes (k.behind head) with next := k.after head }

theorem cut_eq (k : kernel_t) (p head : Nat) :
    cut k p head =
      (if k.after head = 0 then (cut_next k p head).setChildrenTail p (k.behind head)
      else (cut_next k p head).setNode (k.after head)
        { (cut_next k p head).nodes (k.after head) with previous := k.behind head }).freeNode head :=
  rfl

theorem cut_next_links (k : kernel_t) (p head : Nat) :
    (cut_next k p head).after =
      (if k.behind head = 0 then k.after
      else Function.update k.after (k.behind head) (k.after head)) ∧
    (cut_next k p head).behind = k.behind ∧ (cut_next k p head).held = k.held := by
  unfold cut_next
  split
  · exact ⟨rfl, rfl, rfl⟩
  · refine ⟨after_setNode _ _ _, ?_, held_setNode k rfl⟩
    rw [behind_setNode]
    exact Function.update_eq_self _ _

theorem cut_links (k : kernel_t) (p head : Nat) :
    (cut k p head).after =
      (if k.behind head = 0 then k.after
      else Function.update k.after (k.behind head) (k.after head)) ∧
    (cut k p head).behind =
      (if k.after head = 0 then k.behind
      else Function.update k.behind (k.after head) (k.behind head)) ∧
    (cut k p head).held = k.held := by
  obtain ⟨h1, h2, h3⟩ := cut_next_links k p head
  rw [cut_eq, ← h1, ← h3]
  split
  · exact ⟨rfl, h2, rfl⟩
  · refine ⟨?_, ?_, held_setNode _ rfl⟩
    · refine (after_setNode _ _ _).trans ?_
      exact Function.update_eq_self _ _
    · refine (behind_setNode _ _ _).trans ?_
      rw [h2]

theorem cut_rest (k : kernel_t) (p head : Nat) :
    (cut k p head).live = k.live ∧ (cut k p head).idle = k.idle ∧ (cut k p head).init = k.init ∧
      (cut k p head).node_blocks = k.node_blocks.erase head := by
  unfold cut
  dsimp only
  split <;> split <;> exact ⟨rfl, rfl, rfl, rfl⟩

/-- What a reaped child leaves: the others, without its node. -/
structure Gone (k : kernel_t) (child head : Nat) (k' : kernel_t) : Prop where
  others : ∀ a, a ≠ child → k'.tasks a = (cut k k.current head).tasks a
  live : k'.live = k.live.erase child
  idle : k'.idle = k.idle
  init : k'.init = k.init
  nodes : k'.nodes = (cut k k.current head).nodes
  node_blocks : k'.node_blocks = k.node_blocks.erase head

theorem free_task_directory_rest (k : kernel_t) (a : Nat) :
    (free_task_directory k a).toStore = k.toStore ∧
      (free_task_directory k a).task_manager = k.task_manager ∧
      (free_task_directory k a).nodes = k.nodes ∧
      (free_task_directory k a).node_blocks = k.node_blocks := by
  unfold free_task_directory
  split <;> exact ⟨rfl, rfl, rfl, rfl⟩

/-- The same change of the lists in a kernel whose tasks differ in the slots of one of them. -/
theorem cut_of_slots {child head : Nat} {s : Store} (h : OnlySlots child k.toStore s)
    (hne : k.current ≠ child) :
    Gone k child head
      (let k2 := free_task_directory (cut { k with toStore := s } k.current head) child
       { k2 with toStore := free_task k2.toStore child }) := by
  let k1 : kernel_t := { k with toStore := s }
  obtain ⟨hs, hm, hn, hb⟩ := free_task_directory_rest (cut k1 k.current head) child
  obtain ⟨hl, hi, hinit, hbl⟩ := cut_rest k1 k.current head
  refine ⟨?_, ?_, ?_, ?_, ?_, ?_⟩
  · intro a ha
    show (free_task_directory (cut k1 k.current head) child).toStore.tasks a = _
    rw [hs]
    by_cases hc : a = k.current
    · rw [hc, cut_parent, cut_parent]
      have : k1.tasks k.current = k.tasks k.current := h.others _ hne
      rw [this]
      rfl
    · rw [cut_task _ _ _ _ hc, cut_task _ _ _ _ hc]
      exact h.others a ha
  · show (free_task_directory (cut k1 k.current head) child).toStore.live.erase child = _
    rw [hs, hl]
    exact congrArg (fun l => l.erase child) h.live
  · show (free_task_directory (cut k1 k.current head) child).task_manager.task_idle = _
    rw [hm]
    exact hi
  · show (free_task_directory (cut k1 k.current head) child).task_manager.task_init = _
    rw [hm]
    exact hinit
  · show (free_task_directory (cut k1 k.current head) child).nodes = _
    rw [hn]
    unfold cut
    dsimp only
    split <;> split <;> rfl
  · show (free_task_directory (cut k1 k.current head) child).node_blocks = _
    rw [hb]
    exact hbl

theorem reaped_gone (k : kernel_t) {child : Nat} (head : Nat) (hne : k.current ≠ child) :
    Gone k child head (reaped k child head) :=
  cut_of_slots (release_resources_only k.toStore child).1 hne

/-- Parents stay before their children when a task without children leaves. -/
theorem parents_erase {parent : Nat → Nat} {c : Nat}
    (h : ∀ pre a post, order = pre ++ a :: post → pre ≠ [] → parent a ∈ pre)
    (hc : ∀ a ∈ order, parent a ≠ c) (hm : c ∈ order) :
    ∀ pre a post, order.erase c = pre ++ a :: post → pre ≠ [] → parent a ∈ pre := by
  intro pre a post he hpre
  obtain ⟨l1, l2, hl1, ho, herase⟩ := List.exists_erase_eq hm
  rw [herase] at he
  have hne : parent a ≠ c := by
    apply hc a
    have ha : a ∈ l1 ++ l2 := by
      rw [he]
      simp
    rw [ho]
    rcases List.mem_append.mp ha with ha | ha
    · exact List.mem_append_left _ ha
    · exact List.mem_append_right _ (List.mem_cons_of_mem _ ha)
  rcases List.append_eq_append_iff.mp he with ⟨mid, h1, h2⟩ | ⟨mid, h1, h2⟩
  · -- `a` stands behind the task that leaves.
    have hp := h (l1 ++ c :: mid) a post (by rw [ho, h2]; simp) (by simp)
    rw [h1]
    simp only [List.mem_append, List.mem_cons] at hp ⊢
    tauto
  · cases mid with
    | nil =>
      have hl2 : l2 = a :: post := by simpa using h2.symm
      have hl1 : l1 = pre := by simpa using h1
      have hp := h (l1 ++ [c]) a post (by rw [ho, hl2]; simp) (by simp)
      rw [hl1] at hp
      simp only [List.mem_append, List.mem_singleton] at hp
      tauto
    | cons x mid =>
      obtain ⟨rfl, h3⟩ := List.cons.inj h2
      exact h pre _ (mid ++ c :: l2) (by rw [ho, h1]; simp) hpre

/-- The list that a node leaves. -/
theorem Tree.linked_cut (h : Tree k order ns) {p head : Nat} (hp : p ∈ k.live) (hn : head ∈ ns p) :
    Linked (cut k p head).after (cut k p head).behind 0 ((cut k p head).tasks p).children
      ((cut k p head).tasks p).children_tail ((ns p).erase head) := by
  obtain ⟨xs, ys, hx, he, herase⟩ := List.exists_erase_eq hn
  obtain ⟨hafter, hbehind, -⟩ := cut_links k p head
  have hl := h.linked p hp
  have hnull := h.no_null hp
  have hd := h.nodes_nodup hp
  rw [he] at hl hnull hd
  rw [cut_parent, hafter, hbehind, herase]
  exact linked_unlink hl hnull hd

/-- The lists that a node does not leave. -/
theorem Tree.linked_uncut (h : Tree k order ns) {p x head : Nat} (hp : p ∈ k.live)
    (hn : head ∈ ns p) (hx : x ∈ k.live) (hne : x ≠ p) :
    Linked (cut k p head).after (cut k p head).behind 0 ((cut k p head).tasks x).children
      ((cut k p head).tasks x).children_tail (ns x) := by
  obtain ⟨hafter, hbehind, -⟩ := cut_links k p head
  have hl := h.linked p hp
  have hother : ∀ n ∈ ns x, n ∉ ns p := fun n hnx hnp => hne (h.apart hx hp hnx hnp)
  rw [cut_task _ _ _ _ hne, hafter, hbehind]
  apply (h.linked x hx).congr
  · intro n hnx
    split
    · rfl
    · rename_i hz
      rw [Function.update_of_ne]
      rintro rfl
      exact hother _ hnx ((hl.prev_mem hn).resolve_left hz)
  · intro n hnx
    split
    · rfl
    · rename_i hz
      rw [Function.update_of_ne]
      rintro rfl
      exact hother _ hnx ((hl.next_mem hn).resolve_left hz)

theorem mem_map_erase {f : Nat → Nat} {xs : List Nat} {x c : Nat} (hx : x ∈ xs)
    (hd : (xs.map f).Nodup) : c ∈ (xs.erase x).map f ↔ c ∈ xs.map f ∧ c ≠ f x := by
  obtain ⟨ys, zs, -, he, herase⟩ := List.exists_erase_eq hx
  rw [he, List.map_append, List.map_cons, List.nodup_middle, List.nodup_cons, List.mem_append] at hd
  rw [herase, he]
  simp only [List.map_append, List.map_cons, List.mem_append, List.mem_cons]
  constructor
  · intro hc
    refine ⟨hc.imp_right Or.inr, ?_⟩
    rintro rfl
    exact hd.1 hc
  · tauto

theorem Tree.after_reap (h : Tree k order ns) {child head : Nat} (hc : k.current ∈ k.live)
    (hz : k.state child = TASK_STATE_ZOMBIE) (hl : child ∈ k.live)
    (hp : (k.tasks child).parent = k.current) (hb : head ∈ k.node_blocks)
    (ht : (k.nodes head).task = child) :
    Tree (reaped k child head) (order.erase child)
      (Function.update ns k.current ((ns k.current).erase head)) := by
  -- The node stands in the list of the running task.
  obtain ⟨p, hpl, hhead⟩ := h.owned head hb
  obtain ⟨hco, hpp⟩ := h.parent_of_node hpl hhead
  rw [ht] at hco hpp
  obtain rfl : k.current = p := hp.symm.trans hpp
  have hid : child ≠ k.idle := ((h.mem child).mp hco).2
  have hne : k.current ≠ child := by
    rw [← hp]
    exact h.parent_ne hl hid
  have hg := reaped_gone k head hne
  generalize reaped k child head = k' at *
  have hempty : ns child = [] := h.zombies child hl hz
  have hnone : ∀ a ∈ order, (k.tasks a).parent ≠ child := by
    intro a ha hpa
    have := (h.children child hl a).mpr ⟨ha, hpa⟩
    rw [hempty] at this
    cases this
  have hafter : k'.after = (cut k k.current head).after := by
    unfold kernel_t.after
    rw [hg.nodes]
  have hbehind : k'.behind = (cut k k.current head).behind := by
    unfold kernel_t.behind
    rw [hg.nodes]
  have hheld : k'.held = k.held := by
    rw [← (cut_links k k.current head).2.2]
    unfold kernel_t.held
    rw [hg.nodes]
  have hparent : ∀ a, a ≠ child → (k'.tasks a).parent = (k.tasks a).parent := by
    intro a ha
    rw [hg.others a ha]
    by_cases hac : a = k.current
    · rw [hac, cut_parent]
    · rw [cut_task _ _ _ _ hac]
  have hinit : k.init ≠ child := by
    rintro he
    have := h.orphan
    rw [he, hp] at this
    exact Spread.ne_zero h.spread hc this
  have hlive : ∀ {a}, a ∈ k'.live → a ∈ k.live ∧ a ≠ child := by
    intro a ha
    rw [hg.live, Finset.mem_erase] at ha
    exact ⟨ha.2, ha.1⟩
  generalize hns : Function.update ns k.current ((ns k.current).erase head) = ns' at *
  have hns_cur : ns' k.current = (ns k.current).erase head := by
    rw [← hns]
    simp
  have hns_other : ∀ x, x ≠ k.current → ns' x = ns x := by
    intro x hx
    rw [← hns]
    simp [hx]
  have hsub : ∀ x, ns' x ⊆ ns x := by
    intro x
    by_cases hx : x = k.current
    · rw [hx, hns_cur]
      exact List.erase_subset
    · rw [hns_other x hx]
      exact List.Subset.refl _
  refine ⟨h.nodup.erase child, ?_, ?_, ?_, ?_, ?_, ?_, ?_, ?_, ?_, ?_, ?_, ?_, ?_⟩
  · intro a
    rw [hg.live, hg.idle, h.nodup.mem_erase_iff, h.mem, Finset.mem_erase, and_assoc]
  · obtain ⟨l1, l2, -, ho, herase⟩ := List.exists_erase_eq hco
    rw [hg.init, herase, ← h.root, ho]
    cases l1 with
    | nil =>
      have hroot := h.root
      rw [ho] at hroot
      exact absurd (by simpa using hroot.symm) hinit
    | cons x l1 => rfl
  · rw [hg.init, hparent _ hinit]
    exact h.orphan
  · intro pre a post he hpre
    have hac : a ≠ child := by
      have ha : a ∈ order.erase child := by
        rw [he]
        simp
      exact (h.nodup.mem_erase_iff.mp ha).1
    rw [hparent a hac]
    exact parents_erase h.parents hnone hco pre a post he hpre
  · intro p hp
    obtain ⟨hp, hpc⟩ := hlive hp
    rw [hafter, hbehind, hg.others p hpc]
    by_cases hpc : p = k.current
    · subst hpc
      rw [hns_cur]
      exact h.linked_cut hc hhead
    · rw [hns_other p hpc]
      exact h.linked_uncut hc hhead hp hpc
  · intro p hp n hn
    obtain ⟨hp, -⟩ := hlive hp
    rw [hg.node_blocks, Finset.mem_erase]
    refine ⟨?_, h.blocks p hp n (hsub p hn)⟩
    rintro rfl
    obtain rfl := h.apart hp hc (hsub p hn) hhead
    rw [hns_cur] at hn
    exact (h.nodes_nodup hc).not_mem_erase hn
  · intro n hn
    rw [hg.node_blocks, Finset.mem_erase] at hn
    obtain ⟨p, hp, hnp⟩ := h.owned n hn.2
    refine ⟨p, ?_, ?_⟩
    · rw [hg.live, Finset.mem_erase]
      refine ⟨?_, hp⟩
      rintro rfl
      rw [hempty] at hnp
      cases hnp
    · by_cases hpc : p = k.current
      · subst hpc
        rw [hns_cur, (h.nodes_nodup hc).mem_erase_iff]
        exact ⟨hn.1, hnp⟩
      · rw [hns_other p hpc]
        exact hnp
  · rw [hg.node_blocks]
    exact fun h0 => h.null (Finset.mem_of_mem_erase h0)
  · intro p hp
    obtain ⟨hp, -⟩ := hlive hp
    rw [hheld]
    by_cases hpc : p = k.current
    · subst hpc
      rw [hns_cur]
      exact (h.once _ hp).sublist (List.Sublist.map _ List.erase_sublist)
    · rw [hns_other p hpc]
      exact h.once p hp
  · intro p hp c
    obtain ⟨hp, -⟩ := hlive hp
    rw [hheld, h.nodup.mem_erase_iff]
    have hiff : c ≠ child → ((k'.tasks c).parent = p ↔ (k.tasks c).parent = p) := by
      intro hcc
      rw [hparent c hcc]
    by_cases hpc : p = k.current
    · subst hpc
      rw [hns_cur, kernel_t.held, mem_map_erase hhead (h.once _ hp), ht]
      have := h.children _ hp c
      unfold kernel_t.held at this
      rw [this]
      tauto
    · rw [hns_other p hpc, h.children p hp]
      have hcc : (k.tasks c).parent = p → c ≠ child := by
        rintro rfl rfl
        exact hpc hpp
      tauto
  · intro a ha hs
    obtain ⟨ha, hac⟩ := hlive ha
    have hs' : k.state a = TASK_STATE_ZOMBIE := by
      rw [← hs]
      show _ = (k'.tasks a).task_state
      rw [hg.others a hac]
      by_cases hac : a = k.current
      · rw [hac, cut_parent]
        rfl
      · rw [cut_task _ _ _ _ hac]
        rfl
    have := h.zombies a ha hs'
    exact List.eq_nil_of_subset_nil (this ▸ hsub a)
  · rw [hg.idle, hg.live, Finset.mem_erase]
    exact ⟨hid.symm, h.idle⟩
  · rw [hg.live]
    exact h.spread.erase

/-! ## All that happens -/

theorem create_directory_cases {k1 : kernel_t} {page_directory : Option Nat} {task_cr3 : Nat}
    (h : create_directory k page_directory = some (k1, task_cr3)) :
    page_directory = none ∧ task_cr3 = 0 ∧ k1 = k ∨
      task_cr3 ≠ 0 ∧ task_cr3 ∉ k.directories ∧
        k1 = { k with directories := insert task_cr3 k.directories } := by
  unfold create_directory at h
  split at h
  · cases h
    exact Or.inl ⟨rfl, rfl, rfl⟩
  · split at h
    · rename_i hd
      cases h
      exact Or.inr ⟨hd.1, hd.2, rfl⟩
    · cases h

theorem create_directory_eq {k1 : kernel_t} {page_directory : Option Nat} {task_cr3 : Nat}
    (h : create_directory k page_directory = some (k1, task_cr3)) :
    ∃ directories, k1 = { k with directories := directories } := by
  obtain ⟨-, -, rfl⟩ | ⟨-, -, rfl⟩ := create_directory_cases h
  · exact ⟨k1.directories, rfl⟩
  · exact ⟨_, rfl⟩

/-- Fields outside the tasks and the nodes do not matter. -/
theorem Tree.of_tasks (h : Tree k order ns) (ht : k'.tasks = k.tasks) (hl : k'.live = k.live)
    (hi : k'.idle = k.idle) (hinit : k'.init = k.init) (hn : k'.nodes = k.nodes)
    (hb : k'.node_blocks = k.node_blocks) : Tree k' order ns := by
  apply h.congr hl hi hinit hn hb
  · intro a _
    rw [ht]
    exact ⟨rfl, rfl, rfl⟩
  · intro a _ hs
    unfold kernel_t.state at hs ⊢
    rw [ht] at hs
    exact Or.inl hs

theorem Tree.of_view (h : Tree k order ns) (hv : k'.view = k.view) : Tree k' order ns := by
  have hf : ∀ {α : Type} (f : kernel_t → α), f k'.view = f k.view := fun f => congrArg f hv
  refine h.congr (hf fun k => k.live) (hf fun k => k.idle) (hf fun k => k.init)
    (hf fun k => k.nodes) (hf fun k => k.node_blocks) ?_ ?_
  · intro a _
    have ht := view_task hv a
    exact ⟨congrArg (fun t => t.parent) ht, congrArg (fun t => t.children) ht,
      congrArg (fun t => t.children_tail) ht⟩
  · intro a _ hs
    exact Or.inl ((view_zombie hv a).mp hs)

theorem Tree.of_slots (h : Tree k order ns) {s : Store} {t : Nat} (hs : OnlySlots t k.toStore s) :
    Tree { k with toStore := s } order ns := by
  have ht := hs.task
  refine h.congr hs.live rfl rfl rfl rfl ?_ ?_
  · intro a _
    obtain ⟨f, hf⟩ := ht a
    show (s.tasks a).parent = _ ∧ (s.tasks a).children = _ ∧ (s.tasks a).children_tail = _
    rw [hf]
    exact ⟨rfl, rfl, rfl⟩
  · intro a _ hz
    obtain ⟨f, hf⟩ := ht a
    have hz : (s.tasks a).task_state = TASK_STATE_ZOMBIE := hz
    rw [hf] at hz
    exact Or.inl hz

theorem Tree.after_wake (h : Tree k order ns) (r : task_wait_reason_t) (o : Nat) :
    Tree (awakened k r o) order ns := by
  refine h.congr rfl rfl rfl rfl rfl ?_ ?_
  · intro a _
    rw [(awakened_task k r o a).1]
    exact ⟨rfl, rfl, rfl⟩
  · intro a _ hz
    rcases (awakened_task k r o a).2 with he | he
    · exact Or.inl (he.symm.trans hz)
    · rw [he] at hz
      cases hz

theorem Tree.after_exec (h : Tree k order ns) (task_cr3 : Nat) (loaded : Loaded) :
    Tree (executed k task_cr3 loaded) order ns := by
  let k1 := k.setTask k.current (alura_os.elf_executable.loaded_task (k.tasks k.current)
    loaded.e_entry task_cr3 loaded.task_esp loaded.heap_start)
  have h1 : Tree k1 order ns := h.touch rfl rfl rfl Or.inl
  have h2 : Tree (memory_paging_queue_to_destroy k1 k1.cr3) order ns := by
    unfold memory_paging_queue_to_destroy
    split
    · exact h1
    · exact h1.of_tasks rfl rfl rfl rfl rfl rfl
  exact h2.of_tasks rfl rfl rfl rfl rfl rfl

theorem Tree.after_switch (h : Tree k order ns) (new_task esp : Nat) :
    Tree (switched k new_task esp) order ns := by
  have h1 : Tree (if k.current = 0 then k
      else k.setTask k.current { k.tasks k.current with task_esp := esp }) order ns := by
    split
    · exact h
    · exact h.touch rfl rfl rfl Or.inl
  exact h1.of_tasks rfl rfl rfl rfl rfl rfl

/-- Whatever happens, the processes form a tree. -/
theorem Tree.act (h : Tree k order ns) (ha : Act rules k k') : ∃ order' ns', Tree k' order' ns' := by
  cases ha with
  | same hv => exact ⟨order, ns, h.of_view hv⟩
  | freed =>
    obtain ⟨frees, directories, he⟩ := destroy_queued_eq k
    refine ⟨order, ns, ?_⟩
    rw [he]
    exact h.of_tasks rfl rfl rfl rfl rfl rfl
  | pressed scancode =>
    have h1 : Tree (buffered k scancode) order ns := h.of_tasks rfl rfl rfl rfl rfl rfl
    exact ⟨order, ns, h1.after_wake _ _⟩
  | called data =>
    refine ⟨order, ns, ?_⟩
    unfold load_execution
    split
    · exact h
    · exact h.of_tasks rfl rfl rfl rfl rfl rfl
  | opened _ hr => exact ⟨order, ns, h.of_slots (register_only hr).1⟩
  | closed i => exact ⟨order, ns, h.of_slots (remove_only k.toStore k.current i).1⟩
  | flagged => exact ⟨order, ns, h.of_tasks rfl rfl rfl rfl rfl rfl⟩
  | took length => exact ⟨order, ns, h.of_tasks rfl rfl rfl rfl rfl rfl⟩
  | waitsKey => exact ⟨order, ns, h.touch rfl rfl rfl fun hs => by cases hs⟩
  | waitsChild => exact ⟨order, ns, h.touch rfl rfl rfl fun hs => by cases hs⟩
  | retries => exact ⟨order, ns, h.touch rfl rfl rfl Or.inl⟩
  | finished => exact ⟨order, ns, h.touch rfl rfl rfl Or.inl⟩
  | handles => exact ⟨order, ns, h.touch rfl rfl rfl Or.inl⟩
  | forked hc hid hrun _ hd ht hb =>
    obtain ⟨directories, rfl⟩ := create_directory_eq hd
    have h1 : Tree { k with directories := directories } order ns := h.of_tasks rfl rfl rfl rfl rfl rfl
    have hz : k.state k.current ≠ TASK_STATE_ZOMBIE := by
      rw [hrun]
      decide
    exact ⟨_, _, h1.after_fork hc hid hz ht hb⟩
  | leaked hd =>
    obtain ⟨directories, rfl⟩ := create_directory_eq hd
    exact ⟨order, ns, h.of_tasks rfl rfl rfl rfl rfl rfl⟩
  | executed _ _ hd _ =>
    obtain ⟨directories, rfl⟩ := create_directory_eq hd
    have h1 : Tree { k with directories := directories } order ns := h.of_tasks rfl rfl rfl rfl rfl rfl
    exact ⟨order, ns, h1.after_exec _ _⟩
  | exited hl _ hc => exact ⟨order, ns, h.after_exit hl hc⟩
  | reaped hc hl hz hp hb ht => exact ⟨_, _, h.after_reap hc hz hl hp hb ht⟩
  | roused => exact ⟨order, ns, h.touch rfl rfl rfl fun hs => by cases hs⟩
  | reloaded => exact ⟨order, ns, h.of_tasks rfl rfl rfl rfl rfl rfl⟩
  | @switched new_task esp _ _ =>
    exact ⟨order, ns, h.after_switch _ esp⟩

/-! ## Leaving the list of the parent -/

theorem unlink_next_eq (k : kernel_t) (p head : Nat) :
    unlink_next k p head =
      if k.behind head ≠ 0 then store_next k (k.behind head) (k.after head)
      else some (k.setChildren p (k.after head)) := rfl

theorem unlink_previous_eq (k : kernel_t) (p head : Nat) :
    unlink_previous k p head =
      if k.after head ≠ 0 then store_previous k (k.after head) (k.behind head)
      else some (k.setChildrenTail p (k.behind head)) := rfl

theorem Tree.unlink_child (h : Tree k order ns) {p head : Nat} (hp : p ∈ k.live)
    (hn : head ∈ ns p) : alura_os.kernel.unlink_child k p head = some (cut k p head) := by
  have hl := h.linked p hp
  have hprev : k.behind head ≠ 0 → k.behind head ∈ k.node_blocks := fun hz =>
    h.blocks p hp _ ((hl.prev_mem hn).resolve_left hz)
  have hnext : k.after head ≠ 0 → k.after head ∈ k.node_blocks := fun hz =>
    h.blocks p hp _ ((hl.next_mem hn).resolve_left hz)
  have hne : k.behind head ≠ head := hl.prev_ne hn (h.no_null hp) (h.nodes_nodup hp)
  have h1 : unlink_next k p head = some (cut_next k p head) := by
    rw [unlink_next_eq]
    unfold cut_next
    by_cases hz : k.behind head = 0
    · rw [if_neg (not_not.mpr hz), if_pos hz]
    · rw [if_pos hz, if_neg hz]
      unfold store_next
      exact if_pos (hprev hz)
  have hnode : (cut_next k p head).nodes head = k.nodes head := by
    unfold cut_next
    split
    · rfl
    · simp [kernel_t.setNode, hne.symm]
  have hblocks : (cut_next k p head).node_blocks = k.node_blocks := by
    unfold cut_next
    split <;> rfl
  have h2 : (unlink_previous (cut_next k p head) p head).map (fun k => k.freeNode head) =
      some (cut k p head) := by
    have hafter : (cut_next k p head).after head = k.after head := congrArg (fun n => n.next) hnode
    have hbehind : (cut_next k p head).behind head = k.behind head :=
      congrArg (fun n => n.previous) hnode
    rw [cut_eq, unlink_previous_eq, hafter, hbehind]
    by_cases hz : k.after head = 0
    · rw [if_neg (not_not.mpr hz), if_pos hz]
      rfl
    · rw [if_pos hz, if_neg hz]
      unfold store_previous
      rw [hblocks, if_pos (hnext hz)]
      rfl
  unfold alura_os.kernel.unlink_child
  rw [h1]
  show (unlink_previous (cut_next k p head) p head).bind _ = _
  rw [← h2]
  cases unlink_previous (cut_next k p head) p head <;> rfl

theorem remove_child_from_spec {p c head n : Nat} {xs : List Nat} (hp : Path k.after head xs 0)
    (h0 : 0 ∉ xs) (hn : xs.length < n) (hc : c ∈ k.held xs) :
    ∃ node ∈ xs, (k.nodes node).task = c ∧
      remove_child_from k p c n head =
        (unlink_child k p node).map fun k => (k, TASK_MANAGER_RESULT_OK) := by
  induction xs generalizing head n with
  | nil => cases hc
  | cons x xs ih =>
    cases n with
    | zero => omega
    | succ n =>
      obtain ⟨rfl, hp⟩ := hp
      have hne : head ≠ 0 := by
        rintro rfl
        simp at h0
      unfold remove_child_from
      rw [if_neg hne]
      by_cases ht : (k.nodes head).task = c
      · rw [if_pos ht]
        exact ⟨head, List.mem_cons_self, ht, rfl⟩
      · rw [if_neg ht]
        have hc' : c ∈ k.held xs := (List.mem_cons.mp hc).resolve_left (Ne.symm ht)
        obtain ⟨node, hm, hnt, he⟩ := ih hp (fun hm => h0 (List.mem_cons_of_mem _ hm))
          (by simpa using hn) hc'
        exact ⟨node, List.mem_cons_of_mem _ hm, hnt, he⟩

/-- A child leaves the list of its parent. -/
theorem Tree.remove_child (h : Tree k order ns) {p c : Nat} (hp : p ∈ k.live)
    (hc : c ∈ k.held (ns p)) :
    ∃ head ∈ ns p, (k.nodes head).task = c ∧
      task_manager_remove_child_from_task k p c = some (cut k p head, TASK_MANAGER_RESULT_OK) := by
  obtain ⟨head, hm, ht, he⟩ := remove_child_from_spec (p := p) (h.linked p hp).1 (h.no_null hp)
    (h.length_lt hp) hc
  refine ⟨head, hm, ht, ?_⟩
  unfold task_manager_remove_child_from_task
  rw [he, h.unlink_child hp hm]
  rfl

/-! ## The searches -/

/-- A loop over a list gives the first task that passes the test, or 0. -/
theorem find_node_spec {test : task_t → Bool} {head n : Nat} {xs : List Nat}
    (hp : Path k.after head xs 0) (h0 : 0 ∉ xs) (hn : xs.length < n) :
    find_node k test n head = some (((k.held xs).find? fun c => test (k.tasks c)).getD 0) := by
  induction xs generalizing head n with
  | nil =>
    cases n with
    | zero => omega
    | succ n =>
      unfold find_node
      rw [if_pos (show head = 0 from hp)]
      rfl
  | cons x xs ih =>
    cases n with
    | zero => omega
    | succ n =>
      obtain ⟨rfl, hp⟩ := hp
      have hne : head ≠ 0 := by
        rintro rfl
        simp at h0
      have hlen : xs.length < n := by simpa using hn
      have h0' : 0 ∉ xs := fun hm => h0 (List.mem_cons_of_mem _ hm)
      unfold find_node
      rw [if_neg hne]
      by_cases ht : test (k.tasks (k.nodes head).task) = true
      · rw [if_pos ht]
        simp [kernel_t.held, ht]
      · rw [if_neg ht]
        rw [show find_node k test n (k.nodes head).next = _ from ih hp h0' hlen]
        simp [kernel_t.held, ht]

theorem Tree.find_node (h : Tree k order ns) {p : Nat} (hp : p ∈ k.live) (test : task_t → Bool) :
    alura_os.kernel.find_node k test ADDRESSES (k.tasks p).children =
      some (((k.held (ns p)).find? fun c => test (k.tasks c)).getD 0) :=
  find_node_spec (h.linked p hp).1 (h.no_null hp) (h.length_lt hp)

theorem Tree.held_live (h : Tree k order ns) {p c : Nat} (hp : p ∈ k.live) (hc : c ∈ k.held (ns p)) :
    c ∈ k.live := ((h.mem c).mp ((h.children p hp c).mp hc).1).1

/-- What a loop over the children finds: nothing, or a child that passes the test. -/
theorem Tree.find_node_cases (h : Tree k order ns) {p r : Nat} (hp : p ∈ k.live)
    {test : task_t → Bool}
    (hr : alura_os.kernel.find_node k test ADDRESSES (k.tasks p).children = some r) :
    (r = 0 ∧ ∀ c ∈ k.held (ns p), test (k.tasks c) = false) ∨
    (r ≠ 0 ∧ r ∈ k.held (ns p) ∧ test (k.tasks r) = true) := by
  rw [h.find_node hp] at hr
  cases hf : (k.held (ns p)).find? fun c => test (k.tasks c) with
  | none =>
    rw [hf] at hr
    cases hr
    refine Or.inl ⟨rfl, ?_⟩
    intro c hc
    simpa using List.find?_eq_none.mp hf c hc
  | some c =>
    rw [hf] at hr
    cases hr
    have hm := List.mem_of_find?_eq_some hf
    exact Or.inr ⟨Spread.ne_zero h.spread (h.held_live hp hm), hm, by simpa using List.find?_some hf⟩

/-- The loop over the children with the recursive call: the first that is found, or 0. -/
theorem find_in_children_spec {find : Nat → Option Nat} {found : Nat → Nat} {head n : Nat}
    {xs : List Nat} (hp : Path k.after head xs 0) (h0 : 0 ∉ xs) (hn : xs.length < n)
    (hf : ∀ c ∈ k.held xs, find c = some (found c)) :
    ∃ r, find_in_children k find n head = some r ∧
      (r = 0 ∧ (∀ c ∈ k.held xs, found c = 0) ∨ r ≠ 0 ∧ ∃ c ∈ k.held xs, found c = r) := by
  induction xs generalizing head n with
  | nil =>
    cases n with
    | zero => omega
    | succ n =>
      unfold find_in_children
      rw [if_pos (show head = 0 from hp)]
      exact ⟨0, rfl, Or.inl ⟨rfl, fun c hc => absurd hc List.not_mem_nil⟩⟩
  | cons x xs ih =>
    cases n with
    | zero => omega
    | succ n =>
      obtain ⟨rfl, hp⟩ := hp
      have hne : head ≠ 0 := by
        rintro rfl
        simp at h0
      have hlen : xs.length < n := by simpa using hn
      have h0' : 0 ∉ xs := fun hm => h0 (List.mem_cons_of_mem _ hm)
      have hhead : (k.nodes head).task ∈ k.held (head :: xs) := List.mem_cons_self
      obtain ⟨r, hr, hcases⟩ := ih hp h0' hlen fun c hc => hf c (List.mem_cons_of_mem _ hc)
      unfold find_in_children
      rw [if_neg hne, hf _ hhead]
      by_cases hz : found (k.nodes head).task = 0
      · refine ⟨r, ?_, ?_⟩
        · show (if found (k.nodes head).task ≠ 0 then _ else _) = _
          rw [if_neg (not_not.mpr hz)]
          exact hr
        · rcases hcases with ⟨h1, h2⟩ | ⟨h1, c, hc, h2⟩
          · refine Or.inl ⟨h1, ?_⟩
            intro c hc
            rcases List.mem_cons.mp hc with rfl | hc
            · exact hz
            · exact h2 c hc
          · exact Or.inr ⟨h1, c, List.mem_cons_of_mem _ hc, h2⟩
      · refine ⟨found (k.nodes head).task, ?_, Or.inr ⟨hz, _, hhead, rfl⟩⟩
        show (if found (k.nodes head).task ≠ 0 then _ else _) = _
        rw [if_pos hz]
        rfl

/-- A task stands behind its parent. -/
theorem Tree.idx_lt (h : Tree k order ns) {a : Nat} (ha : a ∈ order) (hne : a ≠ k.init) :
    order.idxOf (k.tasks a).parent < order.idxOf a := by
  obtain ⟨pre, post, he⟩ := List.append_of_mem ha
  have hpre : pre ≠ [] := by
    rintro rfl
    have := h.root
    rw [he] at this
    exact hne (by simpa using this)
  have hm := h.parents pre a post he hpre
  have hn := h.nodup
  rw [he, List.nodup_append] at hn
  have hnot : a ∉ pre := fun hm => hn.2.2 a hm a (by simp) rfl
  rw [he, List.idxOf_append_of_mem hm, List.idxOf_append_of_notMem hnot]
  have := List.idxOf_lt_length_of_mem hm
  omega

/-- A task and its descendants. -/
inductive Below (k : kernel_t) : Nat → Nat → Prop
  | self (a : Nat) : Below k a a
  | child {a b c : Nat} : c ∈ k.live → c ≠ k.idle → (k.tasks c).parent = a → Below k c b → Below k a b

theorem Below.trans {a b c : Nat} (h : Below k a b) (h' : Below k b c) : Below k a c := by
  induction h with
  | self => exact h'
  | child hl hid hp _ ih => exact Below.child hl hid hp (ih h')

/-- Every task is below init. -/
theorem Tree.below_init (h : Tree k order ns) {a : Nat} (ha : a ∈ order) : Below k k.init a := by
  induction hn : order.idxOf a using Nat.strong_induction_on generalizing a with
  | _ n ih =>
    by_cases hi : a = k.init
    · rw [hi]
      exact Below.self _
    · have hlt := h.idx_lt ha hi
      rw [hn] at hlt
      obtain ⟨hl, hid⟩ := (h.mem a).mp ha
      exact (ih _ hlt (h.parent_mem ha hi) rfl).trans (Below.child hl hid rfl (Below.self a))

/-- The search through the tree ends, and finds a task with this id if there is one. -/
theorem Tree.find_task_recursive (h : Tree k order ns) (pid : Nat) {n a : Nat} (ha : a ∈ order)
    (hn : order.length ≤ n + order.idxOf a) :
    ∃ r, task_manager_find_task_recursive k pid n a = some r ∧
      (r ≠ 0 → r ∈ order ∧ (k.tasks r).task_id = pid) ∧
      (r = 0 → ∀ b, Below k a b → (k.tasks b).task_id ≠ pid) := by
  induction n generalizing a with
  | zero =>
    have := List.idxOf_lt_length_of_mem ha
    omega
  | succ n ih =>
    have hl := ((h.mem a).mp ha).1
    unfold task_manager_find_task_recursive
    by_cases hid : (k.tasks a).task_id = pid
    · rw [if_pos hid]
      exact ⟨a, rfl, fun _ => ⟨ha, hid⟩, fun h0 => absurd h0 (Spread.ne_zero h.spread hl)⟩
    · rw [if_neg hid]
      have hchild : ∀ c ∈ k.held (ns a), ∃ r, task_manager_find_task_recursive k pid n c = some r ∧
          (r ≠ 0 → r ∈ order ∧ (k.tasks r).task_id = pid) ∧
          (r = 0 → ∀ b, Below k c b → (k.tasks b).task_id ≠ pid) := by
        intro c hc
        obtain ⟨hco, hpar⟩ := (h.children a hl c).mp hc
        apply ih hco
        have hci : c ≠ k.init := by
          rintro rfl
          rw [h.orphan] at hpar
          exact Spread.ne_zero h.spread hl hpar.symm
        have := h.idx_lt hco hci
        rw [hpar] at this
        omega
      choose! found hfound using hchild
      obtain ⟨r, hr, hcases⟩ := find_in_children_spec (h.linked a hl).1 (h.no_null hl)
        (h.length_lt hl) fun c hc => (hfound c hc).1
      refine ⟨r, hr, ?_, ?_⟩
      · intro hr0
        rcases hcases with ⟨h0, -⟩ | ⟨-, c, hc, rfl⟩
        · exact absurd h0 hr0
        · exact (hfound c hc).2.1 hr0
      · intro hr0 b hb
        rcases hcases with ⟨-, hall⟩ | ⟨hne, -⟩
        · cases hb with
          | self => exact hid
          | child hcl hcid hpar hb =>
            have hc := (h.children a hl _).mpr ⟨(h.mem _).mpr ⟨hcl, hcid⟩, hpar⟩
            exact (hfound _ hc).2.2 (hall _ hc) b hb
        · exact absurd hr0 hne

theorem Tree.find_task (h : Tree k order ns) (pid : Nat) :
    ∃ r, task_manager_find_task k pid = some r ∧
      (r ≠ 0 → r ∈ order ∧ (k.tasks r).task_id = pid) ∧
      (r = 0 → ∀ b ∈ order, (k.tasks b).task_id ≠ pid) := by
  obtain ⟨r, hr, h1, h2⟩ := h.find_task_recursive pid (n := ADDRESSES) h.init_mem (by
    have := h.order_length
    omega)
  exact ⟨r, hr, h1, fun h0 b hb => h2 h0 b (h.below_init hb)⟩

/-! ## What stays -/

/-- The tasks that were there at a fork: only the list of the parent is longer. -/
theorem forked_others (k : kernel_t) {child : Nat} (task_cr3 block : Nat) {a : Nat} (ha : a ≠ child) :
    ∃ children tail, (forked k child task_cr3 block).tasks a =
      { k.tasks a with children := children, children_tail := tail } := by
  have hborn := (unlisted_born k child task_cr3).others a ha
  rw [forked_eq]
  by_cases hc : a = k.current
  · subst hc
    rw [adopted_parent, hborn]
    exact ⟨_, _, rfl⟩
  · rw [adopted_task _ _ _ _ _ hc, hborn]
    exact ⟨_, _, rfl⟩

theorem forked_child (k : kernel_t) {child : Nat} (task_cr3 block : Nat) (hc : child ≠ k.current) :
    ∃ slots, (forked k child task_cr3 block).tasks child = newborn k task_cr3 slots := by
  rw [forked_eq, adopted_task _ _ _ _ _ hc]
  exact (unlisted_born k child task_cr3).newborn

/-- What a new entry in a list of children changes. -/
theorem adopted_shape (k : kernel_t) (p c b : Nat) : ∃ tasks nodes node_blocks,
    adopted k p c b = { k with tasks := tasks, nodes := nodes, node_blocks := node_blocks } := by
  unfold adopted
  dsimp only
  split
  · exact ⟨_, _, _, rfl⟩
  · exact ⟨_, _, _, rfl⟩

theorem forked_live (k : kernel_t) (child task_cr3 block : Nat) :
    (forked k child task_cr3 block).live = insert child k.live := by
  rw [forked_eq, (adopted_rest _ _ _ _).1]
  exact (unlisted_born k child task_cr3).live

/-- A fork counts one more owner of each file of the parent. -/
theorem forked_files (k : kernel_t) (child task_cr3 block : Nat) :
    OnlyCounts k.toStore (forked k child task_cr3 block).toStore ∧
      NothingOpened k.toStore (forked k child task_cr3 block).toStore := by
  obtain ⟨tasks, nodes, node_blocks, he⟩ :=
    adopted_shape (unlisted k child task_cr3) k.current child block
  rw [forked_eq, he]
  let s0 := new_task k.toStore child
    { child_record (k.tasks k.current) k.task_id task_cr3
        (sub32 (k.tasks k.current).task_esp (k.tasks k.current).stack_base) with
      resources := fun _ => 0 }
  have hs := (share_resources_only s0 child k.current).2
  have ho := share_resources_opens_nothing s0 child k.current
  unfold unlisted spawned
  dsimp only
  generalize share_resources _ child k.current = s at hs ho ⊢
  exact ⟨hs, ho.blocks, ho.opened_flags⟩

/-- The tasks that remain when a child is reaped. -/
theorem reaped_others (k : kernel_t) {child : Nat} (head : Nat) (hne : k.current ≠ child) {a : Nat}
    (ha : a ≠ child) : ∃ children tail, (reaped k child head).tasks a =
      { k.tasks a with children := children, children_tail := tail } := by
  rw [(reaped_gone k head hne).others a ha]
  by_cases hc : a = k.current
  · subst hc
    rw [cut_parent]
    exact ⟨_, _, rfl⟩
  · rw [cut_task _ _ _ _ hc]
    exact ⟨_, _, rfl⟩

theorem cut_shape (k : kernel_t) (p head : Nat) : ∃ tasks nodes node_blocks,
    cut k p head = { k with tasks := tasks, nodes := nodes, node_blocks := node_blocks } := by
  unfold cut
  dsimp only
  split <;> split <;> exact ⟨_, _, _, rfl⟩

theorem free_task_directory_shape (k : kernel_t) (task : Nat) : ∃ directories frees,
    free_task_directory k task = { k with directories := directories, frees := frees } := by
  unfold free_task_directory
  split
  · exact ⟨_, _, rfl⟩
  · exact ⟨_, _, rfl⟩

/-- Reaping counts one owner less of each file of the child. -/
theorem reaped_files (k : kernel_t) (child head : Nat) :
    OnlyCounts k.toStore (reaped k child head).toStore ∧
      NothingOpened k.toStore (reaped k child head).toStore := by
  have hr := (release_resources_only k.toStore child).2
  have ho := release_resources_opens_nothing k.toStore child
  unfold reaped
  dsimp only
  generalize release_resources k.toStore child = s at hr ho ⊢
  obtain ⟨tasks, nodes, node_blocks, hc⟩ := cut_shape { k with toStore := s } k.current head
  rw [(free_task_directory_rest _ child).1, hc]
  exact ⟨hr, ho.blocks, ho.opened_flags⟩

/-- What a fork changes. -/
theorem forked_shape (k : kernel_t) (child task_cr3 block : Nat) : ∃ store nodes node_blocks,
    forked k child task_cr3 block =
      { k with
        toStore := store
        nodes := nodes
        node_blocks := node_blocks
        task_id := u32 (k.task_id + 1) } := by
  obtain ⟨tasks, nodes, node_blocks, he⟩ :=
    adopted_shape (unlisted k child task_cr3) k.current child block
  rw [forked_eq, he]
  unfold unlisted spawned
  dsimp only
  generalize share_resources _ child k.current = s
  exact ⟨_, _, _, rfl⟩

/-- What reaping changes. -/
theorem reaped_shape (k : kernel_t) (child head : Nat) : ∃ store nodes node_blocks directories frees,
    reaped k child head =
      { k with
        toStore := store
        nodes := nodes
        node_blocks := node_blocks
        directories := directories
        frees := frees } := by
  unfold reaped
  dsimp only
  generalize release_resources k.toStore child = s
  obtain ⟨tasks, nodes, node_blocks, hc⟩ := cut_shape { k with toStore := s } k.current head
  obtain ⟨directories, frees, hf⟩ :=
    free_task_directory_shape (cut { k with toStore := s } k.current head) child
  rw [hf, hc]
  exact ⟨_, _, _, _, _, rfl⟩

theorem setState_task (k : kernel_t) (a : Nat) (s : task_state_t) (b : Nat) :
    (k.setState a s).tasks b = { k.tasks b with task_state := (k.setState a s).state b } := by
  by_cases hb : b = a
  · subst hb
    simp [kernel_t.setState, kernel_t.setTask, kernel_t.state]
  · simp [kernel_t.setState, kernel_t.setTask, kernel_t.state, hb]

/-- An exit changes nothing but states. -/
theorem exited_task (k : kernel_t) (a b : Nat) :
    ∃ state, (exited k a).tasks b = { k.tasks b with task_state := state } := by
  unfold exited
  dsimp only
  split
  · rw [setState_task, setState_task]
    exact ⟨_, rfl⟩
  · rw [setState_task]
    exact ⟨_, rfl⟩

end alura_os.kernel
