-- The nodes of the heap and the lists of children: what `task_manager_exit_task` and
-- `task_manager_destroy_task` leave in the nodes is what the calls over lists leave in the
-- lists, with the same accounts.
import AluraOs.KillSignal
import AluraOs.CpuTime

namespace alura_os.kernel

open alura_os.memory alura_os.task_manager alura_os.resource chains
open task_state_t task_wait_reason_t task_manager_result_t

variable {k k' : kernel_t} {f : listed_t} {q : Nat → List Nat} {order : List Nat}
  {ns : Nat → List Nat} {a : Nat}

/-! ## The relation -/

/-- The lists of `f` are those that the nodes of `k` hold, and the accounts are the same. -/
structure Listed (k : kernel_t) (f : listed_t) : Prop where
  live : f.core.live = k.live
  init : f.core.init = k.init
  current : f.core.current = k.current
  accounts : ∀ b, account (f.core.tasks b) = account (k.tasks b)
  children : ∀ p ∈ k.live, ∃ xs, ChildNodes k p xs ∧ k.held xs = f.children p

theorem ChildNodes.congr {xs : List Nat} (h : ChildNodes k a xs) (hn : k'.nodes = k.nodes)
    (hc : (k'.tasks a).children = (k.tasks a).children) :
    ChildNodes k' a xs ∧ k'.held xs = k.held xs := by
  unfold ChildNodes kernel_t.held kernel_t.after
  rw [hn, hc]
  exact ⟨h, rfl⟩

/-- In a tree the nodes of a task are those that the tree gives it. -/
theorem Listed.held (h : Listed k f) (ht : Tree k order ns) {p : Nat} (hp : p ∈ k.live) :
    k.held (ns p) = f.children p := by
  obtain ⟨xs, hxs, he⟩ := h.children p hp
  obtain rfl : ns p = xs := path_unique (ht.linked p hp).1 hxs.1 (ht.no_null hp) hxs.2
  exact he

theorem boot_listed {boot : Boot} (h : kernel_initialize boot = some k) :
    Listed k ⟨k, fun _ => []⟩ := by
  refine ⟨rfl, rfl, rfl, fun _ => rfl, ?_⟩
  intro p hp
  exact ⟨[], ⟨((boot_spec h).tree.linked p hp).1, List.not_mem_nil⟩, rfl⟩

/-! ## The child of a fork -/

theorem forked_account (hf : Listed k f) (child task_cr3 block b : Nat) :
    account ((listed_fork f child task_cr3).core.tasks b) =
      account ((forked k child task_cr3 block).tasks b) := by
  have hborn := unlisted_born f.core child task_cr3
  have hborn' := unlisted_born k child task_cr3
  have hadopt : account ((forked k child task_cr3 block).tasks b) =
      account ((unlisted k child task_cr3).tasks b) := by
    rw [forked_eq]
    by_cases hb : b = k.current
    · subst hb
      rw [adopted_parent]
      split <;> rfl
    · rw [adopted_task _ _ _ _ _ hb]
  rw [hadopt, listed_fork_core]
  by_cases hb : b = child
  · subst hb
    obtain ⟨slots, he⟩ := hborn.newborn
    obtain ⟨slots', he'⟩ := hborn'.newborn
    rw [he, he']
    simp [newborn, account, hf.current, child_record]
  · rw [hborn.others b hb, hborn'.others b hb]
    exact hf.accounts b

theorem forked_held (k : kernel_t) {child task_cr3 block : Nat} {xs : List Nat} (hb : block ∉ xs) :
    (forked k child task_cr3 block).held xs = k.held xs := by
  rw [forked_eq]
  exact held_adopted (unlisted_born k child task_cr3).nodes hb

/-- A child of a fork stands last in the nodes, as in the lists. -/
theorem fork_listed (h : Calling k q order ns) (hf : Listed k f) {child : Nat}
    (hchild : TaskBlock k.live child) (task_cr3 : Nat) {block : Nat} (hb : Block k.node_blocks block) :
    Listed (forked k child task_cr3 block) (listed_fork f child task_cr3) := by
  have hborn := unlisted_born k child task_cr3
  have hruns : k.state k.current ≠ TASK_STATE_ZOMBIE := by
    rw [h.running]
    decide
  have htree : Tree (forked k child task_cr3 block) _ _ :=
    h.tree.after_fork h.live h.user hruns hchild hb
  obtain ⟨-, -, hinit, -⟩ := adopted_rest (unlisted k child task_cr3) k.current child block
  have hnot : ∀ p ∈ k.live, block ∉ ns p := fun p hp hm => hb.2.2 (h.tree.blocks p hp block hm)
  refine ⟨?_, ?_, ?_, forked_account hf child task_cr3 block, ?_⟩
  · rw [listed_fork_core, (unlisted_born f.core child task_cr3).live, forked_live, hf.live]
  · exact hf.init.trans (hborn.init.symm.trans hinit.symm)
  · obtain ⟨tasks, nodes, node_blocks, he⟩ :=
      adopted_shape (unlisted k child task_cr3) k.current child block
    rw [forked_eq, he]
    exact hf.current
  · intro p hp
    refine ⟨_, ⟨(htree.linked p hp).1, htree.no_null hp⟩, ?_⟩
    rw [forked_live] at hp
    simp only [listed_fork, hf.current]
    by_cases hpc : p = k.current
    · subst hpc
      rw [Function.update_self, Function.update_self, ← hf.held h.tree h.live]
      show (forked k child task_cr3 block).held (ns k.current ++ [block]) = _
      have hsame : (forked k child task_cr3 block).held (ns k.current) = k.held (ns k.current) :=
        forked_held k (hnot _ h.live)
      rw [← hsame]
      simp [kernel_t.held, forked_eq, adopted_holds]
    · rw [Function.update_of_ne hpc, Function.update_of_ne hpc]
      by_cases hpchild : p = child
      · simp [hpchild, kernel_t.held]
      · rw [Function.update_of_ne hpchild, Function.update_of_ne hpchild]
        replace hp := (Finset.mem_insert.mp hp).resolve_left hpchild
        rw [forked_held k (hnot p hp), hf.held h.tree hp]

/-! ## The children that go to init -/

/-- The lists of all tasks but `a`, in nodes that are none of `xs`. -/
def OtherLists (k : kernel_t) (f : listed_t) (a : Nat) (xs : List Nat) : Prop :=
  ∀ p ∈ k.live, p ≠ a → ∃ ys, ChildNodes k p ys ∧ (∀ y ∈ ys, y ∈ k.node_blocks ∧ y ∉ xs) ∧
    k.held ys = f.children p

theorem handed_account (h : ∀ b, account (f.core.tasks b) = account (k.tasks b))
    (hi : f.core.init = k.init) (head block junk b : Nat) :
    account ((hand_over f (k.nodes head).task).core.tasks b) =
      account ((handed k head block junk).tasks b) := by
  have hset : account ((handed k head block junk).tasks b) =
      account ((k.setParent (k.nodes head).task k.init).tasks b) := by
    show account (((k.setParent (k.nodes head).task k.init).setChildren
      (k.setParent (k.nodes head).task k.init).init block).tasks b) = _
    generalize k.setParent (k.nodes head).task k.init = k1
    by_cases hb : b = k1.init
    · subst hb
      simp [kernel_t.setChildren, kernel_t.setTask, account]
    · simp [kernel_t.setChildren, kernel_t.setTask, hb]
  rw [hset]
  by_cases hb : b = (k.nodes head).task
  · subst hb
    have hf := h (k.nodes head).task
    simp only [hand_over, kernel_t.setParent, kernel_t.setTask, Function.update_self, hi]
    exact congrArg (fun x => (x.1, x.2.1, x.2.2.1, x.2.2.2.1, k.init)) hf
  · simp only [hand_over, kernel_t.setParent, kernel_t.setTask, Function.update_of_ne hb]
    exact h b

theorem setParent_children (k : kernel_t) (c v p : Nat) :
    ((k.setParent c v).tasks p).children = (k.tasks p).children := by
  by_cases hp : p = c
  · subst hp
    simp [kernel_t.setParent, kernel_t.setTask]
  · simp [kernel_t.setParent, kernel_t.setTask, hp]

theorem handed_children (k : kernel_t) (head block junk p : Nat) :
    ((handed k head block junk).tasks p).children =
      if p = k.init then block else (k.tasks p).children := by
  show (((k.setParent (k.nodes head).task k.init).setChildren k.init block).tasks p).children = _
  split
  · rename_i hp
    subst hp
    simp [kernel_t.setChildren, kernel_t.setTask]
  · rename_i hp
    rw [← setParent_children k (k.nodes head).task k.init]
    simp [kernel_t.setChildren, kernel_t.setTask, hp]

theorem handed_new_node (k : kernel_t) (head block junk : Nat) :
    (handed k head block junk).nodes block =
      ⟨(k.nodes head).task, (k.tasks k.init).children, junk⟩ := by
  show Function.update k.nodes block ⟨(k.nodes head).task,
    ((k.setParent (k.nodes head).task k.init).tasks k.init).children, junk⟩ block = _
  rw [Function.update_self, setParent_children]

/-- A list whose nodes are none of the new node's stays as it is. -/
theorem handed_path (head junk : Nat) {block start : Nat} {ys : List Nat} (hy : ∀ y ∈ ys, y ≠ block)
    (hp : Path k.after start ys 0) :
    Path (handed k head block junk).after start ys 0 ∧
      (handed k head block junk).held ys = k.held ys := by
  refine ⟨(path_congr ?_).mpr hp, ?_⟩
  · intro y hm
    exact congrArg task_node_t.next (handed_nodes k junk (hy y hm))
  · apply List.map_congr_left
    intro y hm
    rw [handed_nodes k junk (hy y hm)]

theorem OtherLists.handed {head block junk : Nat} {xs : List Nat}
    (h : OtherLists k f a (head :: xs)) (hi : f.core.init = k.init)
    (hb : Block k.node_blocks block) (hin : ∀ x ∈ head :: xs, x ∈ k.node_blocks) :
    OtherLists (handed k head block junk) (hand_over f (k.nodes head).task) a xs := by
  have hfresh : ∀ x ∈ head :: xs, x ≠ block := by
    rintro x hx rfl
    exact hb.2.2 (hin x hx)
  intro p hp hpa
  obtain ⟨ys, ⟨hpath, h0⟩, hys, hheld⟩ := h p hp hpa
  have hne : ∀ y ∈ ys, y ≠ block := by
    rintro y hy rfl
    exact hb.2.2 (hys y hy).1
  have hkept : ∀ y ∈ ys, y ∈ (kernel.handed k head block junk).node_blocks ∧ y ∉ xs := by
    intro y hy
    obtain ⟨hmem, hnot⟩ := hys y hy
    refine ⟨Finset.mem_erase.mpr ⟨?_, Finset.mem_insert_of_mem hmem⟩, ?_⟩
    · exact fun he => hnot (he ▸ List.mem_cons_self)
    · exact fun hm => hnot (List.mem_cons_of_mem _ hm)
  obtain ⟨hpath', hheld'⟩ := handed_path head junk hne hpath
  by_cases hpi : p = k.init
  · subst hpi
    refine ⟨block :: ys, ⟨?_, ?_⟩, ?_, ?_⟩
    · rw [handed_children, if_pos rfl]
      refine ⟨rfl, ?_⟩
      show Path _ ((kernel.handed k head block junk).nodes block).next ys 0
      rw [handed_new_node]
      exact hpath'
    · simp [hb.1.symm, h0]
    · intro y hy
      rcases List.mem_cons.mp hy with rfl | hy
      · refine ⟨Finset.mem_erase.mpr ⟨?_, Finset.mem_insert_self _ _⟩, ?_⟩
        · exact (hfresh head List.mem_cons_self).symm
        · exact fun hm => hfresh y (List.mem_cons_of_mem _ hm) rfl
      · exact hkept y hy
    · show ((kernel.handed k head block junk).nodes block).task ::
        (kernel.handed k head block junk).held ys = _
      rw [handed_new_node, hheld', hheld]
      simp [hand_over, hi]
  · refine ⟨ys, ⟨?_, h0⟩, hkept, ?_⟩
    · rw [handed_children, if_neg hpi]
      exact hpath'
    · rw [hheld', hheld]
      simp [hand_over, hi, hpi]

/-- The loop over the nodes of the children is the fold over the list. -/
theorem reparent_listed (xs : List Nat) : ∀ {n head : Nat} {blocks : List (Nat × Nat)}
    {k : kernel_t} {f : listed_t}, Path k.after head xs 0 → xs.Nodup →
    (∀ x ∈ xs, x ∈ k.node_blocks) → 0 ∉ xs → xs.length < n → Supplied k.node_blocks xs blocks →
    (∀ b, account (f.core.tasks b) = account (k.tasks b)) → f.core.init = k.init →
    OtherLists k f a xs →
    ∃ k', reparent_children n blocks k head = some (k', true) ∧
      (∀ b, account (((k.held xs).foldl hand_over f).core.tasks b) = account (k'.tasks b)) ∧
      OtherLists k' ((k.held xs).foldl hand_over f) a [] := by
  induction xs with
  | nil =>
    intro n head blocks k f hp _ _ _ hn _ ha _ ho
    obtain rfl : head = 0 := hp
    obtain ⟨n, rfl⟩ := Nat.exists_eq_add_of_lt hn
    exact ⟨k, by simp [reparent_children], ha, ho⟩
  | cons x xs ih =>
    intro n head blocks k f hp hnd hin h0 hn hs ha hi ho
    obtain ⟨rfl, hp⟩ := hp
    obtain ⟨hx, hnd⟩ := List.nodup_cons.mp hnd
    cases blocks with
    | nil => exact hs.elim
    | cons b blocks =>
      obtain ⟨block, junk⟩ := b
      obtain ⟨hb, hs⟩ := hs
      obtain ⟨n, rfl⟩ : ∃ m, n = m + 1 := ⟨n - 1, by omega⟩
      simp only [List.mem_cons, not_or] at h0
      have hne : ∀ y ∈ xs, y ≠ block := by
        rintro y hy rfl
        exact hb.2.2 (hin y (List.mem_cons_of_mem _ hy))
      obtain ⟨hpath, hheld⟩ := handed_path head junk hne hp
      have hblocks : ∀ y ∈ xs, y ∈ (handed k head block junk).node_blocks := by
        intro y hy
        have hmem := hin y (List.mem_cons_of_mem _ hy)
        refine Finset.mem_erase.mpr ⟨?_, Finset.mem_insert_of_mem hmem⟩
        rintro rfl
        exact hx hy
      rw [reparent_step (Ne.symm h0.1) hb]
      have hfold : (k.held (head :: xs)).foldl hand_over f =
          ((handed k head block junk).held xs).foldl hand_over (hand_over f (k.nodes head).task) := by
        rw [hheld]
        rfl
      rw [hfold]
      exact ih hpath hnd hblocks h0.2 (by simpa using hn) hs
        (handed_account ha hi head block junk) hi (ho.handed hi hb hin)

/-! ## The task that ends -/

theorem bare_account (h : k'.bare = k.bare) (b : Nat) :
    account (k'.tasks b) = account (k.tasks b) := by
  show account (unlinked (k'.tasks b)) = account (unlinked (k.tasks b))
  rw [bare_task h b]

theorem setChildren_account (k : kernel_t) (c v b : Nat) :
    account ((k.setChildren c v).tasks b) = account (k.tasks b) := by
  by_cases hb : b = c
  · subst hb
    simp [kernel_t.setChildren, kernel_t.setTask, account]
  · simp [kernel_t.setChildren, kernel_t.setTask, hb]

theorem roused_nodes (k : kernel_t) (c b : Nat) :
    (roused k c).nodes = k.nodes ∧ ((roused k c).tasks b).children = (k.tasks b).children := by
  unfold roused
  split
  · rw [setState_task]
    exact ⟨rfl, rfl⟩
  · exact ⟨rfl, rfl⟩

/-- The nodes of the task that ends are walked to their end, whatever its queue was. -/
theorem Listed.reparented (hf : Listed k f) (h : Calling k q order ns) (ha : a ∈ k.live)
    (hid : a ≠ k.idle) {blocks : List (Nat × Nat)} (hs : Supplied k.node_blocks (ns a) blocks)
    (return_code : Int) (k1 : kernel_t) (hb : k1.bare = k.bare) :
    let f1 := (f.children a).foldl hand_over { f with core := condemned f.core a return_code }
    ∃ k2, reparent_children ADDRESSES blocks (condemned k1 a return_code) (k1.tasks a).children =
        some (k2, true) ∧ Reparented (condemned k1 a return_code) k2 a ∧
      (∀ b, account (f1.core.tasks b) = account (k2.tasks b)) ∧ OtherLists k2 f1 a [] := by
  have hnodes : (condemned k1 a return_code).nodes = k.nodes := congrArg (fun k => k.nodes) hb
  have hblocks : (condemned k1 a return_code).node_blocks = k.node_blocks :=
    congrArg (fun k => k.node_blocks) hb
  have hlive : (condemned k1 a return_code).live = k.live := congrArg (fun k => k.live) hb
  have hinit : (condemned k1 a return_code).init = k.init :=
    congrArg (fun k => k.task_manager.task_init) hb
  have hchildren : ∀ p, ((condemned k1 a return_code).tasks p).children = (k.tasks p).children := by
    intro p
    refine Eq.trans ?_ (congrArg (fun t => t.children) (bare_task hb p))
    by_cases hp : p = a
    · subst hp
      simp [condemned, kernel_t.setTask, unlinked]
    · simp [condemned, kernel_t.setTask, hp, unlinked]
  have hheld : (condemned k1 a return_code).held (ns a) = f.children a := by
    rw [← hf.held h.tree ha]
    unfold kernel_t.held
    rw [hnodes]
  have hpath : Path (condemned k1 a return_code).after (k1.tasks a).children (ns a) 0 := by
    have hc : (k1.tasks a).children = (k.tasks a).children :=
      congrArg (fun t => t.children) (bare_task hb a)
    unfold kernel_t.after
    rw [hnodes, hc]
    exact (h.tree.linked a ha).1
  have hin : ∀ x ∈ ns a, x ∈ (condemned k1 a return_code).node_blocks := by
    rw [hblocks]
    exact h.tree.blocks a ha
  have hown : a ∉ (condemned k1 a return_code).held (ns a) := by
    rw [hheld, ← hf.held h.tree ha]
    exact fun hm => h.tree.parent_ne ha hid ((h.tree.children a ha a).mp hm).2
  have haccount : ∀ b, account ((condemned f.core a return_code).tasks b) =
      account ((condemned k1 a return_code).tasks b) := by
    intro b
    rw [account_condemned, account_condemned, bare_account hb]
    exact hf.accounts b
  have hothers : OtherLists (condemned k1 a return_code)
      { f with core := condemned f.core a return_code } a (ns a) := by
    intro p hp hpa
    replace hp : p ∈ k.live := hlive ▸ hp
    have hlist : ChildNodes k p (ns p) := ⟨(h.tree.linked p hp).1, h.tree.no_null hp⟩
    obtain ⟨hlist', hheld'⟩ := hlist.congr hnodes (hchildren p)
    refine ⟨ns p, hlist', ?_, hheld'.trans (hf.held h.tree hp)⟩
    intro y hy
    rw [hblocks]
    exact ⟨h.tree.blocks p hp y hy, fun hm => hpa (h.tree.apart hp ha hy hm)⟩
  rw [← hblocks] at hs
  obtain ⟨k2, he, hr⟩ := reparent_spec (ns a) hpath (h.tree.nodes_nodup ha) hin (h.tree.no_null ha)
    (h.tree.length_lt ha) hown hs
  obtain ⟨k3, he', hacc, hlists⟩ := reparent_listed (ns a) hpath (h.tree.nodes_nodup ha) hin
    (h.tree.no_null ha) (h.tree.length_lt ha) hs (f := { f with core := condemned f.core a return_code })
    haccount (hf.init.trans hinit.symm) hothers
  obtain rfl : k3 = k2 := congrArg Prod.fst (Option.some.inj (he'.symm.trans he))
  rw [hheld] at hacc hlists
  exact ⟨k3, he, hr, hacc, hlists⟩

/-- A task ends in the nodes as it ends in the lists. -/
theorem exit_task_listed (h : Calling k q order ns) (hf : Listed k f) (ha : a ∈ k.live)
    (hid : a ≠ k.idle) (hz : k.state a ≠ TASK_STATE_ZOMBIE) {blocks : List (Nat × Nat)}
    (hs : Supplied k.node_blocks (ns a) blocks) (return_code : Int) :
    ∃ k', task_manager_exit_task k a return_code blocks = some (k', TASK_MANAGER_RESULT_OK) ∧
      Listed k' (listed_exit_task f a return_code) := by
  have hre := hf.reparented h ha hid hs return_code
  choose! g hg using hre
  obtain ⟨k1, k', q', hb1, he, hbare, -⟩ := exit_general h.settled ha hid hz
    (h.tree.parent_live ha hid) return_code blocks
    fun k1 _ hb => ⟨(hg k1 hb).1, (hg k1 hb).2.1⟩
  obtain ⟨-, hr, haccount, hlists⟩ := hg k1 hb1
  obtain ⟨hlive, hmanager, -⟩ := exit_rest f a return_code
  obtain ⟨hrl, hrm⟩ := roused_rest ((g k1).setChildren a 0) a
  have hlive' : k'.live = (g k1).live := (bare_live hbare).trans hrl
  have hliveg : (g k1).live = k.live := hr.live.trans (congrArg (fun k => k.live) hb1)
  have hchild : ∀ p, (k'.tasks p).children = (((g k1).setChildren a 0).tasks p).children := by
    intro p
    exact (congrArg (fun t => t.children) (bare_task hbare p)).trans (roused_nodes _ a p).2
  have hnodes : k'.nodes = (g k1).nodes :=
    (congrArg (fun k => k.nodes) hbare).trans (roused_nodes ((g k1).setChildren a 0) a 0).1
  refine ⟨k', he, ?_, ?_, ?_, ?_, ?_⟩
  · rw [hlive, hf.live, hlive', hliveg]
  · have hi : k'.init = (g k1).init :=
      (congrArg (fun k => k.task_manager.task_init) hbare).trans (congrArg (fun m => m.task_init) hrm)
    have hi1 : (g k1).init = k.init := (congrArg (fun m => m.task_init) hr.manager).trans
      (congrArg (fun k => k.task_manager.task_init) hb1)
    rw [hi, hi1, ← hf.init]
    exact congrArg (fun m => m.task_init) hmanager
  · have hc : k'.current = (g k1).current :=
      (bare_current hbare).trans (congrArg (fun m => m.task_current) hrm)
    have hc1 : (g k1).current = k.current :=
      (congrArg (fun m => m.task_current) hr.manager).trans (bare_current hb1)
    rw [hc, hc1, ← hf.current]
    exact congrArg (fun m => m.task_current) hmanager
  · intro b
    rw [bare_account hbare, account_roused, setChildren_account, ← haccount b]
    exact account_roused _ _ _
  · intro p hp
    by_cases hpa : p = a
    · subst hpa
      refine ⟨[], ⟨?_, List.not_mem_nil⟩, ?_⟩
      · rw [hchild]
        simp [kernel_t.setChildren, kernel_t.setTask]
      · simp [listed_exit_task, kernel_t.held]
    · rw [hlive'] at hp
      obtain ⟨ys, hys, -, hheld⟩ := hlists p hp hpa
      have hcp : (k'.tasks p).children = ((g k1).tasks p).children := by
        rw [hchild]
        simp [kernel_t.setChildren, kernel_t.setTask, hpa]
      obtain ⟨hys', hheld'⟩ := hys.congr hnodes hcp
      refine ⟨ys, hys', hheld'.trans (hheld.trans ?_)⟩
      simp [listed_exit_task, hpa]

/-! ## The child that is reaped -/

theorem bare_remove_from_queue {i task : Nat} {r : kernel_t × task_manager_result_t}
    (h : task_manager_remove_task_from_queue k i task = some r) : r.1.bare = k.bare := by
  unfold task_manager_remove_task_from_queue at h
  split at h
  · cases h
    rfl
  split at h
  · cases h
    simp
  · obtain ⟨head, -, rfl⟩ := Option.map_eq_some_iff.mp h
    split
    · rfl
    · simp

theorem inherit_ticks_account {k1 k2 : kernel_t}
    (h : ∀ b, account (k1.tasks b) = account (k2.tasks b)) (task b : Nat) :
    account ((inherit_ticks k1 task).tasks b) = account ((inherit_ticks k2 task).tasks b) := by
  have ht := h task
  have hp : (k1.tasks task).parent = (k2.tasks task).parent := account_parent ht
  have hpp := h (k2.tasks task).parent
  unfold inherit_ticks
  dsimp only
  rw [hp]
  split
  · by_cases hb : b = (k2.tasks task).parent
    · subst hb
      simp only [account, Prod.mk.injEq] at ht hpp
      simp [kernel_t.setTask, account, ht, hpp]
    · simp only [kernel_t.setTask, Function.update_of_ne hb]
      exact h b
  · exact h b

theorem cut_account (k : kernel_t) (p head b : Nat) :
    account ((cut k p head).tasks b) = account (k.tasks b) := by
  by_cases hb : b = p
  · subst hb
    rw [cut_parent]
    rfl
  · rw [cut_task _ _ _ _ hb]

/-- The lists once the node `head` of a child of `p` is gone. -/
theorem Tree.lists_cut (h : Tree k order ns) {p head x : Nat} (hp : p ∈ k.live) (hn : head ∈ ns p)
    (hx : x ∈ k.live) :
    ∃ xs, ChildNodes (cut k p head) x xs ∧ (cut k p head).held xs =
      if x = p then (k.held (ns p)).erase (k.nodes head).task else k.held (ns x) := by
  have hheld : (cut k p head).held = k.held := (cut_links k p head).2.2
  rw [hheld]
  by_cases hxp : x = p
  · subst hxp
    refine ⟨(ns x).erase head, ⟨(h.linked_cut hx hn).1, ?_⟩, ?_⟩
    · exact fun hm => h.no_null hx (List.mem_of_mem_erase hm)
    · rw [if_pos rfl]
      obtain ⟨xs, ys, -, he, herase⟩ := List.exists_erase_eq hn
      have honce := h.once x hx
      rw [herase, he]
      rw [he] at honce
      simp only [kernel_t.held, List.map_append, List.map_cons] at honce ⊢
      have hnot := (List.nodup_cons.mp (List.nodup_middle.mp honce)).1
      rw [List.erase_append_right _ fun hm => hnot (List.mem_append_left _ hm), List.erase_cons_head]
  · rw [if_neg hxp]
    exact ⟨ns x, ⟨(h.linked_uncut hp hn hx hxp).1, h.no_null hx⟩, rfl⟩

/-- A dead child is reaped from the nodes as it is from the lists. -/
theorem destroy_task_listed (h : Calling k q order ns) (hf : Listed k f) {child : Nat}
    (hl : child ∈ k.live) (hz : k.state child = TASK_STATE_ZOMBIE)
    (hm : child ∈ k.held (ns k.current)) :
    ∃ k', task_manager_destroy_task k child = some k' ∧
      Listed k' (listed_destroy_task f child) := by
  obtain ⟨k', he, -⟩ := destroy_spec anything h hl hz hm
  refine ⟨k', he, ?_⟩
  have hparent : (k.tasks child).parent = k.current := ((h.tree.children _ h.live child).mp hm).2
  have hv := inherit_ticks_view k child
  have hslots := (release_resources_only (inherit_ticks k child).toStore child).1
  unfold task_manager_destroy_task at he
  dsimp only at he
  generalize release_resources (inherit_ticks k child).toStore child = s at hslots he
  let k2 : kernel_t := { inherit_ticks k child with toStore := s }
  have ht2 : Tree k2 order ns := (h.tree.of_view hv).of_slots hslots
  have hlive2 : k2.live = k.live := hslots.live.trans (congrArg (fun k => k.live) hv)
  have hheld2 : k2.held = k.held := by
    have hnodes : k2.nodes = k.nodes := congrArg (fun k => k.nodes) hv
    unfold kernel_t.held
    rw [hnodes]
  have haccount2 : ∀ b, account (k2.tasks b) = account ((inherit_ticks k child).tasks b) := by
    intro b
    obtain ⟨slots, hb⟩ := hslots.task b
    show account (s.tasks b) = _
    rw [hb]
    rfl
  have hparent2 : (k2.tasks child).parent = k.current := by
    have hp := account_parent (haccount2 child)
    rw [hp, inherit_ticks_parent]
    exact hparent
  have hc2 : k.current ∈ k2.live := hlive2 ▸ h.live
  obtain ⟨head, hhead, htask, hremove⟩ := ht2.remove_child hc2 (hheld2 ▸ hm)
  have hleave : leave_parent k2 child = some (cut k2 k.current head) := by
    unfold leave_parent
    rw [hparent2, if_pos h.ne_zero, hremove]
    rfl
  obtain ⟨k3, hleave3, he⟩ := Option.bind_eq_some_iff.mp he
  obtain rfl : cut k2 k.current head = k3 := Option.some.inj (hleave.symm.trans hleave3)
  obtain ⟨⟨k4, result⟩, hqueue, he⟩ := Option.bind_eq_some_iff.mp he
  have hbare : k4.bare = (cut k2 k.current head).bare := bare_remove_from_queue hqueue
  cases he
  obtain ⟨hstore, hmanager, hnodes, -⟩ := free_task_directory_rest k4 child
  obtain ⟨hlcut, -, hicut, -⟩ := cut_rest k2 k.current head
  obtain ⟨hlive, hman, haccount⟩ := destroy_rest f child
  have hlive4 : k4.live = k.live := (bare_live hbare).trans (hlcut.trans hlive2)
  have htasks : ∀ b, (free_task (free_task_directory k4 child).toStore child).tasks b = k4.tasks b := by
    intro b
    rw [hstore]
    rfl
  refine ⟨?_, ?_, ?_, ?_, ?_⟩
  · rw [hlive, hf.live]
    show _ = (free_task_directory k4 child).toStore.live.erase child
    rw [hstore, hlive4]
  · have hi : (free_task_directory k4 child).init = k.init := by
      show (free_task_directory k4 child).task_manager.task_init = _
      rw [hmanager]
      refine (congrArg (fun k => k.task_manager.task_init) hbare).trans (hicut.trans ?_)
      exact congrArg (fun k => k.task_manager.task_init) hv
    exact (congrArg (fun m => m.task_init) hman).trans (hf.init.trans hi.symm)
  · have hc : (free_task_directory k4 child).current = k.current := by
      show (free_task_directory k4 child).task_manager.task_current = _
      rw [hmanager]
      refine (bare_current hbare).trans ?_
      refine (congrArg (fun m => m.task_current) (cut_manager k2 k.current head)).trans ?_
      exact congrArg (fun m => m.task_current) (inherit_ticks_manager k child)
    exact (congrArg (fun m => m.task_current) hman).trans (hf.current.trans hc.symm)
  · intro b
    rw [haccount, inherit_ticks_account hf.accounts]
    show _ = account ((free_task (free_task_directory k4 child).toStore child).tasks b)
    rw [htasks, bare_account hbare, cut_account, haccount2]
  · intro p hp
    replace hp : p ∈ k4.live.erase child := hstore ▸ hp
    rw [hlive4] at hp
    replace hp := Finset.mem_of_mem_erase hp
    obtain ⟨xs, hxs, hheld⟩ := ht2.lists_cut hc2 hhead (hlive2 ▸ hp)
    have hcnodes : (free_task_directory k4 child).nodes = (cut k2 k.current head).nodes :=
      hnodes.trans (congrArg (fun k => k.nodes) hbare)
    have hcp : ((free_task (free_task_directory k4 child).toStore child).tasks p).children =
        ((cut k2 k.current head).tasks p).children := by
      rw [htasks]
      exact congrArg (fun t => t.children) (bare_task hbare p)
    refine ⟨xs, (hxs.congr hcnodes hcp).1, (hxs.congr hcnodes hcp).2.trans (hheld.trans ?_)⟩
    have hfparent : (f.core.tasks child).parent = k.current :=
      (account_parent (hf.accounts child)).trans hparent
    rw [destroy_children f (hfparent ▸ h.ne_zero), hfparent, hheld2, hf.held h.tree h.live,
      hf.held h.tree hp]
    have hnode : (k2.nodes head).task = child := htask
    rw [hnode]
    by_cases hpc : p = k.current
    · rw [hpc, if_pos rfl, Function.update_self]
    · rw [if_neg hpc, Function.update_of_ne hpc]

end alura_os.kernel
