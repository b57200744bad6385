-- The processor time of the tasks. A timer interrupt counts one tick for the running task,
-- and a task that is reaped leaves its ticks, with those that it had from its own children,
-- to its parent. The children of each task are a list here, without the nodes of the heap.
import AluraOs.Changes

namespace alura_os.kernel

open alura_os.memory alura_os.task_manager alura_os.resource
open task_state_t task_wait_reason_t
open alura_os.elf_executable (loaded_task)

variable {k k' : kernel_t} {f f' : listed_t} {a n : Nat}

/-! ## The kernel with lists of children -/

structure listed_t where
  core : kernel_t
  children : Nat → List Nat

/-- `syscall_fork`: the child is the last of the list of its parent. -/
def listed_fork (f : listed_t) (child task_cr3 : Nat) : listed_t :=
  let parent := f.core.current
  { core := unlisted f.core child task_cr3
    children := Function.update (Function.update f.children child []) parent
      (f.children parent ++ [child]) }

/-- `syscall_execve`, with the program in the page directory `task_cr3`. -/
def listed_execve (f : listed_t) (task_cr3 : Nat) (loaded : Loaded) : listed_t :=
  { f with core := executed f.core task_cr3 loaded }

/-- A child of a task that ends becomes the first of the list of init. -/
def hand_over (f : listed_t) (child : Nat) : listed_t :=
  let init := f.core.init
  { core := f.core.setParent child init
    children := Function.update f.children init (child :: f.children init) }

/-- `task_manager_exit_task`, but for the queues. -/
def listed_exit_task (f : listed_t) (task : Nat) (return_code : Int) : listed_t :=
  let f1 := (f.children task).foldl hand_over
    { f with core := condemned f.core task return_code }
  { core := roused f1.core task
    children := Function.update f1.children task [] }

/-- `task_manager_find_child` and `task_manager_find_zombie_child`, as `syscall_waitpid` uses them:
the child that is to be reaped. -/
def listed_find_waited (f : listed_t) (pid : Nat) : Option Nat :=
  if pid = ANY_CHILD then
    (f.children f.core.current).find? fun c => f.core.state c = TASK_STATE_ZOMBIE
  else
    ((f.children f.core.current).find? fun c => (f.core.tasks c).task_id = pid).filter
      fun c => f.core.state c = TASK_STATE_ZOMBIE

/-- `task_manager_destroy_task`, but for the queues. -/
def listed_destroy_task (f : listed_t) (task : Nat) : listed_t :=
  let parent := (f.core.tasks task).parent
  let k := inherit_ticks f.core task
  let k := { k with toStore := release_resources k.toStore task }
  let k := free_task_directory k task
  { core := { k with toStore := free_task k.toStore task }
    children :=
      if parent ≠ 0 then Function.update f.children parent ((f.children parent).erase task)
      else f.children }

/-! ## Runs -/

/-- What a task has counted, and its parent. -/
def account (t : task_t) : Nat × Nat × Nat × Nat × Nat :=
  (t.ticks_user, t.ticks_system, t.child_ticks_user, t.child_ticks_system, t.parent)

/-- Whatever the scheduler and the other calls do: no task comes or goes, no account changes, and the
processor goes to none or to one of the tasks. -/
structure Accounts (k k' : kernel_t) : Prop where
  tasks : ∀ a, account (k'.tasks a) = account (k.tasks a)
  live : k'.live = k.live
  init : k'.init = k.init
  current : k'.current = 0 ∨ k'.current ∈ k.live

/-- The kernel after any sequence of ticks, forks, loads, exits, kills and waits, and the number of
timer interrupts that found a task on the processor. -/
inductive ListedRun : Nat → listed_t → Prop
  | boot {boot : Boot} {k : kernel_t} : kernel_initialize boot = some k →
      ListedRun 0 ⟨k, fun _ => []⟩
  | timer {n : Nat} {f : listed_t} : ListedRun n f →
      ListedRun (if f.core.current = 0 then n else n + 1) { f with core := count_tick f.core }
  | schedule {n : Nat} {f : listed_t} {k : kernel_t} : ListedRun n f → Accounts f.core k →
      ListedRun n { f with core := k }
  | fork {n : Nat} {f : listed_t} {child : Nat} (task_cr3 : Nat) : ListedRun n f →
      f.core.current ≠ 0 → TaskBlock f.core.live child → ListedRun n (listed_fork f child task_cr3)
  | execve {n : Nat} {f : listed_t} (task_cr3 : Nat) (loaded : Loaded) : ListedRun n f →
      f.core.current ≠ 0 → ListedRun n (listed_execve f task_cr3 loaded)
  | exit {n : Nat} {f : listed_t} {task : Nat} (return_code : Int) : ListedRun n f →
      task ∈ f.core.live → ListedRun n (listed_exit_task f task return_code)
  | waitpid {n : Nat} {f : listed_t} {pid child : Nat} : ListedRun n f → f.core.current ≠ 0 →
      listed_find_waited f pid = some child → ListedRun n (listed_destroy_task f child)

/-! ## The lists -/

/-- A task in a list is a task with this parent, which is another. -/
structure Family (f : listed_t) : Prop where
  current : f.core.current = 0 ∨ f.core.current ∈ f.core.live
  null : 0 ∉ f.core.live
  init : f.core.init ∈ f.core.live
  orphan : (f.core.tasks f.core.init).parent = 0
  once : ∀ p ∈ f.core.live, (f.children p).Nodup
  child : ∀ p ∈ f.core.live, ∀ c ∈ f.children p,
    c ∈ f.core.live ∧ (f.core.tasks c).parent = p ∧ c ≠ p

/-- Nothing but counters and the states of the scheduler has changed. -/
theorem Family.congr (h : Family f) (hc : f'.children = f.children)
    (hp : ∀ a, (f'.core.tasks a).parent = (f.core.tasks a).parent)
    (hl : f'.core.live = f.core.live) (hi : f'.core.init = f.core.init)
    (hcur : f'.core.current = 0 ∨ f'.core.current ∈ f.core.live) : Family f' := by
  refine ⟨?_, ?_, ?_, ?_, ?_, ?_⟩
  · rw [hl]
    exact hcur
  · rw [hl]
    exact h.null
  · rw [hl, hi]
    exact h.init
  · rw [hi, hp]
    exact h.orphan
  · rw [hl, hc]
    exact h.once
  · intro p hp' c hcm
    rw [hl] at hp' ⊢
    rw [hc] at hcm
    rw [hp]
    exact h.child p hp' c hcm

theorem account_parent {t t' : task_t} (h : account t' = account t) : t'.parent = t.parent :=
  congrArg (fun x => x.2.2.2.2) h

theorem Family.accounts (h : Family f) (ha : Accounts f.core k) : Family { f with core := k } :=
  h.congr rfl (fun a => account_parent (ha.tasks a)) ha.live ha.init ha.current

theorem parent_setTask {b : Nat} {t : task_t} (h : t.parent = (k.tasks b).parent) (a : Nat) :
    ((k.setTask b t).tasks a).parent = (k.tasks a).parent := by
  by_cases hab : a = b
  · subst hab
    simpa [kernel_t.setTask] using h
  · simp [kernel_t.setTask, hab]

theorem Family.ticked (h : Family f) : Family { f with core := count_tick f.core } := by
  have hm := count_tick_manager f.core
  have hlive : (count_tick f.core).live = f.core.live := by
    unfold count_tick
    dsimp only
    split
    · rfl
    split <;> rfl
  refine h.congr rfl ?_ hlive (congrArg (fun m => m.task_init) hm) ?_
  · intro a
    unfold count_tick
    dsimp only
    split
    · rfl
    split
    · apply parent_setTask
      rfl
    · apply parent_setTask
      rfl
  · rw [show (count_tick f.core).current = f.core.current from congrArg (fun m => m.task_current) hm]
    exact h.current

-- The record of the child stays closed: `k'` stands for the kernel with it.
theorem Family.born (h : Family f) {child task_cr3 : Nat} (hborn : Born f.core child task_cr3 k')
    (hcurrent : k'.current = f.core.current) (hcur : f.core.current ≠ 0)
    (hblock : TaskBlock f.core.live child) :
    Family ⟨k', Function.update (Function.update f.children child []) f.core.current
      (f.children f.core.current ++ [child])⟩ := by
  have hlive : f.core.current ∈ f.core.live := h.current.resolve_left hcur
  have hfresh : child ∉ f.core.live := hblock.fresh
  have hne : child ≠ f.core.current := fun he => hfresh (he ▸ hlive)
  have hold : ∀ c ∈ f.core.live, k'.tasks c = f.core.tasks c := by
    intro c hc
    exact hborn.others c fun he => hfresh (he ▸ hc)
  have hparent : (k'.tasks child).parent = f.core.current := by
    obtain ⟨slots, he⟩ := hborn.newborn
    rw [he]
    rfl
  have hnull : child ≠ 0 := by
    rintro rfl
    exact absurd hblock.1 (by decide)
  refine ⟨?_, ?_, ?_, ?_, ?_, ?_⟩
  · right
    dsimp only
    rw [hborn.live, hcurrent]
    exact Finset.mem_insert_of_mem hlive
  · dsimp only
    rw [hborn.live]
    simp [hnull.symm, h.null]
  · dsimp only
    rw [hborn.live, hborn.init]
    exact Finset.mem_insert_of_mem h.init
  · dsimp only
    rw [hborn.init, hold _ h.init]
    exact h.orphan
  · intro p hp
    dsimp only at hp ⊢
    rw [hborn.live] at hp
    by_cases hpc : p = f.core.current
    · subst hpc
      rw [Function.update_self]
      refine List.Nodup.append (h.once _ hlive) (by simp) ?_
      intro c hc hc'
      obtain rfl := List.mem_singleton.mp hc'
      exact hfresh (h.child _ hlive c hc).1
    · rw [Function.update_of_ne hpc]
      by_cases hpchild : p = child
      · simp [hpchild]
      · rw [Function.update_of_ne hpchild]
        exact h.once p ((Finset.mem_insert.mp hp).resolve_left hpchild)
  · intro p hp c hc
    dsimp only at hp hc ⊢
    rw [hborn.live] at hp ⊢
    by_cases hpc : p = f.core.current
    · subst hpc
      rw [Function.update_self] at hc
      rcases List.mem_append.mp hc with hc | hc
      · obtain ⟨hcl, hcp, hcne⟩ := h.child _ hlive c hc
        rw [hold c hcl]
        exact ⟨Finset.mem_insert_of_mem hcl, hcp, hcne⟩
      · obtain rfl := List.mem_singleton.mp hc
        exact ⟨Finset.mem_insert_self _ _, hparent, hne⟩
    · rw [Function.update_of_ne hpc] at hc
      by_cases hpchild : p = child
      · rw [hpchild, Function.update_self] at hc
        cases hc
      · rw [Function.update_of_ne hpchild] at hc
        obtain ⟨hcl, hcp, hcne⟩ :=
          h.child p ((Finset.mem_insert.mp hp).resolve_left hpchild) c hc
        rw [hold c hcl]
        exact ⟨Finset.mem_insert_of_mem hcl, hcp, hcne⟩

theorem listed_fork_core (f : listed_t) (child task_cr3 : Nat) :
    (listed_fork f child task_cr3).core = unlisted f.core child task_cr3 := rfl

theorem Family.forked (h : Family f) {child : Nat} (task_cr3 : Nat) (hcur : f.core.current ≠ 0)
    (hblock : TaskBlock f.core.live child) : Family (listed_fork f child task_cr3) :=
  h.born (unlisted_born f.core child task_cr3) rfl hcur hblock

/-- The children of `children` have init as their parent, and stand in its list. -/
theorem handed_over (children : List Nat) : ∀ f : listed_t,
    (∀ c, (children.foldl hand_over f).core.tasks c =
      if c ∈ children then { f.core.tasks c with parent := f.core.init } else f.core.tasks c) ∧
    (children.foldl hand_over f).core.live = f.core.live ∧
    (children.foldl hand_over f).core.task_manager = f.core.task_manager ∧
    (children.foldl hand_over f).children = Function.update f.children f.core.init
      (children.reverse ++ f.children f.core.init) := by
  induction children with
  | nil =>
    intro f
    refine ⟨fun c => ?_, rfl, rfl, ?_⟩
    · simp
    · simp
  | cons x xs ih =>
    intro f
    obtain ⟨h1, h2, h3, h4⟩ := ih (hand_over f x)
    have hinit : (hand_over f x).core.init = f.core.init := rfl
    refine ⟨fun c => ?_, h2, h3, ?_⟩
    · rw [List.foldl_cons, h1, hinit]
      by_cases hcx : c = x
      · subst hcx
        simp [hand_over, kernel_t.setParent, kernel_t.setTask]
      · simp [hand_over, kernel_t.setParent, kernel_t.setTask, hcx]
    · rw [List.foldl_cons, h4, hinit]
      simp [hand_over]

theorem account_roused (k : kernel_t) (task b : Nat) :
    account ((roused k task).tasks b) = account (k.tasks b) := by
  unfold roused
  split
  · rw [setState_task]
    rfl
  · rfl

theorem account_condemned (k : kernel_t) (task : Nat) (return_code : Int) (b : Nat) :
    account ((condemned k task return_code).tasks b) = account (k.tasks b) := by
  by_cases hb : b = task
  · subst hb
    simp [condemned, kernel_t.setTask, account]
  · simp [condemned, kernel_t.setTask, hb]

/-- An exit changes nothing in the accounts but the parents of the children. -/
theorem exit_account (f : listed_t) (task : Nat) (return_code : Int) (b : Nat) :
    account ((listed_exit_task f task return_code).core.tasks b) =
      account { f.core.tasks b with
        parent := if b ∈ f.children task then f.core.init else (f.core.tasks b).parent } := by
  unfold listed_exit_task
  dsimp only
  rw [account_roused, (handed_over (f.children task) _).1 b]
  have hb := account_condemned f.core task return_code b
  split
  · exact congrArg (fun x => (x.1, x.2.1, x.2.2.1, x.2.2.2.1, f.core.init)) hb
  · exact hb

theorem exit_rest (f : listed_t) (task : Nat) (return_code : Int) :
    (listed_exit_task f task return_code).core.live = f.core.live ∧
      (listed_exit_task f task return_code).core.task_manager = f.core.task_manager ∧
      (listed_exit_task f task return_code).children =
        Function.update (Function.update f.children f.core.init
          ((f.children task).reverse ++ f.children f.core.init)) task [] := by
  obtain ⟨-, hlive, hmanager, hchildren⟩ := handed_over (f.children task)
    { f with core := condemned f.core task return_code }
  obtain ⟨hl, hm⟩ := roused_rest ((f.children task).foldl hand_over
    { f with core := condemned f.core task return_code }).core task
  refine ⟨hl.trans hlive, hm.trans hmanager, ?_⟩
  unfold listed_exit_task
  dsimp only
  rw [hchildren]
  rfl

theorem Family.exited (h : Family f) {task : Nat} (return_code : Int) (ht : task ∈ f.core.live) :
    Family (listed_exit_task f task return_code) := by
  obtain ⟨hlive, hmanager, hchildren⟩ := exit_rest f task return_code
  have hinit : (listed_exit_task f task return_code).core.init = f.core.init :=
    congrArg (fun m => m.task_init) hmanager
  have hcurrent : (listed_exit_task f task return_code).core.current = f.core.current :=
    congrArg (fun m => m.task_current) hmanager
  have hparent : ∀ b, ((listed_exit_task f task return_code).core.tasks b).parent =
      if b ∈ f.children task then f.core.init else (f.core.tasks b).parent :=
    fun b => account_parent (exit_account f task return_code b)
  have hroot : f.core.init ∉ f.children task := by
    intro hm
    have hp := (h.child task ht _ hm).2.1
    rw [h.orphan] at hp
    exact h.null (hp ▸ ht)
  refine ⟨?_, ?_, ?_, ?_, ?_, ?_⟩
  · rw [hlive, hcurrent]
    exact h.current
  · rw [hlive]
    exact h.null
  · rw [hlive, hinit]
    exact h.init
  · rw [hinit, hparent, if_neg hroot]
    exact h.orphan
  · intro p hp
    rw [hlive] at hp
    rw [hchildren]
    by_cases hpt : p = task
    · simp [hpt]
    rw [Function.update_of_ne hpt]
    by_cases hpi : p = f.core.init
    · subst hpi
      rw [Function.update_self]
      refine List.Nodup.append (List.nodup_reverse.mpr (h.once task ht)) (h.once _ hp) ?_
      intro c hc hc'
      have h1 := (h.child task ht c (List.mem_reverse.mp hc)).2.1
      have h2 := (h.child _ hp c hc').2.1
      exact hpt (h2.symm.trans h1)
    · rw [Function.update_of_ne hpi]
      exact h.once p hp
  · intro p hp c hc
    rw [hlive] at hp ⊢
    rw [hchildren] at hc
    rw [hparent]
    by_cases hpt : p = task
    · simp [hpt] at hc
    rw [Function.update_of_ne hpt] at hc
    -- A child of another parent stays where it is.
    have hother : ∀ c ∈ f.children p, c ∉ f.children task := by
      intro c hc hc'
      exact hpt ((h.child p hp c hc).2.1.symm.trans (h.child task ht c hc').2.1)
    by_cases hpi : p = f.core.init
    · rw [hpi, Function.update_self] at hc
      rcases List.mem_append.mp hc with hc | hc
      · rw [List.mem_reverse] at hc
        rw [if_pos hc, hpi]
        refine ⟨(h.child task ht c hc).1, rfl, ?_⟩
        rintro rfl
        exact hroot hc
      · rw [← hpi] at hc
        rw [if_neg (hother c hc)]
        exact h.child p hp c hc
    · rw [Function.update_of_ne hpi] at hc
      rw [if_neg (hother c hc)]
      exact h.child p hp c hc

theorem inherit_ticks_live (k : kernel_t) (task : Nat) : (inherit_ticks k task).live = k.live := by
  unfold inherit_ticks
  dsimp only
  split <;> rfl

-- The loop over the slots stays closed: `s` stands for the store that it leaves.
theorem destroyed_of_slots {task : Nat} {s : Store}
    (h : OnlySlots task (inherit_ticks k task).toStore s) :
    (free_task (free_task_directory { inherit_ticks k task with toStore := s } task).toStore task).live =
        k.live.erase task ∧
      (free_task_directory { inherit_ticks k task with toStore := s } task).task_manager =
        k.task_manager ∧
      ∀ b, account ((free_task_directory { inherit_ticks k task with toStore := s } task).tasks b) =
        account ((inherit_ticks k task).tasks b) := by
  obtain ⟨hstore, hmanager, -, -⟩ :=
    free_task_directory_rest { inherit_ticks k task with toStore := s } task
  refine ⟨?_, hmanager.trans (inherit_ticks_manager k task), ?_⟩
  · rw [hstore]
    show s.live.erase task = _
    rw [h.live, inherit_ticks_live]
  · intro b
    rw [hstore]
    obtain ⟨slots, hb⟩ := h.task b
    show account (s.tasks b) = _
    rw [hb]
    rfl

/-- The tasks that are left have what `inherit_ticks` leaves them. -/
theorem destroy_rest (f : listed_t) (task : Nat) :
    (listed_destroy_task f task).core.live = f.core.live.erase task ∧
      (listed_destroy_task f task).core.task_manager = f.core.task_manager ∧
      ∀ b, account ((listed_destroy_task f task).core.tasks b) =
        account ((inherit_ticks f.core task).tasks b) := by
  have hslots := (release_resources_only (inherit_ticks f.core task).toStore task).1
  unfold listed_destroy_task
  dsimp only
  generalize release_resources (inherit_ticks f.core task).toStore task = s at hslots ⊢
  obtain ⟨h1, h2, h3⟩ := destroyed_of_slots hslots
  exact ⟨h1, h2, h3⟩

theorem inherit_ticks_parent (k : kernel_t) (task b : Nat) :
    ((inherit_ticks k task).tasks b).parent = (k.tasks b).parent := by
  unfold inherit_ticks
  dsimp only
  split
  · apply parent_setTask
    rfl
  · rfl

-- The kernel without the task stays closed: `f'` stands for it.
theorem Family.reaped (h : Family f) {p child : Nat} (hp : p ∈ f.core.live)
    (hc : child ∈ f.children p) (hcur : f.core.current ≠ child)
    (hlive : f'.core.live = f.core.live.erase child)
    (hmanager : f'.core.task_manager = f.core.task_manager)
    (hparent : ∀ b, (f'.core.tasks b).parent = (f.core.tasks b).parent)
    (hchildren : f'.children = Function.update f.children p ((f.children p).erase child)) :
    Family f' := by
  obtain ⟨hcl, hcp, hcne⟩ := h.child p hp child hc
  have hinit : f'.core.init = f.core.init := congrArg (fun m => m.task_init) hmanager
  have hcurrent : f'.core.current = f.core.current := congrArg (fun m => m.task_current) hmanager
  have hp0 : p ≠ 0 := fun h0 => h.null (h0 ▸ hp)
  have hroot : f.core.init ≠ child := by
    rintro rfl
    rw [h.orphan] at hcp
    exact hp0 hcp.symm
  refine ⟨?_, ?_, ?_, ?_, ?_, ?_⟩
  · rw [hlive, hcurrent]
    exact h.current.imp_right fun hm => Finset.mem_erase.mpr ⟨hcur, hm⟩
  · rw [hlive]
    exact fun hm => h.null (Finset.mem_of_mem_erase hm)
  · rw [hlive, hinit]
    exact Finset.mem_erase.mpr ⟨hroot, h.init⟩
  · rw [hinit, hparent]
    exact h.orphan
  · intro x hx
    rw [hlive] at hx
    rw [hchildren]
    by_cases hxp : x = p
    · rw [hxp, Function.update_self]
      exact (h.once p hp).erase child
    · rw [Function.update_of_ne hxp]
      exact h.once x (Finset.mem_of_mem_erase hx)
  · intro x hx c hcm
    rw [hlive] at hx ⊢
    rw [hchildren] at hcm
    rw [hparent]
    have hx := Finset.mem_of_mem_erase hx
    by_cases hxp : x = p
    · subst hxp
      rw [Function.update_self] at hcm
      obtain ⟨hne, hcm⟩ := (h.once x hp).mem_erase_iff.mp hcm
      obtain ⟨h1, h2, h3⟩ := h.child x hp c hcm
      exact ⟨Finset.mem_erase.mpr ⟨hne, h1⟩, h2, h3⟩
    · rw [Function.update_of_ne hxp] at hcm
      obtain ⟨h1, h2, h3⟩ := h.child x hx c hcm
      refine ⟨Finset.mem_erase.mpr ⟨?_, h1⟩, h2, h3⟩
      rintro rfl
      exact hxp (h2.symm.trans hcp)

theorem destroy_children (f : listed_t) {task : Nat} (h : (f.core.tasks task).parent ≠ 0) :
    (listed_destroy_task f task).children = Function.update f.children (f.core.tasks task).parent
      ((f.children (f.core.tasks task).parent).erase task) := by
  unfold listed_destroy_task
  exact if_pos h

theorem Family.destroyed (h : Family f) {p child : Nat} (hp : p ∈ f.core.live)
    (hc : child ∈ f.children p) (hcur : f.core.current ≠ child) :
    Family (listed_destroy_task f child) := by
  obtain ⟨hlive, hmanager, haccount⟩ := destroy_rest f child
  have hcp := (h.child p hp child hc).2.1
  have hp0 : p ≠ 0 := fun h0 => h.null (h0 ▸ hp)
  have hchildren := destroy_children f (show (f.core.tasks child).parent ≠ 0 from hcp ▸ hp0)
  rw [hcp] at hchildren
  refine h.reaped hp hc hcur hlive hmanager ?_ hchildren
  intro b
  exact (account_parent (haccount b)).trans (inherit_ticks_parent f.core child b)

theorem executed_account (k : kernel_t) (task_cr3 : Nat) (loaded : Loaded) (b : Nat) :
    account ((executed k task_cr3 loaded).tasks b) = account (k.tasks b) := by
  by_cases hb : b = k.current
  · subst hb
    rw [executed_self]
    rfl
  · rw [executed_others k task_cr3 loaded hb]

theorem Family.executed (h : Family f) (task_cr3 : Nat) (loaded : Loaded) :
    Family (listed_execve f task_cr3 loaded) := by
  have hm : (kernel.executed f.core task_cr3 loaded).task_manager = f.core.task_manager := by
    unfold kernel.executed memory_paging_queue_to_destroy
    dsimp only
    split <;> rfl
  refine h.congr rfl (fun b => account_parent (executed_account f.core task_cr3 loaded b))
    (executed_live f.core task_cr3 loaded) (congrArg (fun m => m.task_init) hm) ?_
  rw [show (listed_execve f task_cr3 loaded).core.current = f.core.current from
    congrArg (fun m => m.task_current) hm]
  exact h.current

theorem booted_family {boot : Boot} (h : kernel_initialize boot = some k) :
    Family ⟨k, fun _ => []⟩ := by
  have hb := boot_spec h
  refine ⟨Or.inl hb.current, ?_, hb.tree.init_live, hb.tree.orphan, ?_, ?_⟩
  · exact fun h0 => Spread.ne_zero hb.tree.spread h0 rfl
  · exact fun p _ => List.nodup_nil
  · exact fun p _ c hc => absurd hc List.not_mem_nil

/-! ## The sum of all ticks -/

/-- What a task has counted for itself and for the children that it has reaped. -/
def cpu_time (t : task_t) : Nat :=
  t.ticks_user + t.ticks_system + t.child_ticks_user + t.child_ticks_system

/-- The processor time of all tasks. -/
def total_time (k : kernel_t) : Nat := ∑ a ∈ k.live, cpu_time (k.tasks a)

theorem account_time {t t' : task_t} (h : account t' = account t) : cpu_time t' = cpu_time t := by
  obtain ⟨h1, h2, h3, h4, -⟩ : t'.ticks_user = t.ticks_user ∧ t'.ticks_system = t.ticks_system ∧
      t'.child_ticks_user = t.child_ticks_user ∧ t'.child_ticks_system = t.child_ticks_system ∧
      t'.parent = t.parent := by
    simpa [account] using h
  unfold cpu_time
  rw [h1, h2, h3, h4]

theorem total_time_congr (hl : k'.live = k.live)
    (ha : ∀ b ∈ k.live, cpu_time (k'.tasks b) = cpu_time (k.tasks b)) :
    total_time k' = total_time k := by
  unfold total_time
  rw [hl]
  exact Finset.sum_congr rfl ha

/-- One task counts `d` more. -/
theorem sum_add {live : Finset Nat} {f g : Nat → Nat} {d : Nat} (ha : a ∈ live)
    (hself : g a ≡ f a + d [MOD 2 ^ 64]) (hothers : ∀ b ∈ live, b ≠ a → g b = f b) :
    ∑ b ∈ live, g b ≡ ∑ b ∈ live, f b + d [MOD 2 ^ 64] := by
  rw [← Finset.add_sum_erase live g ha, ← Finset.add_sum_erase live f ha]
  have hsum : ∑ b ∈ live.erase a, g b = ∑ b ∈ live.erase a, f b := by
    apply Finset.sum_congr rfl
    intro b hb
    exact hothers b (Finset.mem_of_mem_erase hb) (Finset.ne_of_mem_erase hb)
  rw [hsum, add_right_comm]
  exact Nat.ModEq.add_right _ hself

theorem count_tick_live (k : kernel_t) : (count_tick k).live = k.live := by
  unfold count_tick
  dsimp only
  split
  · rfl
  split <;> rfl

theorem ticked_time (hc : k.current ∈ k.live) (h0 : k.current ≠ 0) :
    total_time (count_tick k) ≡ total_time k + 1 [MOD 2 ^ 64] := by
  unfold total_time
  rw [count_tick_live]
  apply sum_add hc
  · unfold count_tick
    dsimp only
    rw [if_neg h0]
    split
    all_goals
      simp only [kernel_t.setTask, Function.update_self, cpu_time, add_ticks, Nat.ModEq]
      omega
  · intro b _ hb
    unfold count_tick
    dsimp only
    rw [if_neg h0]
    split <;> simp [kernel_t.setTask, hb]

/-- The parent counts what the task has counted. -/
theorem inherited_time {task : Nat} (h0 : (k.tasks task).parent ≠ 0) :
    cpu_time ((inherit_ticks k task).tasks (k.tasks task).parent) ≡
      cpu_time (k.tasks (k.tasks task).parent) + cpu_time (k.tasks task) [MOD 2 ^ 64] := by
  unfold inherit_ticks
  dsimp only
  rw [if_pos h0]
  simp only [kernel_t.setTask, Function.update_self, cpu_time, add_ticks, Nat.ModEq]
  omega

theorem inherited_others {task b : Nat} (hb : b ≠ (k.tasks task).parent) :
    (inherit_ticks k task).tasks b = k.tasks b := by
  unfold inherit_ticks
  dsimp only
  split
  · simp [kernel_t.setTask, hb]
  · rfl

theorem forked_time {child task_cr3 : Nat} (hborn : Born k child task_cr3 k') (hfresh : child ∉ k.live) :
    total_time k' = total_time k := by
  obtain ⟨slots, hnew⟩ := hborn.newborn
  unfold total_time
  rw [hborn.live, Finset.sum_insert hfresh, hnew]
  have hzero : cpu_time (newborn k task_cr3 slots) = 0 := rfl
  rw [hzero, Nat.zero_add]
  apply Finset.sum_congr rfl
  intro b hb
  rw [hborn.others b fun he => hfresh (he ▸ hb)]

theorem destroyed_time (h : Family f) {p child : Nat} (hp : p ∈ f.core.live)
    (hc : child ∈ f.children p) :
    total_time (listed_destroy_task f child).core ≡ total_time f.core [MOD 2 ^ 64] := by
  obtain ⟨hlive, -, haccount⟩ := destroy_rest f child
  obtain ⟨hcl, hcp, hcne⟩ := h.child p hp child hc
  have hp0 : (f.core.tasks child).parent ≠ 0 := by
    rw [hcp]
    exact fun h0 => h.null (h0 ▸ hp)
  have hmem : p ∈ f.core.live.erase child := Finset.mem_erase.mpr ⟨hcne.symm, hp⟩
  have htime := inherited_time hp0
  rw [hcp] at htime
  unfold total_time
  rw [hlive, ← Finset.sum_erase_add f.core.live _ hcl]
  apply sum_add hmem
  · rw [account_time (haccount p)]
    exact htime
  · intro b _ hb
    rw [account_time (haccount b), inherited_others (by rw [hcp]; exact hb)]

/-- The child that a wait finds is a child of the caller. -/
theorem listed_find_waited_mem {pid child : Nat} (h : listed_find_waited f pid = some child) :
    child ∈ f.children f.core.current := by
  unfold listed_find_waited at h
  split at h
  · exact List.mem_of_find?_eq_some h
  · exact List.mem_of_find?_eq_some (Option.filter_eq_some_iff.mp h).1

theorem booted_time {boot : Boot} (h : kernel_initialize boot = some k) : total_time k = 0 := by
  apply Finset.sum_eq_zero
  intro a _
  refine boot_tasks (P := fun t => cpu_time t = 0) ?_ rfl rfl rfl ?_ h a
  · intro t t' hb ht
    have h1 := congrArg cpu_time hb
    exact h1.trans ht
  · exact fun t loaded task_cr3 _ ht => ht

theorem ListedRun.family (h : ListedRun n f) : Family f ∧ total_time f.core ≡ n [MOD 2 ^ 64] := by
  induction h with
  | boot hb =>
    refine ⟨booted_family hb, ?_⟩
    rw [booted_time hb]
  | @timer n f _ ih =>
    obtain ⟨hf, ht⟩ := ih
    refine ⟨hf.ticked, ?_⟩
    by_cases h0 : f.core.current = 0
    · have hsame : count_tick f.core = f.core := by
        unfold count_tick
        exact if_pos h0
      rw [if_pos h0, hsame]
      exact ht
    · rw [if_neg h0]
      exact (ticked_time (hf.current.resolve_left h0) h0).trans (ht.add_right 1)
  | schedule _ ha ih =>
    obtain ⟨hf, ht⟩ := ih
    refine ⟨hf.accounts ha, ?_⟩
    rw [total_time_congr ha.live fun b _ => account_time (ha.tasks b)]
    exact ht
  | @fork n f child task_cr3 _ hcur hblock ih =>
    obtain ⟨hf, ht⟩ := ih
    refine ⟨hf.forked task_cr3 hcur hblock, ?_⟩
    rw [listed_fork_core, forked_time (unlisted_born f.core child task_cr3) hblock.fresh]
    exact ht
  | @execve n f task_cr3 loaded _ _ ih =>
    obtain ⟨hf, ht⟩ := ih
    refine ⟨hf.executed task_cr3 loaded, ?_⟩
    have htime : total_time (executed f.core task_cr3 loaded) = total_time f.core :=
      total_time_congr (executed_live f.core task_cr3 loaded)
        fun b _ => account_time (executed_account f.core task_cr3 loaded b)
    exact htime ▸ ht
  | @exit n f task return_code _ hlive ih =>
    obtain ⟨hf, ht⟩ := ih
    refine ⟨hf.exited return_code hlive, ?_⟩
    have htime : total_time (listed_exit_task f task return_code).core = total_time f.core :=
      total_time_congr (exit_rest f task return_code).1
        fun b _ => (account_time (exit_account f task return_code b)).trans rfl
    exact htime ▸ ht
  | waitpid _ hcur hfind ih =>
    obtain ⟨hf, ht⟩ := ih
    have hp := hf.current.resolve_left hcur
    have hc := listed_find_waited_mem hfind
    refine ⟨hf.destroyed hp hc (hf.child _ hp _ hc).2.2.symm, ?_⟩
    exact (destroyed_time hf hp hc).trans ht

/-- The processor goes to the task `a`. -/
def runs_on (f : listed_t) (a : Nat) : listed_t :=
  { f with core := { f.core with task_manager := { f.core.task_manager with task_current := a } } }

/-- There is a task at `a`. -/
def lives (f : listed_t) (a : Nat) : Bool := a ≠ 0 ∧ a ∈ f.core.live

theorem ListedRun.runs_on (h : ListedRun n f) (ha : lives f a = true) :
    ListedRun n (runs_on f a) :=
  h.schedule ⟨fun _ => rfl, rfl, rfl, Or.inr (of_decide_eq_true ha).2⟩

/-- A task runs for a tick. -/
def ticks (f : listed_t) (a : Nat) : listed_t :=
  { runs_on f a with core := count_tick (runs_on f a).core }

theorem ListedRun.ticks (h : ListedRun n f) (ha : lives f a = true) :
    ListedRun (n + 1) (ticks f a) := by
  have ht := (h.runs_on ha).timer
  rw [if_neg (show (kernel.runs_on f a).core.current ≠ 0 from (of_decide_eq_true ha).1)] at ht
  exact ht

/-- A task forks. -/
theorem ListedRun.forks {child task_cr3 : Nat} (h : ListedRun n f) (ha : lives f a = true)
    (hblock : TaskBlock f.core.live child) :
    ListedRun n (listed_fork (kernel.runs_on f a) child task_cr3) :=
  (h.runs_on ha).fork task_cr3 (of_decide_eq_true ha).1 hblock

theorem ListedRun.exits (h : ListedRun n f) (ha : lives f a = true) (return_code : Int) :
    ListedRun n (listed_exit_task f a return_code) := h.exit return_code (of_decide_eq_true ha).2

/-- A task reaps a child. -/
theorem ListedRun.reaps {pid child : Nat} (h : ListedRun n f) (ha : lives f a = true)
    (hfind : listed_find_waited (kernel.runs_on f a) pid = some child) :
    ListedRun n (listed_destroy_task (kernel.runs_on f a) child) :=
  (h.runs_on ha).waitpid (of_decide_eq_true ha).1 hfind

/-- Task `parent` forks task `child`, and the child runs for a tick. -/
def forksTicking (f : listed_t) (parent child task_cr3 : Nat) : listed_t :=
  ticks (listed_fork (runs_on f parent) child task_cr3) child

/-- Init reaps its child `child`. -/
def initReaps (f : listed_t) (child : Nat) : listed_t :=
  listed_destroy_task (runs_on f (taskAt 1)) child

/-- Init forks task 2 and task 2 forks task 3; task 2 ends before its child, which goes to init. -/
def secondForks (k : kernel_t) : listed_t :=
  forksTicking (ticks ⟨k, fun _ => []⟩ (taskAt 1)) (taskAt 1) (taskAt 2) 0x12000
def thirdForks (k : kernel_t) : listed_t :=
  forksTicking (secondForks k) (taskAt 2) (taskAt 3) 0x13000
def secondExits (k : kernel_t) : listed_t := listed_exit_task (thirdForks k) (taskAt 2) 0
def thirdExits (k : kernel_t) : listed_t := listed_exit_task (secondExits k) (taskAt 3) 0

/-- Init reaps both. -/
def bothReaped (k : kernel_t) : listed_t := initReaps (initReaps (thirdExits k) (taskAt 3)) (taskAt 2)

theorem ListedRun.forksTicking {parent child : Nat} (task_cr3 : Nat) (h : ListedRun n f)
    (hp : lives f parent = true) (hblock : TaskBlock f.core.live child)
    (hc : lives (listed_fork (kernel.runs_on f parent) child task_cr3) child = true) :
    ListedRun (n + 1) (forksTicking f parent child task_cr3) :=
  (h.forks hp hblock).ticks hc

end alura_os.kernel
