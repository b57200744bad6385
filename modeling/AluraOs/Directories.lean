-- Page directories: which one is loaded, which belong to tasks, which wait to be
-- freed. As long as every fork gets a directory, none is freed while it is in use.
import AluraOs.KernelRuns

namespace alura_os.kernel

open alura_os.memory alura_os.task_manager alura_os.resource chains
open task_state_t task_wait_reason_t resource_result_t resource_type_t

variable {k k' : kernel_t} {order : List Nat} {ns : Nat → List Nat} {rules : Rules}

/-! ## The invariant -/

/-- A directory was freed that was not loaded and belonged to no task that remained, and that had
not been freed before. -/
def Freed.Safe (f : Freed) : Prop :=
  f.directory ≠ f.cr3 ∧ f.directory ∉ f.remaining ∧ f.created = true

/-- Every directory was freed safely. None that waits to be freed is there twice, or belongs to a
task. -/
structure FreedSafely (k : kernel_t) : Prop where
  safe : ∀ f ∈ k.frees, f.Safe
  once : k.page_directories_to_destroy.Nodup
  unowned : ∀ d ∈ k.page_directories_to_destroy, ∀ a ∈ k.live, (k.tasks a).task_cr3 ≠ d

/-- Each task has a directory of its own, and the one of the running task is loaded. -/
structure Housed (k : kernel_t) : Prop extends FreedSafely k where
  kernel_directory : k.kernel_page_directory_phys ∈ k.directories
  known : ∀ a ∈ k.live, (k.tasks a).task_cr3 ∈ k.directories ∧
    (k.tasks a).task_cr3 ≠ k.kernel_page_directory_phys
  apart : ∀ a ∈ k.live, ∀ b ∈ k.live, (k.tasks a).task_cr3 = (k.tasks b).task_cr3 → a = b
  queued : ∀ d ∈ k.page_directories_to_destroy, d ∈ k.directories ∧ d ≠ k.kernel_page_directory_phys
  loaded : k.current ≠ 0 → k.current ∈ k.live ∧ k.cr3 = (k.tasks k.current).task_cr3
  unstarted : k.current = 0 → k.page_directories_to_destroy = []

/-- What the directories depend on, apart from the tasks. -/
def directory_state (k : kernel_t) : Nat × Nat × Nat × Finset Nat × List Nat × List Freed :=
  (k.kernel_page_directory_phys, k.cr3, k.current, k.directories, k.page_directories_to_destroy,
    k.frees)

theorem Housed.congr (h : Housed k) (hs : directory_state k' = directory_state k)
    (hl : k'.live = k.live) (ht : ∀ a ∈ k.live, (k'.tasks a).task_cr3 = (k.tasks a).task_cr3) :
    Housed k' := by
  simp only [directory_state, Prod.mk.injEq] at hs
  obtain ⟨hk, hcr3, hcur, hd, hq, hf⟩ := hs
  refine ⟨⟨?_, ?_, ?_⟩, ?_, ?_, ?_, ?_, ?_, ?_⟩
  · rw [hf]
    exact h.safe
  · rw [hq]
    exact h.once
  · intro d hd' a ha
    rw [hq] at hd'
    rw [hl] at ha
    rw [ht a ha]
    exact h.unowned d hd' a ha
  · rw [hk, hd]
    exact h.kernel_directory
  · intro a ha
    rw [hl] at ha
    rw [ht a ha, hd, hk]
    exact h.known a ha
  · intro a ha b hb he
    rw [hl] at ha hb
    rw [ht a ha, ht b hb] at he
    exact h.apart a ha b hb he
  · intro d hd'
    rw [hq] at hd'
    rw [hd, hk]
    exact h.queued d hd'
  · intro h0
    rw [hcur] at h0 ⊢
    obtain ⟨h1, h2⟩ := h.loaded h0
    rw [hl, ht _ h1, hcr3]
    exact ⟨h1, h2⟩
  · intro h0
    rw [hcur] at h0
    rw [hq]
    exact h.unstarted h0

theorem Housed.of_setTask (h : Housed k) {a : Nat} {t : task_t}
    (ht : t.task_cr3 = (k.tasks a).task_cr3) : Housed (k.setTask a t) := by
  refine h.congr rfl rfl fun b _ => ?_
  by_cases hb : b = a
  · subst hb
    simpa [kernel_t.setTask] using ht
  · simp [kernel_t.setTask, hb]

theorem Booted.housed (h : Booted k) : Housed k := by
  refine ⟨⟨?_, ?_, ?_⟩, h.kernel_directory, h.directory, ?_, ?_, ?_, fun _ => h.queued⟩
  · rw [h.frees]
    simp
  · rw [h.queued]
    exact List.nodup_nil
  · rw [h.queued]
    simp
  · intro a ha b hb he
    rcases (h.live a).mp ha with rfl | rfl <;> rcases (h.live b).mp hb with rfl | rfl
    · rfl
    · exact absurd he h.apart
    · exact absurd he.symm h.apart
    · rfl
  · rw [h.queued]
    simp
  · exact fun h0 => absurd h.current h0

/-! ## Freeing -/

/-- A directory that no task has and that is not loaded is freed. -/
theorem freed_safe {d : Nat} {remaining : Finset Nat} (hd : d ∈ k.directories) (hcr3 : d ≠ k.cr3)
    (hr : ∀ a ∈ remaining, (k.tasks a).task_cr3 ≠ d) (h : ∀ f ∈ k.frees, f.Safe) :
    ∀ f ∈ (free_directory k d remaining).frees, f.Safe := by
  intro f hf
  rcases List.mem_cons.mp hf with rfl | hf
  · refine ⟨hcr3, ?_, decide_eq_true hd⟩
    intro hm
    obtain ⟨a, ha, he⟩ := Finset.mem_image.mp hm
    exact hr a ha he
  · exact h f hf

theorem destroy_safe {ds : List Nat} (hsafe : ∀ f ∈ k.frees, f.Safe) (hn : ds.Nodup)
    (hknown : ∀ d ∈ ds, d ∈ k.directories) (hcr3 : ∀ d ∈ ds, d ≠ k.cr3)
    (hr : ∀ d ∈ ds, ∀ a ∈ k.live, (k.tasks a).task_cr3 ≠ d) :
    let k' := ds.foldl (fun k d => free_directory k d k.live) k
    (∀ f ∈ k'.frees, f.Safe) ∧ ∀ x, x ∈ k'.directories ↔ x ∈ k.directories ∧ x ∉ ds := by
  induction ds generalizing k with
  | nil => exact ⟨hsafe, fun x => by simp⟩
  | cons d ds ih =>
    rw [List.nodup_cons] at hn
    have hmem := List.mem_cons_self (a := d) (l := ds)
    obtain ⟨h1, h2⟩ := ih (k := free_directory k d k.live)
      (freed_safe (hknown d hmem) (hcr3 d hmem) (hr d hmem) hsafe) hn.2
      (fun x hx => Finset.mem_erase.mpr ⟨fun he => hn.1 (he ▸ hx), hknown x (List.mem_cons_of_mem _ hx)⟩)
      (fun x hx => hcr3 x (List.mem_cons_of_mem _ hx))
      (fun x hx => hr x (List.mem_cons_of_mem _ hx))
    refine ⟨h1, fun x => (h2 x).trans ?_⟩
    show x ∈ k.directories.erase d ∧ x ∉ ds ↔ _
    rw [Finset.mem_erase, List.mem_cons, not_or]
    tauto

theorem Housed.destroys (h : Housed k) : Housed (memory_paging_destroy_queued k) := by
  have hcr3 : ∀ d ∈ k.page_directories_to_destroy, d ≠ k.cr3 := by
    intro d hd he
    by_cases h0 : k.current = 0
    · rw [h.unstarted h0] at hd
      cases hd
    · obtain ⟨h1, h2⟩ := h.loaded h0
      exact h.unowned d hd _ h1 (h2.symm.trans he.symm)
  obtain ⟨hsafe, hdirs⟩ := destroy_safe h.safe h.once (fun d hd => (h.queued d hd).1) hcr3 h.unowned
  obtain ⟨frees, directories, he⟩ := destroy_queued_eq k
  have hf : frees = (k.page_directories_to_destroy.foldl
      (fun k d => free_directory k d k.live) k).frees := congrArg (fun k => k.frees) he.symm
  have hd : directories = (k.page_directories_to_destroy.foldl
      (fun k d => free_directory k d k.live) k).directories := congrArg (fun k => k.directories) he.symm
  rw [← hf] at hsafe
  rw [← hd] at hdirs
  rw [he]
  have hnone : ∀ {p : Nat → Prop}, ∀ d ∈ ([] : List Nat), p d := fun d hd => (by cases hd)
  refine ⟨⟨hsafe, List.nodup_nil, hnone⟩, ?_, ?_, h.apart, hnone, h.loaded, fun _ => rfl⟩
  · exact (hdirs _).mpr ⟨h.kernel_directory, fun hm => (h.queued _ hm).2 rfl⟩
  · intro a ha
    obtain ⟨h1, h2⟩ := h.known a ha
    exact ⟨(hdirs _).mpr ⟨h1, fun hm => h.unowned _ hm a ha rfl⟩, h2⟩

/-! ## Exec, fork and reaping -/

/-- A new directory, which no task has yet. -/
theorem Housed.creates (h : Housed k) (d : Nat) :
    Housed { k with directories := insert d k.directories } :=
  { h with
    kernel_directory := Finset.mem_insert_of_mem h.kernel_directory
    known := fun a ha => ⟨Finset.mem_insert_of_mem (h.known a ha).1, (h.known a ha).2⟩
    queued := fun d' hd => ⟨Finset.mem_insert_of_mem (h.queued d' hd).1, (h.queued d' hd).2⟩ }

theorem queue_other_eq {d : Nat} (h : d ≠ k.kernel_page_directory_phys) :
    memory_paging_queue_to_destroy k d =
      { k with page_directories_to_destroy := k.page_directories_to_destroy ++ [d] } := if_neg h

/-- The old directory of a task waits to be freed, and the task has a new one. -/
theorem Housed.executes (h : Housed k) {d : Nat} (hd : d ∉ k.directories) (hc : k.current ∈ k.live)
    (hspread : Spread k.live) (loaded : Loaded) :
    Housed (executed { k with directories := insert d k.directories } d loaded) := by
  let k1 : kernel_t := { k with directories := insert d k.directories }
  obtain ⟨-, hcr3⟩ := h.loaded (Spread.ne_zero hspread hc)
  obtain ⟨hold, holdk⟩ := h.known _ hc
  have hself : ((executed k1 d loaded).tasks k.current).task_cr3 = d :=
    congrArg (fun t => t.task_cr3) (executed_self k1 d loaded)
  have hother : ∀ {a}, a ≠ k.current → (executed k1 d loaded).tasks a = k.tasks a :=
    fun ha => executed_others k1 d loaded ha
  have hlive : (executed k1 d loaded).live = k.live := executed_live k1 d loaded
  have hne : k.cr3 ≠ k.kernel_page_directory_phys := by
    rw [hcr3]
    exact holdk
  have hstate : directory_state (executed k1 d loaded) = (k.kernel_page_directory_phys, d, k.current,
      insert d k.directories, k.page_directories_to_destroy ++ [k.cr3], k.frees) := by
    let k2 := k1.setTask k.current (alura_os.elf_executable.loaded_task (k1.tasks k.current)
      loaded.e_entry d loaded.task_esp loaded.heap_start)
    have hq : memory_paging_queue_to_destroy k2 k2.cr3 = _ := queue_other_eq hne
    show directory_state { memory_paging_queue_to_destroy k2 k2.cr3 with cr3 := d } = _
    rw [hq]
    rfl
  simp only [directory_state, Prod.mk.injEq] at hstate
  obtain ⟨hk', hcr3', hcur', hdirs', hqueue', hfrees'⟩ := hstate
  -- The tasks but the running one have the directories that they had.
  have hold' : ∀ a ∈ k.live, a ≠ k.current → (k.tasks a).task_cr3 ≠ k.cr3 := by
    intro a ha hac he
    rw [hcr3] at he
    exact hac (h.apart a ha _ hc he)
  have hfresh : ∀ a ∈ k.live, (k.tasks a).task_cr3 ≠ d := fun a ha he => hd (he ▸ (h.known a ha).1)
  refine ⟨⟨?_, ?_, ?_⟩, ?_, ?_, ?_, ?_, ?_, ?_⟩
  · rw [hfrees']
    exact h.safe
  · rw [hqueue', List.nodup_append]
    refine ⟨h.once, List.nodup_singleton _, ?_⟩
    intro x hx y hy he
    rw [List.mem_singleton.mp hy, hcr3] at he
    exact h.unowned x hx _ hc he.symm
  · intro x hx a ha
    rw [hqueue'] at hx
    rw [hlive] at ha
    by_cases hac : a = k.current
    · rw [hac, hself]
      rcases List.mem_append.mp hx with hx | hx
      · exact fun he => hd (he ▸ (h.queued x hx).1)
      · rw [List.mem_singleton.mp hx, hcr3]
        exact (hfresh _ hc).symm
    · rw [hother hac]
      rcases List.mem_append.mp hx with hx | hx
      · exact h.unowned x hx a ha
      · rw [List.mem_singleton.mp hx]
        exact hold' a ha hac
  · rw [hk', hdirs']
    exact Finset.mem_insert_of_mem h.kernel_directory
  · intro a ha
    rw [hlive] at ha
    rw [hdirs', hk']
    by_cases hac : a = k.current
    · rw [hac, hself]
      exact ⟨Finset.mem_insert_self _ _, fun he => hd (he ▸ h.kernel_directory)⟩
    · rw [hother hac]
      exact ⟨Finset.mem_insert_of_mem (h.known a ha).1, (h.known a ha).2⟩
  · intro a ha b hb he
    rw [hlive] at ha hb
    by_cases hac : a = k.current <;> by_cases hbc : b = k.current
    · rw [hac, hbc]
    · rw [hac, hself, hother hbc] at he
      exact absurd he.symm (hfresh b hb)
    · rw [hbc, hself, hother hac] at he
      exact absurd he (hfresh a ha)
    · rw [hother hac, hother hbc] at he
      exact h.apart a ha b hb he
  · intro x hx
    rw [hqueue'] at hx
    rw [hdirs', hk']
    rcases List.mem_append.mp hx with hx | hx
    · exact ⟨Finset.mem_insert_of_mem (h.queued x hx).1, (h.queued x hx).2⟩
    · rw [List.mem_singleton.mp hx, hcr3]
      exact ⟨Finset.mem_insert_of_mem hold, holdk⟩
  · intro _
    rw [hcur', hlive, hself, hcr3']
    exact ⟨hc, rfl⟩
  · intro h0
    rw [hcur'] at h0
    exact absurd h0 (Spread.ne_zero hspread hc)

theorem Housed.forks (h : Housed k) {child d block : Nat} (hd : d ∉ k.directories)
    (hc : k.current ∈ k.live) (ht : TaskBlock k.live child) :
    Housed (forked { k with directories := insert d k.directories } child d block) := by
  let k1 : kernel_t := { k with directories := insert d k.directories }
  have h1 : Housed k1 := h.creates d
  have hne : child ≠ k.current := fun he => ht.fresh (he ▸ hc)
  have hlive : (forked k1 child d block).live = insert child k.live := forked_live k1 child d block
  have hstate : directory_state (forked k1 child d block) = directory_state k1 := by
    obtain ⟨_, _, _, he⟩ := forked_shape k1 child d block
    rw [he]
    rfl
  have hchild : ((forked k1 child d block).tasks child).task_cr3 = d := by
    obtain ⟨slots, he⟩ := forked_child k1 d block hne
    rw [he]
    rfl
  have hother : ∀ a, a ≠ child → ((forked k1 child d block).tasks a).task_cr3 = (k.tasks a).task_cr3 := by
    intro a ha
    obtain ⟨c1, c2, he⟩ := forked_others k1 d block ha
    rw [he]
  generalize forked k1 child d block = k' at *
  simp only [directory_state, Prod.mk.injEq] at hstate
  obtain ⟨hk', hcr3', hcur', hdirs', hqueue', hfrees'⟩ := hstate
  have hmem : ∀ a ∈ k'.live, a ≠ child → a ∈ k.live := by
    intro a ha hac
    rw [hlive] at ha
    exact (Finset.mem_insert.mp ha).resolve_left hac
  have hfresh : ∀ a ∈ k.live, (k.tasks a).task_cr3 ≠ d := fun a ha he => hd (he ▸ (h.known a ha).1)
  refine ⟨⟨?_, ?_, ?_⟩, ?_, ?_, ?_, ?_, ?_, ?_⟩
  · rw [hfrees']
    exact h.safe
  · rw [hqueue']
    exact h.once
  · intro x hx a ha
    rw [hqueue'] at hx
    by_cases hac : a = child
    · rw [hac, hchild]
      exact fun he => hd (he ▸ (h.queued x hx).1)
    · rw [hother a hac]
      exact h.unowned x hx a (hmem a ha hac)
  · rw [hk', hdirs']
    exact h1.kernel_directory
  · intro a ha
    rw [hdirs', hk']
    by_cases hac : a = child
    · rw [hac, hchild]
      exact ⟨Finset.mem_insert_self _ _, fun he => hd (he ▸ h.kernel_directory)⟩
    · rw [hother a hac]
      exact h1.known a (hmem a ha hac)
  · intro a ha b hb he
    by_cases hac : a = child <;> by_cases hbc : b = child
    · rw [hac, hbc]
    · rw [hac, hchild, hother b hbc] at he
      exact absurd he.symm (hfresh b (hmem b hb hbc))
    · rw [hbc, hchild, hother a hac] at he
      exact absurd he (hfresh a (hmem a ha hac))
    · rw [hother a hac, hother b hbc] at he
      exact h.apart a (hmem a ha hac) b (hmem b hb hbc) he
  · intro x hx
    rw [hqueue'] at hx
    rw [hdirs', hk']
    exact h1.queued x hx
  · intro h0
    rw [hcur'] at h0 ⊢
    obtain ⟨hcl, hcr3⟩ := h.loaded h0
    have hcc : k1.current ≠ child := hne.symm
    rw [hlive, hother _ hcc, hcr3']
    exact ⟨Finset.mem_insert_of_mem hcl, hcr3⟩
  · intro h0
    rw [hcur'] at h0
    rw [hqueue']
    exact h.unstarted h0

/-- The directory of a dead task is freed with it. -/
theorem Housed.buries (h : Housed k) {child : Nat} (hl : child ∈ k.live) (hc : k.current ∈ k.live)
    (hne : k.current ≠ child) (hspread : Spread k.live) :
    Housed { free_task_directory k child with
      toStore := free_task (free_task_directory k child).toStore child } := by
  obtain ⟨hknown, hkernel⟩ := h.known child hl
  obtain ⟨-, hcr3⟩ := h.loaded (Spread.ne_zero hspread hc)
  have hapart : ∀ a ∈ k.live.erase child, (k.tasks a).task_cr3 ≠ (k.tasks child).task_cr3 := by
    intro a ha he
    exact Finset.ne_of_mem_erase ha (h.apart a (Finset.mem_of_mem_erase ha) child hl he)
  have hloaded : (k.tasks child).task_cr3 ≠ k.cr3 := by
    rw [hcr3]
    exact (hapart _ (Finset.mem_erase.mpr ⟨hne, hc⟩)).symm
  have hfree : free_task_directory k child =
      free_directory k (k.tasks child).task_cr3 (k.live.erase child) := if_pos hkernel
  rw [hfree]
  refine ⟨⟨freed_safe hknown hloaded hapart h.safe, h.once, ?_⟩, ?_, ?_, ?_, ?_, ?_, ?_⟩
  · intro d hd a ha
    exact h.unowned d hd a (Finset.mem_of_mem_erase ha)
  · exact Finset.mem_erase.mpr ⟨hkernel.symm, h.kernel_directory⟩
  · intro a ha
    obtain ⟨h1, h2⟩ := h.known a (Finset.mem_of_mem_erase ha)
    exact ⟨Finset.mem_erase.mpr ⟨hapart a ha, h1⟩, h2⟩
  · intro a ha b hb he
    exact h.apart a (Finset.mem_of_mem_erase ha) b (Finset.mem_of_mem_erase hb) he
  · intro d hd
    obtain ⟨h1, h2⟩ := h.queued d hd
    exact ⟨Finset.mem_erase.mpr ⟨(h.unowned d hd child hl).symm, h1⟩, h2⟩
  · intro _
    exact ⟨Finset.mem_erase.mpr ⟨hne, hc⟩, hcr3⟩
  · exact h.unstarted

theorem Housed.reaps (h : Housed k) {child head : Nat} (hl : child ∈ k.live) (hc : k.current ∈ k.live)
    (hne : k.current ≠ child) (hspread : Spread k.live) : Housed (reaped k child head) := by
  have hslots := (release_resources_only k.toStore child).1
  unfold reaped
  dsimp only
  generalize release_resources k.toStore child = s at *
  let k1 := cut { k with toStore := s } k.current head
  have hlive : k1.live = k.live := (cut_rest _ _ _).1.trans hslots.live
  have hstate : directory_state k1 = directory_state k := by
    obtain ⟨_, _, _, he⟩ := cut_shape { k with toStore := s } k.current head
    show directory_state (cut { k with toStore := s } k.current head) = _
    rw [he]
    rfl
  have htask : ∀ a, (k1.tasks a).task_cr3 = (k.tasks a).task_cr3 := by
    intro a
    obtain ⟨slots, hs⟩ := hslots.task a
    have hsa : (({ k with toStore := s } : kernel_t).tasks a).task_cr3 = (k.tasks a).task_cr3 := by
      show (s.tasks a).task_cr3 = _
      rw [hs]
    refine Eq.trans ?_ hsa
    by_cases hac : a = k.current
    · rw [hac]
      exact congrArg (fun t => t.task_cr3) (cut_parent { k with toStore := s } k.current head)
    · exact congrArg (fun t => t.task_cr3) (cut_task { k with toStore := s } k.current head a hac)
  have hcur : k1.current = k.current := congrArg (fun p => p.2.2.1) hstate
  have h1 : Housed k1 := h.congr hstate hlive fun a _ => htask a
  exact h1.buries (hlive ▸ hl) (by rw [hcur, hlive]; exact hc) (hcur.trans_ne hne) (hlive ▸ hspread)

/-- The directory of the task that gets the processor is loaded. -/
theorem Housed.switches (h : Housed k) {new_task : Nat} (esp : Nat) (hl : new_task ∈ k.live)
    (hspread : Spread k.live) : Housed (switched k new_task esp) := by
  let k1 := if k.current = 0 then k
    else k.setTask k.current { k.tasks k.current with task_esp := esp }
  have h1 : Housed k1 ∧ k1.live = k.live := by
    show Housed (if _ then _ else _) ∧ (if _ then _ else _ : kernel_t).live = _
    split
    · exact ⟨h, rfl⟩
    · exact ⟨h.of_setTask rfl, rfl⟩
  obtain ⟨h1, hlive⟩ := h1
  have hshape : switched k new_task esp = { k1 with
      task_manager := { k1.task_manager with task_current := new_task }
      esp0 := (k1.tasks new_task).stack_top
      kernel_esp := if (k1.tasks new_task).task_is_user then k1.kernel_esp
        else (k1.tasks new_task).task_esp + 64
      cr3 := (k1.tasks new_task).task_cr3 } := rfl
  rw [hshape]
  refine ⟨⟨h1.safe, h1.once, h1.unowned⟩, h1.kernel_directory, h1.known, h1.apart, h1.queued, ?_, ?_⟩
  · intro _
    exact ⟨hlive ▸ hl, rfl⟩
  · intro h0
    exact absurd h0 (Spread.ne_zero hspread hl)

/-! ## All that happens -/

/-- Every fork gets a page directory. -/
def ownDirectories : Rules := { anything with fork := fun _ page_directory => page_directory ≠ none }

theorem Housed.of_slots (h : Housed k) {s : Store} {t : Nat} (hs : OnlySlots t k.toStore s) :
    Housed { k with toStore := s } := by
  refine h.congr rfl hs.live fun a _ => ?_
  obtain ⟨slots, ha⟩ := hs.task a
  show (s.tasks a).task_cr3 = _
  rw [ha]

theorem Housed.created (h : Housed k) {k1 : kernel_t} {task_cr3 : Nat} {page_directory : Option Nat}
    (hd : create_directory k page_directory = some (k1, task_cr3)) : Housed k1 := by
  obtain ⟨-, -, rfl⟩ | ⟨-, -, rfl⟩ := create_directory_cases hd
  · exact h
  · exact h.creates _

theorem Housed.act (h : Housed k) (ht : Tree k order ns) (hact : Act ownDirectories k k') :
    Housed k' := by
  cases hact with
  | same hv =>
    have hs := congrArg directory_state hv
    refine h.congr hs (congrArg (fun k => k.live) hv) fun a _ => ?_
    have hp := congrArg (fun t => t.task_cr3) (view_task hv a)
    exact hp
  | freed => exact h.destroys
  | pressed scancode =>
    have h1 : Housed (buffered k scancode) := h.congr rfl rfl fun _ _ => rfl
    refine h1.congr rfl rfl fun a _ => ?_
    rw [(awakened_task (buffered k scancode) _ _ a).1]
  | called data =>
    unfold load_execution
    split
    · exact h
    · exact h.congr rfl rfl fun _ _ => rfl
  | opened _ hr => exact h.of_slots (register_only hr).1
  | closed i => exact h.of_slots (remove_only k.toStore k.current i).1
  | flagged => exact h.congr rfl rfl fun _ _ => rfl
  | took => exact h.congr rfl rfl fun _ _ => rfl
  | waitsKey => exact h.of_setTask rfl
  | waitsChild => exact h.of_setTask rfl
  | retries => exact h.of_setTask rfl
  | finished => exact h.of_setTask rfl
  | handles => exact h.of_setTask rfl
  | forked hc _ _ hrule hd hb _ =>
    obtain ⟨hnone, -⟩ | ⟨-, hfresh, rfl⟩ := create_directory_cases hd
    · exact absurd hnone hrule
    · exact h.forks hfresh hc hb
  | leaked hd => exact h.created hd
  | executed hc _ hd hne =>
    obtain ⟨-, h0, -⟩ | ⟨-, hfresh, rfl⟩ := create_directory_cases hd
    · exact absurd h0 hne
    · exact h.executes hfresh hc ht.spread _
  | @exited a _ _ _ =>
    have hs : directory_state (kernel.exited k a) = directory_state k := by
      unfold kernel.exited
      dsimp only
      split <;> rfl
    refine h.congr hs (exited_live k a) fun b _ => ?_
    obtain ⟨state, he⟩ := exited_task k a b
    rw [he]
  | reaped hc hl _ hp hb hn => exact h.reaps hl hc (ht.reaper_ne hp hb hn) ht.spread
  | roused => exact h.of_setTask rfl
  | reloaded =>
    refine ⟨⟨h.safe, h.once, h.unowned⟩, h.kernel_directory, h.known, h.apart, h.queued, ?_,
      h.unstarted⟩
    intro h0
    exact ⟨(h.loaded h0).1, rfl⟩
  | @switched new_task esp hl _ => exact h.switches esp hl ht.spread

/-! ## Runs -/

/-- A check that a fork gets a directory. -/
def gets_directory (k : kernel_t) : Interrupt → Bool
  | .syscall data answers =>
    decide (call (load_execution k data) = SYSCALL_FORK → answers.page_directory ≠ none)
  | _ => true

theorem gets_directory_allowed (k : kernel_t) (i : Interrupt) (h : gets_directory k i = true) :
    ownDirectories.Allow k i := by
  cases i with
  | syscall data answers =>
    have hfork : call (load_execution k data) = SYSCALL_FORK → answers.page_directory ≠ none :=
      of_decide_eq_true h
    exact ⟨hfork, fun _ _ _ => trivial, fun _ _ => trivial, fun _ => trivial⟩
  | _ => trivial

/-- A child gets a new program and ends, and init reaps it. -/
def childExecutes : List Interrupt :=
  initRuns ++ [forks 2, calls SYSCALL_WAITPID 2 0 0,
    .syscall (registers SYSCALL_EXECVE 0x8048000 0 0) { noAnswers with
      page_directory := some 0x20000
      loaded := some ⟨0x8048000, KERNEL_STACK_TOP - 72, 0x8050000⟩ },
    calls SYSCALL_EXIT 0 0 0, calls SYSCALL_WAITPID 2 0 0]

/-- A fork without memory for a directory. -/
def forksWithoutDirectory (i : Nat) : Interrupt :=
  .syscall (registers SYSCALL_FORK 0 0 0) { noAnswers with
    task_block := taskAt i
    node_block := nodeAt i }

/-- Two children have no directory of their own, and one of them is killed and reaped before they run. -/
def twoWithoutDirectory : List Interrupt :=
  initRuns ++ [forksWithoutDirectory 2, forksWithoutDirectory 3, calls SYSCALL_KILL 2 9 0,
    calls SYSCALL_WAITPID 2 0 0]

end alura_os.kernel
