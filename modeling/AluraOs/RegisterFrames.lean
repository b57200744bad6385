-- The register frame of a user task: eighteen words at the top of its kernel stack,
-- whoever put them there. So a fork, which trusts the stack pointer that was saved last,
-- copies the frame of the call itself.
import AluraOs.Changes
import AluraOs.ForkLaws

namespace alura_os.kernel

open alura_os.memory alura_os.memory_paging alura_os.task_manager alura_os.resource
open alura_os.memory_bitmap
open task_state_t
open alura_os.elf_executable (loaded_task push_words first_frame task_manager_prepare_new_stack
  task_manager_prepare_new_stack_with_args)

variable {k k' k1 : kernel_t} {scope : Scope}

/-! ## Pushes -/

/-- The words that an interrupt from user mode pushes, in their order: five by the processor,
two by the stub of the vector and eleven by `isr_stub_handler` or `irq_stub_handler`. -/
def stub_pushes (r : register_interrupt_data_t) : List Nat :=
  [r.ss, r.useresp, r.eflags, r.cs, r.eip] ++ [r.error_code, r.interrupt_index] ++
    [r.eax, r.ecx, r.edx, r.ebx, r.ebp, r.esi, r.edi, r.ds, r.es, r.fs, r.gs]

/-- The words pushed, from the lowest address up, are those of the record. -/
theorem stub_pushes_reverse (r : register_interrupt_data_t) :
    (stub_pushes r).reverse = r.toWords := rfl

theorem push_words_cursor (ws : List Nat) : ∀ {m m' : Machine} {cursor cursor' : Nat},
    push_words m cursor ws = some (m', cursor') →
    (cursor' + 4 * ws.length) % 0x100000000 = cursor % 0x100000000 ∧
      (ws ≠ [] → cursor' < 0x100000000) := by
  induction ws with
  | nil =>
    intro m m' cursor cursor' h
    cases h
    simp
  | cons w ws ih =>
    intro m m' cursor cursor' h
    obtain ⟨m1, -, h⟩ := Option.bind_eq_some_iff.mp h
    obtain ⟨h1, h2⟩ := ih h
    have hlt : sub32 cursor 4 < 0x100000000 := Nat.mod_lt _ (by decide)
    refine ⟨?_, fun _ => ?_⟩
    · rw [List.length_cons]
      unfold sub32 at h1
      omega
    · by_cases hw : ws = []
      · subst hw
        cases h
        exact hlt
      · exact h2 hw

/-! ## The first frame -/

/-- A stack pointer that the preparation of a user stack gives. -/
def Prepared (esp : Nat) : Prop :=
  ∃ m task_page_directory eip argv m', task_manager_prepare_new_stack_with_args m
    task_page_directory true eip argv =
      some (m', elf_executable.task_manager_result_t.TASK_MANAGER_RESULT_OK, some esp)

theorem prepare_new_stack_esp {m m' : Machine} {task_page_directory eip user_esp esp : Nat}
    (h : task_manager_prepare_new_stack m task_page_directory true eip user_esp = some (m', esp)) :
    esp = KERNEL_STACK_TOP - REGISTER_FRAME_SIZE := by
  unfold task_manager_prepare_new_stack at h
  obtain ⟨⟨m1, result⟩, -, h⟩ := Option.bind_eq_some_iff.mp h
  obtain ⟨⟨m2, task_stack_base⟩, -, h⟩ := Option.bind_eq_some_iff.mp h
  obtain ⟨⟨m3, task_stack_top⟩, hpush, h⟩ := Option.bind_eq_some_iff.mp h
  obtain ⟨m4, -, h⟩ := Option.bind_eq_some_iff.mp h
  cases h
  obtain ⟨hcursor, hlt⟩ := push_words_cursor _ hpush
  have hlen : (first_frame true eip user_esp).length = 18 := rfl
  have hlt := hlt (by rw [← List.length_pos_iff, hlen]; decide)
  rw [hlen] at hcursor
  unfold u32 PAGE_SIZE at hcursor
  unfold sub32 KERNEL_STACK_TOP PAGE_SIZE REGISTER_FRAME_SIZE
  omega

theorem Prepared.esp {esp : Nat} (h : Prepared esp) :
    esp = KERNEL_STACK_TOP - REGISTER_FRAME_SIZE := by
  obtain ⟨m, d, eip, argv, m', h⟩ := h
  unfold task_manager_prepare_new_stack_with_args at h
  rw [if_pos rfl] at h
  obtain ⟨⟨m1, user_stack_phys⟩, -, h⟩ := Option.bind_eq_some_iff.mp h
  dsimp only at h
  split at h
  · cases h
  obtain ⟨⟨m2, args_result, user_esp⟩, -, h⟩ := Option.bind_eq_some_iff.mp h
  dsimp only at h
  split at h
  · cases h
  obtain ⟨⟨m3, esp1⟩, he, h⟩ := Option.bind_eq_some_iff.mp h
  cases h
  exact prepare_new_stack_esp he

/-! ## Runs -/

/-- The saved stack pointer of a user task leaves room for one frame. -/
def AtTop (t : task_t) : Prop :=
  t.task_is_user = true → t.stack_base = KERNEL_STACK_TOP - PAGE_SIZE ∧
    t.stack_top = KERNEL_STACK_TOP ∧ t.task_esp = KERNEL_STACK_TOP - REGISTER_FRAME_SIZE

/-- The processor enters the kernel at the top of the stack of the running task. -/
structure FramesAtTop (k : kernel_t) : Prop where
  tasks : ∀ a, AtTop (k.tasks a)
  esp0 : in_user_mode k = true → k.esp0 = KERNEL_STACK_TOP

theorem AtTop.congr {t t' : task_t} (h : belongings t' = belongings t) (ht : AtTop t) : AtTop t' := by
  intro hu
  have hb := congrArg (fun t => t.stack_base) h
  have htop := congrArg (fun t => t.stack_top) h
  have he := congrArg (fun t => t.task_esp) h
  have huser := congrArg (fun t => t.task_is_user) h
  obtain ⟨h1, h2, h3⟩ := ht (huser.symm.trans hu)
  exact ⟨hb.trans h1, htop.trans h2, he.trans h3⟩

theorem AtTop.child {parent : task_t} (h : AtTop parent) (task_id task_cr3 : Nat)
    (slots : Nat → Nat) :
    AtTop { child_record parent task_id task_cr3 (sub32 parent.task_esp parent.stack_base) with
      resources := slots } := by
  intro hu
  obtain ⟨h1, -, h3⟩ := h hu
  refine ⟨rfl, rfl, ?_⟩
  show u32 (KERNEL_STACK_TOP - PAGE_SIZE + sub32 parent.task_esp parent.stack_base) = _
  rw [h1, h3]
  decide

theorem in_user_mode_iff : in_user_mode k = true ↔ k.current ≠ 0 ∧ (caller k).task_is_user = true := by
  unfold in_user_mode
  exact decide_eq_true_iff

/-- The frames stay where they are, and the running task in its mode. -/
def Steady (k k' : kernel_t) : Prop := FramesAtTop k' ∧ in_user_mode k' = in_user_mode k

theorem FramesAtTop.steady (h : FramesAtTop k) (hc : k'.current = k.current) (he : k'.esp0 = k.esp0)
    (hu : (k'.tasks k.current).task_is_user = (k.tasks k.current).task_is_user)
    (ht : ∀ a, AtTop (k'.tasks a)) : Steady k k' := by
  have hmode : in_user_mode k' = in_user_mode k := by
    unfold in_user_mode
    rw [hc, hu]
  exact ⟨⟨ht, fun hm => he.trans (h.esp0 (hmode.symm.trans hm))⟩, hmode⟩

theorem FramesAtTop.keeps (h : FramesAtTop k) (hk : Keeps k k') : Steady k k' := by
  apply h.steady hk.current hk.esp0
  · exact congrArg (fun t => t.task_is_user) (hk.tasks k.current)
  · exact fun a => (h.tasks a).congr (hk.tasks a)

theorem FramesAtTop.setTask (h : FramesAtTop k) {a : Nat} {t : task_t}
    (hu : t.task_is_user = (k.tasks a).task_is_user) (ht : AtTop t) : Steady k (k.setTask a t) := by
  refine h.steady ?_ ?_ ?_ ?_
  · rfl
  · rfl
  · by_cases ha : k.current = a
    · subst ha
      simpa [kernel_t.setTask] using hu
    · simp [kernel_t.setTask, ha]
  · exact forall_setTask h.tasks ht

theorem FramesAtTop.ticked (h : FramesAtTop k) : Steady k (count_tick k) := by
  unfold count_tick
  dsimp only
  split
  · exact ⟨h, rfl⟩
  split
  · exact h.setTask rfl (h.tasks k.current)
  · exact h.setTask rfl (h.tasks k.current)

theorem FramesAtTop.inherited (h : FramesAtTop k) (task : Nat) : Steady k (inherit_ticks k task) := by
  unfold inherit_ticks
  dsimp only
  split
  · exact h.setTask rfl (h.tasks _)
  · exact ⟨h, rfl⟩

theorem FramesAtTop.born (h : FramesAtTop k) (child task_cr3 : Nat) :
    Steady k (enrolled k child task_cr3) := by
  have hchild := (h.tasks k.current).child k.task_id task_cr3 (fun _ => 0)
  refine h.steady ?_ ?_ ?_ ?_
  · rfl
  · rfl
  · by_cases ha : k.current = child
    · subst ha
      simp [enrolled, new_task, child_record, caller]
    · simp [enrolled, new_task, ha]
  · exact forall_setTask (k := k) h.tasks hchild

theorem FramesAtTop.change (h : FramesAtTop k)
    (hp : ∀ loaded, scope.exec loaded → Prepared loaded.task_esp)
    (hc : Change scope k k') (hn : k'.hits (fun _ => true) = k.hits fun _ => true) :
    Steady k k' := by
  cases hc with
  | stays hk => exact h.keeps hk.keeps
  | scheduled _ he => exact h.keeps (keeps_schedule he)
  | ticked => exact h.ticked
  | called data =>
    unfold load_execution
    split
    · exact ⟨h, rfl⟩
    · exact h.steady rfl rfl rfl h.tasks
  | retries => exact h.setTask rfl (h.tasks _)
  | finished a => exact h.setTask rfl (h.tasks a)
  | signalled => exact h.setTask rfl (h.tasks _)
  | returned => exact h.setTask rfl (h.tasks k.current)
  | handles => exact h.setTask rfl (h.tasks k.current)
  | born task_cr3 _ _ => exact h.born _ task_cr3
  | loaded task_cr3 hl =>
    refine h.setTask ?_ ?_
    · rfl
    · intro hu
      obtain ⟨h1, h2, -⟩ := h.tasks k.current hu
      exact ⟨h1, h2, (hp _ hl).esp⟩
  | inherited task => exact h.inherited task
  | freed task => exact ⟨⟨h.tasks, h.esp0⟩, rfl⟩
  | strayed hs =>
    obtain ⟨task, i, v, k1, hw, -⟩ := hs.hits _ hn
    cases hw

/-- The switch saves the stack pointer of the stub, which is the top for a user task. -/
theorem FramesAtTop.switch (h : FramesAtTop k) {esp : Nat}
    (hesp : in_user_mode k = true → esp = KERNEL_STACK_TOP - REGISTER_FRAME_SIZE) :
    FramesAtTop (task_manager_task_switch k esp) := by
  have hsaved : ∀ a, AtTop ((if k.current = 0 then k
      else k.setTask k.current { k.tasks k.current with task_esp := esp }).tasks a) := by
    split
    · exact h.tasks
    · rename_i hc
      apply forall_setTask h.tasks
      intro hu
      obtain ⟨h1, h2, -⟩ := h.tasks k.current hu
      exact ⟨h1, h2, hesp (in_user_mode_iff.mpr ⟨hc, hu⟩)⟩
  unfold task_manager_task_switch
  constructor
  · exact hsaved
  · intro hm
    obtain ⟨-, hu⟩ := in_user_mode_iff.mp hm
    exact (hsaved _ hu).2.1

theorem FramesAtTop.left (h : FramesAtTop k) {esp : Nat}
    (hesp : in_user_mode k = true → esp = KERNEL_STACK_TOP - REGISTER_FRAME_SIZE) :
    FramesAtTop (leave_interrupt k esp) := by
  unfold leave_interrupt
  split
  · apply FramesAtTop.switch
    · exact ⟨h.tasks, h.esp0⟩
    · exact hesp
  · exact h

theorem entry_esp_at_top (h : FramesAtTop k) (hu : in_user_mode k = true) :
    entry_esp k = KERNEL_STACK_TOP - REGISTER_FRAME_SIZE := by
  unfold entry_esp
  rw [if_pos hu, h.esp0 hu]
  decide

/-- One interrupt in which no store goes astray. -/
theorem FramesAtTop.interrupt (h : FramesAtTop k) {i : Interrupt}
    (hl : Loads (fun loaded => Prepared loaded.task_esp) k i)
    (hs : ∀ k1, handler k i = some k1 → k1.strays = k.strays)
    (hr : interrupt k i = some k') : FramesAtTop k' := by
  rw [interrupt_eq] at hr
  obtain ⟨k1, he, rfl⟩ := Option.map_eq_some_iff.mp hr
  have hsteady : Steady k k1 := by
    refine (handler_changes hl he).keep_unhit (fun _ => true) ?_ ?_ ⟨h, rfl⟩
    · rintro k2 k3 hc hn ⟨h2, hm2⟩
      obtain ⟨h3, hm3⟩ := h2.change (fun _ hl => hl) hc hn
      exact ⟨h3, hm3.trans hm2⟩
    · exact congrArg (List.countP fun _ => true) (hs k1 he)
  apply hsteady.1.left
  intro hm
  exact entry_esp_at_top h (hsteady.2.symm.trans hm)

/-- The boot gives init a stack, and so does its load. -/
def PreparedBoot (boot : Boot) : Prop :=
  Prepared boot.init_esp ∧ ∀ loaded, boot.load.loaded = some loaded → Prepared loaded.task_esp

theorem frames_after_boot {boot : Boot} (hp : PreparedBoot boot)
    (h : kernel_initialize boot = some k) : FramesAtTop k := by
  have huser : ∀ {t : task_t}, t.task_is_user = false → AtTop t := by
    intro t ht hu
    rw [ht] at hu
    cases hu
  refine ⟨boot_tasks (fun t t' => AtTop.congr) (huser rfl) (huser rfl) ?_ ?_ h, ?_⟩
  · exact fun _ => ⟨rfl, rfl, hp.1.esp⟩
  · intro t loaded task_cr3 hl ht hu
    obtain ⟨h1, h2, -⟩ := ht hu
    exact ⟨h1, h2, (hp.2 loaded hl).esp⟩
  · intro hm
    exact absurd (boot_spec h).current (in_user_mode_iff.mp hm).1

theorem AnyRun.frames
    (h : AnyRun PreparedBoot (fun loaded => Prepared loaded.task_esp) Orderly k) :
    FramesAtTop k := by
  induction h with
  | boot hp hb => exact frames_after_boot hp hb
  | step hany ho hl hr ih =>
    exact ih.interrupt hl (fun k1 hk => hany.run.handler_strays ho hk) hr

/-- No program runs in the idle task. -/
theorem Run.idle_kernel (h : Run anything k) : (k.tasks k.idle).task_is_user = false := by
  refine h.keep (fun _ hk => hk.user.1) ?_
  intro k k' order ns ht hact hp
  have hidle : k'.idle = k.idle := congrArg Prod.fst hact.constant
  obtain ⟨order', ns', ht'⟩ := ht.act hact
  have hlive := ht'.idle
  rw [hidle] at hlive ⊢
  exact (congrArg (fun l => l.2.2.2.2) (hact.lasting ht ht.idle hlive)).trans hp

/-! ## The frame in memory -/

theorem mapM_some {α β : Type} {g : α → Option β} {h : α → β} (l : List α)
    (hg : ∀ x ∈ l, g x = some (h x)) : l.mapM g = some (l.map h) := by
  induction l with
  | nil => rfl
  | cons x l ih =>
    rw [List.mapM_cons, hg x List.mem_cons_self, ih fun y hy => hg y (List.mem_cons_of_mem x hy)]
    rfl

/-- The frame whose lowest word is at `esp`. -/
def frame_at (m : Machine) (esp : Nat) : Option register_interrupt_data_t :=
  ((List.range 18).mapM fun i => m.load32 (u32 (esp + 4 * i))).map fun words =>
    register_interrupt_data_t.ofWords fun i => words.getD i 0

/-- The frame at the top of a kernel stack, in the last words of its page. -/
theorem frame_at_top {m : Machine} {s : Nat}
    (h : ∀ v, KERNEL_STACK_TOP - PAGE_SIZE ≤ v → v < KERNEL_STACK_TOP → m.translate v = some s) :
    frame_at m (KERNEL_STACK_TOP - REGISTER_FRAME_SIZE) =
      some (register_interrupt_data_t.ofWords fun i => m.frames s (1006 + i)) := by
  have hload : ∀ i ∈ List.range 18,
      m.load32 (u32 (KERNEL_STACK_TOP - REGISTER_FRAME_SIZE + 4 * i)) =
        some (m.frames s (1006 + i)) := by
    intro i hi
    rw [List.mem_range] at hi
    have hv : u32 (KERNEL_STACK_TOP - REGISTER_FRAME_SIZE + 4 * i) = 0xCFFFFFB8 + 4 * i := by
      unfold u32 KERNEL_STACK_TOP REGISTER_FRAME_SIZE
      omega
    rw [hv]
    unfold Machine.load32
    rw [h _ (by unfold KERNEL_STACK_TOP PAGE_SIZE; omega) (by unfold KERNEL_STACK_TOP; omega)]
    simp only [Option.map_some, Option.some.injEq]
    congr 1
    omega
  unfold frame_at
  rw [mapM_some _ hload]
  rfl

/-- The indices of an address in the page of a kernel stack. -/
theorem stack_index {v : Nat} (hlo : KERNEL_STACK_TOP - PAGE_SIZE ≤ v) (hhi : v < KERNEL_STACK_TOP) :
    page_directory_index v = 831 ∧ page_table_index v = 1023 := by
  unfold KERNEL_STACK_TOP PAGE_SIZE at hlo
  unfold KERNEL_STACK_TOP at hhi
  unfold page_directory_index page_table_index
  omega

theorem translate_eq {m : Machine} {v f : Nat}
    (h1 : present (m.frames m.dir (page_directory_index v)) = true)
    (h2 : present (m.frames (frameOf (m.frames m.dir (page_directory_index v)))
      (page_table_index v)) = true)
    (h3 : frameOf (m.frames (frameOf (m.frames m.dir (page_directory_index v)))
      (page_table_index v)) = f) : m.translate v = some f := by
  unfold Machine.translate
  dsimp only
  rw [if_pos ⟨h1, h2⟩, h3]

theorem own_stack {m : Machine} (h : KernelStack m) (v : Nat)
    (hlo : KERNEL_STACK_TOP - PAGE_SIZE ≤ v) (hhi : v < KERNEL_STACK_TOP) :
    m.translate v = some (frameOf (userEntry m 831 1023)) := by
  obtain ⟨hd, ht⟩ := stack_index hlo hhi
  apply translate_eq
  · rw [hd]
    exact h.pde_present
  · rw [hd, ht]
    exact h.pte_present
  · rw [hd, ht]
    rfl

/-- In the address space of the child, its kernel stack is the page that the fork filled. -/
theorem child_stack {m m1 mb m3 m4 m' : Machine} {n s T : Nat}
    (h : Forked m m1 mb m3 m4 m' n s T) (v : Nat) (hlo : KERNEL_STACK_TOP - PAGE_SIZE ≤ v)
    (hhi : v < KERNEL_STACK_TOP) :
    ({ m' with cr3 := n * 4096 } : Machine).translate v = some s := by
  obtain ⟨hd, ht⟩ := stack_index hlo hhi
  obtain ⟨hd', ht'⟩ := stack_index (le_refl (KERNEL_STACK_TOP - PAGE_SIZE)) (by decide)
  have hdir : ({ m' with cr3 := n * 4096 } : Machine).dir = n := by
    show n * 4096 / 4096 = n
    omega
  have hnB : n ≠ m1.bounceTable := h.space.bounce_taken.ne h.dir_lt h.dir_fresh
  -- The kernel's directory has no entry for stacks, so the table is a new one too.
  have hpde0 : present ((withDirectory m1 n).frames n 831) = false := by
    have hwords : (withDirectory m1 n).frames n = newDirectory m1 (n * 4096) := by
      unfold withDirectory
      simp
    rw [hwords]
    exact h.space.stack
  have hT := h.stack.table_new (by rw [hd']; exact hpde0)
  have hpde : m'.frames n 831 = m3.frames n 831 := by
    rw [h.child_words, h.copied.upper 831 (by omega), h.window n hnB]
  have hTB : T ≠ m1.bounceTable :=
    ((h.dir_kept.taken h.space.bounce_taken).ne hT.1 hT.2.1)
  have hTtaken : Taken mb.memory_bitmap T := by
    intro _
    rw [h.bitmap]
    exact (h.stack.used T).mpr (Or.inr (Or.inr ⟨by rw [hd']; exact hpde0, rfl⟩))
  have hTwords : m'.frames T = m3.frames T := by
    rw [h.frames T hTB h.stack.table_ne_page, h.copied.kept T hTtaken h.stack.table_ne_dir, h.window T hTB]
  have hp := h.stack.pde_present
  have hf := h.stack.pde_frame
  have he := h.stack.entry
  rw [hd'] at hp hf
  rw [ht'] at he
  apply translate_eq
  · rw [hdir, hd]
    show present (m'.frames n 831) = true
    rw [hpde]
    exact hp
  · rw [hdir, hd, ht]
    show present (m'.frames (frameOf (m'.frames n 831)) 1023) = true
    rw [hpde, hf, hTwords, he]
    exact present_entry _ _
  · rw [hdir, hd, ht]
    show frameOf (m'.frames (frameOf (m'.frames n 831)) 1023) = s
    rw [hpde, hf, hTwords, he]
    exact frameOf_entry s (by decide)

/-- A fork gives the child the frame of its parent, with 0 in `eax`, where the record of the child
says; the frame of the parent stays. -/
theorem fork_copies_the_frame {m : Machine} {parent : task_t} {growth heap_break : Nat}
    (task_id : Nat) (hk : KernelSpace m) (hu : UserSpace m) (hst : KernelStack m)
    (hbase : parent.stack_base = KERNEL_STACK_TOP - PAGE_SIZE)
    (hesp : parent.task_esp = KERNEL_STACK_TOP - REGISTER_FRAME_SIZE)
    (hal : heap_break % 4096 = 0) (hlo : KERNEL_HEAP_VIRTUAL_START ≤ heap_break)
    (hhi : heap_break + growth * 4096 ≤ KERNEL_HEAP_VIRTUAL_END + 1)
    (hs : 3 ≤ (freeSlots m).card)
    (hf : 2 * growth + 3 + copyNeed m ≤ (freeFrames m.memory_bitmap).card) :
    ∃ m' child frame, alura_os.task_manager.task_manager_task_copy m growth heap_break task_id parent =
        some (m', child) ∧ child.task_id = task_id ∧
      frame_at m parent.task_esp = some frame ∧ frame_at m' parent.task_esp = some frame ∧
      frame_at { m' with cr3 := child.task_cr3 } child.task_esp = some { frame with eax := 0 } := by
  obtain ⟨m1, mb, m3, m4, m', n, s, T, hrun, h⟩ :=
    task_copy_spec task_id hk hu hst hbase hesp hal hlo hhi hs hf
  have hchild : (child_record parent task_id (n * 4096) 4024).task_esp =
      KERNEL_STACK_TOP - REGISTER_FRAME_SIZE := by
    show u32 (KERNEL_STACK_TOP - PAGE_SIZE + 4024) = _
    decide
  have hframe := frame_at_top (own_stack hst)
  have hcr3 : m'.dir = m.dir := by
    unfold Machine.dir
    rw [h.cr3, h.copied.cr3, h.begun.cr3, h.grown.cr3]
  have hparent : ∀ v, KERNEL_STACK_TOP - PAGE_SIZE ≤ v → v < KERNEL_STACK_TOP →
      m'.translate v = some (frameOf (userEntry m 831 1023)) := by
    intro v hlo hhi
    rw [← own_stack hst v hlo hhi]
    obtain ⟨hd, -⟩ := stack_index hlo hhi
    unfold Machine.translate
    dsimp only
    rw [hcr3, h.old hk.dir_taken hk.dir_apart, hd, h.old hst.table_taken hst.table_apart]
  refine ⟨m', _, _, hrun, rfl, hesp ▸ hframe, ?_, ?_⟩
  · rw [hesp, frame_at_top hparent, h.old hst.frame_taken hst.frame_apart]
  · have hstack : (child_record parent task_id (n * 4096) 4024).task_cr3 = n * 4096 := rfl
    rw [hchild, hstack, frame_at_top (child_stack h)]
    show some (register_interrupt_data_t.ofWords fun i => m'.frames s (1006 + i)) = _
    rw [h.stack_words]
    rfl

/-! ## The law -/

/-- A machine on which a fork finds what it needs: the address space of the parent, three slots of
the bounce window and enough free frames. -/
structure ForkReady (m : Machine) (growth heap_break : Nat) : Prop where
  space : KernelSpace m
  user : UserSpace m
  stack : KernelStack m
  aligned : heap_break % 4096 = 0
  low : KERNEL_HEAP_VIRTUAL_START ≤ heap_break
  high : heap_break + growth * 4096 ≤ KERNEL_HEAP_VIRTUAL_END + 1
  slots : 3 ≤ (freeSlots m).card
  frames : 2 * growth + 3 + copyNeed m ≤ (freeFrames m.memory_bitmap).card

/-- The `eax` of a fork is the number of the child, where no store goes astray. -/
theorem fork_eax {answers : Answers} {eax : Nat} (h : syscall_fork k answers = some (k', eax))
    (hs : k'.strays = k.strays) :
    ∃ child, child ∉ k.live ∧ child ∈ k'.live ∧ (k'.tasks child).task_id = k.task_id ∧
      eax = k.task_id := by
  obtain ⟨⟨k1, child⟩, hcopy, h⟩ := Option.bind_eq_some_iff.mp h
  obtain ⟨k2, hadd, h⟩ := Option.bind_eq_some_iff.mp h
  cases h
  obtain ⟨-, hblock, k0, task_cr3, h0, hid, h1⟩ := task_copy_changes hcopy
  have hparent := h1.trans (stays_setParent k1 child k.current)
  have h2 := (hparent.wanders (wanders_add_child hadd)).unstrayed (hs.trans h0.strays.symm)
  have hchild : (k'.tasks child).task_id = k.task_id := by
    have he := congrArg (fun t => t.task_id) (h2.tasks child)
    have hself : ((enrolled k0 child task_cr3).tasks child).task_id = k0.task_id := by
      simp [enrolled, new_task, child_record]
    exact (he.trans hself).trans hid
  refine ⟨child, hblock.fresh, ?_, hchild, hchild⟩
  rw [h2.live]
  exact Finset.mem_insert_self _ _

/-- A call by a user task lets no store go astray, if it ends no task that has children. -/
theorem Run.call_strays (h : Run anything k) (hm : in_user_mode k = true)
    {data : register_interrupt_data_t} {answers : Answers} {eax : Nat}
    (ho : Orderly k (.syscall data answers))
    (hr : syscall_handler k data answers = some (k', eax)) : k'.strays = k.strays := by
  obtain ⟨hc, hu⟩ := in_user_mode_iff.mp hm
  obtain ⟨q, order, ns, hb⟩ := h.between
  have hid : k.current ≠ k.idle := by
    intro he
    unfold caller at hu
    rw [he, h.idle_kernel] at hu
    cases hu
  exact (syscall_handled (hb.calling hc hid) hr ho (anything_allows k _)).acts.strays

theorem fork_is_orderly {data : register_interrupt_data_t} {answers : Answers}
    (h : call (load_execution k data) = SYSCALL_FORK) : Orderly k (.syscall data answers) := by
  rintro task (⟨hc, -⟩ | ⟨hc, -⟩)
  · rw [h] at hc
    cases hc
  · rw [h] at hc
    cases hc

/-- A machine whose tables for stacks are there. -/
def tabledMachine : Machine :=
  { smallMachine with frames := fun f i => if f = 4 ∧ i = 767 then 0x5007 else smallFrames f i }

theorem prepared_top : Prepared (KERNEL_STACK_TOP - REGISTER_FRAME_SIZE) := by
  have heval : (task_manager_prepare_new_stack_with_args tabledMachine 0xFFFFF000 true 0x8048000
      []).map (fun r => r.2) =
      some (elf_executable.task_manager_result_t.TASK_MANAGER_RESULT_OK,
        some (KERNEL_STACK_TOP - REGISTER_FRAME_SIZE)) := by decide +kernel
  obtain ⟨⟨m', result, esp⟩, hrun, hr⟩ := Option.map_eq_some_iff.mp heval
  cases hr
  exact ⟨tabledMachine, 0xFFFFF000, 0x8048000, [], m', hrun⟩

theorem smallBoot_prepared : PreparedBoot smallBoot := by
  refine ⟨prepared_top, ?_⟩
  intro loaded hl
  cases hl
  exact prepared_top

/-- Timer interrupts load nothing, and end nothing. -/
theorem AnyRun.timers {started : Boot → Prop} {exec : Loaded → Prop} (n : Nat) :
    ∀ {k k' : kernel_t}, AnyRun started exec Orderly k →
      (List.replicate n Interrupt.timer).foldlM interrupt k = some k' →
      AnyRun started exec Orderly k' := by
  induction n with
  | zero =>
    intro k k' h hr
    cases hr
    exact h
  | succ n ih =>
    intro k k' h hr
    rw [List.replicate_succ, List.foldlM_cons] at hr
    obtain ⟨k1, h1, hr⟩ := Option.bind_eq_some_iff.mp hr
    exact ih (AnyRun.step (i := .timer) h (fun _ he => he.elim) trivial h1) hr

theorem small_forkReady : ForkReady smallMachine 0 0xF0000000 where
  space := small_kernelSpace
  user := small_userSpace
  stack := small_kernelStack
  aligned := by decide
  low := by decide
  high := by decide
  slots := by decide
  frames := by rw [small_copyNeed]; decide

/-- A grandchild of init is left to it in a node whose unwritten word points just before the saved stack
pointer of init, and ends. Init reaps it. -/
def stackOverwritten : List Interrupt :=
  initRuns ++ [forks 2, calls SYSCALL_WAITPID ANY_CHILD 0 0, forks 3,
    exitsWithChild 4 (taskAt 1 + 4 - 4), calls SYSCALL_EXIT 0 0 0,
    calls SYSCALL_WAITPID ANY_CHILD 0 0]

end alura_os.kernel
