-- What exec leaves behind: the image of the program, the task that runs it, and
-- after a failure the frames that the load had taken. Which of these it is,
-- is decided by the arguments, the program headers and the free frames.
import AluraOs.LoadLaws

namespace alura_os.elf_executable

open alura_os.memory alura_os.memory_bitmap alura_os.memory_paging alura_os.task_manager Machine
open memory_paging_result_t elf_result_t

/-! ## Frames that a program needs -/

/-- The tables of a directory whose stacks are there. -/
def start_tables (task_is_user : Bool) : Nat → Bool := fun j => task_is_user && decide (j = 767)

/-- The segments have frames enough: one goes to the directory, some to the stacks. -/
def LoadFits (task_is_user : Bool) (argv : List (List Nat)) (phs : List Elf32_Phdr)
    (free : Nat) : Prop :=
  load_need (start_tables task_is_user) phs ≤ free - 1 - stack_need task_is_user argv

instance (task_is_user : Bool) (argv : List (List Nat)) (phs : List Elf32_Phdr) (free : Nat) :
    Decidable (LoadFits task_is_user argv phs free) := inferInstanceAs (Decidable (_ ≤ _))

instance (task_is_user : Bool) (argv : List (List Nat)) (free : Nat) :
    Decidable (StacksFit task_is_user argv free) := inferInstanceAs (Decidable (_ ∧ _))

theorem page_need_congr {T U : Nat → Bool} (h : ∀ j, j < 768 → T j = U j) (count address : Nat)
    (htop : address + count * 4096 ≤ KERNEL_VIRTUAL_SPACE_START) :
    page_need T count address = page_need U count address ∧
      ∀ j, j < 768 → page_tables T count address j = page_tables U count address j := by
  induction count generalizing T U address with
  | zero => exact ⟨rfl, h⟩
  | succ count ih =>
    have hj := (user_page (v := address) (by omega)).1
    obtain ⟨hneed, htables⟩ := ih (T := withTable T address) (U := withTable U address)
      (fun j hj => by unfold withTable; rw [h j hj]) (address + PAGE_SIZE)
      (by unfold PAGE_SIZE; omega)
    unfold page_need page_tables
    rw [hneed, h _ hj]
    exact ⟨rfl, htables⟩

theorem page_need_zero (T U : Nat → Bool) (count address : Nat) :
    (page_need T count address = 0 ↔ page_need U count address = 0) ∧
      (page_need T count address = 0 → page_tables T count address = T) := by
  cases count with
  | zero => exact ⟨Iff.rfl, fun _ => rfl⟩
  | succ count =>
    unfold page_need
    constructor
    · omega
    · omega

theorem segment_need_congr {T U : Nat → Bool} (h : ∀ j, j < 768 → T j = U j) {ph : Elf32_Phdr}
    (hph : BelowKernel ph) : segment_need T ph = segment_need U ph ∧
      ∀ j, j < 768 → segment_tables T ph j = segment_tables U ph j := by
  unfold segment_need segment_tables
  rcases hph with ⟨hmem, -⟩ | ⟨hal, hmem, -⟩
  · obtain ⟨h1, -, h3, h4, h5⟩ := segment_pages hmem
    exact page_need_congr h _ _ (by omega)
  · rw [empty_segment_pages hal hmem]
    exact ⟨rfl, h⟩

theorem load_need_congr {T U : Nat → Bool} (h : ∀ j, j < 768 → T j = U j)
    {phs : List Elf32_Phdr} (hph : ∀ ph ∈ phs, ph.p_type = PT_LOAD → BelowKernel ph) :
    load_need T phs = load_need U phs := by
  induction phs generalizing T U with
  | nil => rfl
  | cons ph rest ih =>
    unfold load_need
    by_cases htype : ph.p_type ≠ PT_LOAD
    · rw [if_pos htype, if_pos htype]
      exact ih h fun q hq => hph q (List.mem_cons_of_mem _ hq)
    · obtain ⟨hneed, htables⟩ :=
        segment_need_congr h (hph ph List.mem_cons_self (not_not.mp htype))
      rw [if_neg htype, if_neg htype, hneed,
        ih htables fun q hq => hph q (List.mem_cons_of_mem _ hq)]

/-- Whether a program needs any frame does not depend on the tables. -/
theorem load_need_zero (T U : Nat → Bool) (phs : List Elf32_Phdr) :
    load_need T phs = 0 ↔ load_need U phs = 0 := by
  induction phs generalizing T U with
  | nil => exact Iff.rfl
  | cons ph rest ih =>
    unfold load_need
    split
    · exact ih T U
    · have hiff := (page_need_zero T U ((segment_end ph - segment_start ph) / PAGE_SIZE)
        (segment_start ph)).1
      have hrest := ih (segment_tables T ph) (segment_tables U ph)
      unfold segment_need
      omega

/-! ## The load of an image -/

theorem stack_page_apart {phs : List Elf32_Phdr}
    (hph : ∀ ph ∈ phs, ph.p_type = PT_LOAD → BelowKernel ph) : ¬ LoadPage phs STACK_PAGE := by
  rintro ⟨ph, hm, htype, hp⟩
  have hlt := (hph ph hm htype).page hp
  revert hlt
  decide

/-- Growth of the kernel heap changes no frame of the program. -/
theorem Loading.owned_words {mb m m' : Machine} {n : Nat} (h : Loading mb m n) (hb : LoadBase mb)
    (he : Extends m m') {f : Nat} (hf : Owned mb m f) : m'.frames f = m.frames f := by
  have hf0 : f ≠ 0 := hf.ne fun _ => hb.space.zero
  funext j
  rcases he.words f j hf0 (fun _ => hf.used) with hw | ⟨hk, -, -⟩
  · exact hw
  · exact absurd rfl (hf.ne (hb.space.kernel_taken f ((h.kernelFrame hb f).mp hk)))

theorem Image.grown {mb m m' : Machine} {n : Nat} (h : Image mb m n) (hb : LoadBase mb)
    (he : Extends m m') : PagesKept m m' n (fun _ => False) := by
  have hframe := fun f => h.loading.owned_words hb he (f := f)
  have hdir := hframe n h.loading.dir_owned
  refine ⟨fun v hv _ => ?_, fun v x hv _ hx => hframe _ (h.page_frame v x hv hx).owned⟩
  unfold Machine.entry
  simp only
  rw [hdir]
  by_cases hp : present (m.frames n (page_directory_index v)) = true
  · rw [hframe _ (h.loading.tables _ hv.private hp).1]
  · simp [hp]

/-- The program headers that the loader reads. -/
def file_headers (data header program_header : List Nat) : List Elf32_Phdr :=
  program_headers data (word32 header 7) (header.getD 44 0 + 256 * header.getD 45 0) 0
    program_header

/-- What the load of an image does when there is a frame for its directory: with frames enough
the task gets the new program, else the load fails with what it has built. -/
theorem load_image_exact {m : Machine} (task : task_t) (data header program_header : List Nat)
    {argv : List (List Nat)} (queue : List Nat) (growth : Nat × Nat) (hb : LoadBase m)
    (hargc : argv.length ≤ TASK_MAX_ARGUMENTS) (hbytes : stringBytes argv ≤ PAGE_SIZE)
    (hph : ∀ ph ∈ file_headers data header program_header, ph.p_type = PT_LOAD → BelowKernel ph)
    (hf : 0 < freeCount m) :
    ∃ n m2 esp, Image m m2 n ∧
      (∀ v, v < KERNEL_VIRTUAL_SPACE_START → v / 4096 ≠ USER_STACK_PAGE →
        ¬ LoadPage (file_headers data header program_header) (v / 4096) →
        m2.entry n v = none) ∧
      elf_load_image m task data header program_header argv queue growth =
        (if LoadFits task.task_is_user argv (file_headers data header program_header) (freeCount m)
          then (memory_paging_queue_to_destroy m2 queue m.cr3 growth).map fun r =>
            (r.1, ELF_RESULT_OK, loaded_task task (word32 header 6) (n * 4096) (esp.getD 0)
              (load_end 0 (file_headers data header program_header)), r.2)
          else some (m2, ELF_RESULT_ALLOCATION_ERROR, task, queue)) ∧
      (StacksFit task.task_is_user argv (freeCount m - 1) →
        esp = some (KERNEL_STACK_TOP - if task.task_is_user then 72 else 64) ∧
        FirstFrame m2 n task.task_is_user (word32 header 6) (start_esp task.task_is_user argv) ∧
        (task.task_is_user = true →
          ¬ LoadPage (file_headers data header program_header) USER_STACK_PAGE →
          UserBlock m2 n argv)) ∧
      (¬ StacksFit task.task_is_user argv (freeCount m - 1) →
        esp = none ∨ m2.entry n (KERNEL_STACK_TOP - PAGE_SIZE) = none) ∧
      (LoadFits task.task_is_user argv (file_headers data header program_header) (freeCount m) →
        data.length < 0x100000000 → ∀ l1 ph l2,
          file_headers data header program_header = l1 ++ ph :: l2 → ph.p_type = PT_LOAD →
          InFile data ph → (∀ k, k < ph.p_memsz → ¬ LoadPage l2 ((ph.p_vaddr + k) / 4096)) →
          SegmentLoaded m2 n data ph) ∧
      (LoadFits task.task_is_user argv (file_headers data header program_header) (freeCount m) →
        ∀ l1 ph l2, file_headers data header program_header = l1 ++ ph :: l2 →
          ph.p_type = PT_LOAD → InFile data ph → ∀ u, SegmentPage ph (u / 4096) →
          ¬ LoadPage l2 (u / 4096) → ¬ (ph.p_vaddr ≤ u ∧ u < ph.p_vaddr + ph.p_memsz) →
          StaleByte m m2 n u) := by
  have hs := hb.slots
  obtain ⟨i, hi⟩ := free_slot_of_card (m := m) (by omega)
  obtain ⟨n, m1, esp, hI1, hleft, htables, hclean, hempty, hready, hfail, himage⟩ :=
    load_image_prefix task data header program_header argv queue growth hb hargc hbytes hi hf
  obtain ⟨m2, hsegs, hon, hloaded, hstale⟩ := hI1.segments hb hi task.task_is_user data
    (word32 header 7) (header.getD 44 0 + 256 * header.getD 45 0) 0 program_header 0 hph
  have hstack := stack_page_apart hph
  -- The frames decide: with three of them the user stack has its table, with fewer none is left.
  have hfits : load_need (tablesOf m1 n) (file_headers data header program_header) ≤ freeCount m1 ↔
      LoadFits task.task_is_user argv (file_headers data header program_header) (freeCount m) := by
    unfold LoadFits
    rw [← hleft]
    by_cases hthree : 3 ≤ freeCount m
    · rw [load_need_congr (U := start_tables task.task_is_user) (fun j hj => ?_) hph]
      rw [htables j hj, decide_eq_true hthree, Bool.and_true]
      rfl
    · have hzero : freeCount m1 = 0 := by
        have htwo : 2 ≤ stack_need task.task_is_user argv := by
          unfold stack_need
          split <;> omega
        omega
      rw [hzero, Nat.le_zero, Nat.le_zero]
      exact load_need_zero _ _ _
  rw [himage, hsegs, Option.bind_some, hon.image.loading.commit hb hi]
  refine ⟨n, m2, esp, hon.image, fun v hv huser hno => (hon.entry v (Or.inl hv) hno).trans
    (hempty v hv huser), ?_, fun hfit => ?_, fun hno => ?_, fun hneed => ?_, fun hneed => ?_⟩
  · by_cases hneed : LoadFits task.task_is_user argv (file_headers data header program_header)
        (freeCount m)
    · have hneed' := hfits.mpr hneed
      unfold file_headers at hneed'
      rw [if_pos hneed, if_pos hneed']
      rfl
    · have hneed' := mt hfits.mp hneed
      unfold file_headers at hneed'
      rw [if_neg hneed, if_neg hneed']
  · obtain ⟨hesp, hframe, hblock⟩ := hready hfit
    exact ⟨hesp, hon.toPagesKept.firstFrame hstack hframe,
      fun hu hpage => hon.toPagesKept.userBlock hpage (hblock hu)⟩
  · exact (hfail hno).imp id fun hnone => (hon.toPagesKept.entry_stack hstack).trans hnone
  · exact hloaded (hfits.mpr hneed)
  · intro l1 ph l2 hl hload hin u hu hnot hout
    obtain ⟨f, hf, hbyte⟩ := hstale (hfits.mpr hneed) l1 ph l2 hl hload hin u hu hnot hout
    refine ⟨f, fun hc => hf (hI1.loading.taken hc), ?_⟩
    rw [hbyte, hclean f fun hc => hf fun _ => hc]

/-! ## Refused and built -/

/-- The machine once the path is resolved, and whether its nodes had room. -/
def resolve_memory (m : Machine) (node : Resolved) (growth : Nat × Nat) : Option (Machine × Bool) :=
  match node with
  | .null => some (m, true)
  | _ => kernel_heap_grow growth.1 growth.2 m

/-- The path names a file with the magic number of ELF, and there is a frame for a directory. -/
def Builds (node : Resolved) (served : Bool) (header : List Nat) (free : Nat) : Prop :=
  served = true ∧ 0 < free ∧
    ∃ data, node = .file data ∧ (read_into data 0 header).take 4 = [0x7F, 0x45, 0x4C, 0x46]

section exec

variable {m m1 : Machine} {task : task_t} {node : Resolved} {argv : List (List Nat)}
  {header program_header queue : List Nat} {growth growth' : Nat × Nat} {served : Bool}
  {result : Machine × elf_result_t × task_t × List Nat}

/-- A load that ends before its directory is there leaves nothing behind. -/
theorem load_refused (hz : Used m1.memory_bitmap 0)
    (hres : resolve_memory m node growth = some (m1, served))
    (hno : ¬ Builds node served header (freeCount m1))
    (hrun : elf_load_into_task m task node argv header program_header queue growth growth' =
      some result) :
    result.2.1 ≠ ELF_RESULT_OK ∧ result.2.2.1 = task ∧
      result.1.memory_bitmap = m1.memory_bitmap := by
  unfold elf_load_into_task at hrun
  cases node with
  | null =>
    cases hres
    cases hrun
    exact ⟨nofun, rfl, rfl⟩
  | missing =>
    simp only [show kernel_heap_grow growth.1 growth.2 m = _ from hres, Option.bind_eq_bind,
      Option.bind_some] at hrun
    cases hrun
    exact ⟨nofun, rfl, rfl⟩
  | directory =>
    simp only [show kernel_heap_grow growth.1 growth.2 m = _ from hres, Option.bind_eq_bind,
      Option.bind_some] at hrun
    cases hrun
    exact ⟨nofun, rfl, rfl⟩
  | file data =>
    simp only [show kernel_heap_grow growth.1 growth.2 m = _ from hres, Option.bind_eq_bind,
      Option.bind_some] at hrun
    cases served with
    | false =>
      cases hrun
      exact ⟨nofun, rfl, rfl⟩
    | true =>
      simp only [Bool.not_true, Bool.false_eq_true, if_false] at hrun
      split at hrun
      · cases hrun
        exact ⟨nofun, rfl, rfl⟩
      · rename_i hmagic
        have hfree : freeCount m1 = 0 := by
          by_contra hne
          exact hno ⟨rfl, Nat.pos_of_ne_zero hne, data, rfl, not_not.mp hmagic⟩
        have ha : (memory_bitmap_allocate m1.memory_bitmap).2 = 0 := by
          by_contra hne
          obtain ⟨f, -, -, hlt, hu, -, -⟩ := allocate_fresh hne
          have := Finset.card_pos.mpr ⟨f, mem_freeFrames.mpr ⟨hlt, hu⟩⟩
          unfold freeCount at hfree
          omega
        unfold elf_load_image memory_paging_create_page_directory at hrun
        simp only [ha, if_true] at hrun
        cases hrun
        exact ⟨nofun, rfl, allocate_zero hz ha⟩

theorem load_builds {data : List Nat}
    (hres : resolve_memory m (.file data) growth = some (m1, true))
    (hmagic : (read_into data 0 header).take 4 = [0x7F, 0x45, 0x4C, 0x46]) :
    elf_load_into_task m task (.file data) argv header program_header queue growth growth' =
      elf_load_image m1 task data (read_into data 0 header) program_header argv queue growth' := by
  unfold elf_load_into_task
  simp only [show kernel_heap_grow growth.1 growth.2 m = _ from hres, Option.bind_eq_bind,
    Option.bind_some, Bool.not_true, Bool.false_eq_true, if_false, hmagic, ne_eq,
    not_true_eq_false]

/-- Resolving the path keeps what a load relies on. -/
theorem LoadBase.resolved {pages heap_break : Nat} (hb : LoadBase m) (hheap : HeapEnd m heap_break)
    (hhi : heap_break + pages * 4096 ≤ KERNEL_HEAP_VIRTUAL_END + 1)
    (hres : resolve_memory m node (pages, heap_break) = some (m1, served)) :
    LoadBase m1 ∧ ((∃ data, node = .file data) → HeapEnd m1 (heap_break + pages * 4096)) := by
  have hs := hb.slots
  obtain ⟨m2, served2, hgrow, hk2, hg, -, hheap2⟩ := hheap.grow hb.space (by omega) hhi
  have hother : kernel_heap_grow pages heap_break m = some (m1, served) →
      LoadBase m1 ∧ HeapEnd m1 (heap_break + pages * 4096) := by
    intro h
    rw [hgrow] at h
    cases h
    exact ⟨hb.grown hg hk2, hheap2⟩
  cases node with
  | null =>
    cases hres
    exact ⟨hb, fun ⟨data, hd⟩ => by cases hd⟩
  | missing => exact ⟨(hother hres).1, fun _ => (hother hres).2⟩
  | directory => exact ⟨(hother hres).1, fun _ => (hother hres).2⟩
  | file data => exact ⟨(hother hres).1, fun _ => (hother hres).2⟩

end exec

/-! ## A task that can run -/

/-- The registers with which a new program of a user starts. -/
def first_registers (eip user_esp : Nat) : register_interrupt_data_t where
  gs := TASK_MANAGER_USER_DATA_SELECTOR
  fs := TASK_MANAGER_USER_DATA_SELECTOR
  es := TASK_MANAGER_USER_DATA_SELECTOR
  ds := TASK_MANAGER_USER_DATA_SELECTOR
  edi := 0
  esi := 0
  ebp := 0
  ebx := 0
  edx := 0
  ecx := 0
  eax := 0
  interrupt_index := 0
  error_code := 0
  eip := eip
  cs := TASK_MANAGER_USER_CODE_SELECTOR
  eflags := 0x202
  useresp := user_esp
  ss := TASK_MANAGER_USER_DATA_SELECTOR

/-- The words of the frame, from the stack pointer up. -/
theorem first_frame_words (w : Nat → Nat) (eip user_esp : Nat) :
    register_interrupt_data_t.ofWords
      (fun k => pushWords w 1024 (first_frame true eip user_esp) (1006 + k)) =
      first_registers eip user_esp := by
  have hlen : (first_frame true eip user_esp).length ≤ 1024 := by
    rw [first_frame_length]
    decide
  unfold register_interrupt_data_t.ofWords
  simp only [pushWords_apply _ _ _ _ hlen, first_frame_length]
  rfl

/-- The task can run: the page of its kernel stack is mapped, the stack pointer is at a
register frame for the entry point and the arguments, and the arguments are on the page of the
user stack, unless a segment of the program covers that page. -/
structure Runnable (m : Machine) (task : task_t) (e_entry : Nat) (argv : List (List Nat))
    (phs : List Elf32_Phdr) : Prop where
  eip : task.task_init_eip = e_entry
  esp : task.task_esp = KERNEL_STACK_TOP - 72
  frame : ∃ x, m.entry (frameOf task.task_cr3) (KERNEL_STACK_TOP - PAGE_SIZE) = some x ∧
    register_interrupt_data_t.ofWords
      (fun k => m.frames (frameOf x) (task.task_esp % 4096 / 4 + k)) =
        first_registers e_entry (blockAddress argv)
  arguments : ¬ LoadPage phs USER_STACK_PAGE → UserBlock m (frameOf task.task_cr3) argv

/-- Exec fails and leaves the task alone, or the task can run. -/
structure FailsOrRuns (task : task_t) (node : Resolved) (argv : List (List Nat))
    (header program_header : List Nat)
    (result : Machine × elf_result_t × task_t × List Nat) : Prop where
  fails : result.2.1 ≠ ELF_RESULT_OK → result.2.2.1 = task
  runs : result.2.1 = ELF_RESULT_OK → ∃ data, node = .file data ∧
    Runnable result.1 result.2.2.1 (word32 (read_into data 0 header) 6) argv
      (file_headers data (read_into data 0 header) program_header)

/-- The used frames and the task are as before, or exec did not fail. -/
def LeaksNothing (m1 : Machine) (task : task_t)
    (result : Machine × elf_result_t × task_t × List Nat) : Prop :=
  result.2.1 ≠ ELF_RESULT_OK → result.2.2.1 = task ∧
    ∀ f, Used result.1.memory_bitmap f ↔ Used m1.memory_bitmap f

section exec

variable {m m1 : Machine} {task : task_t} {node : Resolved} {argv : List (List Nat)}
  {header program_header queue : List Nat} {pages pages' heap_break : Nat} {served : Bool}
  {result : Machine × elf_result_t × task_t × List Nat}

/-- The load of an image by its two outcomes: the program and the pages that it has, or what
was built of it. -/
theorem load_image_result {data : List Nat} (hb : LoadBase m) (hheap : HeapEnd m heap_break)
    (hhi : heap_break + pages * 4096 ≤ KERNEL_HEAP_VIRTUAL_END + 1)
    (hargc : argv.length ≤ TASK_MAX_ARGUMENTS) (hbytes : stringBytes argv ≤ PAGE_SIZE)
    (hph : ∀ ph ∈ file_headers data header program_header, ph.p_type = PT_LOAD → BelowKernel ph)
    (hf : 0 < freeCount m)
    (hrun : elf_load_image m task data header program_header argv queue (pages, heap_break) =
      some result) :
    ∃ n m2 esp, Image m m2 n ∧
      (∀ v, v < KERNEL_VIRTUAL_SPACE_START → v / 4096 ≠ USER_STACK_PAGE →
        ¬ LoadPage (file_headers data header program_header) (v / 4096) →
        m2.entry n v = none) ∧
      (LoadFits task.task_is_user argv (file_headers data header program_header) (freeCount m) →
        result.2.1 = ELF_RESULT_OK ∧ result.1.bounce_pages_used = m2.bounce_pages_used ∧
        KernelSpace result.1 ∧ Extends m2 result.1 ∧
        result.2.2.1 = loaded_task task (word32 header 6) (n * 4096) (esp.getD 0)
          (load_end 0 (file_headers data header program_header)) ∧
        (data.length < 0x100000000 → ∀ l1 ph l2,
          file_headers data header program_header = l1 ++ ph :: l2 → ph.p_type = PT_LOAD →
          InFile data ph → (∀ k, k < ph.p_memsz → ¬ LoadPage l2 ((ph.p_vaddr + k) / 4096)) →
          SegmentLoaded m2 n data ph) ∧
        ∀ l1 ph l2, file_headers data header program_header = l1 ++ ph :: l2 →
          ph.p_type = PT_LOAD → InFile data ph → ∀ u, SegmentPage ph (u / 4096) →
          ¬ LoadPage l2 (u / 4096) → ¬ (ph.p_vaddr ≤ u ∧ u < ph.p_vaddr + ph.p_memsz) →
          StaleByte m m2 n u) ∧
      (¬ LoadFits task.task_is_user argv (file_headers data header program_header)
          (freeCount m) → result = (m2, ELF_RESULT_ALLOCATION_ERROR, task, queue)) ∧
      (StacksFit task.task_is_user argv (freeCount m - 1) →
        esp = some (KERNEL_STACK_TOP - if task.task_is_user then 72 else 64) ∧
        FirstFrame m2 n task.task_is_user (word32 header 6) (start_esp task.task_is_user argv) ∧
        (task.task_is_user = true →
          ¬ LoadPage (file_headers data header program_header) USER_STACK_PAGE →
          UserBlock m2 n argv)) ∧
      (¬ StacksFit task.task_is_user argv (freeCount m - 1) →
        esp = none ∨ m2.entry n (KERNEL_STACK_TOP - PAGE_SIZE) = none) := by
  obtain ⟨n, m2, esp, hI, hempty, himage, hready, hfail, hloaded, hstale⟩ := load_image_exact task
    data header program_header queue (pages, heap_break) hb hargc hbytes hph hf
  rw [himage] at hrun
  refine ⟨n, m2, esp, hI, hempty, fun hneed => ?_, fun hneed => ?_, hready, hfail⟩
  · rw [if_pos hneed] at hrun
    obtain ⟨⟨m3, queue'⟩, hqueue, hres⟩ := Option.map_eq_some_iff.mp hrun
    have hs := hb.slots
    obtain ⟨hslots, hk, he⟩ := (hI.loading.heapEnd hb hheap).queue (hI.loading.space hb)
      (by rw [hI.loading.freeSlots_eq]; omega) hhi hqueue
    subst hres
    exact ⟨rfl, hslots, hk, he, rfl, hloaded hneed, hstale hneed⟩
  · rw [if_neg hneed] at hrun
    exact (Option.some.inj hrun).symm

theorem loaded_directory (task : task_t) (e_entry n esp heap_start : Nat) :
    frameOf (loaded_task task e_entry (n * 4096) esp heap_start).task_cr3 = n := by
  show frameOf (n * 4096) = n
  unfold frameOf
  omega

/-- A program that is loaded for a user task can run exactly when its stacks were ready. -/
theorem loaded_task_runs {data : List Nat} (hb : LoadBase m) (hheap : HeapEnd m heap_break)
    (hhi : heap_break + pages * 4096 ≤ KERNEL_HEAP_VIRTUAL_END + 1)
    (hargc : argv.length ≤ TASK_MAX_ARGUMENTS) (hbytes : stringBytes argv ≤ PAGE_SIZE)
    (hph : ∀ ph ∈ file_headers data header program_header, ph.p_type = PT_LOAD → BelowKernel ph)
    (hf : 0 < freeCount m) (huser : task.task_is_user = true)
    (hneed : LoadFits true argv (file_headers data header program_header) (freeCount m))
    (hrun : elf_load_image m task data header program_header argv queue (pages, heap_break) =
      some result) :
    result.2.1 = ELF_RESULT_OK ∧
      (Runnable result.1 result.2.2.1 (word32 header 6) argv
          (file_headers data header program_header) ↔ StacksFit true argv (freeCount m - 1)) := by
  obtain ⟨n, m2, esp, hI, -, hok, -, hready, hfail⟩ :=
    load_image_result hb hheap hhi hargc hbytes hph hf hrun
  rw [huser] at hok hready hfail
  obtain ⟨hcode, -, -, he, htask, -⟩ := hok hneed
  have hkept := hI.grown hb he
  have hdir : frameOf result.2.2.1.task_cr3 = n := by
    rw [htask]
    exact loaded_directory _ _ _ _ _
  refine ⟨hcode, fun hrunnable => ?_, fun hfit => ?_⟩
  · by_contra hno
    rcases hfail hno with hesp | hnone
    · have hz := hrunnable.esp
      rw [htask, hesp] at hz
      revert hz
      show (0 : Nat) = _ → False
      decide
    · obtain ⟨x, hx, -⟩ := hrunnable.frame
      rw [hdir, hkept.entry_stack id, hnone] at hx
      cases hx
  · obtain ⟨hesp, hframe, hblock⟩ := hready hfit
    have hesp' : result.2.2.1.task_esp = KERNEL_STACK_TOP - 72 := by
      rw [htask, hesp]
      rfl
    obtain ⟨x, w, hx, hw⟩ := hkept.firstFrame id hframe
    refine ⟨by rw [htask]; rfl, hesp', ⟨x, by rw [hdir]; exact hx, ?_⟩, fun hpage => ?_⟩
    · rw [hw, hesp']
      exact first_frame_words _ _ _
    · rw [hdir]
      exact hkept.userBlock id (hblock rfl hpage)

/-- A program that does not fit is not loaded, and its directory stays in use. -/
theorem unloaded_image_leaks {data : List Nat} (hb : LoadBase m) (hheap : HeapEnd m heap_break)
    (hhi : heap_break + pages * 4096 ≤ KERNEL_HEAP_VIRTUAL_END + 1)
    (hargc : argv.length ≤ TASK_MAX_ARGUMENTS) (hbytes : stringBytes argv ≤ PAGE_SIZE)
    (hph : ∀ ph ∈ file_headers data header program_header, ph.p_type = PT_LOAD → BelowKernel ph)
    (hf : 0 < freeCount m)
    (hneed : ¬ LoadFits task.task_is_user argv (file_headers data header program_header)
      (freeCount m))
    (hrun : elf_load_image m task data header program_header argv queue (pages, heap_break) =
      some result) :
    result.2.1 ≠ ELF_RESULT_OK ∧ result.2.2.1 = task ∧
      ∃ f, Used result.1.memory_bitmap f ∧ ¬ Used m.memory_bitmap f := by
  obtain ⟨n, m2, esp, hI, -, -, herr, -, -⟩ :=
    load_image_result hb hheap hhi hargc hbytes hph hf hrun
  have hresult := herr hneed
  subst hresult
  have hown := hI.loading.dir_owned
  exact ⟨nofun, rfl, n, hown.used, hown.fresh⟩

/-- Exec of a user task fails and leaves the task alone or makes it run, exactly when it ends
before its directory is there, or the arguments fit and five frames are free, or the segments
need more frames than are left. -/
theorem exec_fails_or_runs (hb : LoadBase m) (hheap : HeapEnd m heap_break)
    (hhi : heap_break + pages * 4096 + pages' * 4096 ≤ KERNEL_HEAP_VIRTUAL_END + 1)
    (hargc : argv.length ≤ TASK_MAX_ARGUMENTS) (hbytes : stringBytes argv ≤ PAGE_SIZE)
    (hph : Builds node served header (freeCount m1) → ∀ data, node = .file data →
      ∀ ph ∈ file_headers data (read_into data 0 header) program_header,
        ph.p_type = PT_LOAD → BelowKernel ph)
    (huser : task.task_is_user = true)
    (hres : resolve_memory m node (pages, heap_break) = some (m1, served))
    (hrun : elf_load_into_task m task node argv header program_header queue (pages, heap_break)
      (pages', heap_break + pages * 4096) = some result) :
    FailsOrRuns task node argv header program_header result ↔
      ¬ Builds node served header (freeCount m1) ∨ StacksFit true argv (freeCount m1 - 1) ∨
      ∃ data, node = .file data ∧ ¬ LoadFits true argv
        (file_headers data (read_into data 0 header) program_header) (freeCount m1) := by
  obtain ⟨hb1, hheap1⟩ := hb.resolved hheap ((Nat.le_add_right _ _).trans hhi) hres
  by_cases hbuild : Builds node served header (freeCount m1)
  · obtain ⟨rfl, hf, data, rfl, hmagic⟩ := hbuild
    have hbuild : Builds (.file data) true header (freeCount m1) := ⟨rfl, hf, data, rfl, hmagic⟩
    rw [load_builds hres hmagic] at hrun
    by_cases hneed : LoadFits true argv
        (file_headers data (read_into data 0 header) program_header) (freeCount m1)
    · obtain ⟨hcode, hiff⟩ := loaded_task_runs hb1 (hheap1 ⟨data, rfl⟩) hhi hargc hbytes
        (hph hbuild data rfl) hf huser hneed hrun
      constructor
      · rintro ⟨-, hruns⟩
        obtain ⟨d, hd, hrunnable⟩ := hruns hcode
        obtain rfl := Resolved.file.inj hd
        exact Or.inr (Or.inl (hiff.mp hrunnable))
      · rintro (hno | hfit | ⟨d, hd, hno⟩)
        · exact absurd hbuild hno
        · exact ⟨fun hne => absurd hcode hne, fun _ => ⟨data, rfl, hiff.mpr hfit⟩⟩
        · obtain rfl := Resolved.file.inj hd
          exact absurd hneed hno
    · obtain ⟨hcode, htask, -⟩ := unloaded_image_leaks hb1 (hheap1 ⟨data, rfl⟩) hhi hargc hbytes
        (hph hbuild data rfl) hf (by rw [huser]; exact hneed) hrun
      exact ⟨fun _ => Or.inr (Or.inr ⟨data, rfl, hneed⟩),
        fun _ => ⟨fun _ => htask, fun hc => absurd hc hcode⟩⟩
  · obtain ⟨hcode, htask, -⟩ := load_refused (hb1.space.zero) hres hbuild hrun
    exact ⟨fun _ => Or.inl hbuild, fun _ => ⟨fun _ => htask, fun hc => absurd hc hcode⟩⟩

/-- A failed exec gives back what it took exactly when it ends before its directory is there;
when the segments need more frames than are left, it does not. -/
theorem failed_exec_leaks (hb : LoadBase m) (hheap : HeapEnd m heap_break)
    (hhi : heap_break + pages * 4096 + pages' * 4096 ≤ KERNEL_HEAP_VIRTUAL_END + 1)
    (hargc : argv.length ≤ TASK_MAX_ARGUMENTS) (hbytes : stringBytes argv ≤ PAGE_SIZE)
    (hph : Builds node served header (freeCount m1) → ∀ data, node = .file data →
      ∀ ph ∈ file_headers data (read_into data 0 header) program_header,
        ph.p_type = PT_LOAD → BelowKernel ph)
    (hres : resolve_memory m node (pages, heap_break) = some (m1, served))
    (hrun : elf_load_into_task m task node argv header program_header queue (pages, heap_break)
      (pages', heap_break + pages * 4096) = some result) :
    LeaksNothing m1 task result ↔
      ¬ Builds node served header (freeCount m1) ∨
      ∃ data, node = .file data ∧ LoadFits task.task_is_user argv
        (file_headers data (read_into data 0 header) program_header) (freeCount m1) := by
  obtain ⟨hb1, hheap1⟩ := hb.resolved hheap ((Nat.le_add_right _ _).trans hhi) hres
  by_cases hbuild : Builds node served header (freeCount m1)
  · obtain ⟨rfl, hf, data, rfl, hmagic⟩ := hbuild
    have hbuild : Builds (.file data) true header (freeCount m1) := ⟨rfl, hf, data, rfl, hmagic⟩
    rw [load_builds hres hmagic] at hrun
    by_cases hneed : LoadFits task.task_is_user argv
        (file_headers data (read_into data 0 header) program_header) (freeCount m1)
    · obtain ⟨n, m2, esp, -, -, hok, -⟩ := load_image_result hb1 (hheap1 ⟨data, rfl⟩) hhi hargc hbytes
        (hph hbuild data rfl) hf hrun
      exact ⟨fun _ => Or.inr ⟨data, rfl, hneed⟩, fun _ hne => absurd (hok hneed).1 hne⟩
    · obtain ⟨hcode, -, f, hused, hfree⟩ := unloaded_image_leaks hb1 (hheap1 ⟨data, rfl⟩) hhi hargc
        hbytes (hph hbuild data rfl) hf hneed hrun
      constructor
      · intro hleak
        exact absurd (((hleak hcode).2 f).mp hused) hfree
      · rintro (hno | ⟨d, hd, hfit⟩)
        · exact absurd hbuild hno
        · obtain rfl := Resolved.file.inj hd
          exact absurd hfit hneed
  · obtain ⟨-, htask, hbitmap⟩ := load_refused (hb1.space.zero) hres hbuild hrun
    refine ⟨fun _ => Or.inl hbuild, fun _ _ => ⟨htask, fun f => ?_⟩⟩
    rw [hbitmap]

end exec

/-! ## Small programs -/

/-- The 32 bytes of a program header. -/
def Elf32_Phdr.toBytes (ph : Elf32_Phdr) : List Nat :=
  bytes32 ph.p_type ++ bytes32 ph.p_offset ++ bytes32 ph.p_vaddr ++ bytes32 0 ++
    bytes32 ph.p_filesz ++ bytes32 ph.p_memsz ++ List.replicate 8 0

/-- A file with these program headers after its header, and nothing else. -/
def elfFile (phs : List Elf32_Phdr) : List Nat :=
  [0x7F, 0x45, 0x4C, 0x46] ++ List.replicate 20 0 ++ bytes32 0 ++ bytes32 52 ++
    List.replicate 12 0 ++ [phs.length % 256, phs.length / 256] ++ List.replicate 6 0 ++
    phs.flatMap Elf32_Phdr.toBytes

/-- Exec of such a file by the small machine, with buffers that hold zeros. -/
def small_exec (phs : List Elf32_Phdr) (argv : List (List Nat)) :
    Option (Machine × elf_result_t × task_t × List Nat) :=
  elf_load_into_task smallMachine smallParent (.file (elfFile phs)) argv (List.replicate 52 0)
    (List.replicate 32 0) [] (0, 0xF0000000) (0, 0xF0000000 + 0 * 4096)

theorem small_resolved (node : Resolved) :
    resolve_memory smallMachine node (0, 0xF0000000) = some (smallMachine, true) := by
  cases node <;> rfl

theorem small_file_magic (phs : List Elf32_Phdr) :
    (read_into (elfFile phs) 0 (List.replicate 52 0)).take 4 = [0x7F, 0x45, 0x4C, 0x46] := rfl

/-- The headers that the loader reads from such a file. -/
def small_headers (phs : List Elf32_Phdr) : List Elf32_Phdr :=
  file_headers (elfFile phs) (read_into (elfFile phs) 0 (List.replicate 52 0))
    (List.replicate 32 0)

theorem small_exec_returns {phs : List Elf32_Phdr} (argv : List (List Nat))
    (hargc : argv.length ≤ TASK_MAX_ARGUMENTS) (hbytes : stringBytes argv ≤ PAGE_SIZE)
    (hph : ∀ ph ∈ small_headers phs, ph.p_type = PT_LOAD → BelowKernel ph) :
    ∃ result, small_exec phs argv = some result ∧
      elf_load_image smallMachine smallParent (elfFile phs)
        (read_into (elfFile phs) 0 (List.replicate 52 0)) (List.replicate 32 0) argv []
        (0, 0xF0000000 + 0 * 4096) = some result := by
  obtain ⟨result, hrun⟩ := load_returns (m := smallMachine) smallParent argv [] 0xF0000000
    (0xF0000000 + 0 * 4096) small_loadBase (by decide) hargc hbytes (small_file_magic phs) hph
  have hrun' := hrun
  rw [load_builds (small_resolved _) (small_file_magic phs)] at hrun'
  exact ⟨result, hrun, hrun'⟩

/-- An argument of 4085 bytes fits into the page, but not with the vector below it: exec says
that all is well, and the task has no stack pointer. -/
theorem exec_without_stacks : ∃ result, small_exec [] [List.replicate 4085 97] = some result ∧
    result.2.1 = ELF_RESULT_OK ∧
    ¬ FailsOrRuns smallParent (.file (elfFile [])) [List.replicate 4085 97]
      (List.replicate 52 0) (List.replicate 32 0) result := by
  have hlen : stringBytes [List.replicate 4085 97] = 4086 := by
    unfold stringBytes
    rw [List.map_singleton, List.length_replicate]
    rfl
  have hfit : ¬ ArgumentsFit [List.replicate 4085 97] := by
    unfold ArgumentsFit blockWords
    rw [hlen]
    decide
  have hargs : stringBytes [List.replicate 4085 97] ≤ PAGE_SIZE := by
    rw [hlen]
    decide
  have hheaders : small_headers [] = [] := by decide +kernel
  have hph : ∀ ph ∈ small_headers [], ph.p_type = PT_LOAD → BelowKernel ph := by
    rw [hheaders]
    exact fun ph hm => by cases hm
  have hneed : LoadFits true [List.replicate 4085 97] (small_headers []) (freeCount smallMachine) := by
    rw [hheaders]
    exact Nat.zero_le _
  obtain ⟨result, hrun, himage⟩ := small_exec_returns [List.replicate 4085 97] (by decide) hargs hph
  obtain ⟨hcode, hiff⟩ := loaded_task_runs small_loadBase small_heapEnd
    (show 0xF0000000 + 0 * 4096 ≤ KERNEL_HEAP_VIRTUAL_END + 1 by decide)
    (by decide) hargs hph (by decide) rfl hneed himage
  refine ⟨result, hrun, hcode, fun hruns => ?_⟩
  obtain ⟨data, hd, hrunnable⟩ := hruns.runs hcode
  obtain rfl := Resolved.file.inj hd
  exact hfit ((hiff.mp hrunnable).1 rfl)

/-- A program with two segments on two pages, and zeros behind the bytes of the second one. -/
def textAndData : List Elf32_Phdr :=
  [⟨PT_LOAD, 0, 0x400000, 116, 116⟩, ⟨PT_LOAD, 100, 0x401000, 16, 32⟩]

theorem textAndData_headers : small_headers textAndData = textAndData := by decide +kernel

theorem textAndData_below : ∀ ph ∈ small_headers textAndData, ph.p_type = PT_LOAD →
    BelowKernel ph := by
  rw [textAndData_headers]
  intro ph hm _
  simp only [textAndData, List.mem_cons, List.not_mem_nil, or_false] at hm
  rcases hm with rfl | rfl
  · exact Or.inl (by decide)
  · exact Or.inl (by decide)

theorem textAndData_fits : LoadFits smallParent.task_is_user [[115, 104]]
    (small_headers textAndData) (freeCount smallMachine) := by
  rw [textAndData_headers]
  decide +kernel

/-- The program is loaded, with one argument, and runs on the small machine. -/
theorem a_small_program_runs : ∃ result, small_exec textAndData [[115, 104]] = some result ∧
    result.2.1 = ELF_RESULT_OK ∧
    FailsOrRuns smallParent (.file (elfFile textAndData)) [[115, 104]] (List.replicate 52 0)
      (List.replicate 32 0) result := by
  have hph := textAndData_below
  obtain ⟨result, hrun, himage⟩ := small_exec_returns [[115, 104]] (by decide) (by decide) hph
  obtain ⟨hcode, -⟩ := loaded_task_runs small_loadBase small_heapEnd
    (show 0xF0000000 + 0 * 4096 ≤ KERNEL_HEAP_VIRTUAL_END + 1 by decide) (by decide) (by decide)
    hph (by decide) rfl textAndData_fits himage
  refine ⟨result, hrun, hcode, ?_⟩
  exact (exec_fails_or_runs small_loadBase small_heapEnd (by decide) (by decide) (by decide)
    (fun _ data hd => by obtain rfl := Resolved.file.inj hd; exact hph) rfl (small_resolved _)
    hrun).mpr
    (Or.inr (Or.inl (by decide)))

/-- The program headers of a program that needs more frames than the small machine has. -/
def largeProgram : List Elf32_Phdr := [⟨PT_LOAD, 0, 0x400000, 0, 0x20000⟩]

theorem large_headers : small_headers largeProgram = largeProgram := by decide +kernel

theorem large_below (phs : List Elf32_Phdr) (h : phs = largeProgram) :
    ∀ ph ∈ phs, ph.p_type = PT_LOAD → BelowKernel ph := by
  subst h
  intro ph hm _
  rw [List.mem_singleton.mp hm]
  exact Or.inl (by decide)

/-- Exec of a program that is too large fails, and the frame of its directory stays in use. -/
theorem exec_of_a_large_program_leaks : ∃ result, small_exec largeProgram [] = some result ∧
    ¬ LeaksNothing smallMachine smallParent result := by
  have hph := large_below _ large_headers
  obtain ⟨result, hrun, himage⟩ := small_exec_returns [] (by decide) (by decide) hph
  have hneed : ¬ LoadFits smallParent.task_is_user [] (small_headers largeProgram)
      (freeCount smallMachine) := by
    rw [large_headers]
    decide +kernel
  obtain ⟨hcode, -, f, hused, hfree⟩ := unloaded_image_leaks small_loadBase small_heapEnd
    (show 0xF0000000 + 0 * 4096 ≤ KERNEL_HEAP_VIRTUAL_END + 1 by decide) (by decide) (by decide) hph (by decide) hneed himage
  exact ⟨result, hrun, fun hleak => hfree (((hleak hcode).2 f).mp hused)⟩

/-- Exec of a directory fails and leaks nothing. -/
theorem exec_of_a_directory_leaks_nothing : ∃ result,
    elf_load_into_task smallMachine smallParent .directory [] (List.replicate 52 0)
      (List.replicate 32 0) [] (0, 0xF0000000) (0, 0xF0000000 + 0 * 4096) = some result ∧
    result.2.1 = ELF_RESULT_INVALID_ELF ∧ LeaksNothing smallMachine smallParent result := by
  have hrun : elf_load_into_task smallMachine smallParent .directory [] (List.replicate 52 0)
      (List.replicate 32 0) [] (0, 0xF0000000) (0, 0xF0000000 + 0 * 4096) =
      some (smallMachine, ELF_RESULT_INVALID_ELF, smallParent, []) := rfl
  refine ⟨_, hrun, rfl, ?_⟩
  exact (failed_exec_leaks small_loadBase small_heapEnd (by decide) (by decide) (by decide)
    (fun _ data hd => by cases hd) (small_resolved _) hrun).mpr
    (Or.inl fun ⟨_, _, data, hd, _⟩ => by cases hd)

end alura_os.elf_executable
