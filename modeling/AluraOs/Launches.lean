-- A program that was loaded, under the directory of its own: the address space is
-- in order and the heap is empty, so that the laws of `sbrk` hold from there on.
import AluraOs.ImageLaws
import AluraOs.UserHeapRuns

namespace alura_os.elf_executable

open alura_os.memory alura_os.memory_bitmap alura_os.memory_paging alura_os.task_manager Machine
open elf_result_t

/-- The kernel's own directory shows itself in the low window. -/
def KernelShown (m : Machine) : Prop :=
  (768 ≤ page_directory_index m.kernel_page_directory ∧
    page_directory_index m.kernel_page_directory < 784) ∧
  ∃ x, m.entry m.kdir m.kernel_page_directory = some x ∧ frameOf x = m.kdir

section launch

variable {mb m m' : Machine} {n : Nat}

/-! ## The directory -/

/-- A kernel word that is there stays. -/
theorem LoadBase.kernel_word (hb : LoadBase mb) (he : Extends mb m') {f j : Nat}
    (hf : mb.KernelFrame f) (hp : present (mb.frames f j) = true) :
    m'.frames f j = mb.frames f j :=
  he.present_word (fun hc => hb.zero_apart (hc ▸ hf)) (hb.space.kernel_taken f hf) hp

theorem KernelShown.extended (h : KernelShown mb) (hb : LoadBase mb) (he : Extends mb m') :
    KernelShown m' := by
  obtain ⟨⟨hlo, hhi⟩, x, hx, hfx⟩ := h
  obtain ⟨hp, hq, hval⟩ := entry_eq_some.mp hx
  have hkdir : m'.kdir = mb.kdir := by
    unfold Machine.kdir
    rw [he.kernel]
  have hkpd : m'.kernel_page_directory = mb.kernel_page_directory := by
    unfold Machine.kernel_page_directory
    rw [he.kernel]
  have hpde := hb.kernel_word he (Or.inl rfl) hp
  have hpte := hb.kernel_word he (Or.inr ⟨_, hlo, by omega, hp, rfl⟩) hq
  unfold KernelShown
  rw [hkpd, hkdir]
  refine ⟨⟨hlo, hhi⟩, x, entry_eq_some.mpr ⟨?_, ?_, ?_⟩, hfx⟩
  · rw [hpde]
    exact hp
  · rw [hpde, hpte]
    exact hq
  · rw [hpde, hpte]
    exact hval

/-- What an entry of the directory leads to: a table of the program's own, the directory
itself, or a table of the kernel. -/
theorem Loading.entry_cases (h : Loading mb m n) {j : Nat} (hj : j < 1024)
    (hp : present (m.frames n j) = true) :
    (Private j ∧ Owned mb m (frameOf (m.frames n j)) ∧ frameOf (m.frames n j) ≠ n) ∨
      (768 ≤ j ∧ j = 1023 ∧ frameOf (m.frames n j) = n) ∨
      (768 ≤ j ∧ j < 1023 ∧ mb.KernelFrame (frameOf (m.frames n j))) := by
  by_cases hpr : Private j
  · exact Or.inl ⟨hpr, h.tables j hpr hp⟩
  have hj1 : 768 ≤ j := by
    by_contra hc
    exact hpr (Or.inl (by omega))
  by_cases hlast : j = 1023
  · subst hlast
    exact Or.inr (Or.inl ⟨hj1, rfl, h.shown.2⟩)
  · have hkernel := h.kernel_entries j hj1 (by omega) fun hc => hpr (Or.inr hc)
    rw [hkernel] at hp ⊢
    exact Or.inr (Or.inr ⟨hj1, by omega, Or.inr ⟨j, hj1, by omega, hp, rfl⟩⟩)

/-- No frame of the program is the kernel's. -/
theorem Loading.foreign (h : Loading mb m n) (hb : LoadBase mb) (he : Extends m m') {f : Nat}
    (hf : Owned mb m f) : ¬ m'.KernelFrame f := by
  intro hc
  have h0 : f ≠ 0 := hf.ne fun _ => hb.space.zero
  have hk := (h.kernelFrame hb f).mp (he.kernel_frames f h0 (fun _ => hf.used) hc)
  exact hf.ne (hb.space.kernel_taken f hk) rfl

/-- Under the directory of the program the kernel is in order. -/
theorem Loading.switched (h : Loading mb m n) (hb : LoadBase mb) (hw : KernelShown mb)
    (hk : KernelSpace m') (he : Extends m m') : KernelSpace (m'.setCr3 (n * 4096)) := by
  have hall := (h.extension hb).trans he
  have hdir : (m'.setCr3 (n * 4096)).dir = n := by
    show frameOf (n * 4096) = n
    unfold frameOf
    omega
  have hkdir : m'.kdir = mb.kdir := by
    unfold Machine.kdir
    rw [he.kernel, h.kernel]
  have hwords := h.owned_words hb he h.dir_owned
  have hentry : m.frames n 1022 = mb.frames mb.kdir 1022 :=
    h.kernel_entries 1022 (by omega) (by omega) (by omega)
  have hkernel : m'.frames mb.kdir 1022 = mb.frames mb.kdir 1022 :=
    hb.kernel_word hall (Or.inl rfl) hb.space.bounce_present
  have hbounce : (m'.setCr3 (n * 4096)).bounceTable = m'.bounceTable := by
    rw [← hk.bounce, hkdir, hkernel]
    unfold Machine.bounceTable
    rw [hdir]
    show frameOf (m'.frames n 1022) = _
    rw [hwords, hentry]
  have hbounce_mb : m'.bounceTable = mb.bounceTable := by
    rw [← hk.bounce, hkdir, hkernel, hb.space.bounce]
  constructor
  · constructor
    · rw [hdir]
      show present (m'.frames n 1023) = true
      rw [hwords]
      exact h.shown.1
    · rw [hdir]
      show frameOf (m'.frames n 1023) = n
      rw [hwords]
      exact h.shown.2
    · rw [hdir]
      show present (m'.frames n 1022) = true
      rw [hwords, hentry]
      exact hb.space.bounce_present
    · rw [hdir, hbounce, hbounce_mb]
      exact (h.dir_owned.ne hb.space.bounce_taken).symm
    · rw [hbounce]
      exact hk.windows.closed
  · exact hk.zero
  · rw [hdir]
    exact he.taken fun _ => h.dir_owned.used
  · exact hk.kernel_taken
  · rw [hdir]
    exact h.foreign hb he h.dir_owned
  · exact hk.bounce_present
  · rw [hbounce]
    exact hk.bounce
  · obtain ⟨⟨hlo, hhi⟩, x, hx, hfx⟩ := hw
    obtain ⟨hp, hq, hval⟩ := entry_eq_some.mp hx
    obtain ⟨_, _, _, _, hshows⟩ := hb.space.low
    have hkpd : (m'.setCr3 (n * 4096)).kernel_page_directory = mb.kernel_page_directory := by
      unfold Machine.kernel_page_directory
      show u32 (m'.kernel_page_directory_phys + _) = _
      rw [he.kernel, h.kernel]
    have hpde := hb.kernel_word hall (Or.inl rfl) hp
    have hown : m'.frames n (page_directory_index mb.kernel_page_directory) =
        mb.frames mb.kdir (page_directory_index mb.kernel_page_directory) := by
      rw [hwords]
      exact h.kernel_entries _ hlo (by omega) (by omega)
    have hT : mb.KernelFrame
        (frameOf (mb.frames mb.kdir (page_directory_index mb.kernel_page_directory))) :=
      Or.inr ⟨_, hlo, by omega, hp, rfl⟩
    have hpte := hb.kernel_word hall hT hq
    have hfar : frameOf (mb.frames mb.kdir (page_directory_index mb.kernel_page_directory)) ≠
        mb.bounceTable := by
      rw [← hb.space.bounce]
      intro hc
      have := hb.space.tables _ _ hlo (by omega) (by omega) (by omega) hp hb.space.bounce_present hc
      omega
    refine ⟨page_directory_index mb.kernel_page_directory, hlo, hhi, ?_, ?_⟩
    · show present (m'.frames m'.kdir _) = true
      rw [hkdir, hpde]
      exact hp
    · show Shows _ _ (frameOf (m'.frames m'.kdir _)) m'.kdir
      rw [hkpd, hkdir, hpde]
      refine ⟨hshows.aligned, hshows.lt, ⟨?_, ?_, ?_, ?_⟩, ?_, ?_, ?_⟩
      · rw [hdir]
        show present (m'.frames n _) = true
        rw [hown]
        exact hp
      · rw [hdir]
        show frameOf (m'.frames n _) = _
        rw [hown]
      · show present (m'.frames _ _) = true
        rw [hpte]
        exact hq
      · show frameOf (m'.frames _ _) = _
        rw [hpte, hval]
        exact hfx
      · exact (hb.space.no_loop _ hlo (by omega) hp).symm
      · rw [hbounce, hbounce_mb]
        exact hb.space.kdir_ne_bounce
      · intro hc
        rw [hbounce, hbounce_mb] at hc
        exact absurd hc hfar
  · exact hk.tables
  · exact hk.no_loop
  · exact hk.stack

/-- The user's part of the directory is the program's own. -/
theorem Image.ownSpace (h : Image mb m n) (hb : LoadBase mb) (he : Extends m m') :
    OwnSpace m' n := by
  have hwords := h.loading.owned_words hb he h.loading.dir_owned
  have hkept := h.grown hb he
  have htaken : ∀ {f}, Owned mb m f → Taken m'.memory_bitmap f :=
    fun hf => he.taken fun _ => hf.used
  have hkernel : ∀ {f}, mb.KernelFrame f → Taken m'.memory_bitmap f :=
    fun hf => he.taken (h.loading.taken (hb.space.kernel_taken _ hf))
  constructor
  · rw [hwords]
    intro j hj hp
    rcases h.loading.entry_cases hj hp with ⟨-, hown, -⟩ | ⟨-, -, hself⟩ | ⟨-, -, hk⟩
    · exact htaken hown
    · rw [hself]
      exact htaken h.loading.dir_owned
    · exact hkernel hk
  · rw [hwords]
    intro i j hi hj hpi hpj hc
    obtain ⟨hown, hne⟩ := h.loading.tables i (Or.inl hi) hpi
    rcases h.loading.entry_cases hj hpj with ⟨hpr, -, -⟩ | ⟨-, -, hself⟩ | ⟨-, -, hk⟩
    · exact h.tables_apart i j (Or.inl hi) hpr hpi hpj hc
    · exact absurd (hc.trans hself) hne
    · exact absurd hc (hown.ne (hb.space.kernel_taken _ hk))
  · rw [hwords]
    intro j hj hp
    rcases h.loading.entry_cases (by omega) hp with ⟨-, -, hne⟩ | ⟨-, hlast, -⟩ | ⟨-, -, hk⟩
    · exact hne
    · omega
    · exact (h.loading.dir_owned.ne (hb.space.kernel_taken _ hk)).symm
  · rw [hwords]
    intro j hj hp
    exact h.loading.foreign hb he (h.loading.tables j (Or.inl hj) hp).1
  · rw [hwords]
    exact h.loading.read_write
  · intro v x hv hx
    rw [hkept.entry v (Or.inl hv) id] at hx
    have hpage := h.page_frame v x (Or.inl hv) hx
    refine ⟨hpage.owned.ne fun _ => hb.space.zero, ?_, he.used _ hpage.owned.used, hpage.ne_dir,
      h.loading.foreign hb he hpage.owned, ?_⟩
    · rw [he.pages, h.loading.pages]
      exact hpage.owned.lt
    · rw [hwords]
      intro j hj hp
      rcases h.loading.entry_cases hj hp with ⟨hpr, -, -⟩ | ⟨-, -, hself⟩ | ⟨-, -, hk⟩
      · exact hpage.ne_table j hpr hp
      · rw [hself]
        exact hpage.ne_dir
      · exact hpage.owned.ne (hb.space.kernel_taken _ hk)
  · intro v w x y hv hw hx hy
    rw [hkept.entry v (Or.inl hv) id] at hx
    rw [hkept.entry w (Or.inl hw) id] at hy
    exact h.pages_apart v w x y (Or.inl hv) (Or.inl hw) hx hy

theorem ownSpace_setCr3 (h : OwnSpace m n) (cr3 : Nat) : OwnSpace (m.setCr3 cr3) n where
  taken := h.taken
  apart := h.apart
  loops := h.loops
  foreign := h.foreign
  writable := h.writable
  pages := fun v x hv hx =>
    let hpage := h.pages v x hv hx
    ⟨hpage.pos, hpage.lt, hpage.used, hpage.ne_dir, hpage.foreign, hpage.ne_table⟩
  pages_apart := h.pages_apart

end launch

/-! ## The task -/

theorem load_end_le {bound : Nat} (phs : List Elf32_Phdr) {start : Nat} (hs : start ≤ bound)
    (h : ∀ ph ∈ phs, ph.p_type = PT_LOAD → segment_end ph ≤ bound) : load_end start phs ≤ bound := by
  induction phs generalizing start with
  | nil => exact hs
  | cons ph rest ih =>
    have hrest : ∀ ph ∈ rest, ph.p_type = PT_LOAD → segment_end ph ≤ bound :=
      fun q hm => h q (List.mem_cons_of_mem _ hm)
    unfold load_end
    split
    · exact ih hs hrest
    · rename_i htype
      apply ih _ hrest
      split
      · exact h ph List.mem_cons_self (not_not.mp htype)
      · exact hs

/-- Above the end of its segments and below the stack a program has no page. -/
theorem above_load_end {phs : List Elf32_Phdr} {v : Nat} (h : load_end 0 phs ≤ v) :
    ¬ LoadPage phs (v / 4096) := by
  rintro ⟨ph, hm, hload, -, hp⟩
  have hend := (load_end_ge phs 0).2 ph hm hload
  have hal := segment_end_aligned ph
  omega

section task

variable {m : Machine} {task : task_t} {node : Resolved} {argv : List (List Nat)}
  {header program_header queue : List Nat} {pages pages' heap_break : Nat}
  {result : Machine × elf_result_t × task_t × List Nat}

theorem loaded_image_is_launched {data : List Nat} (hb : LoadBase m) (hwindow : KernelShown m)
    (hheap : HeapEnd m heap_break)
    (hhi : heap_break + pages * 4096 ≤ KERNEL_HEAP_VIRTUAL_END + 1)
    (hargc : argv.length ≤ TASK_MAX_ARGUMENTS) (hbytes : stringBytes argv ≤ PAGE_SIZE)
    (huser : task.task_is_user = true)
    (hph : ∀ ph ∈ file_headers data header program_header, ph.p_type = PT_LOAD → BelowKernel ph)
    (hceiling : ∀ ph ∈ file_headers data header program_header, ph.p_type = PT_LOAD →
      segment_end ph ≤ USER_HEAP_VIRTUAL_CEILING)
    (hf : 0 < freeCount m)
    (hrun : elf_load_image m task data header program_header argv queue (pages, heap_break) =
      some result)
    (hok : result.2.1 = ELF_RESULT_OK) :
    Launched (result.1.setCr3 result.2.2.1.task_cr3) result.2.2.1 := by
  obtain ⟨n, m2, esp, hI, hempty, hfits, hno, -, -⟩ :=
    load_image_result hb hheap hhi hargc hbytes hph hf hrun
  by_cases hneed : LoadFits task.task_is_user argv (file_headers data header program_header)
      (freeCount m)
  · obtain ⟨-, hslots, hk, he, htask, -⟩ := hfits hneed
    have hcr3 : result.2.2.1.task_cr3 = n * 4096 := by rw [htask]; rfl
    have hbreak : result.2.2.1.heap_break =
        load_end 0 (file_headers data header program_header) := by rw [htask]; rfl
    have hstart : result.2.2.1.heap_start =
        load_end 0 (file_headers data header program_header) := by rw [htask]; rfl
    have hdir : (result.1.setCr3 (n * 4096)).dir = n := by
      show frameOf (n * 4096) = n
      unfold frameOf
      omega
    rw [hcr3]
    refine ⟨⟨hI.loading.switched hb hwindow hk he, ?_, ?_, ?_, ?_⟩, ?_, ?_, ?_⟩
    · rw [hdir]
      exact ownSpace_setCr3 (hI.ownSpace hb he) _
    · have hfree : freeSlots (result.1.setCr3 (n * 4096)) = freeSlots m := by
        show freeSlots result.1 = _
        rw [← hI.loading.freeSlots_eq]
        unfold freeSlots
        rw [hslots]
      have := hb.slots
      rw [hfree]
      omega
    · rw [hbreak]
      exact load_end_aligned _ rfl
    · intro v h1 h2
      rw [hbreak] at h1
      rw [hdir]
      have hlow : v < KERNEL_VIRTUAL_SPACE_START := h2.trans (by decide)
      have hstack : v / 4096 ≠ USER_STACK_PAGE := by
        have hbelow : v / 4096 < USER_HEAP_VIRTUAL_CEILING / 4096 + 1 := by omega
        have hgap : USER_HEAP_VIRTUAL_CEILING / 4096 + 1 ≤ USER_STACK_PAGE := by decide
        omega
      exact ((hI.grown hb he).entry v (Or.inl hlow) id).trans
        (hempty v hlow hstack (above_load_end h1))
    · rw [htask]
      exact huser
    · rw [hbreak, hstart]
    · rw [hstart]
      exact load_end_le _ (Nat.zero_le _) hceiling
  · rw [hno hneed] at hok
    cases hok

/-- A program that lies below the ceiling of the heap and is loaded for a user task has, under its
own directory, an address space in order and an empty heap at the end of its segments. -/
theorem a_loaded_program_is_launched (hb : LoadBase m) (hwindow : KernelShown m)
    (hheap : HeapEnd m heap_break)
    (hhi : heap_break + pages * 4096 + pages' * 4096 ≤ KERNEL_HEAP_VIRTUAL_END + 1)
    (hargc : argv.length ≤ TASK_MAX_ARGUMENTS) (hbytes : stringBytes argv ≤ PAGE_SIZE)
    (huser : task.task_is_user = true)
    (hph : ∀ data, node = .file data →
      ∀ ph ∈ file_headers data (read_into data 0 header) program_header, ph.p_type = PT_LOAD →
        BelowKernel ph ∧ segment_end ph ≤ USER_HEAP_VIRTUAL_CEILING)
    (hrun : elf_load_into_task m task node argv header program_header queue (pages, heap_break)
      (pages', heap_break + pages * 4096) = some result)
    (hok : result.2.1 = ELF_RESULT_OK) :
    Launched (result.1.setCr3 result.2.2.1.task_cr3) result.2.2.1 := by
  have hs := hb.slots
  obtain ⟨m1, served, hgrow, hk1, hg, he, hheap1⟩ := hheap.grow hb.space (by omega)
    ((Nat.le_add_right _ _).trans hhi)
  have hb1 := hb.grown hg hk1
  have hres : node ≠ .null → resolve_memory m node (pages, heap_break) = some (m1, served) := by
    intro hnull
    cases node with
    | null => exact absurd rfl hnull
    | missing => exact hgrow
    | directory => exact hgrow
    | file data => exact hgrow
  by_cases hnull : node = .null
  · subst hnull
    cases hrun
    cases hok
  by_cases hbuild : Builds node served header (freeCount m1)
  · obtain ⟨rfl, hf, data, rfl, hmagic⟩ := hbuild
    rw [load_builds (hres hnull) hmagic] at hrun
    exact loaded_image_is_launched hb1 (hwindow.extended hb he) hheap1 hhi hargc hbytes huser
      (fun ph hm hload => (hph data rfl ph hm hload).1)
      (fun ph hm hload => (hph data rfl ph hm hload).2) hf hrun hok
  · exact absurd hok (load_refused hb1.space.zero (hres hnull) hbuild hrun).1

/-- From exec on: whatever the new program asks of `sbrk`, its heap stays an interval of pages. -/
theorem the_heap_of_a_loaded_program (hb : LoadBase m) (hwindow : KernelShown m)
    (hheap : HeapEnd m heap_break)
    (hhi : heap_break + pages * 4096 + pages' * 4096 ≤ KERNEL_HEAP_VIRTUAL_END + 1)
    (hargc : argv.length ≤ TASK_MAX_ARGUMENTS) (hbytes : stringBytes argv ≤ PAGE_SIZE)
    (huser : task.task_is_user = true)
    (hph : ∀ data, node = .file data →
      ∀ ph ∈ file_headers data (read_into data 0 header) program_header, ph.p_type = PT_LOAD →
        BelowKernel ph ∧ segment_end ph ≤ USER_HEAP_VIRTUAL_CEILING)
    (hrun : elf_load_into_task m task node argv header program_header queue (pages, heap_break)
      (pages', heap_break + pages * 4096) = some result)
    (hok : result.2.1 = ELF_RESULT_OK) {m' : Machine} {task' : task_t} {B : Int}
    (hr : SbrkRun (fun m task delta _ => NotStuck m task delta)
      (result.1.setCr3 result.2.2.1.task_cr3) result.2.2.1 m' task' B) :
    HeapShape (result.1.setCr3 result.2.2.1.task_cr3) result.2.2.1 m' task' := by
  have hl := a_loaded_program_is_launched hb hwindow hheap hhi hargc hbytes huser hph hrun hok
  exact (hr.interval hl fun _ _ _ _ => id).shape hl

end task

/-! ## The small machine -/

theorem small_kernelShown : KernelShown smallMachine := by
  refine ⟨by decide, 0x1003, ?_, ?_⟩
  · decide +kernel
  · decide +kernel

/-- Exec of the program with two segments leaves a task with an empty heap. -/
theorem a_small_program_is_launched : ∃ result, small_exec textAndData [[115, 104]] = some result ∧
    result.2.1 = ELF_RESULT_OK ∧ Launched (result.1.setCr3 result.2.2.1.task_cr3) result.2.2.1 := by
  obtain ⟨result, hrun, himage⟩ :=
    small_exec_returns [[115, 104]] (by decide) (by decide) textAndData_below
  obtain ⟨n, m2, esp, -, -, hok, -⟩ := load_image_result small_loadBase small_heapEnd (by decide)
    (by decide) (by decide) textAndData_below (by decide) himage
  have hcode := (hok textAndData_fits).1
  have hceiling : ∀ ph ∈ small_headers textAndData, ph.p_type = PT_LOAD →
      segment_end ph ≤ USER_HEAP_VIRTUAL_CEILING := by
    rw [textAndData_headers]
    decide
  refine ⟨result, hrun, hcode, a_loaded_program_is_launched small_loadBase small_kernelShown
    small_heapEnd (by decide) (by decide) (by decide) rfl ?_ hrun hcode⟩
  intro data hd ph hm hload
  obtain rfl := Resolved.file.inj hd
  exact ⟨textAndData_below ph hm hload, hceiling ph hm hload⟩

end alura_os.elf_executable
