-- Which image exec builds from a file. Every segment gets fresh frames, also for a page
-- that an earlier segment is on: so the image is the file's exactly when no page
-- is shared that way.
import AluraOs.ExecLaws

namespace alura_os.elf_executable

open alura_os.memory alura_os.memory_bitmap alura_os.memory_paging alura_os.task_manager Machine
open memory_paging_result_t elf_result_t

/-! ## Machines that differ in free frames -/

/-- The machines differ at most in what the free frames hold. -/
structure Alike (m m' : Machine) : Prop where
  rest : m' = { m with frames := m'.frames }
  kept : ∀ f, Taken m.memory_bitmap f → m'.frames f = m.frames f

/-- The machine with the words `w` in every free frame. -/
def refill (m : Machine) (w : Nat → Nat) : Machine :=
  { m with frames := fun f => if f < m.memory_bitmap.pages ∧ ¬ Used m.memory_bitmap f then w
      else m.frames f }

theorem refill_alike (m : Machine) (w : Nat → Nat) : Alike m (refill m w) := by
  refine ⟨rfl, fun f hf => if_neg ?_⟩
  exact fun ⟨hlt, hu⟩ => hu (hf hlt)

theorem refill_free (m : Machine) (w : Nat → Nat) {f : Nat} (hf : ¬ Taken m.memory_bitmap f) :
    (refill m w).frames f = w := if_pos (Classical.not_imp.mp hf)

section alike

variable {m m' : Machine}

theorem Alike.refl (m : Machine) : Alike m m := ⟨rfl, fun _ _ => rfl⟩

theorem Alike.memory_bitmap (h : Alike m m') : m'.memory_bitmap = m.memory_bitmap := by
  rw [h.rest]

theorem Alike.bounce (h : Alike m m') : m'.bounce_pages_used = m.bounce_pages_used := by
  rw [h.rest]

theorem Alike.dir (h : Alike m m') : m'.dir = m.dir := by
  rw [h.rest]
  rfl

theorem Alike.kdir (h : Alike m m') : m'.kdir = m.kdir := by
  rw [h.rest]
  rfl

theorem Alike.freeSlots (h : Alike m m') : freeSlots m' = freeSlots m := by
  rw [h.rest]
  rfl

theorem Alike.freeCount (h : Alike m m') : freeCount m' = freeCount m := by
  unfold elf_executable.freeCount
  rw [h.memory_bitmap]

theorem Alike.kernelFrame (h : Alike m m') (hk : KernelSpace m) (f : Nat) :
    m'.KernelFrame f ↔ m.KernelFrame f := by
  unfold Machine.KernelFrame
  rw [h.kdir, h.kept _ (hk.kernel_taken _ (Or.inl rfl))]

theorem Alike.bounceTable (h : Alike m m') (hk : KernelSpace m) :
    m'.bounceTable = m.bounceTable := by
  unfold Machine.bounceTable
  rw [h.dir, h.kept _ hk.dir_taken]

theorem Alike.space (h : Alike m m') (hk : KernelSpace m) : KernelSpace m' := by
  have hdir := h.kept _ hk.dir_taken
  have hkdir := h.kept _ (hk.kernel_taken _ (Or.inl rfl))
  have hbounce := h.bounceTable hk
  have hphys : m'.kernel_page_directory = m.kernel_page_directory := by
    rw [h.rest]
    rfl
  refine ⟨⟨?_, ?_, ?_, ?_, ?_⟩, ?_, ?_, ?_, ?_, ?_, ?_, ?_, ?_, ?_, ?_⟩
  · rw [h.dir, hdir]
    exact hk.windows.self_present
  · rw [h.dir, hdir]
    exact hk.windows.self
  · rw [h.dir, hdir]
    exact hk.windows.bounce_present
  · rw [hbounce, h.dir]
    exact hk.windows.apart
  · rw [hbounce, h.bounce, h.kept _ hk.bounce_taken]
    exact hk.windows.closed
  · rw [h.memory_bitmap]
    exact hk.zero
  · rw [h.memory_bitmap, h.dir]
    exact hk.dir_taken
  · intro f hf
    rw [h.memory_bitmap]
    exact hk.kernel_taken f ((h.kernelFrame hk f).mp hf)
  · rw [h.kernelFrame hk, h.dir]
    exact hk.dir_apart
  · rw [h.kdir, hkdir]
    exact hk.bounce_present
  · rw [h.kdir, hkdir, hbounce]
    exact hk.bounce
  · obtain ⟨j, hj1, hj2, hp, hs⟩ := hk.low
    have htable := h.kept _ (hk.kernel_taken _ (Or.inr ⟨j, hj1, by omega, hp, rfl⟩))
    rw [h.kdir, hkdir, hphys]
    refine ⟨j, hj1, hj2, hp, hs.aligned, hs.lt, ⟨?_, ?_, ?_, ?_⟩, hs.ne_table, ?_, ?_⟩
    · rw [h.dir, hdir]
      exact hs.via.pde_present
    · rw [h.dir, hdir]
      exact hs.via.table
    · rw [htable]
      exact hs.via.pte_present
    · rw [htable]
      exact hs.via.frame
    · rw [hbounce]
      exact hs.ne_bounce
    · rw [hbounce, h.bounce]
      exact hs.slot
  · rw [h.kdir, hkdir]
    exact hk.tables
  · rw [h.kdir, hkdir]
    exact hk.no_loop
  · rw [h.kdir, hkdir]
    exact hk.stack

theorem LoadBase.alike (hb : LoadBase m) (h : Alike m m') : LoadBase m' := by
  refine ⟨h.space hb.space, ?_, ?_, ?_⟩
  · rw [h.kernelFrame hb.space]
    exact hb.zero_apart
  · rw [h.dir]
    exact hb.zero_dir
  · rw [h.freeSlots]
    exact hb.slots

theorem HeapEnd.alike {heap_break : Nat} (he : HeapEnd m heap_break) (hk : KernelSpace m)
    (h : Alike m m') : HeapEnd m' heap_break := by
  refine ⟨he.aligned, he.low, fun v hv1 hv2 => ?_⟩
  have hnone := he.absent v hv1 hv2
  have hlow := he.low
  have h768 : 768 ≤ page_directory_index v ∧ page_directory_index v < 1023 := by
    unfold KERNEL_HEAP_VIRTUAL_START at hlow
    unfold KERNEL_HEAP_VIRTUAL_END at hv2
    unfold page_directory_index
    omega
  unfold Machine.entry at hnone ⊢
  simp only at hnone ⊢
  rw [h.kdir, h.kept _ (hk.kernel_taken _ (Or.inl rfl))]
  by_cases hp : present (m.frames m.kdir (page_directory_index v)) = true
  · rw [h.kept _ (hk.kernel_taken _ (Or.inr ⟨_, h768.1, h768.2, hp, rfl⟩))]
    exact hnone
  · simp [hp]

end alike

/-! ## The bytes of the file -/

/-- The segments lie in the file, and in memory apart from each other and below the stack. -/
structure Segments (data : List Nat) (phs : List Elf32_Phdr) : Prop where
  in_file : ∀ ph ∈ phs, ph.p_type = PT_LOAD → InFile data ph
  below : ∀ ph ∈ phs, ph.p_type = PT_LOAD → ph.p_vaddr + ph.p_memsz ≤ USER_STACK_TOP - PAGE_SIZE
  apart : phs.Pairwise fun a b => a.p_type = PT_LOAD → b.p_type = PT_LOAD → ∀ u,
    ¬ ((a.p_vaddr ≤ u ∧ u < a.p_vaddr + a.p_memsz) ∧
      (b.p_vaddr ≤ u ∧ u < b.p_vaddr + b.p_memsz))

/-- No byte of a segment is on a page of a segment after it. -/
def Unshared (phs : List Elf32_Phdr) : Prop :=
  ∀ l1 ph l2, phs = l1 ++ ph :: l2 → ph.p_type = PT_LOAD →
    ∀ k, k < ph.p_memsz → ¬ LoadPage l2 ((ph.p_vaddr + k) / 4096)

/-- The bytes of every segment are those of the file, followed by zeros, and the heap begins
at a page above them. -/
structure FileImage (m : Machine) (task : task_t) (data : List Nat) (phs : List Elf32_Phdr) :
    Prop where
  bytes : ∀ ph ∈ phs, ph.p_type = PT_LOAD → ∀ k, k < ph.p_memsz →
    spaceByte m (frameOf task.task_cr3) (ph.p_vaddr + k) =
      some (if k < ph.p_filesz then data.getD (ph.p_offset + k) 0 else 0)
  heap_aligned : task.heap_start % 4096 = 0
  heap_above : ∀ ph ∈ phs, ph.p_type = PT_LOAD → ph.p_vaddr + ph.p_memsz ≤ task.heap_start

theorem Segments.belowKernel {data : List Nat} {phs : List Elf32_Phdr} (h : Segments data phs) :
    ∀ ph ∈ phs, ph.p_type = PT_LOAD → BelowKernel ph := by
  intro ph hm hload
  have hlow := h.below ph hm hload
  have hin := (h.in_file ph hm hload).1
  have hmem : ph.p_vaddr + ph.p_memsz ≤ KERNEL_VIRTUAL_SPACE_START := hlow.trans (by decide)
  obtain ⟨-, -, h3, -, -⟩ := segment_pages hmem
  exact Or.inl ⟨hmem, by omega⟩

theorem segment_end_aligned (ph : Elf32_Phdr) : segment_end ph % 4096 = 0 := by
  unfold segment_end ALIGN_UP ALIGN_DOWN u32
  omega

theorem load_end_aligned (phs : List Elf32_Phdr) {start : Nat} (h : start % 4096 = 0) :
    load_end start phs % 4096 = 0 := by
  induction phs generalizing start with
  | nil => exact h
  | cons ph rest ih =>
    unfold load_end
    split
    · exact ih h
    · split
      · exact ih (segment_end_aligned ph)
      · exact ih h

theorem load_end_ge (phs : List Elf32_Phdr) (start : Nat) :
    start ≤ load_end start phs ∧
      ∀ ph ∈ phs, ph.p_type = PT_LOAD → segment_end ph ≤ load_end start phs := by
  induction phs generalizing start with
  | nil => simp [load_end]
  | cons q rest ih =>
    unfold load_end
    by_cases htype : q.p_type ≠ PT_LOAD
    · rw [if_pos htype]
      refine ⟨(ih start).1, fun ph hm hload => ?_⟩
      rcases List.mem_cons.mp hm with rfl | hm
      · exact absurd hload htype
      · exact (ih start).2 ph hm hload
    · rw [if_neg htype]
      have hrest := ih (if start < segment_end q then segment_end q else start)
      have hmax : start ≤ (if start < segment_end q then segment_end q else start) ∧
          segment_end q ≤ (if start < segment_end q then segment_end q else start) := by
        split <;> omega
      refine ⟨hmax.1.trans hrest.1, fun ph hm hload => ?_⟩
      rcases List.mem_cons.mp hm with rfl | hm
      · exact hmax.2.trans hrest.1
      · exact hrest.2 ph hm hload

/-- Of the segments on a page there is a last one. -/
theorem LoadPage.last {phs : List Elf32_Phdr} {p : Nat} (h : LoadPage phs p) :
    ∃ l1 ph l2, phs = l1 ++ ph :: l2 ∧ ph.p_type = PT_LOAD ∧ SegmentPage ph p ∧
      ¬ LoadPage l2 p := by
  induction phs with
  | nil =>
    obtain ⟨ph, hm, -⟩ := h
    cases hm
  | cons q rest ih =>
    by_cases hrest : LoadPage rest p
    · obtain ⟨l1, ph, l2, rfl, hload, hp, hlast⟩ := ih hrest
      exact ⟨q :: l1, ph, l2, rfl, hload, hp, hlast⟩
    · obtain ⟨ph, hm, hload, hp⟩ := h
      rcases List.mem_cons.mp hm with rfl | hm
      · exact ⟨[], ph, rest, rfl, hload, hp, hrest⟩
      · exact absurd ⟨ph, hm, hload, hp⟩ hrest

/-- Some word has another byte everywhere. -/
theorem other_byte (b : Nat) : ∃ w : Nat → Nat, ∀ k, byteAt w k ≠ b := by
  by_cases hb : b = 0
  · refine ⟨fun _ => 0x01010101, fun k => ?_⟩
    have hk : k % 4 < 4 := Nat.mod_lt _ (by decide)
    unfold byteAt byteOf
    rw [hb]
    interval_cases k % 4 <;> simp
  · refine ⟨fun _ => 0, fun k hk => hb ?_⟩
    rw [← hk]
    simp [byteAt, byteOf]

section image

variable {m1 : Machine} {task : task_t} {argv : List (List Nat)} {data header : List Nat}
  {program_header queue : List Nat} {heap_break : Nat}

/-- The segments of a program that fits: loaded where no later segment is on their pages, and
around the bytes of the last one on a page there is what a free frame held. -/
theorem loaded_segments {m m' : Machine} {growth : Nat × Nat} {pages : Nat}
    {result : Machine × elf_result_t × task_t × List Nat} (hb : LoadBase m1)
    (hheap : HeapEnd m1 heap_break) (hhi : heap_break + pages * 4096 ≤ KERNEL_HEAP_VIRTUAL_END + 1)
    (hargc : argv.length ≤ TASK_MAX_ARGUMENTS) (hbytes : stringBytes argv ≤ PAGE_SIZE)
    (hmagic : (read_into data 0 header).take 4 = [0x7F, 0x45, 0x4C, 0x46])
    (hsize : data.length < 0x100000000)
    (hsegs : Segments data (file_headers data (read_into data 0 header) program_header))
    (hf : 0 < freeCount m1)
    (hfits : LoadFits task.task_is_user argv
      (file_headers data (read_into data 0 header) program_header) (freeCount m1))
    (hres : resolve_memory m (.file data) growth = some (m', true)) (ha : Alike m1 m')
    (hrun : elf_load_into_task m task (.file data) argv header program_header queue growth
      (pages, heap_break) = some result) :
    result.2.1 = ELF_RESULT_OK ∧
      result.2.2.1.heap_start =
        load_end 0 (file_headers data (read_into data 0 header) program_header) ∧
      ∀ l1 ph l2, file_headers data (read_into data 0 header) program_header = l1 ++ ph :: l2 →
        ph.p_type = PT_LOAD →
        ((∀ k, k < ph.p_memsz → ¬ LoadPage l2 ((ph.p_vaddr + k) / 4096)) →
          SegmentLoaded result.1 (frameOf result.2.2.1.task_cr3) data ph) ∧
        ∀ u, SegmentPage ph (u / 4096) → ¬ LoadPage l2 (u / 4096) →
          ¬ (ph.p_vaddr ≤ u ∧ u < ph.p_vaddr + ph.p_memsz) →
          StaleByte m' result.1 (frameOf result.2.2.1.task_cr3) u := by
  have hph := hsegs.belowKernel
  rw [load_builds hres hmagic] at hrun
  rw [← ha.freeCount] at hf hfits
  obtain ⟨n, m2, esp, hI, -, hok, -⟩ := load_image_result (hb.alike ha) (hheap.alike hb.space ha) hhi
    hargc hbytes hph hf hrun
  obtain ⟨hcode, -, -, he, htask, hloaded, hstale⟩ := hok hfits
  have hkept := hI.grown (hb.alike ha) he
  have hdir : frameOf result.2.2.1.task_cr3 = n := by
    rw [htask]
    exact loaded_directory _ _ _ _ _
  refine ⟨hcode, by rw [htask]; rfl, fun l1 ph l2 hl hload => ?_⟩
  have hm : ph ∈ file_headers data (read_into data 0 header) program_header := by
    rw [hl]
    exact List.mem_append_right _ List.mem_cons_self
  have hin := hsegs.in_file ph hm hload
  rw [hdir]
  refine ⟨fun hapart => ?_, fun u hu hlast hout => ?_⟩
  · exact hkept.segmentLoaded ((hsegs.below ph hm hload).trans (by decide)) (fun _ _ => id)
      (hloaded hsize l1 ph l2 hl hload hin hapart)
  · have hlow := (hph ph hm hload).page hu
    exact (hstale l1 ph l2 hl hload hin u hu hlast hout).after hkept (Or.inl (by
      unfold KERNEL_VIRTUAL_SPACE_START at *
      omega)) id

/-- Whatever the free frames hold, the image is the file's: exactly when no byte of a segment
is on a page of a segment after it. -/
theorem image_is_the_files (hb : LoadBase m1) (hheap : HeapEnd m1 heap_break)
    (hend : heap_break ≤ KERNEL_HEAP_VIRTUAL_END + 1)
    (hargc : argv.length ≤ TASK_MAX_ARGUMENTS) (hbytes : stringBytes argv ≤ PAGE_SIZE)
    (hmagic : (read_into data 0 header).take 4 = [0x7F, 0x45, 0x4C, 0x46])
    (hsize : data.length < 0x100000000) (hdata : ∀ b ∈ data, b < 256)
    (hsegs : Segments data (file_headers data (read_into data 0 header) program_header))
    (hf : 0 < freeCount m1)
    (hfits : LoadFits task.task_is_user argv
      (file_headers data (read_into data 0 header) program_header) (freeCount m1)) :
    (∀ m m' growth pages result, resolve_memory m (.file data) growth = some (m', true) →
      Alike m1 m' → heap_break + pages * 4096 ≤ KERNEL_HEAP_VIRTUAL_END + 1 →
      elf_load_into_task m task (.file data) argv header program_header queue growth
        (pages, heap_break) = some result → result.2.1 = ELF_RESULT_OK →
      FileImage result.1 result.2.2.1 data
        (file_headers data (read_into data 0 header) program_header)) ↔
      Unshared (file_headers data (read_into data 0 header) program_header) := by
  constructor
  · intro himage l1 ph l2 hl hload k hk hpage
    -- The last segment on the page has the byte of a frame that may hold another one there.
    obtain ⟨l3, last, l4, rfl, hload', hp, hlast⟩ := hpage.last
    have hin : ph ∈ file_headers data (read_into data 0 header) program_header := by
      rw [hl]
      exact List.mem_append_right _ List.mem_cons_self
    have hpairs := hsegs.apart
    rw [hl] at hpairs
    have hout : ¬ (last.p_vaddr ≤ ph.p_vaddr + k ∧ ph.p_vaddr + k < last.p_vaddr + last.p_memsz) :=
      fun hc => (List.pairwise_cons.mp (List.pairwise_append.mp hpairs).2.1).1 last
        (List.mem_append_right _ List.mem_cons_self) hload hload' (ph.p_vaddr + k)
        ⟨⟨Nat.le_add_right _ _, by omega⟩, hc⟩
    obtain ⟨w, hw⟩ := other_byte
      (if k < ph.p_filesz then data.getD (ph.p_offset + k) 0 else 0)
    have ha := refill_alike m1 w
    obtain ⟨result, hrun⟩ := load_returns task argv queue heap_break heap_break
      (hb.alike ha) (by rw [ha.memory_bitmap]; exact hf) hargc hbytes hmagic hsegs.belowKernel
    have hhi : heap_break + 0 * 4096 ≤ KERNEL_HEAP_VIRTUAL_END + 1 := by
      rw [Nat.zero_mul]
      exact hend
    obtain ⟨hcode, -, hparts⟩ := loaded_segments hb hheap hhi hargc hbytes hmagic hsize hsegs hf
      hfits rfl ha hrun
    obtain ⟨f, hfree, hbyte⟩ := (hparts (l1 ++ ph :: l3) last l4 (by rw [hl]; simp) hload').2
      (ph.p_vaddr + k) hp hlast hout
    rw [ha.memory_bitmap] at hfree
    rw [refill_free m1 w hfree] at hbyte
    have hexpected := (himage _ _ _ _ _ rfl ha hhi hrun hcode).bytes ph hin hload k hk
    rw [hexpected] at hbyte
    exact hw _ (Option.some.inj hbyte).symm
  · intro hun m m' growth pages result hres ha hhi hrun _
    obtain ⟨-, hheap', hparts⟩ := loaded_segments hb hheap hhi hargc hbytes hmagic hsize hsegs hf
      hfits hres ha hrun
    refine ⟨fun ph hm hload k hk => ?_, ?_, fun ph hm hload => ?_⟩
    · obtain ⟨l1, l2, hl⟩ := List.append_of_mem hm
      rw [(hparts l1 ph l2 hl hload).1 (hun l1 ph l2 hl hload) k hk]
      unfold segment_byte
      split
      · rename_i hkf
        have hin := hsegs.in_file ph hm hload
        have hlt : ph.p_offset + k < data.length := by
          have := hin.2
          omega
        rw [List.getD_eq_getElem _ _ hlt, Nat.mod_eq_of_lt (hdata _ (List.getElem_mem hlt))]
      · rfl
    · rw [hheap']
      exact load_end_aligned _ rfl
    · obtain ⟨-, -, h3, -, -⟩ := segment_pages ((hsegs.below ph hm hload).trans (show
        USER_STACK_TOP - PAGE_SIZE ≤ KERNEL_VIRTUAL_SPACE_START by decide))
      rw [hheap']
      exact h3.trans ((load_end_ge _ 0).2 ph hm hload)

end image

/-- Two segments of one byte each, on one page. -/
def twinProgram : List Elf32_Phdr := [⟨PT_LOAD, 0, 0x400000, 1, 1⟩, ⟨PT_LOAD, 0, 0x400010, 1, 1⟩]

theorem twin_headers : small_headers twinProgram = twinProgram := by decide +kernel

theorem twin_segments : Segments (elfFile twinProgram) twinProgram := by
  constructor
  · unfold twinProgram InFile
    decide +kernel
  · unfold twinProgram
    decide
  · unfold twinProgram
    simp only [List.pairwise_cons, List.mem_singleton, forall_eq]
    refine ⟨fun _ _ u => by omega, by simp⟩

theorem textAndData_segments : Segments (elfFile textAndData) textAndData := by
  constructor
  · unfold textAndData InFile
    decide +kernel
  · unfold textAndData
    decide
  · unfold textAndData
    simp only [List.pairwise_cons, List.mem_singleton, forall_eq]
    refine ⟨fun _ _ u => by omega, by simp⟩

theorem textAndData_unshared : Unshared textAndData := by
  intro l1 ph l2 hl _ k hk ⟨q, hm, _, hlo, hhi⟩
  match l1 with
  | [] =>
    obtain ⟨rfl, rfl⟩ := List.cons.inj hl
    rw [List.mem_singleton.mp hm] at hlo
    have hstart : segment_start ⟨PT_LOAD, 100, 0x401000, 16, 32⟩ / 4096 = 0x401 := by decide
    simp only at hk hlo
    omega
  | [_] =>
    obtain ⟨-, hl⟩ := List.cons.inj hl
    obtain ⟨-, rfl⟩ := List.cons.inj hl
    cases hm
  | _ :: _ :: l1 =>
    have hlen := congrArg List.length hl
    simp [textAndData] at hlen

/-- The byte of the first of two segments on one page is lost: the page of the second is a
frame that holds zeros there. -/
theorem twin_segments_lose_a_byte : ∃ result, small_exec twinProgram [] = some result ∧
    result.2.1 = ELF_RESULT_OK ∧ Segments (elfFile twinProgram) (small_headers twinProgram) ∧
    ¬ FileImage result.1 result.2.2.1 (elfFile twinProgram) (small_headers twinProgram) := by
  have hsegs : Segments (elfFile twinProgram) (small_headers twinProgram) := by
    rw [twin_headers]
    exact twin_segments
  obtain ⟨result, hrun, -⟩ := small_exec_returns [] (by decide) (by decide) hsegs.belowKernel
  have hfits : LoadFits smallParent.task_is_user [] (small_headers twinProgram)
      (freeCount smallMachine) := by
    rw [twin_headers]
    decide +kernel
  obtain ⟨hcode, -, hparts⟩ := loaded_segments small_loadBase small_heapEnd
    (show 0xF0000000 + 0 * 4096 ≤ KERNEL_HEAP_VIRTUAL_END + 1 by decide) (by decide) (by decide)
    (small_file_magic _) (by decide +kernel) hsegs (by decide +kernel) hfits (small_resolved _)
    (Alike.refl _) hrun
  refine ⟨result, hrun, hcode, hsegs, fun himage => ?_⟩
  obtain ⟨f, hfree, hbyte⟩ := (hparts [⟨PT_LOAD, 0, 0x400000, 1, 1⟩] ⟨PT_LOAD, 0, 0x400010, 1, 1⟩ []
    twin_headers rfl).2 0x400000 (by unfold SegmentPage; decide) (fun ⟨_, hm, _⟩ => by cases hm) (by decide)
  have hexpected := himage.bytes ⟨PT_LOAD, 0, 0x400000, 1, 1⟩ (by
    rw [twin_headers]
    exact List.mem_cons_self) rfl 0 (by decide)
  have hzero : smallMachine.frames f = fun _ => 0 := by
    have hlarge : 9 ≤ f := by
      by_contra hc
      exact hfree fun _ => small_used (by omega)
    funext j
    show smallFrames f j = 0
    unfold smallFrames
    repeat rw [if_neg (by omega)]
  rw [hzero] at hbyte
  have hboth := hexpected.symm.trans hbyte
  revert hboth
  decide +kernel

/-- The image of two segments on two pages is the file's, whatever the free frames hold. -/
theorem two_segments_are_the_files :
    ∃ result, small_exec textAndData [[115, 104]] = some result ∧ result.2.1 = ELF_RESULT_OK ∧
      FileImage result.1 result.2.2.1 (elfFile textAndData) textAndData := by
  have hsegs : Segments (elfFile textAndData) (small_headers textAndData) := by
    rw [textAndData_headers]
    exact textAndData_segments
  have hun : Unshared (small_headers textAndData) := by
    rw [textAndData_headers]
    exact textAndData_unshared
  obtain ⟨result, hrun, himage⟩ := small_exec_returns [[115, 104]] (by decide) (by decide)
    hsegs.belowKernel
  obtain ⟨hcode, -⟩ := loaded_task_runs small_loadBase small_heapEnd
    (show 0xF0000000 + 0 * 4096 ≤ KERNEL_HEAP_VIRTUAL_END + 1 by decide) (by decide) (by decide)
    hsegs.belowKernel (by decide +kernel) rfl textAndData_fits himage
  refine ⟨result, hrun, hcode, ?_⟩
  have hfile := (image_is_the_files small_loadBase small_heapEnd (by decide) (by decide)
    (by decide) (small_file_magic _) (by decide +kernel) (by decide +kernel) hsegs
    (by decide +kernel) textAndData_fits).mpr hun _ _ _ _ _ (small_resolved _) (Alike.refl _)
    (by decide) hrun hcode
  rwa [← small_headers, textAndData_headers] at hfile

/-! ## What the buffers held -/

/-- A byte at the start of the file is not that of the magic number. -/
def BadMagic (data : List Nat) : Prop := ¬ data.take 4 <+: [0x7F, 0x45, 0x4C, 0x46]

/-- The file has a header with the magic number, and all its program headers. -/
structure WellFormed (data : List Nat) : Prop where
  header : 52 ≤ data.length
  magic : data.take 4 = [0x7F, 0x45, 0x4C, 0x46]
  program_headers : ∀ i, i < data.getD 44 0 + 256 * data.getD 45 0 →
    word32 data 7 + i * PROGRAM_HEADER_SIZE + PROGRAM_HEADER_SIZE ≤ data.length

/-- Whatever the buffers held, exec does the same, and it loads well formed files only. -/
def DependsOnTheFile (m : Machine) (task : task_t) (data : List Nat) (argv : List (List Nat))
    (queue : List Nat) : Prop :=
  ∀ growth growth' header header' program_header program_header',
    header.length = 52 → header'.length = 52 →
    program_header.length = PROGRAM_HEADER_SIZE → program_header'.length = PROGRAM_HEADER_SIZE →
    elf_load_into_task m task (.file data) argv header program_header queue growth growth' =
      elf_load_into_task m task (.file data) argv header' program_header' queue growth growth' ∧
    ∀ result, elf_load_into_task m task (.file data) argv header program_header queue growth
      growth' = some result → result.2.1 = ELF_RESULT_OK → WellFormed data

/-- With some bytes in the buffers the file is a program below the kernel for which there are
frames enough. -/
def Loadable (m : Machine) (task : task_t) (data : List Nat) (argv : List (List Nat)) : Prop :=
  0 < freeCount m ∧ ∃ header program_header, header.length = 52 ∧
    program_header.length = PROGRAM_HEADER_SIZE ∧
    (read_into data 0 header).take 4 = [0x7F, 0x45, 0x4C, 0x46] ∧
    (∀ ph ∈ file_headers data (read_into data 0 header) program_header,
      ph.p_type = PT_LOAD → BelowKernel ph) ∧
    LoadFits task.task_is_user argv (file_headers data (read_into data 0 header) program_header)
      (freeCount m)

/-- What lies in the file fills the buffer. -/
theorem read_into_full {data buffer : List Nat} {offset : Nat}
    (h : offset + buffer.length ≤ data.length) :
    read_into data offset buffer = (data.drop offset).take buffer.length := by
  unfold read_into ramfs_read
  have hlen : ((data.drop offset).take buffer.length).length = buffer.length := by
    rw [List.length_take, List.length_drop]
    omega
  simp only [hlen, List.drop_length, List.append_nil]

/-- What was read starts with the file. -/
theorem read_into_start {data buffer : List Nat} (h : 4 ≤ buffer.length) :
    data.take 4 <+: (read_into data 0 buffer).take 4 := by
  unfold read_into ramfs_read
  rw [List.drop_zero, List.take_append, List.take_take, Nat.min_eq_left h]
  exact List.prefix_append _ _

theorem file_header_fields (data : List Nat) :
    word32 (data.take 52) 7 = word32 data 7 ∧
      (data.take 52).getD 44 0 = data.getD 44 0 ∧ (data.take 52).getD 45 0 = data.getD 45 0 := by
  have hget : ∀ k, k < 52 → (data.take 52).getD k 0 = data.getD k 0 := by
    intro k hk
    simp [List.getD_eq_getElem?_getD, hk]
  unfold word32
  simp only [hget _ (show 4 * 7 < 52 by decide), hget _ (show 4 * 7 + 1 < 52 by decide),
    hget _ (show 4 * 7 + 2 < 52 by decide), hget _ (show 4 * 7 + 3 < 52 by decide),
    hget _ (show 44 < 52 by decide), hget _ (show 45 < 52 by decide), and_self]

section buffers

variable {m : Machine} {task : task_t} {data : List Nat} {argv : List (List Nat)}
  {queue : List Nat}

/-- The program headers are read over what the buffer held: the first one decides. -/
theorem load_segments_congr {e_phoff page_directory page_directory_phys count start : Nat}
    {task_is_user : Bool} {program_header program_header' : List Nat}
    (h : 0 < count → read_into data (u32 (e_phoff + 0 * PROGRAM_HEADER_SIZE)) program_header =
      read_into data (u32 (e_phoff + 0 * PROGRAM_HEADER_SIZE)) program_header') :
    elf_load_segments data e_phoff page_directory page_directory_phys task_is_user count 0
        program_header start m =
      elf_load_segments data e_phoff page_directory page_directory_phys task_is_user count 0
        program_header' start m := by
  cases count with
  | zero => rfl
  | succ count =>
    unfold elf_load_segments
    rw [h (Nat.succ_pos count)]

theorem load_image_congr {header program_header program_header' : List Nat}
    {growth : Nat × Nat}
    (h : 0 < header.getD 44 0 + 256 * header.getD 45 0 →
      read_into data (u32 (word32 header 7 + 0 * PROGRAM_HEADER_SIZE)) program_header =
        read_into data (u32 (word32 header 7 + 0 * PROGRAM_HEADER_SIZE)) program_header') :
    elf_load_image m task data header program_header argv queue growth =
      elf_load_image m task data header program_header' argv queue growth := by
  unfold elf_load_image
  simp only [load_segments_congr h]

theorem load_bad_magic {header program_header : List Nat} {growth growth' : Nat × Nat}
    (h : (read_into data 0 header).take 4 ≠ [0x7F, 0x45, 0x4C, 0x46]) :
    elf_load_into_task m task (.file data) argv header program_header queue growth growth' =
      (kernel_heap_grow growth.1 growth.2 m).map
        fun r => (r.1, ELF_RESULT_INVALID_ELF, task, queue) := by
  unfold elf_load_into_task
  cases kernel_heap_grow growth.1 growth.2 m with
  | none => rfl
  | some r =>
    obtain ⟨m1, served⟩ := r
    cases served with
    | false => rfl
    | true => simp [h]

theorem load_magic {header program_header : List Nat} {growth growth' : Nat × Nat}
    (h : (read_into data 0 header).take 4 = [0x7F, 0x45, 0x4C, 0x46]) :
    elf_load_into_task m task (.file data) argv header program_header queue growth growth' =
      (kernel_heap_grow growth.1 growth.2 m).bind fun r =>
        if r.2 then elf_load_image r.1 task data (read_into data 0 header) program_header argv queue
          growth'
        else some (r.1, ELF_RESULT_INVALID_ELF, task, queue) := by
  unfold elf_load_into_task
  cases kernel_heap_grow growth.1 growth.2 m with
  | none => rfl
  | some r =>
    obtain ⟨m1, served⟩ := r
    cases served with
    | false => rfl
    | true => simp [h]

theorem BadMagic.depends (h : BadMagic data) (m : Machine) :
    DependsOnTheFile m task data argv queue := by
  intro growth growth' header header' program_header program_header' h1 h2 _ _
  have hmagic : ∀ buffer : List Nat, buffer.length = 52 →
      (read_into data 0 buffer).take 4 ≠ [0x7F, 0x45, 0x4C, 0x46] :=
    fun buffer hlen hc => h (hc ▸ read_into_start (by omega))
  refine ⟨by rw [load_bad_magic (hmagic _ h1), load_bad_magic (hmagic _ h2)], ?_⟩
  intro result hrun hok
  rw [load_bad_magic (hmagic _ h1)] at hrun
  obtain ⟨r, -, rfl⟩ := Option.map_eq_some_iff.mp hrun
  cases hok

theorem WellFormed.depends (h : WellFormed data) (hsize : data.length < 0x100000000)
    (m : Machine) : DependsOnTheFile m task data argv queue := by
  intro growth growth' header header' program_header program_header' h1 h2 h3 h4
  refine ⟨?_, fun _ _ _ => h⟩
  have hread : ∀ buffer : List Nat, buffer.length = 52 →
      read_into data 0 buffer = data.take 52 := by
    intro buffer hlen
    have hfull := h.header
    rw [read_into_full (by omega), List.drop_zero, hlen]
  have hmagic : (data.take 52).take 4 = [0x7F, 0x45, 0x4C, 0x46] := by
    rw [List.take_take]
    exact h.magic
  obtain ⟨hoff, hlow, hhigh⟩ := file_header_fields data
  rw [load_magic (by rw [hread _ h1]; exact hmagic), load_magic (by rw [hread _ h2]; exact hmagic),
    hread _ h1, hread _ h2]
  have himage : ∀ m1, elf_load_image m1 task data (data.take 52) program_header argv queue growth' =
      elf_load_image m1 task data (data.take 52) program_header' argv queue growth' := by
    intro m1
    refine load_image_congr fun hpos => ?_
    rw [hlow, hhigh] at hpos
    have hfirst := h.program_headers 0 hpos
    have hlt : word32 data 7 + 0 * PROGRAM_HEADER_SIZE < 0x100000000 := by omega
    rw [hoff, u32_of_lt hlt, read_into_full (by omega), read_into_full (by omega), h3, h4]
  simp only [himage]

/-- A load for which there are frames enough ends well. -/
theorem Loadable.loads {heap_break : Nat} (h : Loadable m task data argv) (queue : List Nat)
    (hb : LoadBase m) (hheap : HeapEnd m heap_break) (hend : heap_break ≤ KERNEL_HEAP_VIRTUAL_END + 1)
    (hargc : argv.length ≤ TASK_MAX_ARGUMENTS) (hbytes : stringBytes argv ≤ PAGE_SIZE) :
    ∃ header program_header result, header.length = 52 ∧
      program_header.length = PROGRAM_HEADER_SIZE ∧
      elf_load_into_task m task (.file data) argv header program_header queue (0, heap_break)
        (0, heap_break) = some result ∧ result.2.1 = ELF_RESULT_OK := by
  obtain ⟨hf, header, program_header, h1, h2, hmagic, hph, hfits⟩ := h
  obtain ⟨result, hrun⟩ := load_returns task argv queue heap_break heap_break hb hf hargc hbytes
    hmagic hph
  have himage := hrun
  rw [load_builds (show resolve_memory m (.file data) (0, heap_break) = some (m, true) from rfl)
    hmagic] at himage
  obtain ⟨n, m2, esp, -, -, hok, -⟩ := load_image_result hb hheap (by rw [Nat.zero_mul]; exact hend)
    hargc hbytes hph hf himage
  exact ⟨header, program_header, result, h1, h2, hrun, (hok hfits).1⟩

/-- A file that is well formed, or that begins with another magic number, decides what exec
does; for a file that can be loaded with some bytes in the buffers, nothing else will do. -/
theorem exec_depends_on_the_file (task : task_t) (data : List Nat) (argv : List (List Nat))
    (queue : List Nat) (hsize : data.length < 0x100000000) :
    (BadMagic data ∨ WellFormed data → ∀ m, DependsOnTheFile m task data argv queue) ∧
    ∀ m heap_break, LoadBase m → HeapEnd m heap_break →
      heap_break ≤ KERNEL_HEAP_VIRTUAL_END + 1 → argv.length ≤ TASK_MAX_ARGUMENTS →
      stringBytes argv ≤ PAGE_SIZE → Loadable m task data argv →
      (DependsOnTheFile m task data argv queue ↔ WellFormed data) := by
  refine ⟨fun h m => h.elim (fun hbad => hbad.depends m) fun hwell => hwell.depends hsize m, ?_⟩
  intro m heap_break hb hheap hend hargc hbytes hload
  refine ⟨fun hdep => ?_, fun hwell => hwell.depends hsize m⟩
  obtain ⟨header, program_header, result, h1, h2, hrun, hok⟩ :=
    hload.loads queue hb hheap hend hargc hbytes
  exact (hdep _ _ header header program_header program_header h1 h1 h2 h2).2 result hrun hok

end buffers

/-- Exec of the empty file fails, or succeeds when the buffer holds the header of an earlier
program. -/
theorem exec_of_an_empty_file : ∃ result result',
    elf_load_into_task smallMachine smallParent (.file []) [] (List.replicate 52 0)
      (List.replicate 32 0) [] (0, 0xF0000000) (0, 0xF0000000) = some result ∧
    elf_load_into_task smallMachine smallParent (.file []) [] (elfFile [])
      (List.replicate 32 0) [] (0, 0xF0000000) (0, 0xF0000000) = some result' ∧
    result.2.1 = ELF_RESULT_INVALID_ELF ∧ result'.2.1 = ELF_RESULT_OK ∧ ¬ WellFormed [] := by
  have hmagic : (read_into [] 0 (elfFile [])).take 4 = [0x7F, 0x45, 0x4C, 0x46] := rfl
  have hnone : file_headers [] (read_into [] 0 (elfFile [])) (List.replicate 32 0) = [] := by
    decide +kernel
  have hph : ∀ ph ∈ file_headers [] (read_into [] 0 (elfFile [])) (List.replicate 32 0),
      ph.p_type = PT_LOAD → BelowKernel ph := by
    rw [hnone]
    exact fun ph hm => by cases hm
  obtain ⟨result, hrun⟩ := load_returns (m := smallMachine) smallParent [] [] 0xF0000000 0xF0000000
    small_loadBase (by decide) (by decide) (by decide) hmagic hph
  have himage := hrun
  rw [load_builds (small_resolved _) hmagic] at himage
  obtain ⟨n, m2, esp, -, -, hok, -⟩ := load_image_result small_loadBase small_heapEnd (by decide)
    (by decide) (by decide) hph (by decide) himage
  refine ⟨_, result, rfl, hrun, rfl, (hok ?_).1, fun h => ?_⟩
  · rw [hnone]
    exact Nat.zero_le _
  · exact absurd h.header (by decide)

theorem small_file_well_formed : WellFormed (elfFile textAndData) := by
  refine ⟨by decide, rfl, ?_⟩
  decide +kernel

/-- Whatever the buffers hold, a program with two segments is loaded in the same way. -/
theorem a_small_program_is_loaded_alike :
    DependsOnTheFile smallMachine smallParent (elfFile textAndData) [[115, 104]] [] ∧
      Loadable smallMachine smallParent (elfFile textAndData) [[115, 104]] ∧
      WellFormed (elfFile textAndData) := by
  have hload : Loadable smallMachine smallParent (elfFile textAndData) [[115, 104]] :=
    ⟨by decide, List.replicate 52 0, List.replicate 32 0, rfl, rfl, rfl, textAndData_below,
      textAndData_fits⟩
  obtain ⟨henough, hexact⟩ := exec_depends_on_the_file smallParent (elfFile textAndData)
    [[115, 104]] [] (by decide)
  have hdep := henough (Or.inr small_file_well_formed) smallMachine
  exact ⟨hdep, hload, (hexact smallMachine 0xF0000000 small_loadBase small_heapEnd (by decide)
    (by decide) (by decide) hload).mp hdep⟩

end alura_os.elf_executable
