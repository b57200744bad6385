-- What loading a program does to the kernel. The loader takes the addresses of
-- the segments as the file has them, and a new directory shares the kernel's page
-- tables: so the kernel is left alone when the segments lie below it, and a
-- segment above its start rewrites the tables of every task.
import AluraOs.LoadImage

namespace alura_os.elf_executable

open alura_os.memory alura_os.memory_bitmap alura_os.memory_paging alura_os.task_manager Machine
open memory_paging_result_t

section load

variable {mb m : Machine} {n i : Nat}

/-! ## The whole load -/

/-- A new directory begins a load: it takes one frame and has no page of its own. -/
theorem Loading.start (hb : LoadBase mb) (hf : 0 < freeCount mb) :
    ∃ n, memory_paging_create_page_directory mb =
        some (withDirectory mb n, MEMORY_PAGING_RESULT_OK, n * 4096) ∧
      freeCount (withDirectory mb n) + 1 = freeCount mb ∧ Loading mb (withDirectory mb n) n ∧
      (∀ j, Private j → present ((withDirectory mb n).frames n j) = false) ∧
      ∀ f, ¬ Used (withDirectory mb n).memory_bitmap f →
        (withDirectory mb n).frames f = mb.frames f := by
  have hs := hb.slots
  obtain ⟨n, hcreate, hlt, hu, -, hkept, hused, hcard⟩ := withDirectory_spec hb.space (by omega) hf
  have hwords := withDirectory_words mb n
  have hself : newDirectory mb (n * 4096) 1023 =
      (n * 4096 ||| PAGE_READ_WRITE ||| PAGE_PRESENT) := by
    unfold newDirectory
    simp [Nat.or_assoc, Nat.or_comm PAGE_PRESENT]
  have hlow : ∀ j, Private j → present ((withDirectory mb n).frames n j) = false := by
    rintro j (hj | rfl)
    · rw [hwords, newDirectory_low mb _ hj]
      rfl
    · rw [hwords, newDirectory_kernel mb _ (by omega) (by omega)]
      exact hb.space.stack
  have hnone : ∀ {P : Prop} {j}, Private j → present ((withDirectory mb n).frames n j) = true → P := by
    intro P j hj hp
    rw [hlow j hj] at hp
    cases hp
  refine ⟨n, hcreate, hcard, ⟨hkept.cr3, hkept.kernel, rfl, hkept.pages, hkept.used,
    ⟨hlt, hu, hused⟩, ?_, ?_, ?_, ?_, fun hp => hnone (Or.inr rfl) hp,
    fun j hj hp => hnone (Or.inl hj) hp, fun j hj hp => hnone hj hp,
    fun j hj hp => hnone (Or.inl hj) hp, fun j k hj _ hp => hnone (Or.inl hj) hp⟩, hlow, ?_⟩
  · intro f _ hf'
    unfold withDirectory
    rw [setFrame_apply, if_neg (hf'.ne hlt hu).symm]
    rfl
  · intro j hj1 hj2 _
    rw [hwords, newDirectory_kernel mb _ hj1 hj2]
  · rw [hwords, hself]
    exact kernel_entry_user n
  · rw [hwords, hself]
    exact ⟨present_entry _ _, frameOf_entry n (by decide)⟩
  · intro f hf'
    unfold withDirectory
    rw [setFrame_apply, if_neg (by rintro rfl; exact hf' hused)]
    rfl

/-- Without pages there is nothing to keep apart. -/
theorem Loading.image (h : Loading mb m n)
    (hT : ∀ j, Private j → present (m.frames n j) = false) : Image mb m n := by
  have hnone : ∀ v, OwnPage v → m.entry n v = none := by
    intro v hv
    unfold Machine.entry
    simp [hT _ hv.private]
  refine ⟨h, fun i j hi _ hp => ?_, fun v w x y hv _ hx => ?_, fun v x hv hx => ?_⟩
  · rw [hT i hi] at hp
    cases hp
  · rw [hnone v hv] at hx
    cases hx
  · rw [hnone v hv] at hx
    cases hx

/-- The kernel's part of an address space is the same all along. -/
theorem Loading.kernel_entry (h : Loading mb m n) (hb : LoadBase mb) {v : Nat}
    (h1 : 768 ≤ page_directory_index v) (h2 : page_directory_index v < 1023) :
    m.entry mb.kdir v = mb.entry mb.kdir v := by
  unfold Machine.entry
  simp only
  rw [h.kernel_words hb (Or.inl rfl)]
  by_cases hp : present (mb.frames mb.kdir (page_directory_index v)) = true
  · rw [h.kernel_words hb (Or.inr ⟨_, h1, h2, hp, rfl⟩)]
  · simp [hp]

end load

/-- The kernel heap ends at `heap_break`: from there to the end of its window no page is
mapped. -/
structure HeapEnd (m : Machine) (heap_break : Nat) : Prop where
  aligned : heap_break % 4096 = 0
  low : KERNEL_HEAP_VIRTUAL_START ≤ heap_break
  absent : ∀ v, heap_break ≤ v → v ≤ KERNEL_HEAP_VIRTUAL_END → m.entry m.kdir v = none

theorem HeapEnd.grow {m : Machine} {heap_break pages : Nat} (h : HeapEnd m heap_break)
    (hk : KernelSpace m) (hs : 0 < (freeSlots m).card)
    (hhi : heap_break + pages * 4096 ≤ KERNEL_HEAP_VIRTUAL_END + 1) :
    ∃ m' served, kernel_heap_grow pages heap_break m = some (m', served) ∧ KernelSpace m' ∧
      Grown m m' ∧ Extends m m' ∧ HeapEnd m' (heap_break + pages * 4096) := by
  have habs : ∀ k, k < pages → m.entry m.kdir (heap_break + k * 4096) = none := by
    unfold KERNEL_HEAP_VIRTUAL_END at hhi
    intro k hk
    have hlt : heap_break + k * 4096 < 0xF7FFFFFF + 1 := by omega
    exact h.absent _ (Nat.le_add_right _ _) (Nat.le_of_lt_succ hlt)
  obtain ⟨m', served, hgrow, hk', hg, he, hrest⟩ := grow_extends hk pages hs h.aligned h.low hhi
    habs
  clear hhi
  have hal := h.aligned
  refine ⟨m', served, hgrow, hk', hg, he, by omega, ?_, fun v hv1 hv2 => ?_⟩
  · exact h.low.trans (Nat.le_add_right _ _)
  · rw [hg.kdir]
    exact hrest v hv1 hv2 (h.absent v (by omega) hv2)

/-- A page that users can reach: both of its entries say so. -/
def UserAccess (m : Machine) (d v : Nat) : Prop :=
  ∃ x, m.entry d v = some x ∧ x &&& PAGE_USER ≠ 0 ∧
    m.frames d (page_directory_index v) &&& PAGE_USER ≠ 0

/-- A directory with its tables of the kernel's part, all of them frames in use. -/
structure Space (m : Machine) (d : Nat) : Prop where
  ne_zero : d ≠ 0
  taken : Taken m.memory_bitmap d
  tables : ∀ j, 768 ≤ j → j < 1024 → present (m.frames d j) = true →
    frameOf (m.frames d j) ≠ 0 ∧ Taken m.memory_bitmap (frameOf (m.frames d j))

theorem kernel_index {v : Nat} (h1 : KERNEL_VIRTUAL_SPACE_START ≤ v) (h2 : v < 0x100000000) :
    768 ≤ page_directory_index v := by
  unfold KERNEL_VIRTUAL_SPACE_START at h1
  unfold page_directory_index
  omega

theorem page_directory_index_lt (v : Nat) : page_directory_index v < 1024 :=
  Nat.mod_lt _ (by decide)

/-- A mapped page of an old directory is mapped as before. -/
theorem Extends.entry {m m' : Machine} (h : Extends m m') {d v x : Nat} (hd : Space m d)
    (hv1 : KERNEL_VIRTUAL_SPACE_START ≤ v) (hv2 : v < 0x100000000) (hx : m.entry d v = some x) :
    m'.entry d v = some x ∧
      m'.frames d (page_directory_index v) = m.frames d (page_directory_index v) := by
  obtain ⟨hp, hq, he⟩ := entry_eq_some.mp hx
  have hpde := h.present_word hd.ne_zero hd.taken hp
  obtain ⟨hT0, hT⟩ := hd.tables _ (kernel_index hv1 hv2) (page_directory_index_lt v) hp
  have hpte := h.present_word hT0 hT hq
  refine ⟨entry_eq_some.mpr ⟨?_, ?_, ?_⟩, hpde⟩
  · rw [hpde]; exact hp
  · rw [hpde, hpte]; exact hq
  · rw [hpde, hpte]; exact he

/-- Users reach no page of an old directory that they did not reach before. -/
theorem Extends.userAccess {m m' : Machine} (h : Extends m m') {d v : Nat} (hd : Space m d)
    (hv1 : KERNEL_VIRTUAL_SPACE_START ≤ v) (hv2 : v < 0x100000000) (hu : UserAccess m' d v) : UserAccess m d v := by
  obtain ⟨x, hx, hux, hud⟩ := hu
  obtain ⟨hp, hq, he⟩ := entry_eq_some.mp hx
  have hpde : m'.frames d (page_directory_index v) = m.frames d (page_directory_index v) := by
    rcases h.words d (page_directory_index v) hd.ne_zero hd.taken with hw | ⟨-, -, hn⟩
    · exact hw
    · exact absurd hn hud
  rw [hpde] at hp hq he hud
  obtain ⟨hT0, hT⟩ := hd.tables _ (kernel_index hv1 hv2) (page_directory_index_lt v) hp
  have hpte : m'.frames (frameOf (m.frames d (page_directory_index v))) (page_table_index v) =
      m.frames (frameOf (m.frames d (page_directory_index v))) (page_table_index v) := by
    rcases h.words _ (page_table_index v) hT0 hT with hw | ⟨-, -, hn⟩
    · exact hw
    · rw [he] at hn
      exact absurd hn hux
  rw [hpte] at hq he
  exact ⟨x, entry_eq_some.mpr ⟨hp, hq, he⟩, hux, hud⟩

/-! ## The outcome of a load -/

/-- Of the kernel, users reach in a new directory what they reached in the kernel's own. -/
theorem Loading.userAccess {mb m m' : Machine} {n v : Nat} (h : Loading mb m n) (hb : LoadBase mb)
    (he : Extends m m') (hv1 : KERNEL_VIRTUAL_SPACE_START ≤ v) (hv2 : v < 0x100000000)
    (hu : UserAccess m' n v) : UserAccess mb mb.kdir v := by
  obtain ⟨x, hx, hux, hud⟩ := hu
  obtain ⟨hp, hq, hval⟩ := entry_eq_some.mp hx
  have hj1 := kernel_index hv1 hv2
  have hn0 : n ≠ 0 := h.dir_owned.ne fun _ => hb.space.zero
  have hnk : ¬ m.KernelFrame n := by
    rw [h.kernelFrame hb]
    intro hc
    exact h.dir_owned.ne (hb.space.kernel_taken n hc) rfl
  have hpde : m'.frames n (page_directory_index v) = m.frames n (page_directory_index v) := by
    rcases he.words n (page_directory_index v) hn0 (fun _ => h.dir_owned.used) with hw | ⟨hc, -, -⟩
    · exact hw
    · exact absurd hc hnk
  rw [hpde] at hp hq hval hud
  have hj3 : page_directory_index v ≠ 831 := by
    intro hc
    rw [hc] at hp hud
    exact hud (h.stack hp)
  have hj2 : page_directory_index v < 1023 := by
    have := page_directory_index_lt v
    have : page_directory_index v ≠ 1023 := by
      intro hc
      rw [hc] at hud
      exact hud h.self
    omega
  rw [h.kernel_entries _ hj1 hj2 hj3] at hp hq hval hud
  have hkf : mb.KernelFrame (frameOf (mb.frames mb.kdir (page_directory_index v))) :=
    Or.inr ⟨_, hj1, hj2, hp, rfl⟩
  have hT0 : frameOf (mb.frames mb.kdir (page_directory_index v)) ≠ 0 := by
    intro hc
    exact hb.zero_apart (hc ▸ hkf)
  have hpte : m'.frames (frameOf (mb.frames mb.kdir (page_directory_index v)))
      (page_table_index v) =
      mb.frames (frameOf (mb.frames mb.kdir (page_directory_index v))) (page_table_index v) := by
    rw [← h.kernel_words hb hkf]
    rcases he.words _ (page_table_index v) hT0 (h.taken (hb.space.kernel_taken _ hkf)) with
      hw | ⟨-, -, hn⟩
    · exact hw
    · rw [hval] at hn
      exact absurd hn hux
  rw [hpte] at hq hval
  exact ⟨x, entry_eq_some.mpr ⟨hp, hq, hval⟩, hux, hud⟩

/-- What a load leaves: the slots as they were, the words in use as they were, and in the new
directory no page of the kernel that users reach and did not reach before. -/
structure Outcome (m : Machine) (result : Machine × elf_result_t × task_t × List Nat) : Prop where
  slots : result.1.bounce_pages_used = m.bounce_pages_used
  extension : Extends m result.1
  users : result.2.1 = elf_result_t.ELF_RESULT_OK → ∀ v, KERNEL_VIRTUAL_SPACE_START ≤ v →
    v < 0x100000000 → UserAccess result.1 (frameOf result.2.2.1.task_cr3) v →
    UserAccess m m.kdir v

/-- The load of an image up to its segments: the directory is there, and the stacks are what
the frames allow. -/
theorem load_image_prefix {m : Machine} (task : task_t) (data header program_header : List Nat)
    (argv : List (List Nat)) (queue : List Nat) (growth : Nat × Nat) (hb : LoadBase m)
    (hargc : argv.length ≤ TASK_MAX_ARGUMENTS) (hbytes : stringBytes argv ≤ PAGE_SIZE)
    {i : Nat} (hi : bounce_free_slot m = some i) (hf : 0 < freeCount m) :
    ∃ n m1 esp, Image m m1 n ∧
      freeCount m1 = freeCount m - 1 - stack_need task.task_is_user argv ∧
      (∀ j, j < 768 → tablesOf m1 n j =
        (task.task_is_user && (decide (j = 767) && decide (3 ≤ freeCount m)))) ∧
      (∀ f, ¬ Used m1.memory_bitmap f → m1.frames f = m.frames f) ∧
      (∀ v, v < KERNEL_VIRTUAL_SPACE_START → v / 4096 ≠ USER_STACK_PAGE → m1.entry n v = none) ∧
      (StacksFit task.task_is_user argv (freeCount m - 1) →
        esp = some (KERNEL_STACK_TOP - if task.task_is_user then 72 else 64) ∧
        FirstFrame m1 n task.task_is_user (word32 header 6) (start_esp task.task_is_user argv) ∧
        (task.task_is_user = true → UserBlock m1 n argv)) ∧
      (¬ StacksFit task.task_is_user argv (freeCount m - 1) →
        esp = none ∨ m1.entry n (KERNEL_STACK_TOP - PAGE_SIZE) = none) ∧
      elf_load_image m task data header program_header argv queue growth =
        (elf_load_segments data (word32 header 7) (slotAddr i) (n * 4096) task.task_is_user
          (header.getD 44 0 + 256 * header.getD 45 0) 0 program_header 0 (m1.openSlot i n)).bind
          fun r => elf_commit r.1 task (slotAddr i) (n * 4096) (word32 header 6) esp m.cr3 r.2
            queue growth := by
  obtain ⟨n, hcreate, hcount, hL, hT, hclean⟩ := Loading.start hb hf
  have hfr : frameOf (n * 4096) = n := by unfold frameOf; omega
  have hopen := bounce_alloc_spec (hL.space hb).windows (by rw [hL.free_slot]; exact hi) (n * 4096)
  rw [hfr] at hopen
  obtain ⟨m1, result, esp, hstacks, hon, hleft, htables, hready, hfail⟩ := (hL.image hT).stacks hb hi
    task.task_is_user (word32 header 6) hargc hbytes hT
  have hpred : freeCount (withDirectory m n) = freeCount m - 1 := by omega
  rw [hpred] at hleft htables hready hfail
  have hthree : decide (2 ≤ freeCount m - 1) = decide (3 ≤ freeCount m) := by
    rw [decide_eq_decide]
    omega
  rw [hthree] at htables
  have hcr3 : (withDirectory m n).cr3 = m.cr3 := rfl
  refine ⟨n, m1, esp, hon.image, hleft, htables, fun f hu => ?_, fun v hv hstack => ?_,
    fun hfit => (hready hfit).2, fun hno => (hfail hno).imp And.right And.right, ?_⟩
  · rw [hon.untouched f hu, hclean f fun hc => hu (hon.used f hc)]
  · have hkernel : v / 4096 ≠ STACK_PAGE := by
      unfold STACK_PAGE KERNEL_STACK_TOP PAGE_SIZE
      unfold KERNEL_VIRTUAL_SPACE_START at hv
      omega
    rw [hon.entry v (Or.inl hv) (not_or.mpr ⟨hkernel, hstack⟩)]
    unfold Machine.entry
    simp [hT _ (OwnPage.private (Or.inl hv))]
  · unfold elf_load_image
    simp only [hcreate, Option.bind_eq_bind, Option.bind_some, ne_eq, not_true_eq_false, if_false,
      hopen, hstacks, hcr3]

/-- The end of a load with the directory in order. -/
theorem Loading.commit {mb m : Machine} {n i : Nat} (h : Loading mb m n) (hb : LoadBase mb)
    (hi : bounce_free_slot mb = some i) (task : task_t) (e_entry : Nat) (esp : Option Nat)
    (cr3 : Nat) (loaded : Except elf_result_t Nat) (queue : List Nat) (growth : Nat × Nat) :
    elf_commit (m.openSlot i n) task (slotAddr i) (n * 4096) e_entry esp cr3 loaded queue growth =
      match loaded with
      | .error error => some (m, error, task, queue)
      | .ok heap_start =>
        (memory_paging_queue_to_destroy m queue cr3 growth).map fun r =>
          (r.1, elf_result_t.ELF_RESULT_OK,
            loaded_task task e_entry (n * 4096) (esp.getD 0) heap_start, r.2) := by
  obtain ⟨hi16, hiu⟩ := free_slot_spec hi
  have hw := (h.space hb).windows
  have hclose : bounce_free (m.openSlot i n) (slotAddr i) = some m := by
    rw [bounce_free_spec (windows_openSlot hw i n) hi16,
      close_open hw hi16 (by rw [h.slots]; exact hiu)]
  unfold elf_commit
  rw [hclose]
  cases loaded with
  | error error => rfl
  | ok heap_start =>
    simp only [Option.bind_eq_bind, Option.bind_some]
    cases memory_paging_queue_to_destroy m queue cr3 growth with
    | none => rfl
    | some r => rfl

theorem Loading.heapEnd {mb m : Machine} {n heap_break : Nat} (h : Loading mb m n)
    (hb : LoadBase mb) (hheap : HeapEnd mb heap_break) : HeapEnd m heap_break := by
  refine ⟨hheap.aligned, hheap.low, fun v hv1 hv2 => ?_⟩
  have hlo := hheap.low.trans hv1
  unfold KERNEL_HEAP_VIRTUAL_START at hlo
  have hv3 := hv2
  unfold KERNEL_HEAP_VIRTUAL_END at hv3
  rw [h.kdir, h.kernel_entry hb (by unfold page_directory_index; omega)
    (by unfold page_directory_index; omega)]
  exact hheap.absent v hv1 hv2

/-- The old directory goes to the queue, if it is not the kernel's. -/
theorem HeapEnd.queue {m m' : Machine} {heap_break pages cr3 : Nat} {queue queue' : List Nat}
    (h : HeapEnd m heap_break) (hk : KernelSpace m) (hs : 0 < (freeSlots m).card)
    (hhi : heap_break + pages * 4096 ≤ KERNEL_HEAP_VIRTUAL_END + 1)
    (hrun : memory_paging_queue_to_destroy m queue cr3 (pages, heap_break) = some (m', queue')) :
    m'.bounce_pages_used = m.bounce_pages_used ∧ KernelSpace m' ∧ Extends m m' := by
  unfold memory_paging_queue_to_destroy at hrun
  split at hrun
  · cases hrun
    exact ⟨rfl, hk, Extends.refl m⟩
  · obtain ⟨m3, served, hgrow, hk3, hg, he, -⟩ := h.grow hk hs hhi
    simp only [hgrow, Option.bind_eq_bind, Option.bind_some] at hrun
    cases served with
    | false => cases hrun
    | true =>
      cases hrun
      exact ⟨hg.slots, hk3, he⟩

theorem load_image_outcome {m : Machine} {task : task_t} {data header program_header : List Nat}
    {argv : List (List Nat)} {queue : List Nat} {pages heap_break : Nat}
    {result : Machine × elf_result_t × task_t × List Nat} (hb : LoadBase m)
    (hheap : HeapEnd m heap_break)
    (hhi : heap_break + pages * 4096 ≤ KERNEL_HEAP_VIRTUAL_END + 1)
    (hargc : argv.length ≤ TASK_MAX_ARGUMENTS) (hbytes : stringBytes argv ≤ PAGE_SIZE)
    (hph : ∀ ph ∈ program_headers data (word32 header 7)
      (header.getD 44 0 + 256 * header.getD 45 0) 0 program_header,
      ph.p_type = PT_LOAD → BelowKernel ph)
    (hrun : elf_load_image m task data header program_header argv queue (pages, heap_break) =
      some result) : Outcome m result := by
  by_cases hf : 0 < (freeFrames m.memory_bitmap).card
  · have hs := hb.slots
    obtain ⟨i, hi⟩ := free_slot_of_card (m := m) (by omega)
    obtain ⟨n, m1, esp, hI1, -, -, -, -, -, -, himage⟩ := load_image_prefix task data header
      program_header argv queue (pages, heap_break) hb hargc hbytes hi hf
    obtain ⟨m2, hsegs, hon, -⟩ := hI1.segments hb hi task.task_is_user data
      (word32 header 7) (header.getD 44 0 + 256 * header.getD 45 0) 0 program_header 0 hph
    have hL2 := hon.image.loading
    rw [himage, hsegs, Option.bind_some, hL2.commit hb hi] at hrun
    split at hrun
    · rename_i error herr
      cases hrun
      refine ⟨hL2.slots, hL2.extension hb, fun hc => ?_⟩
      have hc' : error = elf_result_t.ELF_RESULT_OK := hc
      subst hc'
      split at herr <;> cases herr
    · rename_i heap_start _
      obtain ⟨⟨m3, queue'⟩, hqueue, hres⟩ := Option.map_eq_some_iff.mp hrun
      obtain ⟨hslots, -, he⟩ := (hL2.heapEnd hb hheap).queue (hL2.space hb)
        (by rw [hL2.freeSlots_eq]; omega) hhi hqueue
      subst hres
      refine ⟨hslots.trans hL2.slots, (hL2.extension hb).trans he, fun _ v hv1 hv2 hu => ?_⟩
      apply hL2.userAccess hb he hv1 hv2
      have hcr3 : frameOf (loaded_task task (word32 header 6) (n * 4096) (esp.getD 0)
          heap_start).task_cr3 = n := by
        show frameOf (n * 4096) = n
        unfold frameOf
        omega
      rw [hcr3] at hu
      exact hu
  · have ha : (memory_bitmap_allocate m.memory_bitmap).2 = 0 := by
      by_contra hne
      obtain ⟨n, -, -, hlt, hu, -, -⟩ := allocate_fresh hne
      exact hf (Finset.card_pos.mpr ⟨n, mem_freeFrames.mpr ⟨hlt, hu⟩⟩)
    unfold elf_load_image memory_paging_create_page_directory at hrun
    simp only [ha, if_true] at hrun
    cases hrun
    exact ⟨rfl, Extends.allocate hb.space, fun hc => by cases hc⟩

/-- The kernel's own directory, which shows itself at 1023. -/
theorem LoadBase.kernel_space {m : Machine} (hb : LoadBase m)
    (hself : frameOf (m.frames m.kdir 1023) = m.kdir) : Space m m.kdir := by
  have hk : ∀ f, m.KernelFrame f → f ≠ 0 ∧ Taken m.memory_bitmap f := by
    intro f hf
    refine ⟨fun hc => hb.zero_apart (hc ▸ hf), hb.space.kernel_taken f hf⟩
  refine ⟨(hk _ (Or.inl rfl)).1, (hk _ (Or.inl rfl)).2, fun j hj1 hj2 hp => ?_⟩
  by_cases hj : j = 1023
  · rw [hj, hself]
    exact hk _ (Or.inl rfl)
  · exact hk _ (Or.inr ⟨j, hj1, by omega, hp, rfl⟩)

theorem LoadBase.grown {m m1 : Machine} (hb : LoadBase m) (hg : Grown m m1)
    (hk1 : KernelSpace m1) : LoadBase m1 := by
  refine ⟨hk1, ?_, ?_, ?_⟩
  · exact (hg.kept 0 (fun _ => hb.space.zero) hb.zero_apart).2
  · rw [hg.dir]; exact hb.zero_dir
  · rw [hg.freeSlots_eq]; exact hb.slots

theorem load_outcome {m : Machine} {task : task_t} {node : Resolved} {argv : List (List Nat)}
    {header program_header queue : List Nat} {pages pages' heap_break : Nat}
    {result : Machine × elf_result_t × task_t × List Nat} (hb : LoadBase m)
    (hself : frameOf (m.frames m.kdir 1023) = m.kdir) (hheap : HeapEnd m heap_break)
    (hhi : heap_break + pages * 4096 + pages' * 4096 ≤ KERNEL_HEAP_VIRTUAL_END + 1)
    (hargc : argv.length ≤ TASK_MAX_ARGUMENTS) (hbytes : stringBytes argv ≤ PAGE_SIZE)
    (hph : ∀ data, node = .file data →
      (read_into data 0 header).take 4 = [0x7F, 0x45, 0x4C, 0x46] →
      ∀ ph ∈ program_headers data (word32 (read_into data 0 header) 7)
        ((read_into data 0 header).getD 44 0 + 256 * (read_into data 0 header).getD 45 0) 0
        program_header, ph.p_type = PT_LOAD → BelowKernel ph)
    (hrun : elf_load_into_task m task node argv header program_header queue (pages, heap_break)
      (pages', heap_break + pages * 4096) = some result) : Outcome m result := by
  have hs := hb.slots
  obtain ⟨m1, served, hgrow, hk1, hg, he, hheap1⟩ := hheap.grow hb.space (by omega)
    ((Nat.le_add_right _ _).trans hhi)
  -- A load that ends before the image is loaded.
  have hearly : ∀ {r : elf_result_t}, r ≠ elf_result_t.ELF_RESULT_OK →
      Outcome m (m1, r, task, queue) := fun hr => ⟨hg.slots, he, fun hc => absurd hc hr⟩
  unfold elf_load_into_task at hrun
  cases node with
  | null =>
    cases hrun
    exact ⟨rfl, Extends.refl m, fun hc => by cases hc⟩
  | missing =>
    simp only [hgrow, Option.bind_eq_bind, Option.bind_some] at hrun
    cases hrun
    exact hearly (by decide)
  | directory =>
    simp only [hgrow, Option.bind_eq_bind, Option.bind_some] at hrun
    cases hrun
    exact hearly (by decide)
  | file data =>
    simp only [hgrow, Option.bind_eq_bind, Option.bind_some] at hrun
    split at hrun
    · cases hrun
      exact hearly (by decide)
    · split at hrun
      · cases hrun
        exact hearly (by decide)
      · rename_i hmagic
        have ho := load_image_outcome (hb.grown hg hk1) hheap1 hhi hargc hbytes
          (hph data rfl (not_not.mp hmagic)) hrun
        refine ⟨ho.slots.trans hg.slots, he.trans ho.extension, fun hok v hv1 hv2 hu => ?_⟩
        have hnew := ho.users hok v hv1 hv2 hu
        rw [hg.kdir] at hnew
        exact Extends.userAccess he (hb.kernel_space hself) hv1 hv2 hnew

/-! ## Exec and the kernel -/

/-- A program whose segments lie below the kernel, and whose arguments fit into one page, is
loaded without touching the kernel: in every directory there is, the pages of the kernel
stay mapped as they were, and users reach none that they did not reach before. -/
theorem exec_leaves_the_kernel_alone {m m' : Machine} {task task' : task_t} {node : Resolved}
    {argv : List (List Nat)} {header program_header queue queue' : List Nat}
    {pages pages' heap_break : Nat} {result : elf_result_t} (hb : LoadBase m)
    (hself : frameOf (m.frames m.kdir 1023) = m.kdir) (hheap : HeapEnd m heap_break)
    (hhi : heap_break + pages * 4096 + pages' * 4096 ≤ KERNEL_HEAP_VIRTUAL_END + 1)
    (hargc : argv.length ≤ TASK_MAX_ARGUMENTS) (hbytes : stringBytes argv ≤ PAGE_SIZE)
    (hph : ∀ data, node = .file data →
      (read_into data 0 header).take 4 = [0x7F, 0x45, 0x4C, 0x46] →
      ∀ ph ∈ program_headers data (word32 (read_into data 0 header) 7)
        ((read_into data 0 header).getD 44 0 + 256 * (read_into data 0 header).getD 45 0) 0
        program_header, ph.p_type = PT_LOAD → BelowKernel ph)
    (hrun : elf_load_into_task m task node argv header program_header queue (pages, heap_break)
      (pages', heap_break + pages * 4096) = some (m', result, task', queue')) :
    Space m m.kdir ∧
    (∀ d, Space m d → ∀ v, KERNEL_VIRTUAL_SPACE_START ≤ v → v < 0x100000000 →
      (∀ x, m.entry d v = some x → m'.entry d v = some x ∧
        m'.frames d (page_directory_index v) = m.frames d (page_directory_index v)) ∧
      (UserAccess m' d v → UserAccess m d v)) ∧
    (result = elf_result_t.ELF_RESULT_OK → ∀ v, KERNEL_VIRTUAL_SPACE_START ≤ v →
      v < 0x100000000 → UserAccess m' (frameOf task'.task_cr3) v → UserAccess m m.kdir v) := by
  have ho := load_outcome hb hself hheap hhi hargc hbytes hph hrun
  refine ⟨hb.kernel_space hself, fun d hd v hv1 hv2 => ⟨fun x hx => ?_, fun hu => ?_⟩, ho.users⟩
  · exact Extends.entry ho.extension hd hv1 hv2 hx
  · exact Extends.userAccess ho.extension hd hv1 hv2 hu

/-! ## A small program -/

/-- A program with one segment of no memory at `vaddr`; away from a page boundary it takes one
page. -/
def smallElf (vaddr : Nat) : List Nat :=
  [0x7F, 0x45, 0x4C, 0x46] ++ List.replicate 20 0 ++ bytes32 0 ++ bytes32 52 ++
    List.replicate 12 0 ++ [1, 0] ++ List.replicate 6 0 ++
    (bytes32 PT_LOAD ++ bytes32 0 ++ bytes32 vaddr ++ List.replicate 20 0)

theorem small_loadBase : LoadBase smallMachine where
  space := small_kernelSpace
  zero_apart := fun hf => by
    rcases small_kernelFrame hf with h | h | h <;> revert h <;> decide
  zero_dir := by decide
  slots := by decide

theorem small_heapEnd : HeapEnd smallMachine 0xF0000000 where
  aligned := by decide
  low := by decide
  absent := fun v hv1 hv2 => by
    unfold KERNEL_HEAP_VIRTUAL_END at hv2
    rw [Option.eq_none_iff_forall_ne_some]
    intro x hx
    have hp := (entry_eq_some.mp hx).1
    have hj : 960 ≤ page_directory_index v ∧ page_directory_index v < 992 := by
      unfold page_directory_index
      omega
    rcases small_kernel_present (by omega) hp with h | h <;> omega

/-- A load without growth of the heap is the load of its image. -/
theorem load_eq_image (m : Machine) (task : task_t) {data header : List Nat}
    (argv : List (List Nat)) (program_header queue : List Nat) (heap_break : Nat)
    (growth : Nat × Nat) (hmagic : (read_into data 0 header).take 4 = [0x7F, 0x45, 0x4C, 0x46]) :
    elf_load_into_task m task (.file data) argv header program_header queue (0, heap_break) growth =
      elf_load_image m task data (read_into data 0 header) program_header argv queue growth := by
  have hgrow : kernel_heap_grow 0 heap_break m = some (m, true) := rfl
  unfold elf_load_into_task
  simp only [hgrow, Option.bind_eq_bind, Option.bind_some, Bool.not_true, Bool.false_eq_true,
    if_false, hmagic, ne_eq, not_true_eq_false]

theorem queue_returns (m : Machine) (queue : List Nat) (cr3 heap_break : Nat) :
    ∃ queue', memory_paging_queue_to_destroy m queue cr3 (0, heap_break) = some (m, queue') := by
  unfold memory_paging_queue_to_destroy
  split
  · exact ⟨queue, rfl⟩
  · exact ⟨queue ++ [cr3], rfl⟩

/-- A load of a program below the kernel that needs no kernel heap ends. -/
theorem load_returns {m : Machine} (task : task_t) {data header : List Nat}
    (argv : List (List Nat)) {program_header : List Nat} (queue : List Nat)
    (heap_break heap_break' : Nat) (hb : LoadBase m)
    (hf : 0 < (freeFrames m.memory_bitmap).card) (hargc : argv.length ≤ TASK_MAX_ARGUMENTS)
    (hbytes : stringBytes argv ≤ PAGE_SIZE)
    (hmagic : (read_into data 0 header).take 4 = [0x7F, 0x45, 0x4C, 0x46])
    (hph : ∀ ph ∈ program_headers data (word32 (read_into data 0 header) 7)
      ((read_into data 0 header).getD 44 0 + 256 * (read_into data 0 header).getD 45 0) 0
      program_header, ph.p_type = PT_LOAD → BelowKernel ph) :
    ∃ result, elf_load_into_task m task (.file data) argv header program_header queue
      (0, heap_break) (0, heap_break') = some result := by
  have hs := hb.slots
  obtain ⟨i, hi⟩ := free_slot_of_card (m := m) (by omega)
  obtain ⟨n, m1, esp, hI1, -, -, -, -, -, -, himage⟩ := load_image_prefix task data
    (read_into data 0 header) program_header argv queue (0, heap_break') hb hargc hbytes hi hf
  obtain ⟨m2, hsegs, hon, -⟩ := hI1.segments hb hi task.task_is_user data _ _ 0
    program_header 0 hph
  rw [load_eq_image m task argv program_header queue heap_break (0, heap_break') hmagic, himage,
    hsegs, Option.bind_some, hon.image.loading.commit hb hi]
  split
  · exact ⟨_, rfl⟩
  · obtain ⟨queue', hq⟩ := queue_returns m2 queue m.cr3 heap_break'
    rw [hq]
    exact ⟨_, rfl⟩

/-- The headers of the two small programs: one below the kernel, one on the page of the
kernel's directory. -/
theorem small_elf_header {vaddr : Nat} (h : vaddr = 0x400001 ∨ vaddr = 0xC0001001) :
    program_headers (smallElf vaddr)
      (word32 (read_into (smallElf vaddr) 0 (List.replicate 52 0)) 7)
      ((read_into (smallElf vaddr) 0 (List.replicate 52 0)).getD 44 0 +
        256 * (read_into (smallElf vaddr) 0 (List.replicate 52 0)).getD 45 0) 0
      (List.replicate 32 0) = [⟨1, 0, vaddr, 0, 0⟩] := by
  rcases h with rfl | rfl
  · decide +kernel
  · decide +kernel

theorem small_elf_magic (vaddr : Nat) :
    (read_into (smallElf vaddr) 0 (List.replicate 52 0)).take 4 = [0x7F, 0x45, 0x4C, 0x46] := rfl

/-- On the small machine a program below the kernel is loaded, and the page of the kernel's
directory stays where it was. -/
theorem exec_leaves_the_small_kernel_alone :
    ∃ result, elf_load_into_task smallMachine smallParent (.file (smallElf 0x400001)) []
        (List.replicate 52 0) (List.replicate 32 0) [] (0, 0xF0000000)
        (0, 0xF0000000 + 0 * 4096) = some result ∧
      result.1.entry smallMachine.kdir 0xC0001000 = some 0x1003 := by
  have hbelow : ∀ ph ∈ program_headers (smallElf 0x400001)
      (word32 (read_into (smallElf 0x400001) 0 (List.replicate 52 0)) 7)
      ((read_into (smallElf 0x400001) 0 (List.replicate 52 0)).getD 44 0 +
        256 * (read_into (smallElf 0x400001) 0 (List.replicate 52 0)).getD 45 0) 0
      (List.replicate 32 0), ph.p_type = PT_LOAD → BelowKernel ph := by
    rw [small_elf_header (Or.inl rfl)]
    intro ph hm _
    rw [List.mem_singleton.mp hm]
    exact Or.inl (by decide)
  obtain ⟨⟨m', result, task', queue'⟩, hrun⟩ := load_returns smallParent [] []
    0xF0000000 (0xF0000000 + 0 * 4096) small_loadBase (by decide) (by decide) (by decide)
    (small_elf_magic 0x400001) hbelow
  refine ⟨_, hrun, ?_⟩
  obtain ⟨hspace, hkept, -⟩ := exec_leaves_the_kernel_alone small_loadBase (by decide)
    small_heapEnd (by decide) (by decide) (by decide)
    (fun data hdata _ => by cases hdata; exact hbelow) hrun
  exact ((hkept _ hspace 0xC0001000 (by decide) (by decide)).1 0x1003 (by decide)).1

/-! ## A program on the kernel's pages -/

/-- A page that a program maps into a table it shares with the kernel. -/
theorem Loading.map_shared {mb m : Machine} {n i : Nat} (h : Loading mb m n) (hb : LoadBase mb)
    (hi : bounce_free_slot mb = some i) (virt f flags : Nat)
    (h1 : 768 ≤ page_directory_index virt) (h2 : page_directory_index virt < 1022)
    (h3 : page_directory_index virt ≠ 831)
    (hp : present (mb.frames mb.kdir (page_directory_index virt)) = true) :
    memory_paging_map (m.openSlot i n) (slotAddr i) (f * 4096) virt flags =
        some ((m.mapEntry n (f * 4096) virt flags).openSlot i n, MEMORY_PAGING_RESULT_OK) ∧
      Windows (m.mapEntry n (f * 4096) virt flags) ∧
      (m.mapEntry n (f * 4096) virt flags).entry mb.kdir virt =
        some (f * 4096 ||| flags ||| PAGE_PRESENT) := by
  have hk := h.space hb
  obtain ⟨hnB, hnD⟩ := h.dir_apart hb
  have hpde := h.kernel_entries _ h1 (by omega) h3
  have hkf : mb.KernelFrame (frameOf (mb.frames mb.kdir (page_directory_index virt))) :=
    Or.inr ⟨_, h1, by omega, hp, rfl⟩
  have hTB : frameOf (mb.frames mb.kdir (page_directory_index virt)) ≠ m.bounceTable := by
    rw [h.bounceTable hb, ← hb.space.bounce]
    intro hc
    have := hb.space.tables _ _ h1 (by omega) (by omega) (by omega) hp hb.space.bounce_present hc
    omega
  have hTD : frameOf (mb.frames mb.kdir (page_directory_index virt)) ≠ m.dir := by
    rw [h.dir]
    intro hc
    exact hb.space.dir_apart (hc ▸ hkf)
  have hTK := hb.space.no_loop _ h1 (by omega) hp
  have hnK : n ≠ mb.kdir := h.dir_owned.ne (hb.space.kernel_taken _ (Or.inl rfl))
  have hmap := map_through_slot hk.windows (by rw [h.free_slot]; exact hi)
    (by rw [h.freeSlots_eq]; have := hb.slots; omega) (f * 4096) virt flags hnB hnD
    (fun _ => by rw [hpde]; exact ⟨hTB, hTD⟩) hk.dir_taken hk.bounce_taken
  have hpage : m.mapPage n (f * 4096) virt flags =
      (m.mapEntry n (f * 4096) virt flags, MEMORY_PAGING_RESULT_OK) := by
    unfold Machine.mapPage
    rw [hpde, if_pos hp]
  rw [hpage] at hmap
  refine ⟨hmap, ?_, ?_⟩
  · have hD : (m.mapEntry n (f * 4096) virt flags).frames m.dir = m.frames m.dir := by
      funext j
      rw [mapEntry_apply, hpde, if_neg (fun hc => hTD hc.1.symm), if_neg (fun hc => hnD hc.1.symm)]
    have hB : (m.mapEntry n (f * 4096) virt flags).frames m.bounceTable =
        m.frames m.bounceTable := by
      funext j
      rw [mapEntry_apply, hpde, if_neg (fun hc => hTB hc.1.symm), if_neg (fun hc => hnB hc.1.symm)]
    exact (hk.windows.of_same (show (m.mapEntry n (f * 4096) virt flags).cr3 = m.cr3 from rfl) rfl hD
      hB).1
  · have hKw : (m.mapEntry n (f * 4096) virt flags).frames mb.kdir (page_directory_index virt) =
        mb.frames mb.kdir (page_directory_index virt) := by
      rw [mapEntry_apply, hpde, if_neg (fun hc => hTK hc.1.symm), if_neg (fun hc => hnK hc.1.symm),
        h.kernel_words hb (Or.inl rfl)]
    have hTw : (m.mapEntry n (f * 4096) virt flags).frames
        (frameOf (mb.frames mb.kdir (page_directory_index virt))) (page_table_index virt) =
        (f * 4096 ||| flags ||| PAGE_PRESENT) := by
      rw [mapEntry_apply, hpde, if_pos ⟨rfl, rfl⟩]
    refine entry_eq_some.mpr ⟨?_, ?_, ?_⟩
    · rw [hKw]; exact hp
    · rw [hKw, hTw]; exact present_entry _ _
    · rw [hKw, hTw]

/-- A segment of one page without bytes is one map. -/
theorem one_page_segment {m m1 : Machine} {page_directory f : Nat} (page_directory_phys : Nat)
    (ph : Elf32_Phdr) (data : List Nat)
    (hcount : (segment_end ph - segment_start ph) / PAGE_SIZE = 1) (hfile : ph.p_filesz = 0)
    (hmem : ph.p_memsz = 0) (ha : (memory_bitmap_allocate m.memory_bitmap).2 = f * 4096)
    (hf : f * 4096 ≠ 0)
    (hmap : memory_paging_map (m.setBitmap (memory_bitmap_allocate m.memory_bitmap).1)
      page_directory (f * 4096) (segment_start ph)
      (PAGE_PRESENT ||| PAGE_USER ||| PAGE_READ_WRITE) = some (m1, MEMORY_PAGING_RESULT_OK)) :
    elf_load_segment m page_directory page_directory_phys true data ph = some (m1, none) := by
  have hmapped : elf_map_pages page_directory (PAGE_PRESENT ||| PAGE_USER ||| PAGE_READ_WRITE) 1
      (segment_start ph) m = some (m1, true) := by
    unfold elf_map_pages
    simp only [ha, hf, if_false, hmap, Option.bind_eq_bind, Option.bind_some, ne_eq,
      not_true_eq_false]
    rfl
  have hcopied : elf_copy_bytes data page_directory_phys 0 ph.p_offset ph.p_vaddr m1 =
      some (m1, true) := by
    unfold elf_copy_bytes
    rw [dif_pos rfl]
  unfold elf_load_segment
  rw [hcount, hfile, hmem]
  simp only [if_true, hmapped, hcopied, Option.bind_eq_bind, Option.bind_some]
  rfl

/-- The program header loop on one segment. -/
theorem one_segment {data : List Nat} {e_phoff page_directory page_directory_phys count : Nat}
    {program_header : List Nat} {ph : Elf32_Phdr} {m m1 : Machine}
    (hph : program_headers data e_phoff count 0 program_header = [ph]) (htype : ph.p_type = PT_LOAD)
    (hseg : elf_load_segment m page_directory page_directory_phys true data ph = some (m1, none)) :
    ∃ heap_start, elf_load_segments data e_phoff page_directory page_directory_phys true count 0
      program_header 0 m = some (m1, .ok heap_start) := by
  obtain ⟨rfl⟩ : count = 1 := by
    cases count with
    | zero => cases hph
    | succ count =>
      cases count with
      | zero => rfl
      | succ count =>
        unfold program_headers program_headers at hph
        cases hph
  unfold program_headers at hph
  obtain ⟨hhead, -⟩ := List.cons.inj hph
  unfold elf_load_segments
  simp only [hhead, htype, ne_eq, not_true_eq_false, if_false, hseg, Option.bind_eq_bind,
    Option.bind_some]
  exact ⟨_, rfl⟩

/-- The entry of a page that a program maps for users. -/
theorem user_entry (f : Nat) :
    (f * 4096 ||| (PAGE_PRESENT ||| PAGE_USER ||| PAGE_READ_WRITE) ||| PAGE_PRESENT) &&& PAGE_USER =
      PAGE_USER := by
  have h : f * 4096 &&& PAGE_USER = 0 := by
    unfold PAGE_USER
    rw [show (4 : Nat) = 2 ^ 2 by norm_num, Nat.and_two_pow, show f * 4096 = 2 ^ 12 * f by omega,
      Nat.testBit_two_pow_mul]
    simp
  rw [Nat.and_or_distrib_right, Nat.and_or_distrib_right, h]
  rfl

/-- Exec reaches the kernel: a program with one segment on the page 0xC0001000, where the
kernel has its directory, takes that page for itself, in the kernel's directory and for
users. -/
theorem exec_takes_a_page_of_the_kernel :
    smallMachine.entry smallMachine.kdir 0xC0001000 = some 0x1003 ∧
    ∃ result, elf_load_into_task smallMachine smallParent (.file (smallElf 0xC0001001)) []
        (List.replicate 52 0) (List.replicate 32 0) [] (0, 0xF0000000)
        (0, 0xF0000000 + 0 * 4096) = some result ∧
      result.2.1 = elf_result_t.ELF_RESULT_OK ∧
      ∃ x, result.1.entry smallMachine.kdir 0xC0001000 = some x ∧ x ≠ 0x1003 ∧
        x &&& PAGE_USER ≠ 0 := by
  refine ⟨by decide, ?_⟩
  obtain ⟨i, hi⟩ := free_slot_of_card (m := smallMachine) (by decide)
  obtain ⟨hi16, hiu⟩ := free_slot_spec hi
  obtain ⟨n, m1, esp, hI1, hleft, -, -, -, -, -, himage⟩ := load_image_prefix smallParent
    (smallElf 0xC0001001) (read_into (smallElf 0xC0001001) 0 (List.replicate 52 0))
    (List.replicate 32 0) [] [] (0, 0xF0000000 + 0 * 4096) small_loadBase (by decide) (by decide) hi
    (by decide)
  have hL1 := hI1.loading
  have hfree : 0 < (freeFrames m1.memory_bitmap).card := by
    have h23 : freeCount smallMachine = 23 := by decide
    have hneed : stack_need smallParent.task_is_user [] ≤ 4 := by
      unfold stack_need
      split <;> omega
    show 0 < freeCount m1
    omega
  obtain ⟨hne, -⟩ := allocate_spec (hL1.used 0 small_loadBase.space.zero) hfree
  obtain ⟨hL0, hfresh⟩ := hL1.allocate
  obtain ⟨f, hf, -, -⟩ := hfresh hne
  obtain ⟨hmap, hw, hentry⟩ := hL0.map_shared small_loadBase hi 0xC0001000 f
    (PAGE_PRESENT ||| PAGE_USER ||| PAGE_READ_WRITE) (by decide) (by decide) (by decide)
    (by decide)
  have hseg := one_page_segment (m := m1.openSlot i n) (n * 4096) ⟨1, 0, 0xC0001001, 0, 0⟩
    (smallElf 0xC0001001) (by decide) rfl rfl hf (by rw [← hf]; exact hne) hmap
  obtain ⟨heap_start, hsegs⟩ := one_segment (small_elf_header (Or.inr rfl)) rfl hseg
  have hu2 : ((m1.setBitmap (memory_bitmap_allocate m1.memory_bitmap).1).mapEntry n (f * 4096)
      0xC0001000 (PAGE_PRESENT ||| PAGE_USER ||| PAGE_READ_WRITE)).bounce_pages_used i = false := by
    show m1.bounce_pages_used i = false
    rw [hL1.slots]
    exact hiu
  generalize (m1.setBitmap (memory_bitmap_allocate m1.memory_bitmap).1).mapEntry n (f * 4096)
    0xC0001000 (PAGE_PRESENT ||| PAGE_USER ||| PAGE_READ_WRITE) = m2 at *
  have hclose : bounce_free (m2.openSlot i n) (slotAddr i) = some m2 := by
    rw [bounce_free_spec (windows_openSlot hw i n) hi16, close_open hw hi16 hu2]
  obtain ⟨queue', hqueue⟩ := queue_returns m2 [] smallMachine.cr3 (0xF0000000 + 0 * 4096)
  have hcommit : elf_commit (m2.openSlot i n) smallParent (slotAddr i) (n * 4096)
      (word32 (read_into (smallElf 0xC0001001) 0 (List.replicate 52 0)) 6) esp smallMachine.cr3
      (.ok heap_start) [] (0, 0xF0000000 + 0 * 4096) =
      some (m2, elf_result_t.ELF_RESULT_OK, loaded_task smallParent
        (word32 (read_into (smallElf 0xC0001001) 0 (List.replicate 52 0)) 6) (n * 4096)
        (esp.getD 0) heap_start, queue') := by
    unfold elf_commit
    rw [hclose]
    simp only [Option.bind_eq_bind, Option.bind_some]
    rw [hqueue]
    rfl
  have huser : smallParent.task_is_user = true := rfl
  rw [load_eq_image _ _ _ _ _ _ _ (small_elf_magic 0xC0001001), himage, huser, hsegs,
    Option.bind_some]
  refine ⟨_, hcommit, rfl, _, hentry, ?_, ?_⟩
  · intro hc
    have hbit := congrArg (fun x => x &&& PAGE_USER) hc
    simp only [user_entry] at hbit
    revert hbit
    decide
  · rw [user_entry]
    decide

end alura_os.elf_executable
