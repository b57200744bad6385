-- The registers of the tasks (`isr_stubs.s`, `isr_stub_handler.s`, `irq_stubs.s`,
-- `irq_stub_handler.s`, `task_switch.s`): an interrupt pushes them, and a task that runs again gets
-- its own back, whatever ran in between.
import AluraOs.RetryFlag

namespace alura_os.context

open alura_os.memory alura_os.task_manager
open alura_os.kernel (task_load SYSCALL_RETRY_OFFSET task_load_retry)

/-! ## The processor -/

structure cpu_t where
  gs : Nat
  fs : Nat
  es : Nat
  ds : Nat
  edi : Nat
  esi : Nat
  ebp : Nat
  ebx : Nat
  edx : Nat
  ecx : Nat
  eax : Nat
  eip : Nat
  cs : Nat
  eflags : Nat
  esp : Nat
  ss : Nat

/-- `cs & 0x3` is 3. -/
def from_user (c : cpu_t) : Bool := c.cs &&& 0x3 = 3

/-- The selector that the processor loads into `ss` when it comes from user mode (`tss.ss0`). -/
def KERNEL_DATA : Nat := 0x10

/-- The vector of the syscalls. -/
def IDT_SYSCALL : Nat := 0x80

/-- The pushes of the words of a stack that lies at these places of the memory. -/
def push_words (place : Nat → Nat) (memory : Nat → Nat) (esp : Nat) :
    List Nat → (Nat → Nat) × Nat
  | [] => (memory, esp)
  | word :: words =>
    push_words place (Function.update memory (place (sub32 esp 4)) word) (sub32 esp 4) words

/-- The interrupts with an error code from the processor, which `ISR_STUB_EXCEPTION` is for. -/
def has_error_code (vector : Nat) : Bool := vector ∈ [8, 10, 11, 12, 13, 14, 17]

/-- What the processor pushes. -/
def processor_words (c : cpu_t) (vector error_code : Nat) : List Nat :=
  (if from_user c then [c.ss, c.esp] else []) ++ [c.eflags, c.cs, c.eip] ++
    (if has_error_code vector then [error_code] else [])

/-- `ISR_STUB`, `ISR_STUB_EXCEPTION` and `IRQ_STUB`. -/
def stub_words (vector : Nat) : List Nat :=
  if has_error_code vector then [vector] else [0, vector]

/-- The pushes of `isr_stub_handler` and of `irq_stub_handler`. -/
def handler_words (c : cpu_t) : List Nat :=
  [c.eax, c.ecx, c.edx, c.ebx, c.ebp, c.esi, c.edi, c.ds, c.es, c.fs, c.gs]

def entry_words (c : cpu_t) (vector error_code : Nat) : List Nat :=
  processor_words c vector error_code ++ stub_words vector ++ handler_words c

/-- The word `i` above the stack pointer, in the words that the directory shows. -/
def stack_word (words : Nat → Nat) (esp i : Nat) : Nat := words (u32 (esp + 4 * i))

/-- Eleven pops, `add esp, 8`, and what `iret` takes in any case. -/
def popped (words : Nat → Nat) (esp : Nat) : cpu_t where
  gs := stack_word words esp 0
  fs := stack_word words esp 1
  es := stack_word words esp 2
  ds := stack_word words esp 3
  edi := stack_word words esp 4
  esi := stack_word words esp 5
  ebp := stack_word words esp 6
  ebx := stack_word words esp 7
  edx := stack_word words esp 8
  ecx := stack_word words esp 9
  eax := stack_word words esp 10
  eip := stack_word words esp 13
  cs := stack_word words esp 14
  eflags := stack_word words esp 15
  esp := u32 (esp + 64)
  ss := KERNEL_DATA

/-- The end of the stubs: `iret` takes the stack of the task too where it goes back to user mode. -/
def leave (words : Nat → Nat) (esp : Nat) : cpu_t :=
  let c := popped words esp
  if from_user c then
    { c with esp := stack_word words esp 16, ss := stack_word words esp 17 }
  else c

/-! ## The machine -/

/-- `esp0` is the field of the `tss`. The memory is that behind the page tables. -/
structure machine_t where
  memory : Nat → Nat
  cpu : cpu_t
  cr3 : Nat
  esp0 : Nat
  current : Nat
  tasks : Nat → task_t

/-- Where each directory puts a word. Every kernel stack is at `KERNEL_STACK_TOP` in its own. -/
abbrev Place := Nat → Nat → Nat

/-- The words that a directory shows. -/
def seen (place : Place) (memory : Nat → Nat) (cr3 : Nat) : Nat → Nat :=
  fun a => memory (place cr3 a)

/-- Where the processor begins to push. -/
def entry_stack (s : machine_t) : Nat := if from_user s.cpu then s.esp0 else s.cpu.esp

/-- From the interrupt to the call of the handler: the memory, and the stack pointer. -/
def enter (place : Place) (s : machine_t) (vector error_code : Nat) : (Nat → Nat) × Nat :=
  push_words (place s.cr3) s.memory (entry_stack s) (entry_words s.cpu vector error_code)

/-- `sub dword [eax + 52], 2`, where the dword that is loaded as `syscall_retry` is not 0. -/
def retry_eip (place : Place) (memory : Nat → Nat) (t : task_t) : Nat → Nat :=
  if task_load t SYSCALL_RETRY_OFFSET = 0 then memory
  else
    Function.update memory (place t.task_cr3 (u32 (t.task_esp + 52)))
      (sub32 (memory (place t.task_cr3 (u32 (t.task_esp + 52)))) 2)

def task_manager_task_switch (place : Place) (s : machine_t) (esp next : Nat) : machine_t :=
  let tasks :=
    if s.current = 0 then s.tasks
    else Function.update s.tasks s.current { s.tasks s.current with task_esp := esp }
  let memory := retry_eip place s.memory (tasks next)
  { memory := memory
    cpu := leave (seen place memory (tasks next).task_cr3) (tasks next).task_esp
    cr3 := (tasks next).task_cr3
    esp0 := (tasks next).stack_top
    current := next
    tasks := tasks }

/-- `isr_stub_handler` loads the directory of the task that runs, `irq_stub_handler` does not. -/
def stub_cr3 (s : machine_t) (vector : Nat) : Nat :=
  if 32 ≤ vector ∧ vector < 48 then s.cr3 else (s.tasks s.current).task_cr3

/-- The end of an interrupt: a task that needs no switching goes on. -/
def finish (place : Place) (s : machine_t) (vector esp : Nat) : Option Nat → machine_t
  | none =>
    { s with
      cpu := leave (seen place s.memory (stub_cr3 s vector)) esp
      cr3 := stub_cr3 s vector }
  | some next => task_manager_task_switch place s esp next

/-! ## Steps -/

/-- What a step is: the task that runs leaves these registers, or it is interrupted. An interrupt
has the result of a call that sets one, and the task that the processor goes to, with the dword that
is loaded as its `syscall_retry`. -/
inductive event_t
  | run (c : cpu_t)
  | interrupt (vector : Nat) (result : Option Nat) (next : Option (Nat × Nat))

/-- `data->eax`, the word 40 bytes above the stack pointer that the handler gets. -/
def set_data_eax (place : Nat → Nat) (memory : Nat → Nat) (esp : Nat) :
    Option Nat → Nat → Nat
  | none => memory
  | some eax => Function.update memory (place (esp + 40)) eax

/-- What the handler leaves behind. It works below the frame on its own stack and leaves the frames
on the other stacks alone. Of its own frame only a syscall sets `data->eax`; a signal,
`syscall_sigreturn` and `syscall_execve`, which set more of a frame, are not of these steps. -/
structure Handled (place : Place) (live : Finset Nat) (s : machine_t) (vector : Nat)
    (entered : (Nat → Nat) × Nat) (result : Option Nat) (memory : Nat → Nat)
    (tasks : Nat → task_t) : Prop where
  call : result ≠ none → vector = IDT_SYSCALL
  own : ∀ a, entered.2 ≤ a → a < (s.tasks s.current).stack_top →
    memory (place s.cr3 a) = set_data_eax (place s.cr3) entered.1 entered.2 result (place s.cr3 a)
  others : ∀ t ∈ live, t ≠ s.current → ∀ a, (s.tasks t).task_esp ≤ a → a < (s.tasks t).stack_top →
    memory (place (s.tasks t).task_cr3 a) = entered.1 (place (s.tasks t).task_cr3 a)
  base : ∀ t ∈ live, (tasks t).stack_base = (s.tasks t).stack_base
  top : ∀ t ∈ live, (tasks t).stack_top = (s.tasks t).stack_top
  esp : ∀ t ∈ live, (tasks t).task_esp = (s.tasks t).task_esp
  cr3 : ∀ t ∈ live, (tasks t).task_cr3 = (s.tasks t).task_cr3

/-- The task runs, or it is interrupted. A task in kernel mode stays on its stack. -/
inductive Step (place : Place) (live : Finset Nat) : machine_t → event_t → machine_t → Prop
  | run (s : machine_t) (c : cpu_t) (memory : Nat → Nat) (mode : from_user c = from_user s.cpu)
      (stack : from_user c = false → c.ss = KERNEL_DATA ∧
        (s.tasks s.current).stack_base + 64 ≤ c.esp ∧ c.esp ≤ (s.tasks s.current).stack_top)
      (kept : ∀ t ∈ live, t ≠ s.current →
        ∀ a, (s.tasks t).task_esp ≤ a → a < (s.tasks t).stack_top →
          memory (place (s.tasks t).task_cr3 a) = s.memory (place (s.tasks t).task_cr3 a)) :
      Step place live s (.run c) { s with cpu := c, memory := memory }
  | interrupt (s : machine_t) (vector error_code : Nat) (result : Option Nat) (memory : Nat → Nat)
      (tasks : Nat → task_t) (next : Option Nat)
      (handled : Handled place live s vector (enter place s vector error_code) result memory tasks)
      (alive : ∀ t, next = some t → t ∈ live) :
      Step place live s
        (.interrupt vector result (next.map fun t => (t, task_load (tasks t) SYSCALL_RETRY_OFFSET)))
        (finish place { s with memory := memory, tasks := tasks } vector
          (enter place s vector error_code).2 next)

/-- A run, with what happens in it. -/
inductive Steps (place : Place) (live : Finset Nat) :
    machine_t → List event_t → machine_t → Prop
  | nil (s : machine_t) : Steps place live s [] s
  | snoc {s s' s'' : machine_t} {events : List event_t} {event : event_t} :
      Steps place live s events s' → Step place live s' event s'' →
      Steps place live s (events ++ [event]) s''

/-! ## Each task with its own registers -/

/-- The registers of every task, and the task that runs. -/
structure files_t where
  current : Nat
  registers : Nat → cpu_t

/-- A task sets a register of its own file. -/
def files_t.set (f : files_t) (t : Nat) (c : cpu_t) : files_t :=
  { f with registers := Function.update f.registers t c }

/-- What a call gives goes to the task that made it. -/
def set_eax (f : files_t) : Option Nat → files_t
  | none => f
  | some eax => f.set f.current { f.registers f.current with eax := eax }

/-- A task to which the processor goes makes its call again where the dword is not 0. -/
def again (c : cpu_t) (load : Nat) : cpu_t :=
  if load = 0 then c else { c with eip := sub32 c.eip 2 }

def files_switch (f : files_t) : Option (Nat × Nat) → files_t
  | none => f
  | some (next, load) => { f with current := next }.set next (again (f.registers next) load)

/-- One task runs at a time, and only its registers change, but for the `eip` of a call that is made
again. -/
def files_step (f : files_t) : event_t → files_t
  | .run c => f.set f.current c
  | .interrupt _ result next => files_switch (set_eax f result) next

/-- What a run does to the registers of all tasks. -/
def files_run (f : files_t) (events : List event_t) : files_t := events.foldl files_step f

/-! ## Frames -/

theorem push_words_spec (words : List Nat) {place : Nat → Nat} {memory : Nat → Nat} {esp : Nat}
    (h : 4 * words.length ≤ esp) (hlt : esp < 0x100000000)
    (hplace : ∀ a b, esp - 4 * words.length ≤ a → a < esp → esp - 4 * words.length ≤ b → b < esp →
      place a = place b → a = b) :
    (push_words place memory esp words).2 = esp - 4 * words.length ∧
      (∀ i, (hi : i < words.length) →
        (push_words place memory esp words).1 (place (esp - 4 * (i + 1))) = words[i]) ∧
      ∀ p, (∀ a, esp - 4 * words.length ≤ a → a < esp → p ≠ place a) →
        (push_words place memory esp words).1 p = memory p := by
  induction words generalizing memory esp with
  | nil => exact ⟨rfl, fun i hi => absurd hi (Nat.not_lt_zero i), fun _ _ => rfl⟩
  | cons word words ih =>
    have hlength : (word :: words).length = words.length + 1 := List.length_cons
    have hesp : sub32 esp 4 = esp - 4 := sub32_of_le (by omega) hlt
    unfold push_words
    rw [hesp]
    obtain ⟨h2, hword, hother⟩ := @ih (Function.update memory (place (esp - 4)) word) (esp - 4)
      (by omega) (by omega)
      (fun a b ha ha' hb hb' => hplace a b (by omega) (by omega) (by omega) (by omega))
    refine ⟨by rw [h2]; omega, fun i hi => ?_, fun p hp => ?_⟩
    · cases i with
      | zero =>
        rw [hother]
        · exact Function.update_self ..
        · -- the first word is above the others
          intro a ha ha' he
          have := hplace _ a (by omega) (by omega) (by omega) (by omega) he
          omega
      | succ i =>
        have haddress : esp - 4 * (i + 1 + 1) = esp - 4 - 4 * (i + 1) := by omega
        rw [haddress]
        exact hword i (by simpa using hi)
    · rw [hother p fun a ha ha' => hp a (by omega) (by omega)]
      exact Function.update_of_ne (hp _ (by omega) (by omega)) _ _

/-- The size of the frame: the stack of the task is only there when it comes from user mode. -/
def frame_size (c : cpu_t) : Nat := if from_user c then 72 else 64

theorem frame_size_of_cs {c d : cpu_t} (h : d.cs = c.cs) : frame_size d = frame_size c := by
  unfold frame_size from_user
  rw [h]

/-- The word of the frame at the offset `4 * i`; the two that the stubs push are not registers. -/
def frame_word (c : cpu_t) : Nat → Nat
  | 0 => c.gs
  | 1 => c.fs
  | 2 => c.es
  | 3 => c.ds
  | 4 => c.edi
  | 5 => c.esi
  | 6 => c.ebp
  | 7 => c.ebx
  | 8 => c.edx
  | 9 => c.ecx
  | 10 => c.eax
  | 13 => c.eip
  | 14 => c.cs
  | 15 => c.eflags
  | 16 => c.esp
  | 17 => c.ss
  | _ => 0

/-- The words at `esp` hold the registers. -/
structure Frame (words : Nat → Nat) (esp : Nat) (c : cpu_t) : Prop where
  words : ∀ i, 4 * i < frame_size c → i ≠ 11 → i ≠ 12 → words (esp + 4 * i) = frame_word c i
  kernel : from_user c = false → c.ss = KERNEL_DATA ∧ c.esp = esp + 64
  fits : esp + frame_size c < 0x100000000

theorem frame_size_ge (c : cpu_t) : 64 ≤ frame_size c ∧ frame_size c ≤ 72 := by
  unfold frame_size
  split <;> omega

/-- The registers come out of the frame as they are in it. -/
theorem Frame.leave_eq {words : Nat → Nat} {esp : Nat} {c : cpu_t} (h : Frame words esp c) :
    leave words esp = c := by
  have hfits := h.fits
  obtain ⟨hsize, -⟩ := frame_size_ge c
  have hword : ∀ i, 4 * i < frame_size c → i ≠ 11 → i ≠ 12 →
      stack_word words esp i = frame_word c i := by
    intro i hi h11 h12
    unfold stack_word
    rw [u32_of_lt (by omega)]
    exact h.words i hi h11 h12
  have hlow : ∀ i, i < 16 → i ≠ 11 → i ≠ 12 → stack_word words esp i = frame_word c i :=
    fun i hi => hword i (by omega)
  have hcs : (popped words esp).cs = c.cs := hlow 14 (by decide) (by decide) (by decide)
  have hmode : from_user (popped words esp) = from_user c := by
    unfold from_user
    rw [hcs]
  have hpopped : popped words esp = { c with esp := u32 (esp + 64), ss := KERNEL_DATA } := by
    unfold popped
    simp (disch := decide) only [hlow]
    rfl
  unfold leave
  simp only [hmode]
  cases huser : from_user c with
  | true =>
    have h72 : frame_size c = 72 := by
      unfold frame_size
      rw [huser]
      rfl
    rw [if_pos rfl, hword 16 (by omega) (by decide) (by decide),
      hword 17 (by omega) (by decide) (by decide), hpopped]
    rfl
  | false =>
    obtain ⟨hss, hesp⟩ := h.kernel huser
    rw [if_neg (by decide), hpopped, u32_of_lt (by omega), ← hesp, ← hss]

/-- A frame that is not written to stays. -/
theorem Frame.of_same {words words' : Nat → Nat} {esp : Nat} {c : cpu_t} (h : Frame words esp c)
    (hsame : ∀ a, esp ≤ a → a < esp + frame_size c → words' a = words a) :
    Frame words' esp c :=
  ⟨fun i hi h11 h12 => (hsame _ (by omega) (by omega)).trans (h.words i hi h11 h12), h.kernel,
    h.fits⟩

theorem Frame.with_eax {words : Nat → Nat} {esp : Nat} {c : cpu_t} (h : Frame words esp c)
    (eax : Nat) : Frame (Function.update words (esp + 40) eax) esp { c with eax := eax } := by
  refine ⟨fun i hi h11 h12 => ?_, h.kernel, h.fits⟩
  by_cases h10 : i = 10
  · subst h10
    exact Function.update_self ..
  · have hkept : frame_word { c with eax := eax } i = frame_word c i := by
      unfold frame_word
      split <;> first | rfl | exact absurd rfl h10
    rw [hkept, Function.update_of_ne (by omega)]
    exact h.words i hi h11 h12

theorem Frame.with_eip {words : Nat → Nat} {esp : Nat} {c : cpu_t} (h : Frame words esp c)
    (eip : Nat) : Frame (Function.update words (esp + 52) eip) esp { c with eip := eip } := by
  refine ⟨fun i hi h11 h12 => ?_, h.kernel, h.fits⟩
  by_cases h13 : i = 13
  · subst h13
    exact Function.update_self ..
  · have hkept : frame_word { c with eip := eip } i = frame_word c i := by
      unfold frame_word
      split <;> first | rfl | exact absurd rfl h13
    rw [hkept, Function.update_of_ne (by omega)]
    exact h.words i hi h11 h12

/-- The words that an interrupt pushes, the last one first. -/
theorem entry_words_eq (c : cpu_t) (vector error_code : Nat) :
    entry_words c vector error_code = (if from_user c then [c.ss, c.esp] else []) ++
      [c.eflags, c.cs, c.eip, if has_error_code vector then error_code else 0, vector, c.eax, c.ecx,
        c.edx, c.ebx, c.ebp, c.esi, c.edi, c.ds, c.es, c.fs, c.gs] := by
  unfold entry_words processor_words stub_words handler_words
  cases has_error_code vector <;> simp

theorem entry_words_length (c : cpu_t) (vector error_code : Nat) :
    4 * (entry_words c vector error_code).length = frame_size c := by
  rw [entry_words_eq]
  unfold frame_size
  cases from_user c <;> rfl

/-- The pushes make a frame of the registers. -/
theorem pushed_frame {place : Nat → Nat} {memory : Nat → Nat} {c : cpu_t} {start : Nat}
    (vector error_code : Nat) (hroom : frame_size c ≤ start) (hlt : start < 0x100000000)
    (hkernel : from_user c = false → c.ss = KERNEL_DATA ∧ c.esp = start)
    (hplace : ∀ a b, start - frame_size c ≤ a → a < start → start - frame_size c ≤ b → b < start →
      place a = place b → a = b) :
    (push_words place memory start (entry_words c vector error_code)).2 = start - frame_size c ∧
      Frame (fun a => (push_words place memory start (entry_words c vector error_code)).1 (place a))
        (start - frame_size c) c ∧
      ∀ p, (∀ a, start - frame_size c ≤ a → a < start → p ≠ place a) →
        (push_words place memory start (entry_words c vector error_code)).1 p = memory p := by
  have hlength := entry_words_length c vector error_code
  rw [← hlength] at hplace
  obtain ⟨hesp, hword, hother⟩ :=
    @push_words_spec (entry_words c vector error_code) place memory start (by omega) hlt hplace
  rw [hlength] at hesp hother
  refine ⟨hesp, ⟨fun i hi h11 h12 => ?_, fun huser => ?_, by omega⟩, hother⟩
  · -- the word `i` from below is the last but `i`
    have haddress : start - frame_size c + 4 * i =
        start - 4 * ((entry_words c vector error_code).length - 1 - i + 1) := by omega
    rw [haddress, hword _ (by omega)]
    cases huser : from_user c with
    | true =>
      have hi' : i < 18 := by
        unfold frame_size at hi
        rw [huser] at hi
        simp at hi
        omega
      simp only [entry_words_eq, huser, if_true]
      interval_cases i <;> first | rfl | contradiction
    | false =>
      have hi' : i < 16 := by
        unfold frame_size at hi
        rw [huser] at hi
        simp at hi
        omega
      simp only [entry_words_eq, huser]
      interval_cases i <;> first | rfl | contradiction
  · obtain ⟨hss, hstack⟩ := hkernel huser
    have h64 : frame_size c = 64 := by
      unfold frame_size
      rw [huser]
      rfl
    exact ⟨hss, by omega⟩

/-! ## The tasks keep their registers -/

variable {place : Place} {live : Finset Nat} {s s' : machine_t} {f : files_t}

/-- The stacks of the tasks: each has room for a frame, and no two have a word in common. -/
structure Stacks (place : Place) (live : Finset Nat) (tasks : Nat → task_t) : Prop where
  pointer : ∀ t ∈ live, t ≠ 0
  room : ∀ t ∈ live, (tasks t).stack_base + 72 ≤ (tasks t).stack_top ∧
    (tasks t).stack_top < 0x100000000
  apart : ∀ t ∈ live, ∀ u ∈ live, ∀ a b, (tasks t).stack_base ≤ a → a < (tasks t).stack_top →
    (tasks u).stack_base ≤ b → b < (tasks u).stack_top →
    place (tasks t).task_cr3 a = place (tasks u).task_cr3 b → t = u ∧ a = b

/-- The registers of a task are in a frame on its stack. -/
structure Stored (place : Place) (memory : Nat → Nat) (t : task_t) (c : cpu_t) : Prop where
  above : t.stack_base ≤ t.task_esp
  below : t.task_esp + frame_size c ≤ t.stack_top
  frame : Frame (seen place memory t.task_cr3) t.task_esp c

/-- The running task has its registers in the processor, and the others have theirs on their
stacks. -/
structure Saved (place : Place) (live : Finset Nat) (s : machine_t) (f : files_t) : Prop where
  current : f.current = s.current
  alive : s.current ∈ live
  esp0 : s.esp0 = (s.tasks s.current).stack_top
  cr3 : s.cr3 = (s.tasks s.current).task_cr3
  cpu : f.registers s.current = s.cpu
  layout : Stacks place live s.tasks
  stack : from_user s.cpu = false → s.cpu.ss = KERNEL_DATA ∧
    (s.tasks s.current).stack_base + 64 ≤ s.cpu.esp ∧ s.cpu.esp ≤ (s.tasks s.current).stack_top
  stored : ∀ t ∈ live, t ≠ s.current → Stored place s.memory (s.tasks t) (f.registers t)

theorem Stored.of_same {memory memory' : Nat → Nat} {t : task_t} {c : cpu_t}
    (h : Stored place memory t c)
    (hsame : ∀ a, t.task_esp ≤ a → a < t.stack_top →
      memory' (place t.task_cr3 a) = memory (place t.task_cr3 a)) : Stored place memory' t c :=
  have hbelow := h.below
  ⟨h.above, h.below, h.frame.of_same fun a ha ha' => hsame a ha (by omega)⟩

/-- A write to the stack of another task leaves the frame. -/
theorem Stored.beside {tasks : Nat → task_t} (hs : Stacks place live tasks)
    {memory memory' : Nat → Nat} {t u : Nat} {c : cpu_t} (ht : t ∈ live) (hu : u ∈ live)
    (hne : t ≠ u) (h : Stored place memory (tasks t) c)
    (hsame : ∀ p, (∀ a, (tasks u).stack_base ≤ a → a < (tasks u).stack_top →
      p ≠ place (tasks u).task_cr3 a) → memory' p = memory p) :
    Stored place memory' (tasks t) c := by
  have habove := h.above
  refine h.of_same fun a ha ha' => hsame _ fun b hb hb' he => ?_
  exact hne (hs.apart t ht u hu a b (by omega) ha' hb hb' he).1

/-- What the switch does to the frame of a task whose call is to be made again. -/
theorem Stored.retry {tasks : Nat → task_t} (hs : Stacks place live tasks) {memory : Nat → Nat}
    {t : Nat} {c : cpu_t} (ht : t ∈ live) (h : Stored place memory (tasks t) c) :
    Stored place (retry_eip place memory (tasks t)) (tasks t)
        (again c (task_load (tasks t) SYSCALL_RETRY_OFFSET)) ∧
      ∀ p, (∀ a, (tasks t).stack_base ≤ a → a < (tasks t).stack_top →
        p ≠ place (tasks t).task_cr3 a) → retry_eip place memory (tasks t) p = memory p := by
  unfold retry_eip again
  split
  · exact ⟨h, fun _ _ => rfl⟩
  · have habove := h.above
    have hbelow := h.below
    have hfits := h.frame.fits
    obtain ⟨hsize, -⟩ := frame_size_ge c
    have heip : u32 ((tasks t).task_esp + 52) = (tasks t).task_esp + 52 := u32_of_lt (by omega)
    have hold : memory (place (tasks t).task_cr3 ((tasks t).task_esp + 52)) = c.eip :=
      h.frame.words 13 (by omega) (by decide) (by decide)
    rw [heip, hold]
    have hsize' : frame_size { c with eip := sub32 c.eip 2 } = frame_size c := frame_size_of_cs rfl
    refine ⟨⟨habove, hsize'.symm ▸ hbelow, ?_⟩, fun p hp => ?_⟩
    · refine (h.frame.with_eip (sub32 c.eip 2)).of_same fun a ha ha' => ?_
      rw [hsize'] at ha'
      unfold seen
      by_cases he : a = (tasks t).task_esp + 52
      · rw [he, Function.update_self, Function.update_self]
      · have hplace : place (tasks t).task_cr3 a ≠
            place (tasks t).task_cr3 ((tasks t).task_esp + 52) :=
          fun hp => he (hs.apart t ht t ht _ _ (by omega) (by omega) (by omega) (by omega) hp).2
        rw [Function.update_of_ne hplace, Function.update_of_ne he]
    · exact Function.update_of_ne (hp _ (by omega) (by omega)) _ _

/-- All tasks are stopped: the handler has the processor. -/
structure Stopped (place : Place) (live : Finset Nat) (memory : Nat → Nat) (tasks : Nat → task_t)
    (registers : Nat → cpu_t) : Prop where
  layout : Stacks place live tasks
  stored : ∀ t ∈ live, Stored place memory (tasks t) (registers t)

/-- The record of the task that is interrupted, with the end of its stack. -/
def stopped_tasks (s : machine_t) (esp : Nat) : Nat → task_t :=
  Function.update s.tasks s.current { s.tasks s.current with task_esp := esp }

/-- Of a record, the stack pointer alone is written. -/
theorem stopped_tasks_load (s : machine_t) (esp t : Nat) :
    task_load (stopped_tasks s esp t) SYSCALL_RETRY_OFFSET =
      task_load (s.tasks t) SYSCALL_RETRY_OFFSET := by
  unfold stopped_tasks
  rw [Function.update_apply]
  split
  · rename_i he
    rw [he]
    rfl
  · rfl

/-- The task that is switched to gets its own registers. -/
theorem Stopped.switch {esp next : Nat} (h0 : s.current ≠ 0)
    (h : Stopped place live s.memory (stopped_tasks s esp) f.registers) (hnext : next ∈ live) :
    Saved place live (task_manager_task_switch place s esp next)
      (files_switch f (some (next, task_load (s.tasks next) SYSCALL_RETRY_OFFSET))) := by
  have hload := stopped_tasks_load s esp next
  have htasks : (if s.current = 0 then s.tasks
      else Function.update s.tasks s.current { s.tasks s.current with task_esp := esp }) =
        stopped_tasks s esp := if_neg h0
  unfold task_manager_task_switch
  rw [htasks, ← hload]
  generalize stopped_tasks s esp = tasks at *
  obtain ⟨hnew, hout⟩ := (h.stored next hnext).retry h.layout hnext
  generalize hc : again (f.registers next) (task_load (tasks next) SYSCALL_RETRY_OFFSET) = c at hnew
  generalize hg : files_switch f (some (next, task_load (tasks next) SYSCALL_RETRY_OFFSET)) = g
  have hregister : g.registers = Function.update f.registers next c := by
    rw [← hc, ← hg]
    rfl
  have hcpu := hnew.frame.leave_eq
  refine ⟨hg ▸ rfl, hnext, rfl, rfl, ?_, h.layout, fun hkernel => ?_, fun t ht hne => ?_⟩
  · rw [hregister]
    exact (Function.update_self ..).trans hcpu.symm
  · dsimp only at hkernel ⊢
    rw [hcpu] at hkernel ⊢
    obtain ⟨hss, hesp⟩ := hnew.frame.kernel hkernel
    have habove := hnew.above
    have hbelow := hnew.below
    obtain ⟨hsize, -⟩ := frame_size_ge c
    exact ⟨hss, by omega, by omega⟩
  · have hother : g.registers t = f.registers t := by
      rw [hregister]
      exact Function.update_of_ne hne _ _
    rw [hother]
    exact (h.stored t ht).beside h.layout ht hnext hne hout

/-- An interrupt pushes the registers of the running task on its own stack. -/
theorem Saved.entered (h : Saved place live s f) (vector error_code : Nat) :
    (s.tasks s.current).stack_base ≤ (enter place s vector error_code).2 ∧
      (enter place s vector error_code).2 + frame_size s.cpu ≤ (s.tasks s.current).stack_top ∧
      Frame (seen place (enter place s vector error_code).1 s.cr3)
        (enter place s vector error_code).2 s.cpu ∧
      ∀ p, (∀ a, (s.tasks s.current).stack_base ≤ a → a < (s.tasks s.current).stack_top →
        p ≠ place s.cr3 a) → (enter place s vector error_code).1 p = s.memory p := by
  obtain ⟨hroom, hlt⟩ := h.layout.room _ h.alive
  obtain ⟨hbase, htop, hkernel⟩ :
      (s.tasks s.current).stack_base + frame_size s.cpu ≤ entry_stack s ∧
        entry_stack s ≤ (s.tasks s.current).stack_top ∧
        (from_user s.cpu = false → s.cpu.ss = KERNEL_DATA ∧ s.cpu.esp = entry_stack s) := by
    unfold entry_stack frame_size
    cases huser : from_user s.cpu with
    | true =>
      have hesp0 := h.esp0
      simp only [if_true]
      exact ⟨by omega, by omega, fun hk => by cases hk⟩
    | false =>
      obtain ⟨hss, hlow, hhigh⟩ := h.stack huser
      exact ⟨hlow, hhigh, fun _ => ⟨hss, rfl⟩⟩
  have hplace : ∀ a b, entry_stack s - frame_size s.cpu ≤ a → a < entry_stack s →
      entry_stack s - frame_size s.cpu ≤ b → b < entry_stack s →
      place s.cr3 a = place s.cr3 b → a = b := by
    intro a b ha ha' hb hb' he
    rw [h.cr3] at he
    exact (h.layout.apart _ h.alive _ h.alive a b (by omega) (by omega) (by omega) (by omega) he).2
  obtain ⟨hesp, hframe, hother⟩ := @pushed_frame (place s.cr3) s.memory s.cpu (entry_stack s) vector
    error_code (by omega) (by omega) hkernel hplace
  unfold enter
  rw [hesp]
  exact ⟨by omega, by omega, hframe,
    fun p hp => hother p fun a ha ha' => hp a (by omega) (by omega)⟩

/-- The result of a call goes into the frame of its caller. -/
theorem Frame.result (at_ : Nat → Nat) {memory memory' : Nat → Nat} {esp top : Nat}
    (f : files_t) (result : Option Nat)
    (h : Frame (fun a => memory (at_ a)) esp (f.registers f.current))
    (htop : esp + frame_size (f.registers f.current) ≤ top)
    (hplace : ∀ a b, esp ≤ a → a < top → esp ≤ b → b < top → at_ a = at_ b → a = b)
    (hown : ∀ a, esp ≤ a → a < top →
      memory' (at_ a) = set_data_eax at_ memory esp result (at_ a)) :
    Frame (fun a => memory' (at_ a)) esp ((set_eax f result).registers f.current) ∧
      frame_size ((set_eax f result).registers f.current) = frame_size (f.registers f.current) := by
  obtain ⟨hsize, -⟩ := frame_size_ge (f.registers f.current)
  cases result with
  | none => exact ⟨h.of_same fun a ha ha' => hown a ha (by omega), rfl⟩
  | some eax =>
    have hset : (set_eax f (some eax)).registers f.current =
        { f.registers f.current with eax := eax } := Function.update_self ..
    have hsize' : frame_size { f.registers f.current with eax := eax } =
        frame_size (f.registers f.current) := frame_size_of_cs rfl
    rw [hset]
    refine ⟨(h.with_eax eax).of_same fun a ha ha' => ?_, hsize'⟩
    rw [hsize'] at ha'
    have hdata : memory' (at_ a) = Function.update memory (at_ (esp + 40)) eax (at_ a) :=
      hown a ha (by omega)
    rw [hdata]
    by_cases he : a = esp + 40
    · rw [he, Function.update_self, Function.update_self]
    · have hne : at_ a ≠ at_ (esp + 40) :=
        fun hp => he (hplace a _ ha (by omega) (by omega) (by omega) hp)
      rw [Function.update_of_ne hne, Function.update_of_ne he]

theorem set_eax_current (f : files_t) (result : Option Nat) :
    (set_eax f result).current = f.current := by
  cases result <;> rfl

theorem set_eax_other {t : Nat} (result : Option Nat) (h : t ≠ f.current) :
    (set_eax f result).registers t = f.registers t := by
  cases result with
  | none => rfl
  | some eax => exact Function.update_of_ne h ..

/-- When the handler is done, every task has its registers on its stack, the running one with the
result of the call. -/
theorem Saved.interrupted (h : Saved place live s f) {vector error_code : Nat}
    {result : Option Nat} {memory : Nat → Nat} {tasks : Nat → task_t}
    (hh : Handled place live s vector (enter place s vector error_code) result memory tasks) :
    Stopped place live memory (stopped_tasks { s with memory := memory, tasks := tasks }
      (enter place s vector error_code).2) (set_eax f result).registers := by
  obtain ⟨hbase, htop, hframe, hother⟩ := h.entered vector error_code
  generalize enter place s vector error_code = entered at *
  -- the fields that the handler and the stub keep
  have hrecord : ∀ t ∈ live,
      (stopped_tasks { s with memory := memory, tasks := tasks } entered.2 t).stack_base =
          (s.tasks t).stack_base ∧
        (stopped_tasks { s with memory := memory, tasks := tasks } entered.2 t).stack_top =
          (s.tasks t).stack_top ∧
        (stopped_tasks { s with memory := memory, tasks := tasks } entered.2 t).task_cr3 =
          (s.tasks t).task_cr3 ∧
        (stopped_tasks { s with memory := memory, tasks := tasks } entered.2 t).task_esp =
          if t = s.current then entered.2 else (s.tasks t).task_esp := by
    intro t ht
    unfold stopped_tasks
    rw [Function.update_apply]
    split
    · rename_i he
      rw [← he]
      exact ⟨hh.base t ht, hh.top t ht, hh.cr3 t ht, rfl⟩
    · exact ⟨hh.base t ht, hh.top t ht, hh.cr3 t ht, hh.esp t ht⟩
  generalize stopped_tasks { s with memory := memory, tasks := tasks } entered.2 = stopped at *
  have hlayout : Stacks place live stopped := by
    refine ⟨h.layout.pointer, fun t ht => ?_, fun t ht u hu => ?_⟩
    · rw [(hrecord t ht).1, (hrecord t ht).2.1]
      exact h.layout.room t ht
    · obtain ⟨hbt, htt, hct, -⟩ := hrecord t ht
      obtain ⟨hbu, htu, hcu, -⟩ := hrecord u hu
      rw [hbt, htt, hct, hbu, htu, hcu]
      exact h.layout.apart t ht u hu
  refine ⟨hlayout, fun t ht => ?_⟩
  obtain ⟨hb, hp, hc, hesp⟩ := hrecord t ht
  by_cases hcurrent : t = s.current
  · rw [if_pos hcurrent] at hesp
    rw [hcurrent] at hb hp hc hesp ⊢
    have hcpu : f.registers f.current = s.cpu := h.current ▸ h.cpu
    have hplace : ∀ a b, entered.2 ≤ a → a < (s.tasks s.current).stack_top → entered.2 ≤ b →
        b < (s.tasks s.current).stack_top → place s.cr3 a = place s.cr3 b → a = b :=
      fun a b ha ha' hb hb' he => (h.layout.apart _ h.alive _ h.alive a b (by omega) ha' (by omega)
        hb' (h.cr3 ▸ he)).2
    have hresult := Frame.result (place s.cr3) f result (hcpu ▸ hframe) (hcpu ▸ htop) hplace hh.own
    rw [h.current] at hresult
    obtain ⟨hnew, hsize⟩ := hresult
    have hcpu' : f.registers s.current = s.cpu := h.cpu
    refine ⟨by rw [hb, hesp]; exact hbase, ?_, ?_⟩
    · rw [hsize, hp, hesp, hcpu']
      exact htop
    · rw [hc, hesp, ← h.cr3]
      exact hnew
  · rw [if_neg hcurrent] at hesp
    rw [set_eax_other result (h.current ▸ hcurrent)]
    have hout : ∀ p, (∀ a, (s.tasks s.current).stack_base ≤ a → a < (s.tasks s.current).stack_top →
        p ≠ place (s.tasks s.current).task_cr3 a) → entered.1 p = s.memory p := h.cr3 ▸ hother
    have hpushed := (h.stored t ht hcurrent).beside h.layout ht h.alive hcurrent hout
    have hkept := hpushed.of_same fun a ha ha' => hh.others t ht hcurrent a ha ha'
    refine ⟨by rw [hb, hesp]; exact hkept.above, by rw [hp, hesp]; exact hkept.below, ?_⟩
    rw [hc, hesp]
    exact hkept.frame

/-- A task that is not switched goes on with its registers. -/
theorem Saved.resume {g : files_t} {memory : Nat → Nat} {tasks : Nat → task_t} {vector esp : Nat}
    (h : Saved place live s f) (hg : g.current = s.current)
    (htop : (tasks s.current).stack_top = (s.tasks s.current).stack_top)
    (hcr3 : (tasks s.current).task_cr3 = (s.tasks s.current).task_cr3)
    (hstopped : Stopped place live memory
      (stopped_tasks { s with memory := memory, tasks := tasks } esp) g.registers) :
    Saved place live
      (finish place { s with memory := memory, tasks := tasks } vector esp none) g := by
  have hstub : stub_cr3 { s with memory := memory, tasks := tasks } vector =
      (tasks s.current).task_cr3 := by
    unfold stub_cr3
    split
    · exact h.cr3.trans hcr3.symm
    · rfl
  have hself : stopped_tasks { s with memory := memory, tasks := tasks } esp s.current =
      { tasks s.current with task_esp := esp } := Function.update_self ..
  have hother : ∀ t, t ≠ s.current →
      stopped_tasks { s with memory := memory, tasks := tasks } esp t = tasks t :=
    fun t ht => Function.update_of_ne ht _ _
  have hbase : ∀ t, (stopped_tasks { s with memory := memory, tasks := tasks } esp t).stack_base =
      (tasks t).stack_base ∧
      (stopped_tasks { s with memory := memory, tasks := tasks } esp t).stack_top =
        (tasks t).stack_top ∧
      (stopped_tasks { s with memory := memory, tasks := tasks } esp t).task_cr3 =
        (tasks t).task_cr3 := by
    intro t
    by_cases ht : t = s.current
    · rw [ht, hself]
      exact ⟨rfl, rfl, rfl⟩
    · rw [hother t ht]
      exact ⟨rfl, rfl, rfl⟩
  have hstored := hstopped.stored _ h.alive
  rw [hself] at hstored
  have hcpu : leave (seen place memory (tasks s.current).task_cr3) esp = g.registers s.current :=
    hstored.frame.leave_eq
  unfold finish
  dsimp only
  rw [hstub]
  refine ⟨hg, h.alive, h.esp0.trans htop.symm, rfl, hcpu.symm,
    ⟨hstopped.layout.pointer, fun t ht => ?_, fun t ht u hu => ?_⟩, fun hkernel => ?_,
    fun t ht hne => ?_⟩
  · have hroom := hstopped.layout.room t ht
    rwa [(hbase t).1, (hbase t).2.1] at hroom
  · have hapart := hstopped.layout.apart t ht u hu
    rwa [(hbase t).1, (hbase t).2.1, (hbase t).2.2, (hbase u).1, (hbase u).2.1, (hbase u).2.2]
      at hapart
  · dsimp only at hkernel ⊢
    rw [hcpu] at hkernel ⊢
    obtain ⟨hss, hesp⟩ := hstored.frame.kernel hkernel
    obtain ⟨hsize, -⟩ := frame_size_ge (g.registers s.current)
    have habove : (tasks s.current).stack_base ≤ esp := hstored.above
    have hbelow : esp + frame_size (g.registers s.current) ≤ (tasks s.current).stack_top :=
      hstored.below
    have hesp' : (g.registers s.current).esp = esp + 64 := hesp
    exact ⟨hss, by omega, by omega⟩
  · have hkept := hstopped.stored t ht
    rwa [hother t hne] at hkept

/-- Each step of the machine is the same step of the tasks with registers of their own. -/
theorem Saved.step {event : event_t} (h : Saved place live s f)
    (hstep : Step place live s event s') : Saved place live s' (files_step f event) := by
  cases hstep with
  | run c memory mode stack kept =>
    have hself : (files_step f (.run c)).registers s.current = c :=
      h.current ▸ Function.update_self ..
    refine ⟨h.current, h.alive, h.esp0, h.cr3, hself, h.layout, stack, fun t ht hne => ?_⟩
    have hother : (files_step f (.run c)).registers t = f.registers t :=
      Function.update_of_ne (h.current ▸ hne) _ _
    rw [hother]
    exact (h.stored t ht hne).of_same (kept t ht hne)
  | interrupt vector error_code result memory tasks next handled alive =>
    have hstopped := h.interrupted handled
    have hcurrent : (set_eax f result).current = s.current :=
      (set_eax_current f result).trans h.current
    cases next with
    | none =>
      exact h.resume hcurrent (handled.top _ h.alive) (handled.cr3 _ h.alive) hstopped
    | some next =>
      exact Stopped.switch (s := { s with memory := memory, tasks := tasks })
        (h.layout.pointer _ h.alive) hstopped (alive next rfl)

theorem Saved.steps {events : List event_t} (h : Saved place live s f)
    (hrun : Steps place live s events s') : Saved place live s' (files_run f events) := by
  induction hrun with
  | nil => exact h
  | snoc _ hstep ih =>
    unfold files_run at ih ⊢
    rw [List.foldl_append]
    exact ih.step hstep

/-- In every run the registers in the processor are those that the running task has when every task
has registers of its own, and those of the tasks that wait are in their frames. -/
theorem each_task_keeps_its_registers {events : List event_t} (h : Saved place live s f)
    (hrun : Steps place live s events s') :
    s'.current = (files_run f events).current ∧
      s'.cpu = (files_run f events).registers s'.current ∧
      ∀ t ∈ live, t ≠ s'.current → leave (seen place s'.memory (s'.tasks t).task_cr3)
        (s'.tasks t).task_esp = (files_run f events).registers t := by
  have hsaved := h.steps hrun
  exact ⟨hsaved.current.symm, hsaved.cpu.symm,
    fun t ht hne => (hsaved.stored t ht hne).frame.leave_eq⟩

/-! ## A task that waits -/

/-- The processor goes to the task. -/
def goes_to (t : Nat) : event_t → Prop
  | .run _ => False
  | .interrupt _ _ none => False
  | .interrupt _ _ (some (next, _)) => next = t

/-- Nothing sets the registers of a task that waits. -/
theorem files_step_waits {t : Nat} {event : event_t} (h : f.current ≠ t) (hn : ¬ goes_to t event) :
    (files_step f event).current ≠ t ∧ (files_step f event).registers t = f.registers t := by
  cases event with
  | run c => exact ⟨h, Function.update_of_ne (Ne.symm h) _ _⟩
  | interrupt vector result next =>
    have hresult := set_eax_other result (Ne.symm h)
    cases next with
    | none => exact ⟨set_eax_current f result ▸ h, hresult⟩
    | some next =>
      have hnext : next.1 ≠ t := hn
      exact ⟨hnext, (Function.update_of_ne (Ne.symm hnext) _ _).trans hresult⟩

theorem files_run_waits {t : Nat} {events : List event_t} (h : f.current ≠ t)
    (hn : ∀ event ∈ events, ¬ goes_to t event) :
    (files_run f events).current ≠ t ∧ (files_run f events).registers t = f.registers t := by
  induction events generalizing f with
  | nil => exact ⟨h, rfl⟩
  | cons event events ih =>
    obtain ⟨hcurrent, hregisters⟩ := files_step_waits h (hn event List.mem_cons_self)
    obtain ⟨hlast, hrun⟩ := ih hcurrent fun e he => hn e (List.mem_cons_of_mem _ he)
    exact ⟨hlast, hrun.trans hregisters⟩

/-- The dword that a switch loads is still in the record of the task that it goes to. -/
theorem Step.loaded {vector next load : Nat} {result : Option Nat} (h0 : s.current ≠ 0)
    (h : Step place live s (.interrupt vector result (some (next, load))) s') :
    load = task_load (s'.tasks next) SYSCALL_RETRY_OFFSET := by
  generalize he : event_t.interrupt vector result (some (next, load)) = event at h
  cases h with
  | run => cases he
  | interrupt vector error_code result memory tasks switch handled alive =>
    cases switch with
    | none => cases he
    | some t =>
      cases he
      have htasks : (task_manager_task_switch place { s with memory := memory, tasks := tasks }
          (enter place s vector error_code).2 next).tasks =
          stopped_tasks { s with memory := memory, tasks := tasks }
            (enter place s vector error_code).2 := if_neg h0
      unfold finish
      rw [htasks]
      exact (stopped_tasks_load { s with memory := memory, tasks := tasks } _ next).symm

/-- A handler that only sets the result of a call is one of the steps. -/
theorem Saved.handled (h : Saved place live s f) {vector : Nat} (error_code : Nat)
    {result : Option Nat} {tasks : Nat → task_t} (hcall : result ≠ none → vector = IDT_SYSCALL)
    (hbase : ∀ t ∈ live, (tasks t).stack_base = (s.tasks t).stack_base)
    (htop : ∀ t ∈ live, (tasks t).stack_top = (s.tasks t).stack_top)
    (hesp : ∀ t ∈ live, (tasks t).task_esp = (s.tasks t).task_esp)
    (hcr3 : ∀ t ∈ live, (tasks t).task_cr3 = (s.tasks t).task_cr3) :
    Handled place live s vector (enter place s vector error_code) result
      (set_data_eax (place s.cr3) (enter place s vector error_code).1
        (enter place s vector error_code).2 result) tasks := by
  refine ⟨hcall, fun _ _ _ => rfl, fun t ht hne a ha ha' => ?_, hbase, htop, hesp, hcr3⟩
  cases result with
  | none => rfl
  | some eax =>
    obtain ⟨hlow, hhigh, -, -⟩ := h.entered vector error_code
    obtain ⟨hsize, -⟩ := frame_size_ge s.cpu
    have habove := (h.stored t ht hne).above
    refine Function.update_of_ne (fun he => hne ?_) _ _
    rw [h.cr3] at he
    exact (h.layout.apart t ht _ h.alive a _ (by omega) ha' (by omega) (by omega) he).1

/-- The registers of a task in user mode. -/
def userCpu (n : Nat) : cpu_t where
  gs := 0x23
  fs := 0x23
  es := 0x23
  ds := 0x23
  edi := n
  esi := n + 1
  ebp := 0xBFFFDF80
  ebx := n + 2
  edx := n + 3
  ecx := n + 4
  eax := n + 5
  eip := 0x8048100 + n
  cs := 0x1B
  eflags := 0x202
  esp := 0xBFFFDF00
  ss := 0x23

/-- Two directories that have no frame in common. -/
def twoPlaces : Place := fun cr3 a => cr3 * 0x100000000 + a

/-- The first task runs, and the second one waits with a frame at the top of its stack. -/
def twoTasks : machine_t where
  memory := (push_words (twoPlaces 0x20000) (fun _ => 0) KERNEL_STACK_TOP
    (entry_words (userCpu 0x20) 32 0)).1
  cpu := userCpu 0x10
  cr3 := 0x10000
  esp0 := KERNEL_STACK_TOP
  current := 0x1000
  tasks := fun t =>
    { task_t.zeroed with
      task_esp := KERNEL_STACK_TOP - 72
      task_cr3 := 16 * t
      stack_base := KERNEL_STACK_TOP - PAGE_SIZE
      stack_top := KERNEL_STACK_TOP
      task_is_user := true }

def twoFiles : files_t where
  current := 0x1000
  registers := fun t => userCpu (t / 0x100)

theorem twoTasks_saved : Saved twoPlaces {0x1000, 0x2000} twoTasks twoFiles := by
  have hroom : KERNEL_STACK_TOP - PAGE_SIZE + 72 ≤ KERNEL_STACK_TOP ∧
      KERNEL_STACK_TOP < 0x100000000 := by decide
  have huser : from_user (userCpu 0x10) = true := by decide
  refine ⟨rfl, by decide, rfl, rfl, rfl, ⟨fun t ht => ?_, fun _ _ => hroom,
    fun t ht u hu a b ha ha' hb hb' he => ?_⟩, fun hk => absurd (huser.symm.trans hk) (by decide),
    fun t ht hne => ?_⟩
  · rintro rfl
    revert ht
    decide
  · simp only [twoPlaces, twoTasks, KERNEL_STACK_TOP] at he ha' hb'
    omega
  · simp only [Finset.mem_insert, Finset.mem_singleton] at ht
    have ht2 : t = 0x2000 := ht.resolve_left hne
    rw [ht2]
    obtain ⟨-, hframe, -⟩ := @pushed_frame (twoPlaces 0x20000) (fun _ => 0) (userCpu 0x20)
      KERNEL_STACK_TOP 32 0 (by decide) (by decide) (fun hk => by cases hk)
      (fun a b _ _ _ _ he => Nat.add_left_cancel he)
    have hsize : frame_size (userCpu 0x20) = 72 := by decide
    rw [hsize] at hframe
    have hcr3 : (twoTasks.tasks 0x2000).task_cr3 = 0x20000 := rfl
    have hesp : (twoTasks.tasks 0x2000).task_esp = KERNEL_STACK_TOP - 72 := rfl
    have hcpu : twoFiles.registers 0x2000 = userCpu 0x20 := rfl
    refine ⟨by decide, by decide, ?_⟩
    rw [hcr3, hesp, hcpu]
    exact hframe

/-- A call of the first task ends with 7, and the second task runs. -/
def secondRuns : machine_t :=
  finish twoPlaces
    { twoTasks with
      memory := set_data_eax (twoPlaces 0x10000) (enter twoPlaces twoTasks IDT_SYSCALL 0).1
        (enter twoPlaces twoTasks IDT_SYSCALL 0).2 (some 7) }
    IDT_SYSCALL (enter twoPlaces twoTasks IDT_SYSCALL 0).2 (some 0x2000)

theorem twoTasks_leave : Step twoPlaces {0x1000, 0x2000} twoTasks
    (.interrupt IDT_SYSCALL (some 7) (some (0x2000, 0))) secondRuns :=
  Step.interrupt twoTasks IDT_SYSCALL 0 (some 7) _ twoTasks.tasks (some 0x2000)
    (twoTasks_saved.handled 0 (fun _ => rfl) (fun _ _ => rfl) (fun _ _ => rfl) (fun _ _ => rfl)
      fun _ _ => rfl)
    fun t ht => by cases ht; decide

/-- The second task computes. -/
def secondRan : machine_t := { secondRuns with cpu := userCpu 0x50 }

theorem secondRuns_run :
    Step twoPlaces {0x1000, 0x2000} secondRuns (.run (userCpu 0x50)) secondRan := by
  have hcpu := (twoTasks_saved.step twoTasks_leave).cpu
  have huser : from_user (userCpu 0x50) = true := by decide
  refine Step.run secondRuns (userCpu 0x50) _ ?_
    (fun hk => absurd (huser.symm.trans hk) (by decide)) fun _ _ _ _ _ _ => rfl
  rw [← hcpu]
  rfl

/-- A tick of the timer takes the second task off the processor, while the call of the first one is
to be made again. -/
def firstRuns : machine_t :=
  finish twoPlaces
    { secondRan with
      memory := (enter twoPlaces secondRan 32 0).1
      tasks := fun t => { secondRan.tasks t with syscall_retry := true } }
    32 (enter twoPlaces secondRan 32 0).2 (some 0x1000)

theorem secondRan_leave : Step twoPlaces {0x1000, 0x2000} secondRan
    (.interrupt 32 none (some (0x1000, 2 ^ 24))) firstRuns :=
  Step.interrupt secondRan 32 0 none _ (fun t => { secondRan.tasks t with syscall_retry := true })
    (some 0x1000)
    (((twoTasks_saved.step twoTasks_leave).step secondRuns_run).handled 0 (fun hn => absurd rfl hn)
      (fun _ _ => rfl) (fun _ _ => rfl) (fun _ _ => rfl) fun _ _ => rfl)
    fun t ht => by cases ht; decide

/-- The first task goes on with the result of its call, two bytes before. -/
theorem two_tasks_keep_their_registers :
    Steps twoPlaces {0x1000, 0x2000} twoTasks [.interrupt IDT_SYSCALL (some 7) (some (0x2000, 0)),
        .run (userCpu 0x50), .interrupt 32 none (some (0x1000, 2 ^ 24))] firstRuns ∧
      firstRuns.cpu = { userCpu 0x10 with eax := 7, eip := 0x804810E } ∧
      leave (seen twoPlaces firstRuns.memory 0x20000) (firstRuns.tasks 0x2000).task_esp =
        userCpu 0x50 := by
  have hnil : Steps twoPlaces {0x1000, 0x2000} twoTasks [] twoTasks := Steps.nil twoTasks
  have hrun := ((hnil.snoc twoTasks_leave).snoc secondRuns_run).snoc secondRan_leave
  obtain ⟨-, hcpu, hothers⟩ := each_task_keeps_its_registers twoTasks_saved hrun
  exact ⟨hrun, hcpu, hothers 0x2000 (by decide) (by decide)⟩

end alura_os.context
