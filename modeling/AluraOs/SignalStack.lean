-- The signal frame on the user's stack (`task_manager_deliver_signal`). The target's own
-- `memcpy` and the copies from another address space leave the same bytes there, the same
-- registers and the same task record.
import AluraOs.CopyMemory
import AluraOs.MapLaws

namespace alura_os.task_manager

open alura_os.memory alura_os.memory_bitmap alura_os.memory_paging Machine
open alura_os.elf_executable (entry_same_page)

/-! ## The bytes of the signal frame -/

/-- What a handler finds on its stack: the return address, the signal and the trampoline that the
return address leads to. -/
def signal_stack (sig useresp : Nat) : List Nat :=
  bytes32 (useresp - 9) ++ bytes32 sig ++ trampoline

/-- The directory `d` after the three writes of a signal frame. -/
def signalFrame (m : Machine) (d sig useresp : Nat) : Machine :=
  writeBytes (writeBytes (writeBytes m d (useresp - 9) trampoline) d (useresp - 13) (bytes32 sig)) d
    (useresp - 17) (bytes32 (useresp - 9))

theorem bytes32_length (w : Nat) : (bytes32 w).length = 4 := rfl

theorem bytes32_byte (w k : Nat) : (bytes32 w).getD k 0 % 256 = (bytes32 w).getD k 0 := by
  unfold bytes32
  rcases k with _ | _ | _ | _ | k <;> simp

theorem trampoline_byte {k : Nat} (hk : k < 9) :
    trampoline.getD k 0 % 256 = trampoline.getD k 0 := by
  revert k
  decide

section frame

variable {m : Machine} {d u : Nat}

/-- The frame of a handler is reached, and there is room for it. -/
structure StackRoom (m : Machine) (d u : Nat) : Prop where
  room : 17 ≤ u
  top : u ≤ 0x100000000
  reached : Reached m d (u - 17) 17

namespace StackRoom

theorem trampoline (h : StackRoom m d u) : Reached m d (u - 9) 9 := by
  have := h.room
  have hpart := h.reached.part (c := 8) (k := 9) (by omega)
  rwa [show u - 17 + 8 = u - 9 by omega] at hpart

theorem sig (h : StackRoom m d u) : Reached m d (u - 13) 4 := by
  have := h.room
  have hpart := h.reached.part (c := 4) (k := 4) (by omega)
  rwa [show u - 17 + 4 = u - 13 by omega] at hpart

theorem retaddr (h : StackRoom m d u) : Reached m d (u - 17) 4 := h.reached.part (c := 0) (by omega)

theorem same {m' : Machine} (h : StackRoom m d u) (hs : SameWalks m m' d) : StackRoom m' d u :=
  ⟨h.room, h.top, hs.reached h.reached⟩

end StackRoom

variable (h : StackRoom m d u) (sig : Nat)

include h

theorem trampoline_walks : SameWalks m (writeBytes m d (u - 9) trampoline) d :=
  writeBytes_walks _ h.trampoline

theorem sig_walks : SameWalks m
    (writeBytes (writeBytes m d (u - 9) trampoline) d (u - 13) (bytes32 sig)) d :=
  (trampoline_walks h).trans (writeBytes_walks _ (h.same (trampoline_walks h)).sig)

theorem signalFrame_walks : SameWalks m (signalFrame m d sig u) d :=
  (sig_walks h sig).trans (writeBytes_walks _ (h.same (sig_walks h sig)).retaddr)

/-- The seventeen bytes are those of the frame, on one page or on two. -/
theorem signalFrame_byte {k : Nat} (hk : k < 17) :
    byteIn (signalFrame m d sig u) d (u - 17 + k) = some ((signal_stack sig u).getD k 0) := by
  have hroom := h.room
  obtain ⟨x, hx, -, -⟩ := h.reached k hk
  unfold byteIn
  rw [(signalFrame_walks h sig).entries, hx, Option.map_some, Option.some_inj]
  have h1 := h.same (trampoline_walks h)
  have h2 := h.same (sig_walks h sig)
  have hx1 := hx
  rw [← (trampoline_walks h).entries] at hx1
  have hx2 := hx
  rw [← (sig_walks h sig).entries] at hx2
  unfold signalFrame signal_stack
  -- A later part of the frame lies at other offsets of a page.
  rcases Nat.lt_or_ge k 4 with hk4 | hk4
  · rw [writeBytes_at _ h2.retaddr (by rw [bytes32_length]; omega) hk4 hx2, bytes32_byte,
      List.append_assoc, List.getD_append _ _ _ _ (by rw [bytes32_length]; exact hk4)]
  · rw [writeBytes_other _ h2.retaddr]
    · rcases Nat.lt_or_ge k 8 with hk8 | hk8
      · obtain ⟨j, rfl⟩ : ∃ j, k = 4 + j := ⟨k - 4, by omega⟩
        rw [show u - 17 + (4 + j) = u - 13 + j by omega] at hx1 ⊢
        rw [writeBytes_at _ h1.sig (by rw [bytes32_length]; omega) (by rw [bytes32_length]; omega) hx1,
          bytes32_byte, List.append_assoc, List.getD_append_right _ _ _ _ (by rw [bytes32_length]; omega),
          bytes32_length, Nat.add_sub_cancel_left, List.getD_append _ _ _ _ (by rw [bytes32_length]; omega)]
      · rw [writeBytes_other _ h1.sig]
        · obtain ⟨j, rfl⟩ : ∃ j, k = 8 + j := ⟨k - 8, by omega⟩
          rw [show u - 17 + (8 + j) = u - 9 + j by omega] at hx ⊢
          rw [writeBytes_at _ h.trampoline (by decide) (show j < trampoline.length by
              have : trampoline.length = 9 := rfl
              omega) hx, trampoline_byte (by omega), List.getD_append_right _ _ _ _ (by
              simp only [List.length_append, bytes32_length]; omega)]
          congr 1
          simp only [List.length_append, bytes32_length]
          omega
        · rintro j hj ⟨-, -, -, hoff⟩
          rw [bytes32_length] at hj
          omega
    · rintro j hj ⟨-, -, -, hoff⟩
      rw [bytes32_length] at hj
      omega

/-- The three writes of the source, whichever way they go. -/
theorem write_signal_frame_eq {write : Machine → Nat → List Nat → Option Machine}
    (hwrite : ∀ m' a bytes, SameWalks m m' d → Reached m' d a bytes.length →
      a + bytes.length ≤ 0x100000000 → write m' a bytes = some (writeBytes m' d a bytes)) :
    write_signal_frame write m sig (u - 9) (u - 13) (u - 17) = some (signalFrame m d sig u) := by
  have hroom := h.room
  have htop := h.top
  have hlen : trampoline.length = 9 := rfl
  unfold write_signal_frame signalFrame
  rw [hwrite m _ _ (SameWalks.refl m d) h.trampoline (by omega)]
  simp only [Option.bind_eq_bind, Option.bind_some]
  rw [hwrite _ _ _ (trampoline_walks h) (h.same (trampoline_walks h)).sig
    (by rw [bytes32_length]; omega)]
  simp only [Option.bind_some]
  rw [hwrite _ _ _ (sig_walks h sig) (h.same (sig_walks h sig)).retaddr
    (by rw [bytes32_length]; omega)]

end frame

/-! ## The range check -/

/-- Every page that the range check visits is there. -/
theorem user_pages_mapped_of {m : Machine} (hw : Windows m) (hs : 0 < (freeSlots m).card)
    {cr3 n page : Nat} (hpage : page % 4096 = 0)
    (h : ∀ k, k < n → ∃ x, m.entry (frameOf cr3) (page + k * 4096) = some x ∧ frameOf x ≠ 0) :
    user_pages_mapped cr3 n page m = some (m, true) := by
  induction n generalizing page with
  | zero => rfl
  | succ n ih =>
    obtain ⟨x, hx, hx0⟩ := h 0 (by omega)
    rw [Nat.zero_mul, Nat.add_zero] at hx
    have hne : ALIGN_DOWN x + page % 4096 ≠ 0 := (frame_of_found hx0).1
    unfold user_pages_mapped
    simp only [virtual_to_physical_found hw hs hx, Option.bind_eq_bind, Option.bind_some, hne, if_false]
    apply ih
    · unfold PAGE_SIZE
      omega
    · intro k hk
      obtain ⟨y, hy⟩ := h (k + 1) (by omega)
      rw [show page + (k + 1) * 4096 = page + PAGE_SIZE + k * 4096 by unfold PAGE_SIZE; omega] at hy
      exact ⟨y, hy⟩

/-- A range that is reached passes the check. -/
theorem user_range_mapped_of {m : Machine} (hw : Windows m) (hs : 0 < (freeSlots m).card)
    {cr3 v n : Nat} (hn : 0 < n) (htop : v + n ≤ KERNEL_VIRTUAL_SPACE_START)
    (h : Reached m (frameOf cr3) v n) :
    task_manager_user_range_mapped m cr3 v n = some (m, true) := by
  have htop' : v + n ≤ 0xC0000000 := htop
  unfold task_manager_user_range_mapped user_range
  rw [u32_of_lt (by omega)]
  apply user_pages_mapped_of hw hs
  · unfold ALIGN_DOWN
    omega
  · intro k hk
    -- Each page of the check holds a byte of the range: its first, or the first of the page.
    have hbyte : ∃ j, j < n ∧ (ALIGN_DOWN v + k * 4096) / 4096 = (v + j) / 4096 := by
      unfold ALIGN_UP ALIGN_DOWN PAGE_SIZE u32 at *
      refine ⟨if k = 0 then 0 else v / 4096 * 4096 + k * 4096 - v, ?_⟩
      split <;> omega
    obtain ⟨j, hj, hsame⟩ := hbyte
    obtain ⟨x, hx, hx0, -⟩ := h j hj
    exact ⟨x, by rw [entry_same_page m _ hsame]; exact hx, hx0⟩

/-! ## Both deliveries -/

/-- A frame as the processor saves it: eighteen words. -/
def register_interrupt_data_t.Words (r : register_interrupt_data_t) : Prop :=
  ∀ w ∈ r.toWords, w < 0x100000000

theorem word32_bytes32 {w : Nat} (hw : w < 0x100000000) :
    w % 256 + 256 * (w / 256 % 256) + 65536 * (w / 65536 % 256) + 16777216 * (w / 16777216 % 256) =
      w := by
  omega

theorem ofBytes_toBytes {r : register_interrupt_data_t} (h : r.Words) :
    register_interrupt_data_t.ofBytes r.toBytes = r := by
  have hword : ∀ w ∈ r.toWords, w % 256 + 256 * (w / 256 % 256) + 65536 * (w / 65536 % 256) +
      16777216 * (w / 16777216 % 256) = w := fun w hw => word32_bytes32 (h w hw)
  cases r
  simp only [register_interrupt_data_t.toWords, List.mem_cons, List.not_mem_nil, or_false,
    forall_eq_or_imp, forall_eq] at hword
  simp [register_interrupt_data_t.ofBytes, register_interrupt_data_t.ofWords, word32,
    register_interrupt_data_t.toBytes, register_interrupt_data_t.toWords, bytes32, hword]

theorem toBytes_length (r : register_interrupt_data_t) :
    r.toBytes.length = REGISTER_FRAME_SIZE := rfl

theorem toBytes_byte (r : register_interrupt_data_t) (k : Nat) :
    r.toBytes.getD k 0 % 256 = r.toBytes.getD k 0 := by
  have hall : ∀ b ∈ r.toBytes, b < 256 := by
    intro b hb
    simp only [register_interrupt_data_t.toBytes, List.mem_flatMap, bytes32, List.mem_cons,
      List.not_mem_nil, or_false] at hb
    obtain ⟨w, -, rfl | rfl | rfl | rfl⟩ := hb <;> exact Nat.mod_lt _ (by decide)
  rcases Nat.lt_or_ge k r.toBytes.length with hk | hk
  · rw [List.getD_eq_getElem _ _ hk]
    exact Nat.mod_eq_of_lt (hall _ (List.getElem_mem hk))
  · rw [List.getD_eq_default _ _ hk]

/-- The task record of a target that goes on in its handler. -/
def signalled (target : task_t) (frame : register_interrupt_data_t) : task_t :=
  { target with
    saved_signal_frame := frame
    in_signal_handler := true
    saved_syscall_retry := target.syscall_retry
    syscall_retry := false }

/-- The registers that it goes on with. -/
def handler_frame (frame : register_interrupt_data_t) (handler : Nat) : register_interrupt_data_t :=
  { frame with useresp := frame.useresp - 17, eip := handler }

/-- A machine on which a signal with the saved registers `frame` can be delivered to the target:
the seventeen bytes below its stack pointer are memory of the user. -/
structure Deliverable (m : Machine) (target : task_t) (frame : register_interrupt_data_t) : Prop where
  windows : Windows m
  slot : 0 < (freeSlots m).card
  room : 17 ≤ frame.useresp
  below : frame.useresp ≤ KERNEL_VIRTUAL_SPACE_START
  stack : Reached m (frameOf target.task_cr3) (frame.useresp - 17) 17

/-- The registers lie on the target's kernel stack, which is none of the user's frames. -/
structure FrameSaved (m : Machine) (target : task_t) (frame : register_interrupt_data_t) : Prop where
  words : frame.Words
  top : target.task_esp + REGISTER_FRAME_SIZE ≤ 0x100000000
  reached : Reached m (frameOf target.task_cr3) target.task_esp REGISTER_FRAME_SIZE
  bytes : ∀ k, k < REGISTER_FRAME_SIZE →
    byteIn m (frameOf target.task_cr3) (target.task_esp + k) = some (frame.toBytes.getD k 0)
  apart : ∀ j k x y, j < 17 → k < REGISTER_FRAME_SIZE →
    m.entry (frameOf target.task_cr3) (frame.useresp - 17 + j) = some x →
    m.entry (frameOf target.task_cr3) (target.task_esp + k) = some y → frameOf x ≠ frameOf y

section deliveries

variable {m : Machine} {target : task_t} {frame : register_interrupt_data_t}

theorem Deliverable.stackRoom (h : Deliverable m target frame) :
    StackRoom m (frameOf target.task_cr3) frame.useresp :=
  ⟨h.room, h.below.trans (by decide), h.stack⟩

/-- The addresses of the three parts of the frame. -/
theorem Deliverable.addresses (h : Deliverable m target frame) :
    sub32 frame.useresp trampoline.length = frame.useresp - 9 ∧
      sub32 (frame.useresp - 9) 4 = frame.useresp - 13 ∧
      sub32 (frame.useresp - 13) 4 = frame.useresp - 17 := by
  have hroom := h.room
  have hbelow : frame.useresp ≤ 0xC0000000 := h.below
  have hlen : trampoline.length = 9 := rfl
  rw [hlen, sub32_of_le (by omega) (by omega), sub32_of_le (by omega) (by omega),
    sub32_of_le (by omega) (by omega)]
  omega

theorem Deliverable.signal_room (h : Deliverable m target frame) :
    signal_room m target frame.useresp = some (m, true) := by
  obtain ⟨h1, h2, h3⟩ := h.addresses
  have hroom := h.room
  have hsize : trampoline.length + 8 = 17 := rfl
  unfold task_manager.signal_room
  simp only [h1, h2, h3, hsize]
  rw [if_neg (by omega)]
  exact user_range_mapped_of h.windows h.slot (by omega)
    (by rw [Nat.sub_add_cancel hroom]; exact h.below) h.stack

/-- A copy of bytes from another address space, while the walks stay as they were. -/
theorem copy_writes (h : Deliverable m target frame) {m' : Machine} {a : Nat} {bytes : List Nat}
    (hs : SameWalks m m' (frameOf target.task_cr3))
    (hr : Reached m' (frameOf target.task_cr3) a bytes.length) (ha : a + bytes.length ≤ 0x100000000) :
    (task_manager_copy_memory m' target.task_cr3 a true bytes).map Prod.fst =
      some (writeBytes m' (frameOf target.task_cr3) a bytes) := by
  have hslots : 0 < (freeSlots m').card := by
    unfold freeSlots
    rw [hs.slots]
    exact h.slot
  rw [copy_memory_to (hs.windows h.windows) hslots bytes ha hr]
  rfl

/-- The running task writes the frame through its own mapping. -/
theorem deliver_in_place (h : Deliverable m target frame) (hcr3 : m.cr3 = target.task_cr3)
    (sig handler : Nat) :
    deliver_frame m target true frame sig handler =
      some (signalFrame m (frameOf target.task_cr3) sig frame.useresp,
        Delivery.handled (signalled target frame) (handler_frame frame handler)) := by
  obtain ⟨h1, h2, h3⟩ := h.addresses
  have hdir : m.dir = frameOf target.task_cr3 := congrArg frameOf hcr3
  have hmemcpy : ∀ m' a bytes, SameWalks m m' (frameOf target.task_cr3) →
      Reached m' (frameOf target.task_cr3) a bytes.length → a + bytes.length ≤ 0x100000000 →
      memcpy_to m' a bytes = some (writeBytes m' (frameOf target.task_cr3) a bytes) := by
    intro m' a bytes hs hr ha
    have hdir' : m'.dir = frameOf target.task_cr3 := (congrArg frameOf hs.cr3).trans hdir
    rw [← hdir'] at hr ⊢
    exact memcpy_to_current bytes hr ha
  have hwrites := write_signal_frame_eq h.stackRoom sig hmemcpy
  unfold deliver_frame
  simp only [h1, h2, h3, hwrites, if_true, Option.bind_eq_bind, Option.bind_some]
  rfl

/-- For any other target the frame is copied through its page directory, and then its registers. -/
theorem deliver_across (h : Deliverable m target frame) (hf : FrameSaved m target frame)
    (sig handler : Nat) :
    deliver_frame m target false frame sig handler =
      some (writeBytes (signalFrame m (frameOf target.task_cr3) sig frame.useresp)
          (frameOf target.task_cr3) target.task_esp (handler_frame frame handler).toBytes,
        Delivery.handled (signalled target frame) (handler_frame frame handler)) := by
  obtain ⟨h1, h2, h3⟩ := h.addresses
  have hwrites := write_signal_frame_eq h.stackRoom sig (fun m' a bytes => copy_writes h)
  have hsame := signalFrame_walks h.stackRoom sig
  have hreach : Reached (signalFrame m (frameOf target.task_cr3) sig frame.useresp)
      (frameOf target.task_cr3) target.task_esp (handler_frame frame handler).toBytes.length := by
    rw [toBytes_length]
    exact hsame.reached hf.reached
  have hregisters := copy_writes h hsame hreach (by rw [toBytes_length]; exact hf.top)
  unfold deliver_frame
  simp only [h1, h2, h3, hwrites, Bool.false_eq_true, if_false, Option.bind_eq_bind, Option.bind_some]
  have hframe : ({ frame with useresp := frame.useresp - 17, eip := handler } :
      register_interrupt_data_t) = handler_frame frame handler := rfl
  rw [hframe, hregisters]
  rfl

end deliveries

/-- Delivery in place and delivery from another address space leave the same seventeen bytes on
the user's stack, the same registers and the same task record. -/
theorem both_deliveries_agree {mi ma : Machine} {target : task_t}
    {frame current : register_interrupt_data_t} {stack local_frame : List Nat}
    (growths growths' : List (Nat × Nat)) (queue queue' : List Nat) (sig handler : Nat)
    (hi : Deliverable mi target frame) (hcr3 : mi.cr3 = target.task_cr3)
    (ha : Deliverable ma target frame) (hf : FrameSaved ma target frame)
    (hlen : local_frame.length = REGISTER_FRAME_SIZE) :
    ∃ mi' ma', task_manager_deliver_signal mi target true frame stack sig handler growths queue =
        some (mi', Delivery.handled (signalled target frame) (handler_frame frame handler)) ∧
      task_manager_deliver_signal ma target false current local_frame sig handler growths' queue' =
        some (ma', Delivery.handled (signalled target frame) (handler_frame frame handler)) ∧
      (∀ k, k < 17 →
        byteIn mi' (frameOf target.task_cr3) (frame.useresp - 17 + k) =
          some ((signal_stack sig frame.useresp).getD k 0) ∧
        byteIn ma' (frameOf target.task_cr3) (frame.useresp - 17 + k) =
          some ((signal_stack sig frame.useresp).getD k 0)) ∧
      ∀ k, k < REGISTER_FRAME_SIZE →
        byteIn ma' (frameOf target.task_cr3) (target.task_esp + k) =
          some ((handler_frame frame handler).toBytes.getD k 0) := by
  have hread : target_registers ma target false current local_frame = some (ma, frame) := by
    have htop := hf.top
    have hcopy := copy_memory_from ha.windows ha.slot local_frame frame.toBytes
      (by rw [hlen]; exact htop) (by rw [hlen]; exact hf.reached.seen)
      (by rw [hlen, toBytes_length]) (by rw [hlen]; exact hf.bytes)
    unfold target_registers
    simp only [Bool.false_eq_true, if_false, hcopy, Option.map_some, ofBytes_toBytes hf.words]
  have hsame := signalFrame_walks ha.stackRoom sig
  have hreach : Reached (signalFrame ma (frameOf target.task_cr3) sig frame.useresp)
      (frameOf target.task_cr3) target.task_esp (handler_frame frame handler).toBytes.length := by
    rw [toBytes_length]
    exact hsame.reached hf.reached
  have hwalks := writeBytes_walks _ hreach
  refine ⟨signalFrame mi (frameOf target.task_cr3) sig frame.useresp,
    writeBytes (signalFrame ma (frameOf target.task_cr3) sig frame.useresp)
      (frameOf target.task_cr3) target.task_esp (handler_frame frame handler).toBytes,
    ?_, ?_, fun k hk => ⟨signalFrame_byte hi.stackRoom sig hk, ?_⟩, fun k hk => ?_⟩
  · unfold task_manager_deliver_signal target_registers
    simp only [if_true, Option.bind_eq_bind, Option.bind_some, hi.signal_room, Bool.not_true,
      Bool.false_eq_true, if_false]
    exact deliver_in_place hi hcr3 sig handler
  · unfold task_manager_deliver_signal
    simp only [hread, Option.bind_eq_bind, Option.bind_some, ha.signal_room, Bool.not_true,
      Bool.false_eq_true, if_false]
    exact deliver_across ha hf sig handler
  · -- The registers go to other frames than the bytes of the user's stack.
    rw [byteIn_other _ hreach, signalFrame_byte ha.stackRoom sig hk]
    intro j x y hj hx hy he
    rw [hsame.entries] at hx hy
    exact absurd he (hf.apart k j x y hk hj hx hy)
  · obtain ⟨y, hy, -, -⟩ := hf.reached k hk
    have hy' := hy
    rw [← hsame.entries] at hy'
    unfold byteIn
    rw [hwalks.entries, hy', Option.map_some, writeBytes_at _ hreach
      (by rw [toBytes_length]; decide) (by rw [toBytes_length]; exact hk) hy', toBytes_byte]

/-! ## The small machine -/

/-- The registers of the small task, with the user's stack in its only page. -/
def smallFrame : register_interrupt_data_t :=
  { register_interrupt_data_t.ofWords (fun _ => 0) with useresp := 0x1800, eip := 0x1000 }

/-- The words of the kernel stack that hold these registers. -/
def smallStack (i : Nat) : Nat :=
  if i = 1019 then 0x1000 else if i = 1022 then 0x1800 else 0

/-- The small machine while its task runs. -/
def smallRunning : Machine := smallMachine.setFrame 8 smallStack

/-- The small machine while the kernel's own directory is loaded. -/
def smallWaiting : Machine := smallRunning.setCr3 0x1000

theorem small_plain {m : Machine} (hm : m.frames = smallRunning.frames)
    (hdir : m.dir = 4 ∨ m.dir = 1) {f : Nat} (hf : f = 6 ∨ f = 8) : Plain m 4 f := by
  have hbounce : m.bounceTable = 3 := by
    unfold bounceTable
    rw [hm]
    rcases hdir with hdir | hdir <;> rw [hdir] <;> decide
  refine ⟨by omega, by omega, by omega, fun j _ hp => ?_⟩
  have hsame : m.frames 4 = smallMachine.frames 4 := by rw [hm]; rfl
  rw [hsame] at hp ⊢
  rcases small_directory_present hp with rfl | rfl | rfl | rfl | rfl <;>
    rcases hf with rfl | rfl <;> decide

theorem small_deliverable {m : Machine} (hm : m.frames = smallRunning.frames)
    (hslots : m.bounce_pages_used = smallMachine.bounce_pages_used) (hdir : m.dir = 4 ∨ m.dir = 1) :
    Deliverable m smallParent smallFrame where
  windows := by
    have hbounce : m.bounceTable = 3 := by
      unfold bounceTable
      rw [hm]
      rcases hdir with hdir | hdir <;> rw [hdir] <;> decide
    constructor
    · rw [hm]; rcases hdir with hdir | hdir <;> rw [hdir] <;> decide
    · rw [hm]; rcases hdir with hdir | hdir <;> rw [hdir] <;> decide
    · rw [hm]; rcases hdir with hdir | hdir <;> rw [hdir] <;> decide
    · omega
    · intro i hi _
      rw [hbounce, hm]
      exact small_windows.closed i hi rfl
  slot := by
    unfold freeSlots
    rw [hslots]
    decide
  room := by decide
  below := by decide
  stack := by
    intro k hk
    refine ⟨0x6007, ?_, by decide, small_plain hm hdir (Or.inl (by decide))⟩
    rw [entry_same_page m _ (show (smallFrame.useresp - 17 + k) / 4096 = 0x1000 / 4096 by
      have : smallFrame.useresp = 0x1800 := rfl
      omega)]
    unfold Machine.entry
    rw [hm]
    decide

theorem small_saved : FrameSaved smallWaiting smallParent smallFrame where
  words := by
    unfold register_interrupt_data_t.Words
    decide
  top := by decide
  reached := by
    intro k hk
    refine ⟨0x8003, ?_, by decide, small_plain (m := smallWaiting) rfl (Or.inr rfl)
      (Or.inr (by decide))⟩
    have hk' : k < 72 := hk
    rw [entry_same_page smallWaiting _ (show (smallParent.task_esp + k) / 4096 = 0xCFFFF000 / 4096 by
      have : smallParent.task_esp = 0xCFFFFFB8 := rfl
      omega)]
    decide
  bytes := by decide +kernel
  apart := by
    have hstack : ∀ j, j < 17 → smallWaiting.entry (frameOf smallParent.task_cr3)
        (smallFrame.useresp - 17 + j) = some 0x6007 := by decide +kernel
    have hkernel : ∀ k, k < REGISTER_FRAME_SIZE → smallWaiting.entry (frameOf smallParent.task_cr3)
        (smallParent.task_esp + k) = some 0x8003 := by decide +kernel
    intro j k x y hj hk hx hy
    rw [hstack j hj] at hx
    rw [hkernel k hk] at hy
    cases hx
    cases hy
    decide

/-- A signal to the small task, running and waiting. -/
theorem small_deliveries_agree :
    ∃ mi' ma', task_manager_deliver_signal smallRunning smallParent true smallFrame [] 15 0x1234 [] [] =
        some (mi', Delivery.handled (signalled smallParent smallFrame)
          (handler_frame smallFrame 0x1234)) ∧
      task_manager_deliver_signal smallWaiting smallParent false smallFrame (List.replicate 72 0) 15
          0x1234 [] [] =
        some (ma', Delivery.handled (signalled smallParent smallFrame)
          (handler_frame smallFrame 0x1234)) ∧
      (∀ k, k < 17 →
        byteIn mi' (frameOf smallParent.task_cr3) (smallFrame.useresp - 17 + k) =
          some ((signal_stack 15 smallFrame.useresp).getD k 0) ∧
        byteIn ma' (frameOf smallParent.task_cr3) (smallFrame.useresp - 17 + k) =
          some ((signal_stack 15 smallFrame.useresp).getD k 0)) ∧
      ∀ k, k < REGISTER_FRAME_SIZE →
        byteIn ma' (frameOf smallParent.task_cr3) (smallParent.task_esp + k) =
          some ((handler_frame smallFrame 0x1234).toBytes.getD k 0) :=
  both_deliveries_agree [] [] [] [] 15 0x1234 (small_deliverable rfl rfl (Or.inl rfl)) rfl
    (small_deliverable rfl rfl (Or.inr rfl)) small_saved rfl

end alura_os.task_manager
