-- The keyboard: what the readers get is what was typed, in its order, and none of them
-- sleeps while there is something to read.
import AluraOs.Rings
import AluraOs.KernelRuns

namespace alura_os.kernel

open alura_os.memory alura_os.task_manager alura_os.resource chains
open task_state_t task_wait_reason_t resource_result_t resource_type_t

variable {k k' : kernel_t} {order : List Nat} {ns : Nat → List Nat} {rules : Rules}

/-! ## The buffer -/

/-- The scancodes that no reader has got yet, the oldest first. -/
def pending (keyboard : keyboard_t) : List Nat :=
  rings.contents KEYBOARD_BUFFER_SIZE keyboard.buffer keyboard.buffer_tail keyboard.buffer_count

/-- The head of the buffer stands `buffer_count` cells after its tail. -/
structure Ring (keyboard : keyboard_t) : Prop where
  head : keyboard.buffer_head =
    (keyboard.buffer_tail + keyboard.buffer_count) % KEYBOARD_BUFFER_SIZE
  tail : keyboard.buffer_tail < KEYBOARD_BUFFER_SIZE
  count : keyboard.buffer_count ≤ KEYBOARD_BUFFER_SIZE

theorem special_keys_buffer (keyboard : keyboard_t) (scancode : Nat) :
    (special_keys keyboard scancode).buffer = keyboard.buffer ∧
      (special_keys keyboard scancode).buffer_head = keyboard.buffer_head ∧
      (special_keys keyboard scancode).buffer_tail = keyboard.buffer_tail ∧
      (special_keys keyboard scancode).buffer_count = keyboard.buffer_count := by
  unfold special_keys
  dsimp only
  split
  · exact ⟨rfl, rfl, rfl, rfl⟩
  split
  · exact ⟨rfl, rfl, rfl, rfl⟩
  split <;> exact ⟨rfl, rfl, rfl, rfl⟩

theorem Ring.special_keys {keyboard : keyboard_t} (h : Ring keyboard) (scancode : Nat) :
    Ring (special_keys keyboard scancode) ∧
      pending (special_keys keyboard scancode) = pending keyboard := by
  obtain ⟨hb, hh, ht, hc⟩ := special_keys_buffer keyboard scancode
  refine ⟨⟨?_, ?_, ?_⟩, ?_⟩
  · rw [hh, ht, hc]
    exact h.head
  · rw [ht]
    exact h.tail
  · rw [hc]
    exact h.count
  · unfold pending
    rw [hb, ht, hc]

/-- A scancode enters the buffer, or finds it full. -/
theorem Ring.write {keyboard : keyboard_t} (h : Ring keyboard) (scancode : Nat) :
    let r := keyboard_buffer_write keyboard scancode
    Ring r.1 ∧ pending r.1 = (if r.2 then pending keyboard ++ [scancode] else pending keyboard) ∧
      (r.2 = false ↔ (pending keyboard).length = KEYBOARD_BUFFER_SIZE) := by
  have hlen : (pending keyboard).length = keyboard.buffer_count := rings.length_contents
  dsimp only
  rw [hlen]
  unfold keyboard_buffer_write
  split
  · rename_i hfull
    exact ⟨h, rfl, iff_of_true rfl hfull⟩
  · rename_i hroom
    have hlt : keyboard.buffer_count < KEYBOARD_BUFFER_SIZE := lt_of_le_of_ne h.count hroom
    refine ⟨⟨?_, h.tail, hlt⟩, ?_, iff_of_false (by simp) hroom⟩
    · dsimp only
      rw [h.head]
      exact rings.head_push _ _ _
    · unfold pending
      dsimp only
      rw [h.head]
      exact rings.contents_push hlt scancode

/-- A read takes the oldest scancodes. -/
theorem Ring.take (length : Nat) {keyboard : keyboard_t} (h : Ring keyboard) :
    Ring (keyboard_take length keyboard).2 ∧
      pending keyboard = (keyboard_take length keyboard).1 ++ pending (keyboard_take length keyboard).2 := by
  induction length generalizing keyboard with
  | zero => exact ⟨h, rfl⟩
  | succ length ih =>
    unfold keyboard_take
    split
    · exact ⟨h, rfl⟩
    · rename_i hc
      obtain ⟨count, hcount⟩ := Nat.exists_eq_succ_of_ne_zero hc
      let keyboard1 : keyboard_t := { keyboard with
        buffer_tail := (keyboard.buffer_tail + 1) % KEYBOARD_BUFFER_SIZE
        buffer_count := keyboard.buffer_count - 1 }
      have h1 : Ring keyboard1 := by
        refine ⟨?_, Nat.mod_lt _ (by decide), (Nat.sub_le _ _).trans h.count⟩
        show keyboard.buffer_head = ((keyboard.buffer_tail + 1) % KEYBOARD_BUFFER_SIZE +
          (keyboard.buffer_count - 1)) % KEYBOARD_BUFFER_SIZE
        rw [h.head, hcount]
        exact rings.head_pop _ _ _
      obtain ⟨h2, he⟩ := ih h1
      refine ⟨h2, ?_⟩
      show pending keyboard = keyboard.buffer keyboard.buffer_tail ::
        ((keyboard_take length keyboard1).1 ++ pending (keyboard_take length keyboard1).2)
      have hcount1 : keyboard1.buffer_count = count := by
        show keyboard.buffer_count - 1 = count
        omega
      rw [← he]
      unfold pending
      rw [hcount, hcount1]
      exact rings.contents_pop h.tail

theorem Ring.read {keyboard : keyboard_t} (h : Ring keyboard) (length : Nat) :
    Ring (keyboard_read keyboard length).1 ∧
      pending keyboard = (keyboard_read keyboard length).2.2 ++ pending (keyboard_read keyboard length).1 := by
  obtain ⟨h1, he⟩ := h.take length
  unfold keyboard_read
  dsimp only
  split
  · rename_i hnone
    rw [hnone] at he
    exact ⟨h1, he⟩
  · exact ⟨h1, he⟩

/-! ## The readers -/

/-- A task sleeps until a key is pressed. -/
def AwaitsKey (k : kernel_t) (a : Nat) : Prop :=
  a ∈ k.live ∧ k.state a = TASK_STATE_BLOCKED ∧
    WaitsOn (k.tasks a) TASK_WAIT_REASON_IO k.keyboard_address

/-- The readers have got what was typed, up to what is still in the buffer, and none of them sleeps
while there is something in it. -/
structure KeyStream (k : kernel_t) : Prop where
  ring : Ring k.keyboard
  stream : k.accepted = k.delivered ++ pending k.keyboard
  awake : 0 < k.keyboard.buffer_count → ∀ a, ¬ AwaitsKey k a

/-- The keyboard, and what went through it. -/
def keys (k : kernel_t) : keyboard_t × List Nat × List Nat × Nat :=
  (k.keyboard, k.accepted, k.delivered, k.keyboard_address)

/-- Nothing happens to the keyboard, and no reader goes to sleep. -/
theorem KeyStream.congr (h : KeyStream k) (hk : keys k' = keys k)
    (hw : ∀ a, AwaitsKey k' a → AwaitsKey k a) : KeyStream k' := by
  simp only [keys, Prod.mk.injEq] at hk
  obtain ⟨hkey, hacc, hdel, -⟩ := hk
  refine ⟨?_, ?_, ?_⟩
  · rw [hkey]
    exact h.ring
  · rw [hkey, hacc, hdel]
    exact h.stream
  · intro hc a ha
    rw [hkey] at hc
    exact h.awake hc a (hw a ha)

/-- What a sleeping reader depends on, in one task. -/
theorem AwaitsKey.congr {a : Nat} (h : AwaitsKey k' a) (hl : a ∈ k'.live → a ∈ k.live)
    (hs : k'.state a = TASK_STATE_BLOCKED → k.state a = TASK_STATE_BLOCKED)
    (hr : (k'.tasks a).wait_reason = (k.tasks a).wait_reason)
    (ho : (k'.tasks a).wait_object = (k.tasks a).wait_object)
    (hk : k'.keyboard_address = k.keyboard_address) : AwaitsKey k a := by
  obtain ⟨h1, h2, h3⟩ := h
  refine ⟨hl h1, hs h2, ?_⟩
  unfold WaitsOn at h3 ⊢
  rw [← hr, ← ho, ← hk]
  exact h3

theorem awaits_setTask {a b : Nat} {t : task_t} (h : AwaitsKey (k.setTask b t) a)
    (hs : t.task_state = TASK_STATE_BLOCKED → k.state b = TASK_STATE_BLOCKED)
    (hr : t.wait_reason = (k.tasks b).wait_reason) (ho : t.wait_object = (k.tasks b).wait_object) :
    AwaitsKey k a := by
  by_cases ha : a = b
  · subst ha
    have ht : (k.setTask a t).tasks a = t := by simp [kernel_t.setTask]
    refine h.congr id ?_ (by rw [ht, hr]) (by rw [ht, ho]) rfl
    unfold kernel_t.state
    rw [ht]
    exact hs
  · have ht : (k.setTask b t).tasks a = k.tasks a := by simp [kernel_t.setTask, ha]
    refine h.congr id ?_ (by rw [ht]) (by rw [ht]) rfl
    unfold kernel_t.state
    rw [ht]
    exact id

theorem KeyStream.of_setTask (h : KeyStream k) {b : Nat} {t : task_t}
    (hs : t.task_state = TASK_STATE_BLOCKED → k.state b = TASK_STATE_BLOCKED)
    (hr : t.wait_reason = (k.tasks b).wait_reason) (ho : t.wait_object = (k.tasks b).wait_object) :
    KeyStream (k.setTask b t) :=
  h.congr rfl fun _ ha => awaits_setTask ha hs hr ho

/-- The same tasks, but for fields that no reader depends on. -/
theorem KeyStream.of_tasks (h : KeyStream k) (hk : keys k' = keys k) (hl : ∀ a ∈ k'.live, a ∈ k.live)
    (ht : ∀ a ∈ k'.live, k'.state a = k.state a ∧ (k'.tasks a).wait_reason = (k.tasks a).wait_reason ∧
      (k'.tasks a).wait_object = (k.tasks a).wait_object) : KeyStream k' := by
  refine h.congr hk fun a ha => ?_
  obtain ⟨hs, hr, ho⟩ := ht a ha.1
  exact ha.congr (hl a) (by rw [hs]; exact id) hr ho (congrArg (fun k => k.2.2.2) hk)

/-- A key is pressed: its scancode is accepted if there is room, and every reader goes on. -/
theorem KeyStream.pressed (h : KeyStream k) (scancode : Nat) :
    KeyStream (awakened (buffered k scancode) TASK_WAIT_REASON_IO k.keyboard_address) := by
  obtain ⟨h1, hp1⟩ := h.ring.special_keys scancode
  obtain ⟨h2, hp2, -⟩ := h1.write scancode
  refine ⟨h2, ?_, ?_⟩
  · show (if (keyboard_buffer_write (special_keys k.keyboard scancode) scancode).2 then
        k.accepted ++ [scancode] else k.accepted) = k.delivered ++
      pending (keyboard_buffer_write (special_keys k.keyboard scancode) scancode).1
    rw [hp2, hp1, h.stream]
    split
    · rw [List.append_assoc]
    · rfl
  · rintro - a ⟨hl, hb, hw⟩
    have he := (awakened_task (buffered k scancode) TASK_WAIT_REASON_IO k.keyboard_address a).1
    have hold : WaitsOn ((buffered k scancode).tasks a) TASK_WAIT_REASON_IO k.keyboard_address := by
      rw [he] at hw
      exact hw
    by_cases hs : (buffered k scancode).state a = TASK_STATE_BLOCKED
    · unfold kernel_t.state at hb
      rw [awakened_pos (k := buffered k scancode) hl hs hold] at hb
      cases hb
    · unfold kernel_t.state at hb
      rw [awakened_neg fun hc => hs hc.2.1] at hb
      exact hs hb

theorem KeyStream.took (h : KeyStream k) (length : Nat) : KeyStream (taken k length) := by
  obtain ⟨h1, hp⟩ := h.ring.read length
  refine ⟨h1, ?_, ?_⟩
  · show k.accepted = (k.delivered ++ (keyboard_read k.keyboard length).2.2) ++
      pending (keyboard_read k.keyboard length).1
    rw [List.append_assoc, ← hp]
    exact h.stream
  · intro hc a ha
    -- A buffer that still holds something held something before.
    have hbefore : 0 < k.keyboard.buffer_count := by
      have hlen := congrArg List.length hp
      unfold pending at hlen
      rw [List.length_append, rings.length_contents, rings.length_contents] at hlen
      have hc' : 0 < (keyboard_read k.keyboard length).1.buffer_count := hc
      omega
    exact h.awake hbefore a ha

/-- A reader sleeps when there is nothing to read. -/
theorem KeyStream.waits (h : KeyStream k) (hc : k.keyboard.buffer_count = 0) (a o : Nat)
    (r : task_wait_reason_t) : KeyStream (waiting k a r o) := by
  refine ⟨h.ring, h.stream, ?_⟩
  intro hpos
  exact absurd hc (Nat.pos_iff_ne_zero.mp hpos)

/-- A child that starts its life does not sleep. -/
theorem KeyStream.forks (h : KeyStream k) {child task_cr3 block : Nat} (hc : k.current ∈ k.live)
    (ht : TaskBlock k.live child) : KeyStream (forked k child task_cr3 block) := by
  have hne : child ≠ k.current := fun he => ht.fresh (he ▸ hc)
  obtain ⟨store, nodes, node_blocks, hshape⟩ := forked_shape k child task_cr3 block
  have hkeys : keys (forked k child task_cr3 block) = keys k := by
    rw [hshape]
    rfl
  refine h.congr hkeys fun a ha => ?_
  by_cases hac : a = child
  · obtain ⟨slots, hchild⟩ := forked_child k task_cr3 block hne
    have hb := ha.2.1
    unfold kernel_t.state at hb
    rw [hac, hchild] at hb
    cases hb
  · obtain ⟨children, tail, he⟩ := forked_others k task_cr3 block hac
    refine ha.congr ?_ ?_ (by rw [he]) (by rw [he]) (congrArg (fun k => k.2.2.2) hkeys)
    · rw [forked_live, Finset.mem_insert]
      exact fun hl => hl.resolve_left hac
    · unfold kernel_t.state
      rw [he]
      exact id

theorem KeyStream.act (ht : Tree k order ns) (h : KeyStream k) (hact : Act rules k k') :
    KeyStream k' := by
  cases hact with
  | same hv =>
    have hf : ∀ {α : Type} (f : kernel_t → α), f k'.view = f k.view := fun f => congrArg f hv
    refine h.congr (hf keys) fun a ha => ?_
    have ht := view_task hv a
    refine ha.congr ?_ (view_blocked hv a).mp (congrArg (fun t => t.wait_reason) ht)
      (congrArg (fun t => t.wait_object) ht) (hf fun k => k.keyboard_address)
    have hl := hf fun k => k.live
    exact fun ha => hl ▸ ha
  | freed =>
    obtain ⟨frees, directories, he⟩ := destroy_queued_eq k
    rw [he]
    exact ⟨h.ring, h.stream, h.awake⟩
  | pressed scancode => exact h.pressed scancode
  | called data =>
    unfold load_execution
    split
    · exact h
    · exact ⟨h.ring, h.stream, h.awake⟩
  | opened _ hr =>
    have hs := (register_only hr).1
    refine h.of_tasks rfl (fun a ha => hs.live ▸ ha) fun a _ => ?_
    obtain ⟨slots, he⟩ := hs.task a
    unfold kernel_t.state
    dsimp only
    rw [he]
    exact ⟨rfl, rfl, rfl⟩
  | closed i =>
    have hs := (remove_only k.toStore k.current i).1
    refine h.of_tasks rfl (fun a ha => hs.live ▸ ha) fun a _ => ?_
    obtain ⟨slots, he⟩ := hs.task a
    unfold kernel_t.state
    dsimp only
    rw [he]
    exact ⟨rfl, rfl, rfl⟩
  | flagged => exact ⟨h.ring, h.stream, h.awake⟩
  | took length => exact h.took length
  | waitsKey _ hc => exact h.waits hc _ _ _
  | @waitsChild pid _ _ hrun =>
    refine h.congr rfl fun a ha => ?_
    by_cases hc : a = k.current
    · subst hc
      obtain ⟨-, -, hr, -⟩ := ha
      simp [waiting, kernel_t.setTask] at hr
    · have he : (waiting k k.current TASK_WAIT_REASON_CHILD pid).tasks a = k.tasks a := by
        simp [waiting, kernel_t.setTask, hc]
      refine ha.congr id ?_ (by rw [he]) (by rw [he]) rfl
      unfold kernel_t.state
      rw [he]
      exact id
  | retries => exact h.of_setTask id rfl rfl
  | finished => exact h.of_setTask id rfl rfl
  | handles => exact h.of_setTask id rfl rfl
  | forked hc _ _ _ hd hb =>
    obtain ⟨directories, rfl⟩ := create_directory_eq hd
    have h1 : KeyStream { k with directories := directories } := ⟨h.ring, h.stream, h.awake⟩
    exact h1.forks hc hb
  | leaked hd =>
    obtain ⟨directories, rfl⟩ := create_directory_eq hd
    exact ⟨h.ring, h.stream, h.awake⟩
  | @executed k1 task_cr3 _ loaded _ _ hd _ =>
    obtain ⟨directories, rfl⟩ := create_directory_eq hd
    have h1 : KeyStream { k with directories := directories } := ⟨h.ring, h.stream, h.awake⟩
    have h2 := h1.of_setTask (b := k.current) (t := alura_os.elf_executable.loaded_task
      (k.tasks k.current) loaded.e_entry task_cr3 loaded.task_esp loaded.heap_start) id rfl rfl
    unfold kernel.executed
    dsimp only
    unfold memory_paging_queue_to_destroy
    split <;> exact ⟨h2.ring, h2.stream, h2.awake⟩
  | @exited a _ _ _ =>
    have hkeys : keys (kernel.exited k a) = keys k := by
      unfold kernel.exited
      dsimp only
      split <;> rfl
    refine h.congr hkeys fun b hb => ?_
    obtain ⟨state, he⟩ := exited_task k a b
    refine hb.congr (by rw [exited_live]; exact id) ?_ (by rw [he]) (by rw [he])
      (congrArg (fun k => k.2.2.2) hkeys)
    exact exited_blocked
  | @reaped child head _ _ _ hp hb hn =>
    have hne := ht.reaper_ne hp hb hn
    obtain ⟨store, nodes, node_blocks, directories, frees, hshape⟩ := reaped_shape k child head
    have hgone := reaped_gone k head hne
    refine h.of_tasks (by rw [hshape]; rfl) ?_ ?_
    · intro a ha
      rw [hgone.live] at ha
      exact Finset.mem_of_mem_erase ha
    · intro a ha
      rw [hgone.live] at ha
      obtain ⟨children, tail, he⟩ := reaped_others k head hne (Finset.ne_of_mem_erase ha)
      unfold kernel_t.state
      rw [he]
      exact ⟨rfl, rfl, rfl⟩
  | roused => exact h.of_setTask (fun hs => by cases hs) rfl rfl
  | reloaded => exact ⟨h.ring, h.stream, h.awake⟩
  | @switched new_task esp =>
    refine h.of_tasks ?_ (by rw [switched_live]; exact fun _ => id) fun a _ => ?_
    · unfold kernel.switched
      dsimp only
      split <;> rfl
    · obtain ⟨esp', he⟩ := switched_task k new_task esp a
      unfold kernel_t.state
      rw [he]
      exact ⟨rfl, rfl, rfl⟩

/-! ## Runs -/

theorem Run.key_stream (h : Run rules k) : KeyStream k := by
  apply h.keep
  · intro k hb
    obtain ⟨hhead, htail, hcount⟩ := hb.keyboard
    refine ⟨⟨?_, ?_, ?_⟩, ?_, ?_⟩
    · rw [hhead, htail, hcount]
      rfl
    · rw [htail]
      decide
    · rw [hcount]
      decide
    · unfold pending
      rw [hb.unread.1, hb.unread.2, hcount]
      rfl
    · rw [hcount]
      exact fun hc => absurd hc (Nat.lt_irrefl 0)
  · exact fun _ _ _ _ ht hact hk => hk.act ht hact

/-- What the interrupt of a key does: only a full buffer drops the scancode, and the tasks that go on
are those that sleep until a key is pressed. -/
structure KeyPressed (k : kernel_t) (scancode : Nat) (k' : kernel_t) : Prop where
  accepted : k'.accepted =
    if (pending k.keyboard).length = KEYBOARD_BUFFER_SIZE then k.accepted else k.accepted ++ [scancode]
  woken : ∀ a, AwaitsKey k a → k'.state a = TASK_STATE_READY
  others : ∀ a, ¬ AwaitsKey k a → k'.state a = k.state a

theorem KeyStream.key_pressed (h : KeyStream k) {scancode : Nat}
    (hb : k'.bare = (awakened (buffered k scancode) TASK_WAIT_REASON_IO k.keyboard_address).bare) :
    KeyPressed k scancode k' := by
  obtain ⟨h1, hp1⟩ := h.ring.special_keys scancode
  obtain ⟨-, -, hfull⟩ := h1.write scancode
  rw [hp1] at hfull
  refine ⟨?_, ?_, ?_⟩
  · have hacc := congrArg (fun k => k.accepted) hb
    refine hacc.trans ?_
    show (if (keyboard_buffer_write (special_keys k.keyboard scancode) scancode).2 then
      k.accepted ++ [scancode] else k.accepted) = _
    by_cases hf : (pending k.keyboard).length = KEYBOARD_BUFFER_SIZE
    · rw [if_pos hf, hfull.mpr hf]
      rfl
    · rw [if_neg hf, if_pos]
      exact Bool.eq_true_of_not_eq_false fun hc => hf (hfull.mp hc)
  · rintro a ⟨hl, hs, hw⟩
    rw [bare_state hb]
    unfold kernel_t.state
    rw [awakened_pos (k := buffered k scancode) hl hs hw]
  · intro a ha
    rw [bare_state hb]
    unfold kernel_t.state
    rw [awakened_neg (k := buffered k scancode) ha]
    rfl

/-- In every run the bytes that the readers got, and after them those in the buffer, are the accepted
scancodes. No reader sleeps while there is a byte in the buffer, and a key is always served. Keys, ticks,
forks and reads end no task, so every interleaving of them is such a run. -/
theorem typed_keys_reach_the_readers (k : kernel_t) (h : Run anything k) :
    KeyStream k ∧
      ∀ scancode, ∃ k', keyboard_irq_handler k scancode = some k' ∧ KeyPressed k scancode k' := by
  refine ⟨h.key_stream, ?_⟩
  intro scancode
  obtain ⟨q, order, ns, hb⟩ := h.between
  obtain ⟨k', q', he, hbare, -⟩ := keyboard_spec hb.settled scancode
  exact ⟨k', he, h.key_stream.key_pressed hbare⟩

/-- Two keys are pressed, and init reads one. -/
theorem the_first_key_is_read_first :
    ∃ k, checked_run (fun _ _ => true) smallBoot (initRuns ++
      [.keyboard 30, .keyboard 31, calls SYSCALL_READ 0 0x8048000 1]) = some k ∧
      k.delivered = [30] ∧ KeyStream k := by
  have heval : (checked_run (fun _ _ => true) smallBoot (initRuns ++
      [.keyboard 30, .keyboard 31, calls SYSCALL_READ 0 0x8048000 1])).map (fun k => k.delivered) =
      some [30] := by
    decide +kernel
  obtain ⟨k, hk, hp⟩ := Option.map_eq_some_iff.mp heval
  have hrun := Run.checked (fun k i _ => anything_allows k i) hk
  exact ⟨k, hk, hp, (typed_keys_reach_the_readers k hrun).1⟩

end alura_os.kernel
