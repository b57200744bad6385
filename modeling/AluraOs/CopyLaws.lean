-- The laws of `task_manager_copy_memory`: what it writes to another address
-- space, what it leaves alone and what it reads back. A page of the range that
-- holds a table, or a frame that is there twice, is where they end.
import AluraOs.SignalStack

namespace alura_os.task_manager

open alura_os.memory alura_os.memory_bitmap alura_os.memory_paging Machine
open alura_os.elf_executable (entry_same_page)

section

variable {m : Machine} {d v : Nat}

/-- No two addresses of the range lead to the same byte. -/
def CellsApart (m : Machine) (d a n : Nat) : Prop :=
  ∀ j k f o, j < k → k < n → Cell m d (a + j) f o → ¬ Cell m d (a + k) f o

/-- The bytes of a range that can be read. -/
theorem Seen.bytes {n : Nat} (h : Seen m d v n) :
    ∃ bytes : List Nat, bytes.length = n ∧
      ∀ k, k < n → byteIn m d (v + k) = some (bytes.getD k 0) := by
  refine ⟨(List.range n).map fun k => (byteIn m d (v + k)).getD 0, by simp, ?_⟩
  intro k hk
  obtain ⟨x, hx, -⟩ := h k hk
  simp [List.getD_eq_getElem?_getD, hk, byteIn, hx]

/-- Bytes that were written to places of their own are read back. -/
theorem CellsApart.read_back {buffer : List Nat} (ha : CellsApart m d v buffer.length)
    (h : Reached m d v buffer.length) (hbytes : ∀ b ∈ buffer, b < 256) {k : Nat}
    (hk : k < buffer.length) :
    byteIn (writeBytes m d v buffer) d (v + k) = some (buffer.getD k 0) := by
  obtain ⟨x, hx, -⟩ := h k hk
  have hb : buffer.getD k 0 < 256 := by
    rw [List.getD_eq_getElem _ _ hk]
    exact hbytes _ (List.getElem_mem hk)
  unfold byteIn
  rw [(writeBytes_walks _ h).entries, hx, Option.map_some, writeBytes_last buffer h hk hx,
    Nat.mod_eq_of_lt hb]
  intro j hkj hj hc
  exact ha k j _ _ hkj hj ⟨x, hx, rfl, rfl⟩ hc

/-- A copy to one page, also to one that holds a table of the target. -/
theorem copy_memory_to_page (hw : Windows m) (hs : 0 < (freeSlots m).card) {phys x b : Nat}
    {bs : List Nat} (hx : m.entry (frameOf phys) v = some x) (hx0 : frameOf x ≠ 0)
    (hd : frameOf x ≠ m.dir) (hb : frameOf x ≠ m.bounceTable)
    (hlen : v % 4096 + (b :: bs).length ≤ 4096) :
    task_manager_copy_memory m phys v true (b :: bs) =
      some (m.setFrame (frameOf x) (putBytes (m.frames (frameOf x)) (v % 4096) (b :: bs)),
        b :: bs) := by
  obtain ⟨i, hi⟩ := free_slot_of_card hs
  have hc : min (PAGE_SIZE - v % 4096) (b :: bs).length = (b :: bs).length := by
    unfold PAGE_SIZE
    omega
  obtain ⟨m1, hcopy, hfree⟩ := bytes_through_slot hw hi (b :: bs) (Nat.mod_lt v (by decide)) hlen
    hb hd
  have hchunk : copy_chunk (m.openSlot i (frameOf x)) (u32 (slotAddr i + v % 4096)) true
      ((b :: bs).take (b :: bs).length) = some (m1, b :: bs) := by
    unfold copy_chunk
    simp [hcopy]
  rw [copy_memory_turn hw hs true hi hx hx0 hc hchunk hfree, List.drop_length, copy_memory_nil]
  simp

end

/-- `task_manager_copy_memory` reads the bytes that the addresses lead to. To pages whose frames
hold no directory and no table that a lookup or a window uses, it writes every byte where its
address leads, the last one where several lead, and nothing else; and what it wrote to places of
their own it reads back. -/
theorem a_copy_is_made_byte_by_byte {m : Machine} (hw : Windows m) (hs : 0 < (freeSlots m).card)
    {phys v n : Nat} (htop : v + n ≤ 0x100000000) (h : Seen m (frameOf phys) v n) :
    (∀ out : List Nat, out.length = n → ∃ bytes, bytes.length = n ∧
      task_manager_copy_memory m phys v false out = some (m, bytes) ∧
      ∀ k, k < n → byteIn m (frameOf phys) (v + k) = some (bytes.getD k 0)) ∧
    ∀ buffer : List Nat, buffer.length = n → Reached m (frameOf phys) v n →
      ∃ m', task_manager_copy_memory m phys v true buffer = some (m', buffer) ∧
        SameWalks m m' (frameOf phys) ∧
        (∀ k x, k < n → m.entry (frameOf phys) (v + k) = some x →
          (∀ j, k < j → j < n →
            ¬ Cell m (frameOf phys) (v + j) (frameOf x) ((v + k) % 4096)) →
          byteAt (m'.frames (frameOf x)) ((v + k) % 4096) = buffer.getD k 0 % 256) ∧
        (∀ f o, (∀ k, k < n → ¬ Cell m (frameOf phys) (v + k) f o) →
          byteAt (m'.frames f) o = byteAt (m.frames f) o) ∧
        (CellsApart m (frameOf phys) v n → (∀ b ∈ buffer, b < 256) →
          ∀ out : List Nat, out.length = n →
            task_manager_copy_memory m' phys v false out = some (m', buffer)) := by
  constructor
  · rintro out rfl
    obtain ⟨bytes, hlen, hbytes⟩ := h.bytes
    exact ⟨bytes, hlen, copy_memory_from hw hs out bytes htop h hlen hbytes, hbytes⟩
  · rintro buffer rfl hr
    have hsame := writeBytes_walks buffer hr
    refine ⟨_, copy_memory_to hw hs buffer htop hr, hsame, ?_, ?_, ?_⟩
    · intro k x hk hx hlast
      exact writeBytes_last buffer hr hk hx hlast
    · intro f o hno
      exact writeBytes_other buffer hr hno
    · intro ha hbytes out hlen
      have hslots : freeSlots (writeBytes m (frameOf phys) v buffer) = freeSlots m := by
        unfold freeSlots
        rw [hsame.slots]
      apply copy_memory_from (hsame.windows hw) (by rw [hslots]; exact hs) out buffer
      · rw [hlen]
        exact htop
      · rw [hlen]
        exact (hsame.reached hr).seen
      · exact hlen.symm
      · rw [hlen]
        exact fun k hk => ha.read_back hr hbytes hk

/-! ## The small machine -/

/-- The page behind the user's page of the small task is in the same frame. -/
def smallTwice : Machine := smallWaiting.setWord 5 2 0x6007

theorem small_twice_windows : Windows smallTwice :=
  windows_setFrame (small_deliverable (m := smallWaiting) rfl rfl (Or.inr rfl)).windows _ (by decide)
    (by decide)

theorem small_twice_entry {k : Nat} (hk : k < 4097) :
    smallTwice.entry 4 (0x1000 + k) = some 0x6007 := by
  by_cases h : k < 4096
  · rw [entry_same_page smallTwice 4 (show (0x1000 + k) / 4096 = 0x1000 / 4096 by omega)]
    decide
  · rw [entry_same_page smallTwice 4 (show (0x1000 + k) / 4096 = 0x2000 / 4096 by omega)]
    decide

theorem small_twice_reached : Reached smallTwice 4 0x1000 4097 := by
  intro k hk
  refine ⟨0x6007, small_twice_entry hk, by decide, by decide, by decide, by decide, ?_⟩
  intro j _ hp
  have hsame : smallTwice.frames 4 = smallMachine.frames 4 := rfl
  rw [hsame] at hp ⊢
  rcases small_directory_present hp with rfl | rfl | rfl | rfl | rfl <;> decide

/-- The last of the bytes stays where the first one was written. -/
theorem small_twice_last (bytes : List Nat) (hlen : bytes.length = 4097) :
    byteAt ((writeBytes smallTwice 4 0x1000 bytes).frames 6) 0 = bytes.getD 4096 0 % 256 := by
  have hr : Reached smallTwice 4 0x1000 bytes.length := by
    rw [hlen]
    exact small_twice_reached
  refine writeBytes_last (x := 0x6007) bytes hr (k := 4096) (by omega)
    (small_twice_entry (k := 4096) (by omega)) ?_
  intro j hj hj'
  omega

/-- A byte of the directory's own entry is not read back, and of two bytes for one place the last
one stays. -/
theorem tables_and_shared_frames_are_not_copied :
    (∃ m' out, Windows smallWaiting ∧ 0 < (freeSlots smallWaiting).card ∧
      Seen smallWaiting 4 0xFFFFFFFD 1 ∧
      task_manager_copy_memory smallWaiting 0x4000 0xFFFFFFFD true [0x70] = some (m', [0x70]) ∧
      task_manager_copy_memory m' 0x4000 0xFFFFFFFD false [0] = some (m', out) ∧ out ≠ [0x70]) ∧
    ∃ m', Windows smallTwice ∧ 0 < (freeSlots smallTwice).card ∧ Seen smallTwice 4 0x1000 4097 ∧
      task_manager_copy_memory smallTwice 0x4000 0x1000 true (List.replicate 4096 0 ++ [1]) =
        some (m', List.replicate 4096 0 ++ [1]) ∧
      smallTwice.entry 4 0x1000 = some 0x6007 ∧ byteAt (m'.frames 6) 0 = 1 := by
  have hw := (small_deliverable (m := smallWaiting) rfl rfl (Or.inr rfl)).windows
  constructor
  · have hwrite := copy_memory_to_page hw (by decide)
      (show smallWaiting.entry (frameOf 0x4000) 0xFFFFFFFD = some 0x4003 by decide) (by decide)
      (by decide) (by decide) (show 0xFFFFFFFD % 4096 + [0x70].length ≤ 4096 by decide)
    refine ⟨_, [0], hw, by decide, ?_, hwrite, ?_, by decide⟩
    · intro k hk
      obtain rfl : k = 0 := by omega
      exact ⟨0x4003, by decide, by decide, by decide⟩
    · have hafter := windows_setFrame hw (putBytes (smallWaiting.frames 4) (0xFFFFFFFD % 4096) [0x70])
        (show 4 ≠ smallWaiting.dir by decide) (by decide)
      apply copy_memory_from hafter (by decide) [0] [0] (by decide) ?_ rfl
      · intro k hk
        obtain rfl : k = 0 := by simpa using hk
        decide
      · intro k hk
        obtain rfl : k = 0 := by simpa using hk
        exact ⟨0x8003, by decide, by decide, by decide⟩
  · have hlen : (List.replicate 4096 0 ++ [1]).length = 4097 := by
      rw [List.length_append, List.length_replicate, List.length_singleton]
    have hr : Reached smallTwice (frameOf 0x4000) 0x1000 (List.replicate 4096 0 ++ [1]).length := by
      rw [hlen]
      exact small_twice_reached
    refine ⟨_, small_twice_windows, by decide, small_twice_reached.seen,
      copy_memory_to small_twice_windows (by decide) _ (by rw [hlen]; decide) hr,
      small_twice_entry (k := 0) (by omega), ?_⟩
    have hdir : frameOf 0x4000 = 4 := by decide
    rw [hdir, small_twice_last _ hlen, List.getD_append_right _ _ _ _ (by rw [List.length_replicate]),
      List.length_replicate]
    rfl

/-- Two bytes of the user's page of the small task, copied from and to it. -/
theorem two_bytes_of_the_small_task_are_copied :
    (∀ out : List Nat, out.length = 2 → ∃ bytes, bytes.length = 2 ∧
      task_manager_copy_memory smallWaiting 0x4000 0x1FFE false out = some (smallWaiting, bytes) ∧
      ∀ k, k < 2 → byteIn smallWaiting 4 (0x1FFE + k) = some (bytes.getD k 0)) ∧
    ∃ m', task_manager_copy_memory smallWaiting 0x4000 0x1FFE true [1, 2] = some (m', [1, 2]) ∧
      task_manager_copy_memory m' 0x4000 0x1FFE false [0, 0] = some (m', [1, 2]) := by
  have hw := (small_deliverable (m := smallWaiting) rfl rfl (Or.inr rfl)).windows
  have hentry : ∀ k, k < 2 → smallWaiting.entry 4 (0x1FFE + k) = some 0x6007 := by decide
  have hr : Reached smallWaiting (frameOf 0x4000) 0x1FFE 2 := by
    intro k hk
    exact ⟨0x6007, hentry k hk, by decide,
      small_plain (m := smallWaiting) rfl (Or.inr rfl) (Or.inl (by decide))⟩
  have hcells : CellsApart smallWaiting (frameOf 0x4000) 0x1FFE 2 := by
    rintro j k f o hjk hk ⟨-, -, -, hj⟩ ⟨-, -, -, hk'⟩
    omega
  obtain ⟨hread, hwrite⟩ := a_copy_is_made_byte_by_byte hw (by decide) (by decide) hr.seen
  obtain ⟨m', hto, -, -, -, hback⟩ := hwrite [1, 2] rfl hr
  exact ⟨hread, m', hto, hback hcells (by decide) [0, 0] rfl⟩

end alura_os.task_manager
