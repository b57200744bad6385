-- Bytes of an address space, written in place or from another address space.
-- Over pages that are there, and that are no page tables, `memcpy` and
-- `task_manager_copy_memory` write the same bytes to the same frames and leave
-- everything else alone.
import AluraOs.Lookups
import AluraOs.UserMemory
import AluraOs.LoadImage

namespace alura_os.task_manager

open alura_os.memory alura_os.memory_bitmap alura_os.memory_paging Machine
open alura_os.elf_executable (entry_same_page)

/-! ## Bytes of an address space -/

/-- The byte at `a` in the directory frame `d`. -/
def byteIn (m : Machine) (d a : Nat) : Option Nat :=
  (m.entry d a).map fun x => byteAt (m.frames (frameOf x)) (a % 4096)

/-- The byte `o` of the frame `f` is the one at `a`. -/
def Cell (m : Machine) (d a f o : Nat) : Prop :=
  ∃ x, m.entry d a = some x ∧ frameOf x = f ∧ a % 4096 = o

/-- A byte written at `a` in the directory frame `d`. -/
def putAt (m : Machine) (d a b : Nat) : Machine :=
  match m.entry d a with
  | some x => m.setFrame (frameOf x) (putByte (m.frames (frameOf x)) (a % 4096) b)
  | none => m

/-- Bytes written from `a` on. -/
def writeBytes (m : Machine) (d a : Nat) : List Nat → Machine
  | [] => m
  | b :: bs => writeBytes (putAt m d a b) d (a + 1) bs

/-- The frame `f` is no directory and no table that a walk in `d` or a window reads. -/
structure Plain (m : Machine) (d f : Nat) : Prop where
  ne_current : f ≠ m.dir
  ne_bounce : f ≠ m.bounceTable
  ne_dir : f ≠ d
  ne_table : ∀ j, j < 1024 → present (m.frames d j) = true → f ≠ frameOf (m.frames d j)

/-- Every byte of the range is on a page of `d` that is there, in a plain frame. No page is in
frame 0, which the lookup takes for a page that is not there. -/
def Reached (m : Machine) (d a n : Nat) : Prop :=
  ∀ k, k < n → ∃ x, m.entry d (a + k) = some x ∧ frameOf x ≠ 0 ∧ Plain m d (frameOf x)

/-- Every byte of the range is on a page of `d` that is there, in a frame other than those of the
null page and of the bounce pages' table. -/
def Seen (m : Machine) (d a n : Nat) : Prop :=
  ∀ k, k < n → ∃ x, m.entry d (a + k) = some x ∧ frameOf x ≠ 0 ∧ frameOf x ≠ m.bounceTable

section bytes

variable {m : Machine} {d : Nat}

theorem Reached.seen {a n : Nat} (h : Reached m d a n) : Seen m d a n := by
  intro k hk
  obtain ⟨x, hx, h0, hp⟩ := h k hk
  exact ⟨x, hx, h0, hp.ne_bounce⟩

theorem Seen.part {a n c k : Nat} (h : Seen m d a n) (hk : c + k ≤ n) : Seen m d (a + c) k := by
  intro j hj
  rw [Nat.add_assoc]
  exact h (c + j) (by omega)

/-- A plain frame may change without any walk seeing it. -/
theorem Plain.entry {f : Nat} (h : Plain m d f) (w : Nat → Nat) (a : Nat) :
    (m.setFrame f w).entry d a = m.entry d a := by
  unfold Machine.entry
  simp only
  rw [setFrame_apply, if_neg h.ne_dir.symm]
  by_cases hp : present (m.frames d (page_directory_index a)) = true
  · rw [setFrame_apply, if_neg (h.ne_table (page_directory_index a) (Nat.mod_lt _ (by decide)) hp).symm]
  · simp [hp]

theorem Plain.setFrame {f g : Nat} (h : Plain m d f) (hg : Plain m d g) (w : Nat → Nat) :
    Plain (m.setFrame g w) d f := by
  refine ⟨h.ne_current, ?_, h.ne_dir, ?_⟩
  · rw [bounceTable_setFrame w hg.ne_current]
    exact h.ne_bounce
  · rw [setFrame_apply, if_neg hg.ne_dir.symm]
    exact h.ne_table

/-- A part of a reached range is reached. -/
theorem Reached.part {a n c k : Nat} (h : Reached m d a n) (hk : c + k ≤ n) :
    Reached m d (a + c) k := by
  intro j hj
  obtain ⟨x, hx, h0, hp⟩ := h (c + j) (by omega)
  exact ⟨x, by rw [Nat.add_assoc]; exact hx, h0, hp⟩

theorem putAt_eq {a b x : Nat} (hx : m.entry d a = some x) :
    putAt m d a b = m.setFrame (frameOf x) (putByte (m.frames (frameOf x)) (a % 4096) b) := by
  unfold putAt
  rw [hx]

/-! ## What a write keeps -/

/-- What a write to plain frames keeps of a machine. -/
structure SameWalks (m m' : Machine) (d : Nat) : Prop where
  cr3 : m'.cr3 = m.cr3
  slots : m'.bounce_pages_used = m.bounce_pages_used
  bitmap : m'.memory_bitmap = m.memory_bitmap
  entries : ∀ a, m'.entry d a = m.entry d a
  windows : Windows m → Windows m'
  plain : ∀ f, Plain m d f → Plain m' d f

theorem SameWalks.refl (m : Machine) (d : Nat) : SameWalks m m d :=
  ⟨rfl, rfl, rfl, fun _ => rfl, id, fun _ => id⟩

theorem SameWalks.trans {m1 m2 : Machine} (h : SameWalks m m1 d) (h' : SameWalks m1 m2 d) :
    SameWalks m m2 d :=
  ⟨h'.cr3.trans h.cr3, h'.slots.trans h.slots, h'.bitmap.trans h.bitmap,
    fun a => (h'.entries a).trans (h.entries a), fun hw => h'.windows (h.windows hw),
    fun f hf => h'.plain f (h.plain f hf)⟩

theorem SameWalks.reached {m' : Machine} (h : SameWalks m m' d) {a n : Nat} (hr : Reached m d a n) :
    Reached m' d a n := by
  intro k hk
  obtain ⟨x, hx, h0, hp⟩ := hr k hk
  exact ⟨x, (h.entries _).trans hx, h0, h.plain _ hp⟩

theorem SameWalks.cell {m' : Machine} (h : SameWalks m m' d) (a f o : Nat) :
    Cell m' d a f o ↔ Cell m d a f o := by
  unfold Cell
  rw [h.entries]

theorem Plain.same_walks {f : Nat} (h : Plain m d f) (w : Nat → Nat) :
    SameWalks m (m.setFrame f w) d :=
  ⟨rfl, rfl, rfl, h.entry w, fun hw => windows_setFrame hw w h.ne_current h.ne_bounce,
    fun _ hg => hg.setFrame h w⟩

/-- One byte of a reached range is written, and the rest is reached as before. -/
theorem Reached.step {a n : Nat} (h : Reached m d a (n + 1)) (b : Nat) :
    ∃ x, m.entry d a = some x ∧ SameWalks m (putAt m d a b) d ∧
      Reached (putAt m d a b) d (a + 1) n := by
  obtain ⟨x, hx, -, hp⟩ := h 0 (by omega)
  have hstep := hp.same_walks (putByte (m.frames (frameOf x)) (a % 4096) b)
  rw [Nat.add_zero] at hx
  rw [← putAt_eq hx] at hstep
  exact ⟨x, hx, hstep, hstep.reached (h.part (by omega))⟩

theorem writeBytes_walks {a : Nat} (bytes : List Nat) (h : Reached m d a bytes.length) :
    SameWalks m (writeBytes m d a bytes) d := by
  induction bytes generalizing m a with
  | nil => exact SameWalks.refl m d
  | cons b bs ih =>
    obtain ⟨x, hx, hstep, hrest⟩ := h.step b
    unfold writeBytes
    exact hstep.trans (ih hrest)

/-! ## What a write changes -/

theorem byteAt_putAt {a b x : Nat} (hx : m.entry d a = some x) (f o : Nat) :
    byteAt ((putAt m d a b).frames f) o =
      if frameOf x = f ∧ a % 4096 = o then b % 256 else byteAt (m.frames f) o := by
  rw [putAt_eq hx, setFrame_apply]
  by_cases hf : f = frameOf x
  · subst hf
    rw [if_pos rfl, byteAt_putByte]
    by_cases ho : o = a % 4096
    · simp [ho]
    · rw [if_neg ho, if_neg (fun hc => ho hc.2.symm)]
  · rw [if_neg hf, if_neg (fun hc => hf hc.1.symm)]

/-- A byte of a frame that no address of the range leads to stays. -/
theorem writeBytes_other {a f o : Nat} (bytes : List Nat) (h : Reached m d a bytes.length)
    (hno : ∀ k, k < bytes.length → ¬ Cell m d (a + k) f o) :
    byteAt ((writeBytes m d a bytes).frames f) o = byteAt (m.frames f) o := by
  induction bytes generalizing m a with
  | nil => rfl
  | cons b bs ih =>
    obtain ⟨x, hx, hstep, hrest⟩ := h.step b
    rw [List.length_cons] at hno
    have hfirst : ¬ (frameOf x = f ∧ a % 4096 = o) := fun hc => hno 0 (by omega) ⟨x, hx, hc⟩
    unfold writeBytes
    rw [ih hrest, byteAt_putAt hx, if_neg hfirst]
    intro k hk hc
    rw [hstep.cell, Nat.add_assoc, Nat.add_comm 1] at hc
    exact hno (k + 1) (by omega) hc

/-- An address that leads to no byte of the range reads as before. -/
theorem byteIn_other {a c : Nat} (bytes : List Nat) (h : Reached m d a bytes.length)
    (hno : ∀ k x y, k < bytes.length → m.entry d c = some x → m.entry d (a + k) = some y →
      frameOf x = frameOf y → c % 4096 ≠ (a + k) % 4096) :
    byteIn (writeBytes m d a bytes) d c = byteIn m d c := by
  unfold byteIn
  rw [(writeBytes_walks bytes h).entries]
  cases hc : m.entry d c with
  | none => rfl
  | some x =>
    apply congrArg some
    apply writeBytes_other bytes h
    rintro k hk ⟨y, hy, hf, ho⟩
    exact hno k x y hk hc hy hf.symm ho.symm

/-- A byte of the range is written, when no later one goes to the same place. -/
theorem writeBytes_last {a x : Nat} (bytes : List Nat) (h : Reached m d a bytes.length) {k : Nat}
    (hk : k < bytes.length) (hx : m.entry d (a + k) = some x)
    (hlast : ∀ j, k < j → j < bytes.length → ¬ Cell m d (a + j) (frameOf x) ((a + k) % 4096)) :
    byteAt ((writeBytes m d a bytes).frames (frameOf x)) ((a + k) % 4096) =
      bytes.getD k 0 % 256 := by
  induction bytes generalizing m a k with
  | nil => simp at hk
  | cons b bs ih =>
    obtain ⟨y, hy, hstep, hrest⟩ := h.step b
    rw [List.length_cons] at hk hlast
    unfold writeBytes
    cases k with
    | zero =>
      have hyx : y = x := Option.some.inj (hy.symm.trans hx)
      subst hyx
      rw [writeBytes_other bs hrest]
      · rw [byteAt_putAt hy]
        simp
      · intro j hj hc
        rw [hstep.cell, Nat.add_assoc, Nat.add_comm 1] at hc
        exact hlast (j + 1) (by omega) (by omega) hc
    | succ k =>
      have hnext : ∀ j, a + 1 + j = a + (j + 1) := fun j => by omega
      have hx1 : (putAt m d a b).entry d (a + 1 + k) = some x := by
        rw [hstep.entries, hnext]
        exact hx
      have hlater := ih hrest (by omega) hx1 (by
        intro j hkj hj hc
        rw [hstep.cell, hnext, hnext] at hc
        exact hlast (j + 1) (by omega) (by omega) hc)
      rw [hnext] at hlater
      exact hlater

/-- On at most one page's worth of bytes, every byte is written. -/
theorem writeBytes_at {a x : Nat} (bytes : List Nat) (h : Reached m d a bytes.length)
    (hlen : bytes.length ≤ 4096) {k : Nat} (hk : k < bytes.length) (hx : m.entry d (a + k) = some x) :
    byteAt ((writeBytes m d a bytes).frames (frameOf x)) ((a + k) % 4096) =
      bytes.getD k 0 % 256 := by
  apply writeBytes_last bytes h hk hx
  rintro j hkj hj ⟨-, -, -, hoff⟩
  omega

/-! ## Writes piece by piece -/

theorem writeBytes_append (bytes rest : List Nat) (a : Nat) :
    writeBytes m d a (bytes ++ rest) =
      writeBytes (writeBytes m d a bytes) d (a + bytes.length) rest := by
  induction bytes generalizing m a with
  | nil => rfl
  | cons b bs ih =>
    have hlater := ih (m := putAt m d a b) (a + 1)
    rw [show a + 1 + bs.length = a + (bs.length + 1) by omega] at hlater
    exact hlater

/-- On one page, byte after byte is one write to the frame. -/
theorem writeBytes_page {a x : Nat} (hx : m.entry d a = some x) (hp : Plain m d (frameOf x))
    (bytes : List Nat) (hlen : a % 4096 + bytes.length ≤ 4096) :
    writeBytes m d a bytes =
      m.setFrame (frameOf x) (putBytes (m.frames (frameOf x)) (a % 4096) bytes) := by
  induction bytes generalizing m a with
  | nil =>
    unfold writeBytes putBytes
    rw [setFrame_self]
  | cons b bs ih =>
    rw [List.length_cons] at hlen
    unfold writeBytes
    rw [putAt_eq hx]
    cases bs with
    | nil => rfl
    | cons c cs =>
      rw [List.length_cons] at hlen
      have hx1 : (m.setFrame (frameOf x) (putByte (m.frames (frameOf x)) (a % 4096) b)).entry d
          (a + 1) = some x := by
        rw [hp.entry, entry_same_page m d (show (a + 1) / 4096 = a / 4096 by omega)]
        exact hx
      rw [ih hx1 (hp.setFrame hp _) (by rw [List.length_cons]; omega), setFrame_setFrame,
        setFrame_apply, if_pos rfl, show (a + 1) % 4096 = a % 4096 + 1 by omega]
      rfl

end bytes

/-! ## The copies of the source -/

section copies

variable {m : Machine}

theorem store8_put {a b x : Nat} (hx : m.entry m.dir a = some x) :
    m.store8 a b = some (putAt m m.dir a b) := by
  obtain ⟨hpde, hpte, hval⟩ := entry_eq_some.mp hx
  have htr : m.translate a = some (frameOf x) := by
    unfold Machine.translate
    simp only [hpde, hval, hval ▸ hpte, and_self, if_true]
  have hbyte : a % 4096 % 4 = a % 4 := by omega
  unfold Machine.store8
  rw [htr, putAt_eq hx, Option.map_some]
  unfold Machine.setWord putByte
  rw [hbyte]

/-- `memcpy` to pages of the current directory writes the bytes. -/
theorem memcpy_to_current {a : Nat} (bytes : List Nat) (h : Reached m m.dir a bytes.length)
    (hlt : a + bytes.length ≤ 0x100000000) :
    memcpy_to m a bytes = some (writeBytes m m.dir a bytes) := by
  induction bytes generalizing m a with
  | nil => rfl
  | cons b bs ih =>
    rw [List.length_cons] at hlt
    obtain ⟨x, hx, hstep, hrest⟩ := h.step b
    have hdir : (putAt m m.dir a b).dir = m.dir := congrArg frameOf hstep.cr3
    unfold memcpy_to writeBytes
    simp only [Option.bind_eq_bind, store8_put hx, Option.bind_some]
    cases bs with
    | nil => rfl
    | cons c cs =>
      rw [List.length_cons] at hlt
      rw [u32_of_lt (by omega), ih (by rw [hdir]; exact hrest) (by rw [List.length_cons]; omega), hdir]

/-- The chunk that ends at the page or at the buffer. -/
theorem chunk_facts {physical v len : Nat} (ho : physical % 4096 = v % 4096) (hlen : 0 < len) :
    ∃ c, min (PAGE_SIZE - (physical - ALIGN_DOWN physical)) len = c ∧ 0 < c ∧ c ≤ len ∧
      v % 4096 + c ≤ 4096 ∧ physical - ALIGN_DOWN physical = v % 4096 := by
  refine ⟨_, rfl, ?_⟩
  unfold PAGE_SIZE ALIGN_DOWN
  omega

theorem frame_of_found {x v : Nat} (hx : frameOf x ≠ 0) :
    ALIGN_DOWN x + v % 4096 ≠ 0 ∧ (ALIGN_DOWN x + v % 4096) % 4096 = v % 4096 ∧
      frameOf (ALIGN_DOWN (ALIGN_DOWN x + v % 4096)) = frameOf x := by
  unfold frameOf at *
  unfold ALIGN_DOWN
  omega

theorem copy_memory_nil (phys v : Nat) (to_target : Bool) :
    task_manager_copy_memory m phys v to_target [] = some (m, []) := by
  unfold task_manager_copy_memory
  rfl

/-- One turn of the loop of `task_manager_copy_memory`, on a page that is there: the chunk goes
through a bounce page, and the rest follows. -/
theorem copy_memory_turn (hw : Windows m) (hs : 0 < (freeSlots m).card) {phys v x b c i : Nat}
    {bs : List Nat} (to_target : Bool) (hi : bounce_free_slot m = some i)
    (hx : m.entry (frameOf phys) v = some x) (hx0 : frameOf x ≠ 0)
    (hc : min (PAGE_SIZE - v % 4096) (b :: bs).length = c) {m1 m2 : Machine} {head : List Nat}
    (hcopy : copy_chunk (m.openSlot i (frameOf x)) (u32 (slotAddr i + v % 4096)) to_target
      ((b :: bs).take c) = some (m1, head))
    (hfree : bounce_free m1 (slotAddr i) = some m2) :
    task_manager_copy_memory m phys v to_target (b :: bs) =
      (task_manager_copy_memory m2 phys (u32 (v + c)) to_target ((b :: bs).drop c)).map
        fun r => (r.1, head ++ r.2) := by
  obtain ⟨hne, hoff, hfr⟩ := frame_of_found (v := v) hx0
  obtain ⟨c', hc', -, -, -, hpo⟩ := chunk_facts hoff (show 0 < (b :: bs).length by simp)
  rw [hpo, hc] at hc'
  subst hc'
  rw [task_manager_copy_memory]
  simp only [virtual_to_physical_found hw hs hx, Option.bind_eq_bind, Option.bind_some, hne,
    if_false, hpo, hc, bounce_alloc_spec hw hi, hfr, hcopy, hfree]
  cases task_manager_copy_memory m2 phys (u32 (v + c)) to_target ((b :: bs).drop c) <;> rfl

/-- The chunk of a turn: not empty, and on one page. -/
theorem chunk_spec (v : Nat) (b : Nat) (bs : List Nat) :
    ∃ c, min (PAGE_SIZE - v % 4096) (b :: bs).length = c ∧ 0 < c ∧ c ≤ (b :: bs).length ∧
      v % 4096 + c ≤ 4096 ∧ ((b :: bs).take c).length = c ∧
      ((b :: bs).drop c).length = (b :: bs).length - c := by
  refine ⟨_, rfl, ?_, ?_, ?_, ?_, List.length_drop⟩
  all_goals
    simp only [List.length_take, List.length_cons]
    unfold PAGE_SIZE
    omega

/-- The address of the next turn, which matters only while bytes are left. -/
theorem next_turn (phys : Nat) (to_target : Bool) {v c : Nat} (rest : List Nat)
    (h : v + c + rest.length ≤ 0x100000000) :
    task_manager_copy_memory m phys (u32 (v + c)) to_target rest =
      task_manager_copy_memory m phys (v + c) to_target rest := by
  cases rest with
  | nil => rw [copy_memory_nil, copy_memory_nil]
  | cons b bs =>
    rw [List.length_cons] at h
    rw [u32_of_lt (by omega)]

/-- `task_manager_copy_memory` to pages that are there writes the bytes of the buffer. -/
theorem copy_memory_to (hw : Windows m) (hs : 0 < (freeSlots m).card) {phys v : Nat}
    (buffer : List Nat) (htop : v + buffer.length ≤ 0x100000000)
    (h : Reached m (frameOf phys) v buffer.length) :
    task_manager_copy_memory m phys v true buffer =
      some (writeBytes m (frameOf phys) v buffer, buffer) := by
  obtain ⟨n, hn⟩ : ∃ n, buffer.length = n := ⟨_, rfl⟩
  induction n using Nat.strong_induction_on generalizing m v buffer with
  | _ n ih =>
    cases buffer with
    | nil => exact copy_memory_nil _ _ _
    | cons b bs =>
      obtain ⟨x, hx, hx0, hp⟩ := h 0 (by simp)
      rw [Nat.add_zero] at hx
      obtain ⟨i, hi⟩ := free_slot_of_card hs
      obtain ⟨c, hc, hc0, hcl, hpage, htake, hdrop⟩ := chunk_spec v b bs
      obtain ⟨m1, hcopy, hfree⟩ := bytes_through_slot hw hi ((b :: bs).take c)
        (Nat.mod_lt v (by decide)) (by rw [htake]; exact hpage) hp.ne_bounce hp.ne_current
      rw [← writeBytes_page hx hp _ (by rw [htake]; exact hpage)] at hfree
      have hchunk : copy_chunk (m.openSlot i (frameOf x)) (u32 (slotAddr i + v % 4096)) true
          ((b :: bs).take c) = some (m1, (b :: bs).take c) := by
        unfold copy_chunk
        simp [hcopy]
      have hreach : Reached m (frameOf phys) v ((b :: bs).take c).length := by
        rw [htake]
        exact h.part (c := 0) (by omega)
      have hsame := writeBytes_walks _ hreach
      have hslots : freeSlots (writeBytes m (frameOf phys) v ((b :: bs).take c)) = freeSlots m := by
        unfold freeSlots
        rw [hsame.slots]
      rw [copy_memory_turn hw hs true hi hx hx0 hc hchunk hfree,
        next_turn _ _ _ (by rw [hdrop]; omega),
        ih _ (by omega) (hsame.windows hw) (by rw [hslots]; exact hs) ((b :: bs).drop c)
          (by rw [hdrop]; omega) (hsame.reached (by rw [hdrop]; exact h.part (by omega))) hdrop,
        Option.map_some, List.take_append_drop]
      congr 2
      have happ := writeBytes_append (m := m) (d := frameOf phys) ((b :: bs).take c)
        ((b :: bs).drop c) v
      rw [List.take_append_drop, htake] at happ
      exact happ.symm

/-- `task_manager_copy_memory` from pages that are there reads their bytes and changes nothing. -/
theorem copy_memory_from (hw : Windows m) (hs : 0 < (freeSlots m).card) {phys v : Nat}
    (buffer bytes : List Nat) (htop : v + buffer.length ≤ 0x100000000)
    (h : Seen m (frameOf phys) v buffer.length) (hlen : bytes.length = buffer.length)
    (hbytes : ∀ k, k < buffer.length → byteIn m (frameOf phys) (v + k) = some (bytes.getD k 0)) :
    task_manager_copy_memory m phys v false buffer = some (m, bytes) := by
  obtain ⟨n, hn⟩ : ∃ n, buffer.length = n := ⟨_, rfl⟩
  induction n using Nat.strong_induction_on generalizing v buffer bytes with
  | _ n ih =>
    cases buffer with
    | nil =>
      rw [copy_memory_nil, List.length_eq_zero_iff.mp hlen]
    | cons b bs =>
      obtain ⟨x, hx, hx0, hp⟩ := h 0 (by simp)
      rw [Nat.add_zero] at hx
      obtain ⟨i, hi⟩ := free_slot_of_card hs
      obtain ⟨c, hc, hc0, hcl, hpage, htake, hdrop⟩ := chunk_spec v b bs
      obtain ⟨head, hcopy, hhead, hat, hfree⟩ := read_through_slot hw hi (g := frameOf x)
        (Nat.mod_lt v (by decide)) hpage
      have hchunk : copy_chunk (m.openSlot i (frameOf x)) (u32 (slotAddr i + v % 4096)) false
          ((b :: bs).take c) = some (m.openSlot i (frameOf x), head) := by
        unfold copy_chunk
        rw [htake, hcopy]
        rfl
      have hsame : head = bytes.take c := by
        apply List.ext_getElem
        · rw [hhead, List.length_take]
          omega
        · intro k hk hk'
          rw [hhead] at hk
          have hentry : m.entry (frameOf phys) (v + k) = some x := by
            rw [entry_same_page m _ (show (v + k) / 4096 = v / 4096 by omega)]
            exact hx
          have hbyte := hbytes k (by omega)
          unfold byteIn at hbyte
          rw [hentry, Option.map_some, Option.some_inj, List.getD_eq_getElem _ _ (by omega)] at hbyte
          simp only [hat hp, List.getElem_map, List.getElem_range', List.getElem_take]
          rw [← hbyte]
          congr 1
          omega
      rw [copy_memory_turn hw hs false hi hx hx0 hc hchunk hfree,
        next_turn _ _ _ (by rw [hdrop]; omega),
        ih _ (by omega) ((b :: bs).drop c) (bytes.drop c) (by rw [hdrop]; omega)
          (by rw [hdrop]; exact h.part (by omega)) (by rw [List.length_drop, hdrop, hlen]) ?_ hdrop,
        Option.map_some, hsame, List.take_append_drop]
      intro k hk
      rw [hdrop] at hk
      have hbyte := hbytes (c + k) (by omega)
      rw [Nat.add_assoc, hbyte]
      simp [List.getD_eq_getElem?_getD, List.getElem?_drop]

end copies

end alura_os.task_manager
