-- The arguments of a new program, on the page where its stack begins: what
-- `task_manager_build_arguments_on_stack` writes there, `crt0` reads back.
import AluraOs.ForkLaws
import AluraOs.LoadSteps

namespace alura_os.elf_executable

open alura_os.memory alura_os.memory_bitmap alura_os.memory_paging alura_os.task_manager Machine
open task_manager_result_t

/-! ## The words and bytes of the page -/

/-- The pushed words stand from the top down, the other words stay. -/
theorem pushWords_apply (w : Nat → Nat) (ws : List Nat) (k j : Nat) (hws : ws.length ≤ k) :
    pushWords w k ws j = if k - ws.length ≤ j ∧ j < k then ws.getD (k - 1 - j) 0 else w j := by
  induction ws generalizing w k with
  | nil =>
    unfold pushWords
    rw [if_neg (by simp only [List.length_nil]; omega)]
  | cons x xs ih =>
    rw [List.length_cons] at hws ⊢
    unfold pushWords
    rw [ih _ _ (by omega)]
    by_cases hj : j = k - 1
    · subst hj
      rw [if_neg (by omega), if_pos (by omega), Function.update_self]
      simp
    · rw [Function.update_of_ne hj]
      by_cases hin : k - (xs.length + 1) ≤ j ∧ j < k
      · rw [if_pos (by omega), if_pos hin, show k - 1 - j = k - 1 - 1 - j + 1 by omega,
          List.getD_cons_succ]
      · rw [if_neg (by omega), if_neg hin]

/-- The string `s` with its end stands at byte `p` of the page, between `lo` and `hi`. -/
structure Placed (w : Nat → Nat) (lo hi : Nat) (s : List Nat) (p : Nat) : Prop where
  low : lo ≤ p
  high : p + s.length < hi
  bytes : ∀ j, j ≤ s.length → byteAt w (p + j) = (s ++ [0]).getD j 0 % 256

theorem Placed.widen {w : Nat → Nat} {lo hi hi' p : Nat} {s : List Nat} (h : Placed w lo hi s p)
    (hh : hi ≤ hi') : Placed w lo hi' s p :=
  ⟨h.low, by have := h.high; omega, h.bytes⟩

/-- The string loop puts every string on the page, one below the other. -/
theorem push_strings_placed {m : Machine} {v t f : Nat} (h : Via m v t f) (hv : v % 4096 = 0)
    (hlt : v + 4096 < 0x100000000) (hd : f ≠ m.dir) (ht : f ≠ t) (argv : List (List Nat)) (k : Nat)
    (hk : k ≤ 4096) (hs : stringBytes argv ≤ k) :
    ∃ w offsets, push_strings v argv (v + k) m =
        some (m.setFrame f w, v + (k - stringBytes argv),
          offsets.map fun p => USER_STACK_TOP - PAGE_SIZE + p) ∧
      List.Forall₂ (Placed w (k - stringBytes argv) k) argv offsets ∧
      ∀ j, k ≤ j → byteAt w j = byteAt (m.frames f) j := by
  induction argv generalizing m k with
  | nil =>
    refine ⟨m.frames f, [], ?_, List.Forall₂.nil, fun j _ => rfl⟩
    unfold push_strings stringBytes
    rw [setFrame_self]
    simp
  | cons s rest ih =>
    have hsum : stringBytes (s :: rest) = s.length + 1 + stringBytes rest := by
      unfold stringBytes
      simp
    rw [hsum] at hs ⊢
    obtain ⟨k', hk'⟩ : ∃ k', k - (s.length + 1) = k' := ⟨_, rfl⟩
    have hcur : sub32 (v + k) (s.length + 1) = v + k' := by
      rw [sub32_of_le (by omega) (by omega)]
      omega
    have haddr : u32 (USER_STACK_TOP - PAGE_SIZE + sub32 (v + k') v) =
        USER_STACK_TOP - PAGE_SIZE + k' := by
      rw [sub32_of_le (by omega) (by omega), Nat.add_sub_cancel_left]
      unfold USER_STACK_TOP PAGE_SIZE
      exact u32_of_lt (by omega)
    have hlen : (s ++ [0]).length = s.length + 1 := by simp
    have hcopy := memcpy_to_via h hv hlt hd ht (s ++ [0]) k' (by omega)
    obtain ⟨w, offsets, hrest, hplaced, hsame⟩ := ih (via_setFrame h
      (w := putBytes (m.frames f) k' (s ++ [0])) hd ht) hd k' (by omega) (by omega)
    rw [setFrame_setFrame] at hrest
    rw [show k - (s.length + 1 + stringBytes rest) = k' - stringBytes rest by omega]
    -- The strings below leave the bytes from `k'` on alone.
    have hbyte : ∀ j, k' ≤ j → byteAt w j = byteAt (putBytes (m.frames f) k' (s ++ [0])) j := by
      intro j hj
      rw [hsame j hj, setFrame_apply, if_pos rfl]
    refine ⟨w, k' :: offsets, ?_, List.Forall₂.cons ⟨by omega, by omega, ?_⟩ ?_, ?_⟩
    · unfold push_strings
      simp only [hcur, hcopy, hrest, haddr, Option.bind_eq_bind, Option.bind_some]
      rfl
    · intro j hj
      rw [hbyte _ (by omega), byteAt_putBytes, if_pos (by omega), Nat.add_sub_cancel_left]
    · exact hplaced.imp fun _ _ hp => hp.widen (by omega)
    · intro j hj
      rw [hbyte _ (by omega), byteAt_putBytes, if_neg (by omega)]

/-! ## The block -/

/-- The cursor at the aligned end of the strings, and the words of the vector. -/
def blockWords (argv : List (List Nat)) : Nat := (4096 - stringBytes argv) / 4

/-- The strings, the vector of their addresses and their count fit into the page. -/
def ArgumentsFit (argv : List (List Nat)) : Prop :=
  stringBytes argv ≤ PAGE_SIZE ∧ 4 + 4 * (argv.length + 1) ≤ 4 * blockWords argv

instance (argv : List (List Nat)) : Decidable (ArgumentsFit argv) :=
  inferInstanceAs (Decidable (_ ∧ _))

/-- The user stack pointer of a block that fits. -/
def blockAddress (argv : List (List Nat)) : Nat :=
  USER_STACK_TOP - PAGE_SIZE + 4 * (blockWords argv - (argv.length + 2))

/-- The page holds the block: the count, the addresses of the strings, a `NULL`, and above
them the strings. -/
structure Block (w : Nat → Nat) (argv : List (List Nat)) : Prop where
  argc : w (blockWords argv - (argv.length + 2)) = argv.length
  strings : ∀ i, (hi : i < argv.length) → ∃ p, Placed w (4 * blockWords argv) 4096 argv[i] p ∧
    w (blockWords argv - (argv.length + 2) + 1 + i) = USER_STACK_TOP - PAGE_SIZE + p
  null : w (blockWords argv - (argv.length + 2) + 1 + argv.length) = 0

/-- The block that the vector completes. -/
theorem block_of_placed {w : Nat → Nat} {argv : List (List Nat)} {offsets : List Nat}
    (hfit : ArgumentsFit argv)
    (hplaced : List.Forall₂ (Placed w (4096 - stringBytes argv) 4096) argv.reverse offsets) :
    Block (pushWords w (blockWords argv)
      (0 :: (offsets.map fun p => USER_STACK_TOP - PAGE_SIZE + p) ++ [argv.length])) argv := by
  obtain ⟨hT, hroom⟩ := hfit
  obtain ⟨n, hn⟩ : ∃ n, argv.length = n := ⟨_, rfl⟩
  obtain ⟨k, hk⟩ : ∃ k, blockWords argv = k := ⟨_, rfl⟩
  have hlen : offsets.length = n := by
    rw [← hplaced.length_eq, List.length_reverse, hn]
  rw [hn, hk] at hroom
  have hcur : 4 * k ≤ 4096 - stringBytes argv := by
    rw [← hk]
    unfold blockWords
    omega
  obtain ⟨ws, hws⟩ : ∃ ws, (0 :: (offsets.map fun p => USER_STACK_TOP - PAGE_SIZE + p) ++ [n]) = ws :=
    ⟨_, rfl⟩
  have hwsl : ws.length = n + 2 := by
    rw [← hws]
    simp [hlen]
  have hword : ∀ j, j < n + 2 → pushWords w k ws (k - (n + 2) + j) = ws.getD (n + 1 - j) 0 := by
    intro j hj
    rw [pushWords_apply _ _ _ _ (by omega), if_pos (by omega)]
    congr 1
    omega
  -- The bytes of the strings lie above the words of the vector.
  have hbyte : ∀ j, 4 * k ≤ j → byteAt (pushWords w k ws) j = byteAt w j := by
    intro j hj
    unfold byteAt
    rw [pushWords_apply _ _ _ _ (by omega), if_neg (by omega)]
  rw [hn, hws, hk]
  refine ⟨?_, ?_, ?_⟩
  · rw [hk, hn]
    have hlast := hword 0 (by omega)
    rw [Nat.add_zero] at hlast
    rw [hlast, ← hws]
    simp [hlen]
  · intro i hi
    rw [hn] at hi
    have hri : n - 1 - i < argv.reverse.length := by
      rw [List.length_reverse, hn]
      omega
    have hoi : n - 1 - i < offsets.length := by omega
    have hp := List.Forall₂.get hplaced hri hoi
    have hrev : argv.reverse.get ⟨n - 1 - i, hri⟩ = argv[i] := by
      rw [List.get_eq_getElem, List.getElem_reverse]
      congr 1
      simp only [hn]
      omega
    rw [hrev] at hp
    refine ⟨_, ⟨?_, hp.high, fun j hj => ?_⟩, ?_⟩
    · rw [hk]
      exact hcur.trans hp.low
    · have := hp.low
      rw [hbyte _ (by omega)]
      exact hp.bytes j hj
    · rw [hk, hn]
      have hat := hword (1 + i) (by omega)
      rw [← Nat.add_assoc] at hat
      rw [hat, ← hws, show n + 1 - (1 + i) = n - 1 - i + 1 by omega, List.cons_append,
        List.getD_cons_succ, List.getD_append _ _ _ _ (by rw [List.length_map]; exact hoi)]
      simp [hoi]
  · rw [hk, hn]
    have hnull := hword (n + 1) (by omega)
    rw [show k - (n + 2) + 1 + n = k - (n + 2) + (n + 1) by omega, hnull, ← hws]
    simp

/-- Arguments that fit are put on the page as one block; others on a page that they do not
leave are refused. -/
theorem build_arguments_eq {m : Machine} (h : Windows m) (hs : 0 < (freeSlots m).card) {f : Nat}
    (hB : f ≠ m.bounceTable) (hD : f ≠ m.dir) {argv : List (List Nat)}
    (hargc : argv.length ≤ TASK_MAX_ARGUMENTS) (hbytes : stringBytes argv ≤ PAGE_SIZE) :
    ∃ w, task_manager_build_arguments_on_stack m (f * 4096) argv =
        some (m.setFrame f w,
          if ArgumentsFit argv then TASK_MANAGER_RESULT_OK else TASK_MANAGER_RESULT_ARGS_TOO_LARGE,
          if ArgumentsFit argv then blockAddress argv else 0) ∧
      (ArgumentsFit argv → Block w argv) := by
  have hbytes' := hbytes
  unfold PAGE_SIZE at hbytes
  obtain ⟨j, hj⟩ := free_slot_of_card hs
  obtain ⟨hj16, -⟩ := free_slot_spec hj
  obtain ⟨hal, -, -, -, -⟩ := slotAddr_facts hj16
  have hlt := slotAddr_lt hj16
  have hfr : frameOf (f * 4096) = f := by unfold frameOf; omega
  have hvia := via_slot h hj16 f
  obtain ⟨w, offsets, hpush, hplaced, -⟩ := push_strings_placed hvia hal hlt hD hB argv.reverse 4096
    (le_refl _) (by rw [stringBytes_reverse]; exact hbytes)
  rw [stringBytes_reverse] at hpush hplaced
  have hlen : offsets.length = argv.length := by
    rw [← hplaced.length_eq, List.length_reverse]
  have htop : u32 (slotAddr j + PAGE_SIZE) = slotAddr j + 4096 := u32_of_lt (by exact hlt)
  have hfree : ∀ w', bounce_free ((m.openSlot j f).setFrame f w') (slotAddr j) =
      some (m.setFrame f w') := fun w' => free_after_write h hj w' hB hD
  have hcur : word_down (slotAddr j + (4096 - stringBytes argv)) =
      slotAddr j + 4 * blockWords argv := by
    unfold word_down blockWords
    omega
  have hoff : sub32 (slotAddr j + 4 * blockWords argv) (slotAddr j) = 4 * blockWords argv := by
    have : 4 * blockWords argv ≤ 4096 := by
      unfold blockWords
      omega
    rw [sub32_of_le (by omega) (by omega)]
    omega
  have hstart : task_manager_build_arguments_on_stack m (f * 4096) argv =
      push_vector ((m.openSlot j f).setFrame f w) (slotAddr j)
        (slotAddr j + (4096 - stringBytes argv)) argv.length
        (offsets.map fun p => USER_STACK_TOP - PAGE_SIZE + p) := by
    unfold task_manager_build_arguments_on_stack
    simp only [if_neg (show ¬ TASK_MAX_ARGUMENTS < argv.length by omega), Option.bind_eq_bind,
      bounce_alloc_spec h hj, hfr, Option.bind_some, htop]
    rw [hpush, Option.bind_some]
  rw [hstart]
  unfold push_vector
  rw [hcur]
  dsimp only
  rw [hoff]
  by_cases hfit : ArgumentsFit argv
  · have hroom := hfit.2
    have hk : blockWords argv ≤ 1024 := by
      unfold blockWords
      omega
    have hwords := push_words_via (via_setFrame hvia (w := w) hD hB) hal hlt hD hB
      (0 :: (offsets.map fun p => USER_STACK_TOP - PAGE_SIZE + p) ++ [argv.length])
      (blockWords argv) hk (by simp [hlen]; omega)
    rw [setFrame_apply, if_pos rfl, setFrame_setFrame] at hwords
    refine ⟨_, ?_, fun _ => block_of_placed hfit hplaced⟩
    rw [if_neg (by omega), hwords, Option.bind_eq_bind, Option.bind_some]
    dsimp only
    rw [hfree, if_pos hfit, if_pos hfit]
    have hesp : u32 (USER_STACK_TOP - PAGE_SIZE + sub32 (slotAddr j + 4 * (blockWords argv -
        (0 :: (offsets.map fun p => USER_STACK_TOP - PAGE_SIZE + p) ++ [argv.length]).length))
        (slotAddr j)) = blockAddress argv := by
      have hl : (0 :: (offsets.map fun p => USER_STACK_TOP - PAGE_SIZE + p) ++
          [argv.length]).length = argv.length + 2 := by simp [hlen]
      rw [hl, sub32_of_le (by omega) (by omega), Nat.add_sub_cancel_left]
      unfold blockAddress USER_STACK_TOP PAGE_SIZE
      exact u32_of_lt (by omega)
    rw [hesp]
    rfl
  · have hroom : 4 * blockWords argv < 4 + (argv.length + 1) * 4 := by
      unfold ArgumentsFit at hfit
      simp only [hbytes', true_and] at hfit
      omega
    rw [if_pos hroom, hfree, if_neg hfit, if_neg hfit]
    exact ⟨w, rfl, fun hc => absurd hc hfit⟩

/-! ## Reading the block -/

/-- A string of C: bytes, none of them 0. -/
def IsString (s : List Nat) : Prop := ∀ b ∈ s, 0 < b ∧ b < 256

/-- What `_start` of `crt0` loads: the count, and the address of the vector. -/
def crt0_start (m : Machine) (esp : Nat) : Option (Nat × Nat) :=
  (m.load32 esp).map fun argc => (argc, u32 (esp + 4))

/-- What a program finds at its stack pointer: an aligned block on the stack page with
`argc`, the addresses of the strings in order, each ended by a 0, and a `NULL`. -/
structure Arguments (m : Machine) (esp : Nat) (argv : List (List Nat)) : Prop where
  aligned : esp % 4 = 0
  inside : USER_STACK_TOP - PAGE_SIZE ≤ esp ∧ esp + 4 * (argv.length + 2) ≤ USER_STACK_TOP
  start : crt0_start m esp = some (argv.length, esp + 4)
  strings : ∀ i, (hi : i < argv.length) → ∃ p, m.load32 (esp + 4 + 4 * i) = some p ∧
    USER_STACK_TOP - PAGE_SIZE ≤ p ∧ p + argv[i].length < USER_STACK_TOP ∧
    memcpy_from m p (argv[i].length + 1) = some (argv[i] ++ [0])
  null : m.load32 (esp + 4 + 4 * argv.length) = some 0

/-- Loads of a program from a page that is mapped to the frame `f`. -/
theorem load32_page {u : Machine} {v f k : Nat} (hv : v % 4096 = 0) (hf : u.translate v = some f)
    (hk : k < 1024) : u.load32 (v + 4 * k) = some (u.frames f k) := by
  have hsame : u.translate (v + 4 * k) = u.translate v := by
    unfold Machine.translate page_directory_index page_table_index
    rw [show (v + 4 * k) / 4194304 = v / 4194304 by omega,
      show (v + 4 * k) / 4096 = v / 4096 by omega]
  unfold load32
  rw [hsame, hf, Option.map_some, show (v + 4 * k) % 4096 / 4 = k by omega]

theorem memcpy_from_page {u : Machine} {v f : Nat} (hv : v % 4096 = 0)
    (hlt : v + 4096 < 0x100000000) (hf : u.translate v = some f) (n k : Nat) (hk : k + n ≤ 4096) :
    memcpy_from u (v + k) n = some ((List.range' k n).map (byteAt (u.frames f))) := by
  induction n generalizing k with
  | zero => rfl
  | succ n ih =>
    have hnext : u32 (v + k + 1) = v + (k + 1) := by
      rw [u32_of_lt (by omega)]
      omega
    have hsame : u.translate (v + k) = u.translate v := by
      unfold Machine.translate page_directory_index page_table_index
      rw [show (v + k) / 4194304 = v / 4194304 by omega, show (v + k) / 4096 = v / 4096 by omega]
    have hload : u.load8 (v + k) = some (byteAt (u.frames f) k) := by
      unfold load8 byteAt
      rw [hsame, hf, Option.map_some, show (v + k) % 4096 / 4 = k / 4 by omega,
        show (v + k) % 4 = k % 4 by omega]
    unfold memcpy_from
    rw [hload, hnext, ih (k + 1) (by omega)]
    rfl

/-- The bytes of a placed string are the string. -/
theorem Placed.read {w : Nat → Nat} {lo hi p : Nat} {s : List Nat} (h : Placed w lo hi s p)
    (hs : IsString s) : (List.range' p (s.length + 1)).map (byteAt w) = s ++ [0] := by
  apply List.ext_getElem
  · simp
  · intro j hj1 hj2
    rw [List.length_append, List.length_singleton] at hj2
    rw [List.getElem_map, List.getElem_range', Nat.one_mul, h.bytes j (by omega)]
    rw [List.getD_eq_getElem _ _ (by rw [List.length_append, List.length_singleton]; omega)]
    apply Nat.mod_eq_of_lt
    have hm : (s ++ [0])[j] ∈ s ++ [0] := List.getElem_mem _
    rcases List.mem_append.mp hm with hin | hz
    · exact (hs _ hin).2
    · rw [List.mem_singleton.mp hz]
      decide

/-- A program that has the page as its stack page reads the block. -/
theorem Block.arguments {u : Machine} {f : Nat} {argv : List (List Nat)} (hfit : ArgumentsFit argv)
    (hstr : ∀ s ∈ argv, IsString s) (hpage : u.translate (USER_STACK_TOP - PAGE_SIZE) = some f)
    (h : Block (u.frames f) argv) : Arguments u (blockAddress argv) argv := by
  have hroom := hfit.2
  obtain ⟨e, he⟩ : ∃ e, blockWords argv - (argv.length + 2) = e := ⟨_, rfl⟩
  have hk : blockWords argv ≤ 1024 := by
    unfold blockWords
    omega
  have hv : (USER_STACK_TOP - PAGE_SIZE) % 4096 = 0 := by decide
  have hlt : USER_STACK_TOP - PAGE_SIZE + 4096 < 0x100000000 := by decide
  have hesp : blockAddress argv = USER_STACK_TOP - PAGE_SIZE + 4 * e := by
    unfold blockAddress
    rw [he]
  obtain ⟨v, hve⟩ : ∃ v, USER_STACK_TOP - PAGE_SIZE = v := ⟨_, rfl⟩
  have htop : USER_STACK_TOP = v + 4096 := by
    rw [← hve]
    rfl
  have hargc := h.argc
  have hnull := h.null
  rw [he] at hargc hnull
  rw [hve] at hv hlt hpage hesp
  refine ⟨by omega, ⟨by omega, by omega⟩, ?_, ?_, ?_⟩
  · unfold crt0_start
    rw [hesp, load32_page hv hpage (by omega), hargc, Option.map_some]
    rw [u32_of_lt (by omega)]
  · intro i hi
    obtain ⟨p, hp, hw⟩ := h.strings i hi
    rw [he, hve] at hw
    have hhigh := hp.high
    refine ⟨v + p, ?_, by omega, by omega, ?_⟩
    · rw [hesp, show v + 4 * e + 4 + 4 * i = v + 4 * (e + 1 + i) by omega,
        load32_page hv hpage (by omega), hw]
    · rw [memcpy_from_page hv hlt hpage _ _ (by omega), hp.read (hstr _ (List.getElem_mem hi))]
  · rw [hesp, show v + 4 * e + 4 + 4 * argv.length = v + 4 * (e + 1 + argv.length) by omega,
      load32_page hv hpage (by omega), hnull]

/-- The round trip of the arguments: for every `argv` that fits, the block is built, and a
program that has the frame as its stack page finds its arguments at the stack pointer. -/
theorem arguments_are_read_back {m : Machine} (h : Windows m) (hs : 0 < (freeSlots m).card)
    {f : Nat} (hB : f ≠ m.bounceTable) (hD : f ≠ m.dir) {argv : List (List Nat)}
    (hstr : ∀ s ∈ argv, IsString s) (hargc : argv.length ≤ TASK_MAX_ARGUMENTS)
    (hbytes : stringBytes argv ≤ 4096)
    (hroom : 4 + 4 * (argv.length + 1) ≤ (4096 - stringBytes argv) / 4 * 4) :
    ∃ m' esp, task_manager_build_arguments_on_stack m (f * 4096) argv =
        some (m', TASK_MANAGER_RESULT_OK, esp) ∧
      ∀ u : Machine, u.translate (USER_STACK_TOP - PAGE_SIZE) = some f →
        u.frames f = m'.frames f → Arguments u esp argv := by
  have hfit : ArgumentsFit argv := by
    refine ⟨hbytes, ?_⟩
    unfold blockWords
    omega
  obtain ⟨w, hbuild, hblock⟩ := build_arguments_eq h hs hB hD hargc hfit.1
  rw [if_pos hfit, if_pos hfit] at hbuild
  refine ⟨_, _, hbuild, fun u hpage hsame => ?_⟩
  apply Block.arguments hfit hstr hpage
  rw [hsame, setFrame_apply, if_pos rfl]
  exact hblock hfit

/-- `echo hi` on the small machine. -/
theorem two_arguments_are_read_back :
    ∃ m' esp, task_manager_build_arguments_on_stack smallMachine (9 * 4096)
        [[101, 99, 104, 111], [104, 105]] = some (m', TASK_MANAGER_RESULT_OK, esp) ∧
      ∀ u : Machine, u.translate (USER_STACK_TOP - PAGE_SIZE) = some 9 →
        u.frames 9 = m'.frames 9 → Arguments u esp [[101, 99, 104, 111], [104, 105]] :=
  arguments_are_read_back small_windows (by decide) (by decide) (by decide)
    (by unfold IsString; decide) (by decide) (by decide) (by decide)

/-! ## The stores -/

/-- A store of `task_manager_build_arguments_on_stack`: bytes or a word behind a pointer, or an
element of its array `argv_addresses`. -/
inductive Store where
  | bytes (address : Nat) (data : List Nat)
  | word (address value : Nat)
  | argv_address (index value : Nat)
  deriving DecidableEq, Repr

/-- The stores of the string loop, from the last argument to the first. -/
def string_stores (page : Nat) : List (List Nat) → Nat → List Store
  | [], _ => []
  | s :: rest, cursor =>
    let cursor := sub32 cursor (s.length + 1)
    .bytes cursor (s ++ [0]) ::
      .argv_address rest.length (u32 (USER_STACK_TOP - PAGE_SIZE + sub32 cursor page)) ::
      string_stores page rest cursor

/-- Where the string loop leaves the cursor. -/
def string_cursor : List (List Nat) → Nat → Nat
  | [], cursor => cursor
  | s :: rest, cursor => string_cursor rest (sub32 cursor (s.length + 1))

/-- What the string loop leaves in `argv_addresses`, from the last argument to the first. -/
def string_addresses (page : Nat) : List (List Nat) → Nat → List Nat
  | [], _ => []
  | s :: rest, cursor =>
    let cursor := sub32 cursor (s.length + 1)
    u32 (USER_STACK_TOP - PAGE_SIZE + sub32 cursor page) :: string_addresses page rest cursor

def word_stores (cursor : Nat) : List Nat → List Store
  | [] => []
  | w :: ws => .word (sub32 cursor 4) w :: word_stores (sub32 cursor 4) ws

/-- The test of `task_manager_build_arguments_on_stack` on the page at `page`, for any `argv`. -/
def arguments_refused (page : Nat) (argv : List (List Nat)) : Bool :=
  let cursor := word_down (string_cursor argv.reverse (u32 (page + PAGE_SIZE)))
  let needed := u32 (4 + (argv.length + 1) * 4)
  sub32 cursor page < needed

/-- The result of `task_manager_build_arguments_on_stack`. -/
def build_arguments_result (page : Nat) (argv : List (List Nat)) : task_manager_result_t :=
  if arguments_refused page argv then TASK_MANAGER_RESULT_ARGS_TOO_LARGE
  else TASK_MANAGER_RESULT_OK

/-- All stores of `task_manager_build_arguments_on_stack`. After a store outside of
`argv_addresses` they are those of a kernel stack that was not hit. -/
def build_arguments_stores (page : Nat) (argv : List (List Nat)) : List Store :=
  let top := u32 (page + PAGE_SIZE)
  string_stores page argv.reverse top ++
    if arguments_refused page argv then []
    else word_stores (word_down (string_cursor argv.reverse top))
      (0 :: string_addresses page argv.reverse top ++ [argv.length])

def Store.perform (m : Machine) : Store → Option Machine
  | .bytes address data => memcpy_to m address data
  | .word address value => m.store32 address value
  | .argv_address _ _ => some m

theorem push_words_stores (m : Machine) (cursor : Nat) (ws : List Nat) :
    push_words m cursor ws =
      ((word_stores cursor ws).foldlM Store.perform m).map
        fun m => (m, ws.foldl (fun cursor _ => sub32 cursor 4) cursor) := by
  induction ws generalizing m cursor with
  | nil => rfl
  | cons w ws ih =>
    unfold push_words word_stores
    simp only [List.foldlM_cons, List.foldl_cons, Option.bind_eq_bind, Store.perform]
    cases m.store32 (sub32 cursor 4) w with
    | none => rfl
    | some m => exact ih m (sub32 cursor 4)

theorem push_strings_stores (page : Nat) (argv : List (List Nat)) (cursor : Nat) (m : Machine) :
    push_strings page argv cursor m =
      ((string_stores page argv cursor).foldlM Store.perform m).map
        fun m => (m, string_cursor argv cursor, string_addresses page argv cursor) := by
  induction argv generalizing m cursor with
  | nil => rfl
  | cons s rest ih =>
    unfold push_strings string_stores string_cursor string_addresses
    simp only [List.foldlM_cons, Option.bind_eq_bind, Store.perform, ih]
    cases memcpy_to m (sub32 cursor (s.length + 1)) (s ++ [0]) with
    | none => rfl
    | some m =>
      simp only [Option.bind_some]
      cases (string_stores page rest (sub32 cursor (s.length + 1))).foldlM Store.perform m with
      | none => rfl
      | some m => rfl

/-- The end of the call, as stores. -/
theorem push_vector_stores (m : Machine) (page cursor argc : Nat) (addresses : List Nat) :
    (push_vector m page cursor argc addresses).map (fun r => (r.1, r.2.1)) =
      if sub32 (word_down cursor) page < 4 + (argc + 1) * 4 then
        (bounce_free m page).map fun m => (m, TASK_MANAGER_RESULT_ARGS_TOO_LARGE)
      else
        ((word_stores (word_down cursor) (0 :: addresses ++ [argc])).foldlM Store.perform m).bind
          fun m => (bounce_free m page).map fun m => (m, TASK_MANAGER_RESULT_OK) := by
  unfold push_vector
  dsimp only
  split
  · cases bounce_free m page <;> rfl
  · rw [push_words_stores]
    cases (word_stores (word_down cursor) (0 :: addresses ++ [argc])).foldlM Store.perform m with
    | none => rfl
    | some m =>
      simp only [Option.map_some, Option.bind_eq_bind, Option.bind_some]
      cases bounce_free m page <;> rfl

theorem build_arguments_opened {m m1 : Machine} {user_stack_phys page : Nat}
    {argv : List (List Nat)} (hargc : argv.length ≤ TASK_MAX_ARGUMENTS)
    (h : bounce_alloc m user_stack_phys = some (m1, page)) :
    task_manager_build_arguments_on_stack m user_stack_phys argv =
      (push_strings page argv.reverse (u32 (page + PAGE_SIZE)) m1).bind fun r =>
        push_vector r.1 page r.2.1 argv.length r.2.2 := by
  unfold task_manager_build_arguments_on_stack
  rw [if_neg (Nat.not_lt.mpr hargc), h]
  rfl

/-- With its window open, the model of the call performs these stores, closes the window and
gives their result. -/
theorem build_arguments_performs {m m1 : Machine} {user_stack_phys page : Nat}
    {argv : List (List Nat)} (hargc : argv.length ≤ TASK_MAX_ARGUMENTS)
    (h : bounce_alloc m user_stack_phys = some (m1, page)) :
    (task_manager_build_arguments_on_stack m user_stack_phys argv).map
        (fun r => (r.1, r.2.1)) =
      ((build_arguments_stores page argv).foldlM Store.perform m1).bind fun m =>
        (bounce_free m page).map fun m => (m, build_arguments_result page argv) := by
  have hneeded : u32 (4 + (argv.length + 1) * 4) = 4 + (argv.length + 1) * 4 := by
    unfold TASK_MAX_ARGUMENTS at hargc
    exact u32_of_lt (by omega)
  obtain ⟨top, htop⟩ : ∃ top, u32 (page + PAGE_SIZE) = top := ⟨_, rfl⟩
  have hrefused : arguments_refused page argv = true ↔
      sub32 (word_down (string_cursor argv.reverse top)) page < 4 + (argv.length + 1) * 4 := by
    unfold arguments_refused
    rw [htop, hneeded, decide_eq_true_iff]
  rw [build_arguments_opened hargc h, push_strings_stores]
  unfold build_arguments_stores build_arguments_result
  rw [htop, List.foldlM_append]
  generalize (string_stores page argv.reverse top).foldlM Store.perform m1 = performed
  cases performed with
  | none => simp only [Option.map_none, Option.bind_none, Option.bind_eq_bind]
  | some m =>
    rw [Option.map_some, Option.bind_some, push_vector_stores, Option.bind_eq_bind,
      Option.bind_some]
    by_cases hr : arguments_refused page argv = true
    · rw [if_pos (hrefused.mp hr), if_pos hr, if_pos hr, List.foldlM_nil, Option.pure_def,
        Option.bind_some]
    · rw [if_neg fun hc => hr (hrefused.mpr hc), if_neg hr, if_neg hr]

/-! ## Inside the page -/

/-- A store hits only the page at `page`, or an element that `argv_addresses` has. -/
def Store.InBounds (page : Nat) : Store → Prop
  | .bytes address data =>
    ∀ j, j < data.length → page ≤ u32 (address + j) ∧ u32 (address + j) < page + PAGE_SIZE
  | .word address _ => ∀ j, j < 4 → page ≤ u32 (address + j) ∧ u32 (address + j) < page + PAGE_SIZE
  | .argv_address index _ => index < TASK_MAX_ARGUMENTS

section bounds

variable {page : Nat}

theorem string_stores_in_bounds (hlt : page + 4096 < 0x100000000) (argv : List (List Nat)) {k : Nat}
    (hk : k ≤ 4096) (hs : stringBytes argv ≤ k) (hargc : argv.length ≤ TASK_MAX_ARGUMENTS) :
    string_cursor argv (page + k) = page + (k - stringBytes argv) ∧
      ∀ s ∈ string_stores page argv (page + k), s.InBounds page := by
  induction argv generalizing k with
  | nil =>
    refine ⟨?_, fun s hm => by cases hm⟩
    unfold string_cursor stringBytes
    simp
  | cons s rest ih =>
    have hsum : stringBytes (s :: rest) = s.length + 1 + stringBytes rest := by
      unfold stringBytes
      simp
    rw [hsum] at hs ⊢
    rw [List.length_cons] at hargc
    have hcur : sub32 (page + k) (s.length + 1) = page + (k - (s.length + 1)) := by
      rw [sub32_of_le (by omega) (by omega)]
      omega
    obtain ⟨hend, hrest⟩ := ih (k := k - (s.length + 1)) (by omega) (by omega) (by omega)
    unfold string_cursor string_stores
    simp only [hcur]
    refine ⟨?_, ?_⟩
    · rw [hend]
      omega
    · intro x hx
      rcases List.mem_cons.mp hx with rfl | hx
      · intro j hj
        rw [List.length_append, List.length_singleton] at hj
        unfold PAGE_SIZE
        rw [u32_of_lt (by omega)]
        omega
      · rcases List.mem_cons.mp hx with rfl | hx
        · exact hargc
        · exact hrest x hx

/-- Strings that do not fit leave the page: the byte below it is hit. -/
theorem string_stores_escape (hlt : page + 4096 < 0x100000000) (argv : List (List Nat)) {k : Nat}
    (hk : k ≤ 4096) (hs : k < stringBytes argv) :
    ∃ s ∈ string_stores page argv (page + k), ¬ s.InBounds page := by
  induction argv generalizing k with
  | nil => cases hs
  | cons s rest ih =>
    have hsum : stringBytes (s :: rest) = s.length + 1 + stringBytes rest := by
      unfold stringBytes
      simp
    rw [hsum] at hs
    unfold string_stores
    by_cases hfit : s.length + 1 ≤ k
    · have hcur : sub32 (page + k) (s.length + 1) = page + (k - (s.length + 1)) := by
        rw [sub32_of_le (by omega) (by omega)]
        omega
      simp only [hcur]
      obtain ⟨x, hx, hout⟩ := ih (k := k - (s.length + 1)) (by omega) (by omega)
      exact ⟨x, List.mem_cons_of_mem _ (List.mem_cons_of_mem _ hx), hout⟩
    · refine ⟨_, List.mem_cons_self, fun hin => ?_⟩
      have hbelow := hin (s.length - k) (by simp only [List.length_append, List.length_singleton]; omega)
      unfold PAGE_SIZE u32 sub32 at hbelow
      omega

theorem word_stores_in_bounds (hlt : page + 4096 < 0x100000000) {ws : List Nat} {k : Nat}
    (hk : k ≤ 4096) (hws : 4 * ws.length ≤ k) :
    ∀ s ∈ word_stores (page + k) ws, s.InBounds page := by
  induction ws generalizing k with
  | nil => exact fun s hm => by cases hm
  | cons w ws ih =>
    rw [List.length_cons] at hws
    have hcur : sub32 (page + k) 4 = page + (k - 4) := by
      rw [sub32_of_le (by omega) (by omega)]
      omega
    unfold word_stores
    rw [hcur]
    intro x hx
    rcases List.mem_cons.mp hx with rfl | hx
    · intro j hj
      unfold PAGE_SIZE
      rw [u32_of_lt (by omega)]
      omega
    · exact ih (by omega) (by omega) x hx

theorem string_addresses_length (argv : List (List Nat)) (cursor : Nat) :
    (string_addresses page argv cursor).length = argv.length := by
  induction argv generalizing cursor with
  | nil => rfl
  | cons s rest ih => simp [string_addresses, ih]

/-- The call stays in its page and in its array and refuses what does not fit, exactly for
strings that take at most one page and are at most as many as the array holds. -/
theorem arguments_stay_inside (hal : page % 4096 = 0) (hlt : page + 4096 < 0x100000000)
    (argv : List (List Nat)) :
    ((∀ s ∈ build_arguments_stores page argv, s.InBounds page) ∧
      (¬ ArgumentsFit argv ∨ TASK_MAX_ARGUMENTS < argv.length →
        build_arguments_result page argv = TASK_MANAGER_RESULT_ARGS_TOO_LARGE)) ↔
      stringBytes argv ≤ PAGE_SIZE ∧ argv.length ≤ TASK_MAX_ARGUMENTS := by
  have htop : u32 (page + PAGE_SIZE) = page + 4096 := u32_of_lt (by exact hlt)
  have hlen : argv.reverse.length = argv.length := List.length_reverse
  have hmem : ∀ s ∈ string_stores page argv.reverse (page + 4096),
      s ∈ build_arguments_stores page argv := by
    intro s hs
    unfold build_arguments_stores
    rw [htop]
    exact List.mem_append_left _ hs
  constructor
  · rintro ⟨hin, -⟩
    constructor
    · by_contra hover
      obtain ⟨s, hs, hout⟩ := string_stores_escape hlt argv.reverse (Nat.le_refl 4096)
        (by rw [stringBytes_reverse]; unfold PAGE_SIZE at hover; omega)
      exact hout (hin s (hmem s hs))
    · by_contra hmany
      cases hrev : argv.reverse with
      | nil =>
        rw [hrev] at hlen
        rw [← hlen] at hmany
        exact hmany (Nat.zero_le _)
      | cons s rest =>
        rw [hrev, List.length_cons] at hlen
        have hstore := hin _ (hmem _ (by
          rw [hrev]
          unfold string_stores
          exact List.mem_cons_of_mem _ List.mem_cons_self))
        have hindex : rest.length < TASK_MAX_ARGUMENTS := hstore
        omega
  · rintro ⟨hbytes, hargc⟩
    have hargc' := hargc
    unfold TASK_MAX_ARGUMENTS at hargc'
    unfold PAGE_SIZE at hbytes
    obtain ⟨hcur, hstrings⟩ := string_stores_in_bounds hlt argv.reverse (le_refl 4096)
      (by rw [stringBytes_reverse]; exact hbytes) (by rw [hlen]; exact hargc)
    rw [stringBytes_reverse] at hcur
    have hdown : word_down (page + (4096 - stringBytes argv)) = page + 4 * blockWords argv := by
      unfold word_down blockWords
      omega
    have hk : 4 * blockWords argv ≤ 4096 := by
      unfold blockWords
      omega
    have hoff : sub32 (page + 4 * blockWords argv) page = 4 * blockWords argv := by
      rw [sub32_of_le (by omega) (by omega)]
      omega
    have hneeded : u32 (4 + (argv.length + 1) * 4) = 4 + (argv.length + 1) * 4 :=
      u32_of_lt (by omega)
    have hrefused : arguments_refused page argv = true ↔
        4 * blockWords argv < 4 + (argv.length + 1) * 4 := by
      unfold arguments_refused
      dsimp only
      rw [htop, hcur, hdown, hoff, hneeded, decide_eq_true_iff]
    refine ⟨fun s hs => ?_, fun hc => ?_⟩
    · unfold build_arguments_stores at hs
      dsimp only at hs
      rw [htop, hcur, hdown] at hs
      rcases List.mem_append.mp hs with hs | hs
      · exact hstrings s hs
      · by_cases hr : arguments_refused page argv = true
        · rw [if_pos hr] at hs
          cases hs
        · rw [if_neg hr] at hs
          refine word_stores_in_bounds hlt hk ?_ s hs
          simp only [List.length_append, List.length_cons, List.length_nil,
            string_addresses_length, hlen]
          have := mt hrefused.mpr hr
          omega
    · have hr : arguments_refused page argv = true := by
        apply hrefused.mpr
        rcases hc with hfit | hmany
        · by_contra hroom
          exact hfit ⟨hbytes, by omega⟩
        · exact absurd hargc (Nat.not_le.mpr hmany)
      unfold build_arguments_result
      rw [if_pos hr]

end bounds

/-- One argument of 4096 bytes: its end makes 4097, so the byte below the page is hit, and the
call says that all is well. -/
theorem a_long_argument_leaves_the_page :
    ¬ ((∀ s ∈ build_arguments_stores (slotAddr 0) [List.replicate 4096 97],
        s.InBounds (slotAddr 0)) ∧
      (¬ ArgumentsFit [List.replicate 4096 97] ∨
          TASK_MAX_ARGUMENTS < [List.replicate 4096 97].length →
        build_arguments_result (slotAddr 0) [List.replicate 4096 97] =
          TASK_MANAGER_RESULT_ARGS_TOO_LARGE)) := by
  rintro ⟨hin, -⟩
  obtain ⟨s, hs, hout⟩ := string_stores_escape (slotAddr_lt (show 0 < 16 by decide))
    [List.replicate 4096 97] (Nat.le_refl 4096)
    (by unfold stringBytes; rw [List.map_singleton, List.length_replicate]; decide)
  refine hout (hin s ?_)
  unfold build_arguments_stores
  exact List.mem_append_left _ hs

/-- `echo hi`, through the first window. -/
theorem two_arguments_stay_inside :
    ((∀ s ∈ build_arguments_stores (slotAddr 0) [[101, 99, 104, 111], [104, 105]],
        s.InBounds (slotAddr 0)) ∧
      (¬ ArgumentsFit [[101, 99, 104, 111], [104, 105]] ∨
          TASK_MAX_ARGUMENTS < [[101, 99, 104, 111], [104, 105]].length →
        build_arguments_result (slotAddr 0) [[101, 99, 104, 111], [104, 105]] =
          TASK_MANAGER_RESULT_ARGS_TOO_LARGE)) ↔
      stringBytes [[101, 99, 104, 111], [104, 105]] ≤ PAGE_SIZE ∧
        [[101, 99, 104, 111], [104, 105]].length ≤ TASK_MAX_ARGUMENTS :=
  arguments_stay_inside (by decide) (by decide) [[101, 99, 104, 111], [104, 105]]

end alura_os.elf_executable
