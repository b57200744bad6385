-- The hand-over of the initrd (`ramfs_driver_init` in `fs/ramfs.c`): the first
-- boot module is copied page by page through a bounce page into a block of the
-- kernel heap, and each page is freed right after. The words of the bitmap are
-- kept apart from the frames here.
import AluraOs.BootMemory
import AluraOs.CopyMemory

namespace alura_os.ramfs_driver

open alura_os.memory alura_os.memory_bitmap alura_os.memory_paging alura_os.task_manager Machine
open alura_os.elf_executable (entry_same_page entry_setBitmap)

/-! ## The function -/

/-- `memcpy` between two addresses of the current directory, byte after byte. -/
def memcpy (m : Machine) (dst src : Nat) : Nat → Option Machine
  | 0 => some m
  | n + 1 => do
    let b ← m.load8 src
    let m ← m.store8 dst b
    memcpy m (u32 (dst + 1)) (u32 (src + 1)) n

/-- The loop of `ramfs_driver_init`: its variables, and what it did so far. `sources` are the
physical addresses of the bytes that it copied, and `freed` the addresses that it passed to
`memory_bitmap_free`, both in order. -/
structure Handover where
  machine : Machine
  page : Nat
  copied : Nat
  sources : List Nat
  freed : List Nat

section loop

variable (mod_start mod_end tar_data : Nat)

/-- `chunk_start` -/
def chunk_start (page : Nat) : Nat := if page < mod_start then mod_start else page

/-- `chunk_end`, with the sum of a `uintptr_t`. -/
def chunk_end (page : Nat) : Nat :=
  if u32 (page + PAGE_SIZE) > mod_end then mod_end else u32 (page + PAGE_SIZE)

/-- `chunk_len` -/
def chunk_len (page : Nat) : Nat := sub32 (chunk_end mod_end page) (chunk_start mod_start page)

def ramfs_driver_turn (s : Handover) : Option Handover := do
  let (m, bounce) ← bounce_alloc s.machine s.page
  let start := chunk_start mod_start s.page
  let len := chunk_len mod_start mod_end s.page
  let m ← memcpy m (u32 (tar_data + s.copied)) (u32 (bounce + (start - s.page))) len
  let m ← bounce_free m bounce
  return {
    machine := m.setBitmap (memory_bitmap_free m.memory_bitmap s.page)
    page := u32 (s.page + PAGE_SIZE)
    copied := u32 (s.copied + len)
    sources := s.sources ++ List.range' start len
    freed := s.freed ++ [s.page] }

/-- The loop, for at most so many turns: `none` when a turn faults or the turns run out. -/
def ramfs_driver_loop : Nat → Handover → Option Handover
  | 0, s => if s.page < mod_end then none else some s
  | turns + 1, s =>
    if s.page < mod_end then do
      ramfs_driver_loop turns (← ramfs_driver_turn mod_start mod_end tar_data s)
    else some s

end loop

/-- `ramfs_driver_init` from the block `tar_data` of the heap to the end of its loop. -/
def ramfs_driver_init (turns : Nat) (m : Machine) (initrd : multiboot_module_t) (tar_data : Nat) :
    Option Handover :=
  ramfs_driver_loop initrd.mod_start initrd.mod_end tar_data turns
    { machine := m, page := ALIGN_DOWN initrd.mod_start, copied := 0, sources := [], freed := [] }

/-! ## What it is to do -/

/-- The byte of physical memory at an address. -/
def physicalByte (m : Machine) (address : Nat) : Nat :=
  byteAt (m.frames (address / 4096)) (address % 4096)

/-- The page holds a byte of the kernel image, of the bitmap or of another module. -/
def Foreign (multiboot : multiboot_info_t) (others : List multiboot_module_t) (p : Nat) : Prop :=
  Overlaps multiboot.kernel_physical_start multiboot.kernel_physical_end p ∨
    Overlaps (ALIGN_UP multiboot.kernel_physical_end)
      (ALIGN_UP multiboot.kernel_physical_end + bitmap_bytes multiboot) p ∨
    ∃ mod ∈ others, Overlaps mod.mod_start mod.mod_end p

/-- The loop ends, the block holds the bytes of the module, each copied once and in order, and
no page that was freed is foreign. -/
def HandedOver (multiboot : multiboot_info_t) (initrd : multiboot_module_t)
    (others : List multiboot_module_t) (m : Machine) (tar_data : Nat) : Prop :=
  ∃ turns s, ramfs_driver_init turns m initrd tar_data = some s ∧
    s.sources = List.range' initrd.mod_start (initrd.mod_end - initrd.mod_start) ∧
    (∀ k, k < initrd.mod_end - initrd.mod_start →
      byteIn s.machine s.machine.dir (tar_data + k) =
        some (physicalByte m (initrd.mod_start + k))) ∧
    ∀ address ∈ s.freed, ¬ Foreign multiboot others (address / PAGE_SIZE)

/-- The module shares no page with anything else, and it does not end in the last page of the
address space. -/
def OnItsOwn (multiboot : multiboot_info_t) (initrd : multiboot_module_t)
    (others : List multiboot_module_t) : Prop :=
  initrd.mod_end ≤ 0xFFFFF000 ∧
    ∀ p, Overlaps initrd.mod_start initrd.mod_end p → ¬ Foreign multiboot others p

/-- A block of the kernel heap: its bytes are on pages that are there, in plain frames, and
different pages are in different frames. -/
structure Block (m : Machine) (a n : Nat) : Prop where
  top : a + n ≤ 0x100000000
  reached : Reached m m.dir a n
  tables : ∀ k, k < n → frameOf (m.frames m.dir (page_directory_index (a + k))) ≠ m.bounceTable
  apart : ∀ j k x y, j < n → k < n → m.entry m.dir (a + j) = some x →
    m.entry m.dir (a + k) = some y → frameOf x = frameOf y → (a + j) / 4096 = (a + k) / 4096

/-- The machine when the loop starts. The frames of the block and of the bounce pages' table
come from the allocator, which did not have them in use after the boot. -/
structure Booted (entries : Nat → Nat) (multiboot : multiboot_info_t) (m : Machine) (a n : Nat) :
    Prop where
  windows : Windows m
  slots : 0 < (freeSlots m).card
  block : Block m a n
  block_frames : ∀ k x, k < n → m.entry m.dir (a + k) = some x →
    frameOf x < bitmap_pages_of multiboot ∧
      ¬ Used (memory_bitmap_module_init entries multiboot) (frameOf x)
  bounce_frame : m.bounceTable < bitmap_pages_of multiboot ∧
    ¬ Used (memory_bitmap_module_init entries multiboot) m.bounceTable

/-! ## The pages that are freed -/

section pages

variable {mod_start mod_end tar_data : Nat}

/-- What a turn does to the variables, whatever is in memory. -/
theorem turn_variables {s s' : Handover}
    (h : ramfs_driver_turn mod_start mod_end tar_data s = some s') :
    s'.page = u32 (s.page + PAGE_SIZE) ∧ s'.freed = s.freed ++ [s.page] := by
  unfold ramfs_driver_turn at h
  obtain ⟨⟨m1, bounce⟩, -, h⟩ := Option.bind_eq_some_iff.mp h
  obtain ⟨m2, -, h⟩ := Option.bind_eq_some_iff.mp h
  obtain ⟨m3, -, h⟩ := Option.bind_eq_some_iff.mp h
  cases h
  exact ⟨rfl, rfl⟩

/-- Every page up to the end of the module is freed. -/
theorem loop_frees (hend : mod_end ≤ 0xFFFFF000) {turns : Nat} {s s' : Handover}
    (h : ramfs_driver_loop mod_start mod_end tar_data turns s = some s')
    (hp : s.page % 4096 = 0) :
    (∀ address ∈ s.freed, address ∈ s'.freed) ∧
      ∀ p, s.page ≤ 4096 * p → 4096 * p < mod_end → 4096 * p ∈ s'.freed := by
  induction turns generalizing s with
  | zero =>
    unfold ramfs_driver_loop at h
    split at h
    · cases h
    · cases h
      exact ⟨fun _ h => h, fun p h1 h2 => by omega⟩
  | succ turns ih =>
    unfold ramfs_driver_loop at h
    split at h
    · rename_i hlt
      obtain ⟨s1, hturn, h⟩ := Option.bind_eq_some_iff.mp h
      obtain ⟨hpage, hfreed⟩ := turn_variables hturn
      have hnext : s1.page = s.page + 4096 := by
        rw [hpage]
        exact u32_of_lt (by unfold PAGE_SIZE; omega)
      obtain ⟨hkept, hrest⟩ := ih h (by omega)
      constructor
      · intro address ha
        apply hkept
        simp [hfreed, ha]
      · intro p h1 h2
        by_cases hq : 4096 * p = s.page
        · apply hkept
          simp [hfreed, hq]
        · exact hrest p (by omega) h2
    · cases h
      exact ⟨fun _ h => h, fun p h1 h2 => by omega⟩

/-- A module that ends in the last page keeps the loop going: the last page is followed by
page 0. -/
theorem loop_goes_on (hend : 0xFFFFF000 < mod_end) (turns : Nat) (s : Handover)
    (hp : s.page % 4096 = 0) (hlt : s.page < 0x100000000) :
    ramfs_driver_loop mod_start mod_end tar_data turns s = none := by
  have hmore : s.page < mod_end := by omega
  induction turns generalizing s with
  | zero => simp [ramfs_driver_loop, hmore]
  | succ turns ih =>
    unfold ramfs_driver_loop
    rw [if_pos hmore]
    cases hturn : ramfs_driver_turn mod_start mod_end tar_data s with
    | none => rfl
    | some s1 =>
      obtain ⟨hpage, -⟩ := turn_variables hturn
      have hnext := u32_lt (s.page + PAGE_SIZE)
      have hmod : s1.page % 4096 = 0 := by
        rw [hpage]
        unfold u32 PAGE_SIZE
        omega
      exact ih s1 hmod (by omega) (by omega)

end pages

/-! ## The copy of a chunk -/

section chunk

variable {m : Machine}

/-- A write to the block leaves the bytes of the other frames. -/
theorem putAt_frames {d a b x g : Nat} (hx : m.entry d a = some x) (hg : frameOf x ≠ g) :
    (putAt m d a b).frames g = m.frames g := by
  rw [putAt_eq hx, setFrame_apply, if_neg (Ne.symm hg)]

/-- The first byte of a reached range is in a plain frame, and the rest is reached after it is
written. -/
theorem reached_first {d a n : Nat} (h : Reached m d a (n + 1)) (b : Nat) :
    ∃ x, m.entry d a = some x ∧ Plain m d (frameOf x) ∧ SameWalks m (putAt m d a b) d ∧
      Reached (putAt m d a b) d (a + 1) n := by
  obtain ⟨x, hx, hstep, hrest⟩ := h.step b
  obtain ⟨y, hy, -, hplain⟩ := h 0 (by omega)
  rw [Nat.add_zero, hx, Option.some_inj] at hy
  subst hy
  exact ⟨x, hx, hplain, hstep, hrest⟩

/-- `memcpy` from a page that shows the frame `g` to pages in other frames. -/
theorem memcpy_window {v t g o a n : Nat} (hvia : Via m v t g) (hv : v % 4096 = 0)
    (hlt : v + 4096 < 0x100000000) (hlen : o + n ≤ 4096) (htop : a + n ≤ 0x100000000)
    (h : Reached m m.dir a n)
    (hne : ∀ k x, k < n → m.entry m.dir (a + k) = some x → frameOf x ≠ t ∧ frameOf x ≠ g) :
    memcpy m (u32 a) (v + o) n =
      some (writeBytes m m.dir a ((List.range' o n).map (byteAt (m.frames g)))) := by
  induction n generalizing m a o with
  | zero => rfl
  | succ n ih =>
    obtain ⟨x, hx, hplain, hstep, hrest⟩ := reached_first h (byteAt (m.frames g) o)
    obtain ⟨hxt, hxg⟩ := hne 0 x (by omega) hx
    have hdir : (putAt m m.dir a (byteAt (m.frames g) o)).dir = m.dir :=
      congrArg frameOf hstep.cr3
    have hframe := putAt_frames (b := byteAt (m.frames g) o) hx hxg
    have hvia' : Via (putAt m m.dir a (byteAt (m.frames g) o)) v t g := by
      rw [putAt_eq hx]
      exact via_setFrame hvia hplain.ne_current hxt
    have hsource : u32 (v + o + 1) = v + (o + 1) := by
      rw [u32_of_lt (by omega)]
      omega
    have hlater := ih hvia' (o := o + 1) (a := a + 1) (by omega) (by omega)
      (by rw [hdir]; exact hrest) (by
        intro k y hk hy
        rw [hdir, hstep.entries, Nat.add_assoc, Nat.add_comm 1] at hy
        exact hne (k + 1) y (by omega) hy)
    rw [hdir, hframe] at hlater
    unfold memcpy
    rw [u32_of_lt (show a < 0x100000000 by omega)]
    simp only [load8_via hvia hv (show o < 4096 by omega), store8_put hx, hsource,
      Option.bind_eq_bind, Option.bind_some, hlater]
    rfl

/-- An address whose table is not that of the bounce pages reads the same entry when a slot
is open. -/
theorem entry_openSlot (h : Windows m) {a : Nat} (i f : Nat)
    (ht : frameOf (m.frames m.dir (page_directory_index a)) ≠ m.bounceTable) :
    (m.openSlot i f).entry m.dir a = m.entry m.dir a := by
  unfold Machine.entry
  simp only [openSlot_frames_ne h.apart.symm, openSlot_frames_ne ht]

theorem reached_openSlot (hw : Windows m) {a n : Nat} (h : Reached m m.dir a n) (i f : Nat)
    (ht : ∀ k, k < n →
      frameOf (m.frames m.dir (page_directory_index (a + k))) ≠ m.bounceTable) :
    Reached (m.openSlot i f) m.dir a n := by
  intro k hk
  obtain ⟨x, hx, h0, hp⟩ := h k hk
  refine ⟨x, by rw [entry_openSlot hw i f (ht k hk)]; exact hx, h0, ?_⟩
  constructor
  · exact hp.ne_current
  · rw [openSlot_bounceTable hw]
    exact hp.ne_bounce
  · exact hp.ne_dir
  · rw [openSlot_frames_ne hw.apart.symm]
    exact hp.ne_table

/-- Writing while a slot is open is the same as opening it afterwards. -/
theorem writeBytes_openSlot (hw : Windows m) {a : Nat} (i f : Nat) (bytes : List Nat)
    (h : Reached m m.dir a bytes.length)
    (ht : ∀ k, k < bytes.length →
      frameOf (m.frames m.dir (page_directory_index (a + k))) ≠ m.bounceTable) :
    writeBytes (m.openSlot i f) m.dir a bytes = (writeBytes m m.dir a bytes).openSlot i f := by
  induction bytes generalizing m a with
  | nil => rfl
  | cons b bs ih =>
    rw [List.length_cons] at h ht
    obtain ⟨x, hx, hplain, hstep, hrest⟩ := reached_first h b
    have hsame : (m.openSlot i f).entry m.dir a = some x := by
      rw [entry_openSlot (a := a) hw i f (ht 0 (by omega))]
      exact hx
    have hdir : (putAt m m.dir a b).dir = m.dir := congrArg frameOf hstep.cr3
    have hopen : putAt (m.openSlot i f) m.dir a b = (putAt m m.dir a b).openSlot i f := by
      rw [putAt_eq hx, putAt_eq hsame, openSlot_frames_ne hplain.ne_bounce,
        openSlot_setFrame _ hplain.ne_bounce hplain.ne_current]
    have htable : ∀ k, k < bs.length → frameOf ((putAt m m.dir a b).frames
        (putAt m m.dir a b).dir (page_directory_index (a + 1 + k))) ≠
          (putAt m m.dir a b).bounceTable := by
      intro k hk
      have hbounce : (putAt m m.dir a b).bounceTable = m.bounceTable := by
        rw [putAt_eq hx]
        exact bounceTable_setFrame _ hplain.ne_current
      rw [hdir, hbounce, putAt_frames hx hplain.ne_current, Nat.add_assoc, Nat.add_comm 1]
      exact ht (k + 1) (by omega)
    unfold writeBytes
    rw [hopen]
    have hlater := ih (hstep.windows hw) (by rw [hdir]; exact hrest) htable
    rwa [hdir] at hlater

/-- The bytes of a chunk, as the window shows them. -/
theorem chunk_bytes {page first n : Nat} (hp : page % 4096 = 0) (hf : page ≤ first)
    (hlen : first - page + n ≤ 4096) :
    (List.range' (first - page) n).map (byteAt (m.frames (page / 4096))) =
      (List.range' first n).map (physicalByte m) := by
  apply List.ext_getElem
  · simp
  · intro k hk hk'
    simp only [List.length_map, List.length_range'] at hk
    simp only [List.getElem_map, List.getElem_range']
    unfold physicalByte
    rw [show (first + 1 * k) / 4096 = page / 4096 by omega,
      show (first + 1 * k) % 4096 = first - page + 1 * k by omega]

/-- A turn copies its chunk and frees its page. -/
theorem turn_copies (hw : Windows m) (hs : 0 < (freeSlots m).card) {mod_start mod_end a n : Nat}
    {s : Handover} (hm : s.machine = m) (hp : s.page % 4096 = 0)
    (hlen : chunk_len mod_start mod_end s.page = n)
    (hfit : chunk_start mod_start s.page - s.page + n ≤ 4096)
    (htop : a + s.copied + n ≤ 0x100000000) (h : Reached m m.dir (a + s.copied) n)
    (ht : ∀ k, k < n →
      frameOf (m.frames m.dir (page_directory_index (a + s.copied + k))) ≠ m.bounceTable)
    (hg : s.page / 4096 ≠ m.bounceTable)
    (hne : ∀ k x, k < n → m.entry m.dir (a + s.copied + k) = some x → frameOf x ≠ s.page / 4096) :
    ramfs_driver_turn mod_start mod_end a s = some {
      machine := (writeBytes m m.dir (a + s.copied)
        ((List.range' (chunk_start mod_start s.page) n).map (physicalByte m))).setBitmap
          (memory_bitmap_free m.memory_bitmap s.page)
      page := u32 (s.page + PAGE_SIZE)
      copied := u32 (s.copied + n)
      sources := s.sources ++ List.range' (chunk_start mod_start s.page) n
      freed := s.freed ++ [s.page] } := by
  obtain ⟨i, hi⟩ := free_slot_of_card hs
  obtain ⟨hi16, hu⟩ := free_slot_spec hi
  obtain ⟨haligned, -⟩ := slotAddr_facts hi16
  have hfirst : s.page ≤ chunk_start mod_start s.page := by
    unfold chunk_start
    split <;> omega
  have hbytes := chunk_bytes (m := m) hp hfirst hfit
  have hopen := reached_openSlot hw h i (s.page / 4096) ht
  have hcopy := memcpy_window (via_slot hw hi16 (s.page / 4096)) haligned (slotAddr_lt hi16) hfit
    htop hopen (by
      intro k x hk hx
      rw [openSlot_dir, entry_openSlot hw i _ (ht k hk)] at hx
      obtain ⟨y, hy, -, hplain⟩ := h k hk
      rw [hx, Option.some_inj] at hy
      subst hy
      exact ⟨hplain.ne_bounce, hne k x hk hx⟩)
  have hreach : Reached m m.dir (a + s.copied)
      ((List.range' (chunk_start mod_start s.page) n).map (physicalByte m)).length := by
    simpa using h
  rw [openSlot_dir, openSlot_frames_ne hg, hbytes, writeBytes_openSlot hw i _ _ hreach
    (by simpa using ht)] at hcopy
  have hkept := writeBytes_walks _ hreach
  have hclose := bounce_free_spec (windows_openSlot (hkept.windows hw) i (s.page / 4096)) hi16
  rw [close_open (hkept.windows hw) hi16 (by rw [hkept.slots]; exact hu)] at hclose
  have halloc : bounce_alloc s.machine s.page =
      some (m.openSlot i (s.page / 4096), slotAddr i) := by
    rw [hm]
    exact bounce_alloc_spec hw hi s.page
  have hoffset : u32 (slotAddr i + (chunk_start mod_start s.page - s.page)) =
      slotAddr i + (chunk_start mod_start s.page - s.page) :=
    u32_of_lt (by have := slotAddr_lt hi16; omega)
  unfold ramfs_driver_turn
  simp only [halloc, hlen, hoffset, hcopy, hclose, hkept.bitmap, Option.bind_eq_bind,
    Option.bind_some]
  rfl

/-- A write to the block leaves the other frames as they are. -/
theorem writeBytes_frames {d a g : Nat} (bytes : List Nat) (h : Reached m d a bytes.length)
    (hne : ∀ k x, k < bytes.length → m.entry d (a + k) = some x → frameOf x ≠ g) :
    (writeBytes m d a bytes).frames g = m.frames g := by
  induction bytes generalizing m a with
  | nil => rfl
  | cons b bs ih =>
    rw [List.length_cons] at h hne
    obtain ⟨x, hx, -, hstep, hrest⟩ := reached_first h b
    unfold writeBytes
    rw [ih hrest, putAt_frames hx (hne 0 x (by omega) hx)]
    intro k y hk hy
    rw [hstep.entries, Nat.add_assoc, Nat.add_comm 1] at hy
    exact hne (k + 1) y (by omega) hy

theorem writeBytes_setBitmap (b : memory_bitmap_t) (d a : Nat) (bytes : List Nat) :
    writeBytes (m.setBitmap b) d a bytes = (writeBytes m d a bytes).setBitmap b := by
  induction bytes generalizing m a with
  | nil => rfl
  | cons c cs ih =>
    have hput : putAt (m.setBitmap b) d a c = (putAt m d a c).setBitmap b := by
      unfold putAt
      rw [entry_setBitmap]
      cases m.entry d a <;> rfl
    unfold writeBytes
    rw [hput, ih]

/-- A byte of a block is written, and no later one goes to the same place. -/
theorem writeBytes_block {a n : Nat} (h : Block m a n) (bytes : List Nat) (hlen : bytes.length = n)
    {k : Nat} (hk : k < n) :
    byteIn (writeBytes m m.dir a bytes) m.dir (a + k) = some (bytes.getD k 0 % 256) := by
  have hreach : Reached m m.dir a bytes.length := by
    rw [hlen]
    exact h.reached
  obtain ⟨x, hx, -⟩ := h.reached k hk
  unfold byteIn
  rw [(writeBytes_walks _ hreach).entries, hx, Option.map_some,
    writeBytes_last bytes hreach (by omega) hx]
  rintro j hkj hj ⟨y, hy, hframe, hoffset⟩
  have hpage := h.apart j k y x (by omega) hk hy hx hframe
  omega

end chunk

/-! ## The whole loop -/

/-- What the loop has done when it is about to look at a page. -/
structure Copied (m : Machine) (mod_start mod_end a : Nat) (s : Handover) : Prop where
  aligned : s.page % 4096 = 0
  lower : ALIGN_DOWN mod_start ≤ s.page
  upper : s.page < mod_end + 4096
  count : s.copied = min s.page mod_end - mod_start
  machine : ∃ b, s.machine =
    (writeBytes m m.dir a ((List.range' mod_start s.copied).map (physicalByte m))).setBitmap b
  sources : s.sources = List.range' mod_start s.copied
  freed : ∀ address ∈ s.freed,
    address % 4096 = 0 ∧ ALIGN_DOWN mod_start ≤ address ∧ address < mod_end

section run

variable {m : Machine} {mod_start mod_end a : Nat}

/-- The chunk of a page of the module. -/
theorem page_chunk (hend : mod_end ≤ 0xFFFFF000) {page : Nat} (hp : page % 4096 = 0)
    (hlo : ALIGN_DOWN mod_start ≤ page) (hlt : page < mod_end) (hne : mod_start < mod_end) :
    u32 (page + PAGE_SIZE) = page + 4096 ∧ chunk_start mod_start page = max page mod_start ∧
      chunk_len mod_start mod_end page = min (page + 4096) mod_end - max page mod_start := by
  have hnext : u32 (page + PAGE_SIZE) = page + 4096 := u32_of_lt (by unfold PAGE_SIZE; omega)
  have hstart : chunk_start mod_start page = max page mod_start := by
    unfold chunk_start
    split <;> omega
  have hstop : chunk_end mod_end page = min (page + 4096) mod_end := by
    unfold chunk_end
    rw [hnext]
    split <;> omega
  unfold ALIGN_DOWN at hlo
  refine ⟨hnext, hstart, ?_⟩
  unfold chunk_len
  rw [hstart, hstop]
  exact sub32_of_le (by omega) (by omega)

/-- The frames of the module are none that the loop writes to. -/
def Undisturbed (m : Machine) (mod_start mod_end a : Nat) : Prop :=
  ∀ address, mod_start ≤ address → address < mod_end → address / 4096 ≠ m.bounceTable ∧
    ∀ k x, k < mod_end - mod_start → m.entry m.dir (a + k) = some x → frameOf x ≠ address / 4096

/-- What the copy so far leaves as it was. -/
structure Preserved (m m' : Machine) (a n : Nat) : Prop where
  windows : Windows m'
  slots : freeSlots m' = freeSlots m
  dir : m'.dir = m.dir
  bounce : m'.bounceTable = m.bounceTable
  entries : ∀ v, m'.entry m.dir v = m.entry m.dir v
  plain : ∀ f, Plain m m.dir f → Plain m' m.dir f
  frames : ∀ f, (∀ k x, k < n → m.entry m.dir (a + k) = some x → frameOf x ≠ f) →
    m'.frames f = m.frames f
  directory : m'.frames m.dir = m.frames m.dir

theorem Block.plain {n : Nat} (h : Block m a n) {k x : Nat} (hk : k < n)
    (hx : m.entry m.dir (a + k) = some x) : Plain m m.dir (frameOf x) := by
  obtain ⟨y, hy, -, hp⟩ := h.reached k hk
  rw [hx, Option.some_inj] at hy
  subst hy
  exact hp

theorem Block.preserved {n : Nat} (h : Block m a n) (hw : Windows m) (bytes : List Nat)
    (hlen : bytes.length ≤ n) (b : memory_bitmap_t) :
    Preserved m ((writeBytes m m.dir a bytes).setBitmap b) a n := by
  have hreach : Reached m m.dir a bytes.length := h.reached.part (c := 0) (by omega)
  have hkept := writeBytes_walks _ hreach
  have hframes : ∀ f, (∀ k x, k < n → m.entry m.dir (a + k) = some x → frameOf x ≠ f) →
      (writeBytes m m.dir a bytes).frames f = m.frames f := by
    intro f hf
    exact writeBytes_frames _ hreach fun k x hk hx => hf k x (by omega) hx
  have hdirectory := hframes m.dir fun k x hk hx => (h.plain hk hx).ne_current
  have hdir : (writeBytes m m.dir a bytes).dir = m.dir := congrArg frameOf hkept.cr3
  constructor
  · exact windows_setBitmap (hkept.windows hw) b
  · unfold freeSlots
    exact congrArg (fun used => (Finset.range 16).filter fun i => used i = false) hkept.slots
  · exact hdir
  · unfold bounceTable
    exact congrArg (fun words => frameOf (words 1022)) ((congrArg _ hdir).trans hdirectory)
  · intro v
    rw [entry_setBitmap, hkept.entries]
  · intro f hf
    obtain ⟨h1, h2, h3, h4⟩ := hkept.plain f hf
    exact ⟨h1, h2, h3, h4⟩
  · exact hframes
  · exact hdirectory

/-- The part of the block that is still to be written can be written. -/
theorem Preserved.reached {m' : Machine} {n c k : Nat} (h : Preserved m m' a n)
    (hblock : Block m a n) (hk : c + k ≤ n) : Reached m' m'.dir (a + c) k := by
  intro j hj
  obtain ⟨x, hx, h0, hp⟩ := hblock.reached (c + j) (by omega)
  rw [h.dir]
  exact ⟨x, by rw [h.entries, Nat.add_assoc]; exact hx, h0, h.plain _ hp⟩

/-- The module's bytes are still there. -/
theorem Preserved.bytes {m' : Machine} (h : Preserved m m' a (mod_end - mod_start))
    (hmod : Undisturbed m mod_start mod_end a) {first n : Nat} (hlo : mod_start ≤ first)
    (hhi : first + n ≤ mod_end) :
    (List.range' first n).map (physicalByte m') = (List.range' first n).map (physicalByte m) := by
  apply List.map_congr_left
  intro address haddress
  have hrange := List.mem_range'_1.mp haddress
  unfold physicalByte
  rw [h.frames _ (hmod address (by omega) (by omega)).2]

/-- A turn copies the next part of the module. -/
theorem Copied.next (hw : Windows m) (hs : 0 < (freeSlots m).card)
    (hblock : Block m a (mod_end - mod_start)) (hmod : Undisturbed m mod_start mod_end a)
    (hend : mod_end ≤ 0xFFFFF000) (hne : mod_start < mod_end) {s : Handover}
    (h : Copied m mod_start mod_end a s) (hlt : s.page < mod_end) :
    ∃ s', ramfs_driver_turn mod_start mod_end a s = some s' ∧ s'.page = s.page + 4096 ∧
      Copied m mod_start mod_end a s' := by
  obtain ⟨hnext, hstart, hlen⟩ := page_chunk hend h.aligned h.lower hlt hne
  obtain ⟨hal, hlow, hup, hcount, ⟨b, hmachine⟩, hsources, hfreed⟩ := h
  have htop := hblock.top
  unfold ALIGN_DOWN at hlow
  -- The bytes that were copied before lie in front of the chunk.
  have hfirst : max s.page mod_start = mod_start + s.copied := by omega
  obtain ⟨n, hn⟩ : ∃ n, min (s.page + 4096) mod_end - max s.page mod_start = n := ⟨_, rfl⟩
  rw [hn] at hlen
  rw [hfirst] at hstart
  have hpage : s.page / 4096 = (mod_start + s.copied) / 4096 := by omega
  obtain ⟨hbounce, hframe⟩ := hmod (mod_start + s.copied) (by omega) (by omega)
  have hkept : Preserved m s.machine a (mod_end - mod_start) := by
    rw [hmachine]
    apply hblock.preserved hw
    rw [List.length_map, List.length_range']
    omega
  have hturn := turn_copies (a := a) hkept.windows (by rw [hkept.slots]; exact hs) rfl hal hlen
    (by omega) (by omega) (hkept.reached hblock (by omega))
    (by
      intro k hk
      rw [hkept.dir, hkept.bounce, hkept.directory, Nat.add_assoc]
      exact hblock.tables (s.copied + k) (by omega))
    (by rw [hkept.bounce, hpage]; exact hbounce)
    (by
      intro k x hk hx
      rw [hkept.dir, hkept.entries, Nat.add_assoc] at hx
      rw [hpage]
      exact hframe (s.copied + k) x (by omega) hx)
  have hcopied : u32 (s.copied + n) = s.copied + n := u32_of_lt (by omega)
  rw [hnext, hstart, hcopied, hkept.dir, hkept.bytes hmod (by omega) (by omega)] at hturn
  refine ⟨_, hturn, rfl, ?_⟩
  constructor
  all_goals dsimp only
  · omega
  · unfold ALIGN_DOWN
    omega
  · omega
  · omega
  · refine ⟨memory_bitmap_free s.machine.memory_bitmap s.page, ?_⟩
    rw [← List.range'_append_1, List.map_append, writeBytes_append, List.length_map,
      List.length_range', hmachine, writeBytes_setBitmap]
    rfl
  · rw [hsources]
    exact List.range'_append_1
  · intro address haddress
    rw [List.mem_append, List.mem_singleton] at haddress
    rcases haddress with haddress | rfl
    · exact hfreed address haddress
    · exact ⟨hal, by unfold ALIGN_DOWN; omega, hlt⟩

/-- From any page the loop ends, with the whole module copied. -/
theorem Copied.run (hw : Windows m) (hs : 0 < (freeSlots m).card)
    (hblock : Block m a (mod_end - mod_start)) (hmod : Undisturbed m mod_start mod_end a)
    (hend : mod_end ≤ 0xFFFFF000) (hne : mod_start < mod_end) {s : Handover}
    (h : Copied m mod_start mod_end a s) :
    ∃ turns s', ramfs_driver_loop mod_start mod_end a turns s = some s' ∧
      Copied m mod_start mod_end a s' ∧ mod_end ≤ s'.page := by
  obtain ⟨n, hn⟩ : ∃ n, mod_end - s.page = n := ⟨_, rfl⟩
  induction n using Nat.strong_induction_on generalizing s with
  | _ n ih =>
    by_cases hlt : s.page < mod_end
    · obtain ⟨s1, hturn, hpage, h1⟩ := h.next hw hs hblock hmod hend hne hlt
      obtain ⟨turns, s', hrun, hdone⟩ := ih (mod_end - s1.page) (by omega) h1 rfl
      refine ⟨turns + 1, s', ?_, hdone⟩
      unfold ramfs_driver_loop
      rw [if_pos hlt, hturn]
      exact hrun
    · exact ⟨0, s, by simp [ramfs_driver_loop, hlt], h, by omega⟩

end run

/-! ## The hand-over -/

section handover

variable {entries : Nat → Nat} {multiboot : multiboot_info_t} {initrd : multiboot_module_t}
  {others : List multiboot_module_t} {m : Machine} {tar_data : Nat}

/-- The boot has locked the pages of the module, so no page of the block is one of them. -/
theorem Booted.undisturbed (hmods : multiboot.mods = initrd :: others)
    (hend : initrd.mod_end ≤ 0xFFFFF000)
    (h : Booted entries multiboot m tar_data (initrd.mod_end - initrd.mod_start)) :
    Undisturbed m initrd.mod_start initrd.mod_end tar_data := by
  intro address hlo hhi
  have hoverlaps : Overlaps initrd.mod_start initrd.mod_end (address / 4096) :=
    ⟨address, hlo, hhi, rfl⟩
  have hlocked : Locked multiboot (address / 4096) :=
    Or.inr (Or.inl ⟨initrd, by simp [hmods], hoverlaps.locksBytes hend⟩)
  have hused : ∀ f, f < bitmap_pages_of multiboot →
      ¬ Used (memory_bitmap_module_init entries multiboot) f → f ≠ address / 4096 := by
    rintro f hf hfree rfl
    exact hfree ((used_after_init entries multiboot hf).mpr (Or.inr hlocked))
  constructor
  · exact (hused _ h.bounce_frame.1 h.bounce_frame.2).symm
  · intro k x hk hx
    obtain ⟨hf, hfree⟩ := h.block_frames k x hk hx
    exact hused _ hf hfree

theorem byteAt_mod (w : Nat → Nat) (k : Nat) : byteAt w k % 256 = byteAt w k := by
  unfold byteAt byteOf
  omega

/-- What the loop has done at its end is the hand-over. -/
theorem Copied.finished {s : Handover}
    (h : Booted entries multiboot m tar_data (initrd.mod_end - initrd.mod_start))
    (hc : Copied m initrd.mod_start initrd.mod_end tar_data s)
    (hpage : initrd.mod_end ≤ s.page) :
    s.sources = List.range' initrd.mod_start (initrd.mod_end - initrd.mod_start) ∧
      ∀ k, k < initrd.mod_end - initrd.mod_start →
        byteIn s.machine s.machine.dir (tar_data + k) =
          some (physicalByte m (initrd.mod_start + k)) := by
  have hcount : s.copied = initrd.mod_end - initrd.mod_start := by
    have := hc.count
    omega
  obtain ⟨b, hmachine⟩ := hc.machine
  rw [hcount] at hmachine
  constructor
  · rw [hc.sources, hcount]
  · intro k hk
    have hkept := h.block.preserved h.windows
      ((List.range' initrd.mod_start (initrd.mod_end - initrd.mod_start)).map (physicalByte m))
      (by simp) b
    rw [← hmachine] at hkept
    have hbyte := writeBytes_block h.block
      ((List.range' initrd.mod_start (initrd.mod_end - initrd.mod_start)).map (physicalByte m))
      (by simp) hk
    rw [List.getD_eq_getElem _ _ (by simpa using hk), List.getElem_map, List.getElem_range',
      Nat.one_mul] at hbyte
    unfold physicalByte at hbyte ⊢
    rw [byteAt_mod] at hbyte
    rw [hkept.dir, ← hbyte, hmachine]
    unfold byteIn
    rw [entry_setBitmap]
    rfl

/-- The initrd is handed over in full, and only its own pages are freed, exactly when it shares
no page with the kernel, the bitmap or another module, and does not end in the last page of the
address space. -/
theorem the_initrd_is_handed_over (hmods : multiboot.mods = initrd :: others)
    (hne : initrd.mod_start < initrd.mod_end)
    (h : Booted entries multiboot m tar_data (initrd.mod_end - initrd.mod_start)) :
    HandedOver multiboot initrd others m tar_data ↔ OnItsOwn multiboot initrd others := by
  have haligned := ALIGN_DOWN_mod initrd.mod_start
  have hle := ALIGN_DOWN_le initrd.mod_start
  constructor
  · rintro ⟨turns, s, hrun, -, -, hown⟩
    have hstart := initrd.start_lt
    have hend : initrd.mod_end ≤ 0xFFFFF000 := by
      by_contra hlast
      have hnone : ramfs_driver_init turns m initrd tar_data = none :=
        loop_goes_on (by omega) turns _ haligned (by dsimp only; omega)
      rw [hnone] at hrun
      cases hrun
    refine ⟨hend, ?_⟩
    intro p hp
    obtain ⟨hfirst, hlow, hhigh⟩ := overlaps_iff.mp hp
    have hfreed := (loop_frees hend hrun haligned).2 p
      (by dsimp only; unfold ALIGN_DOWN; omega) hhigh
    have hpage := hown _ hfreed
    rwa [show 4096 * p / PAGE_SIZE = p by unfold PAGE_SIZE; omega] at hpage
  · rintro ⟨hend, hown⟩
    have hstart : Copied m initrd.mod_start initrd.mod_end tar_data
        { machine := m, page := ALIGN_DOWN initrd.mod_start, copied := 0, sources := []
          freed := [] } :=
      ⟨haligned, le_refl _, by dsimp only; omega, by dsimp only; omega, ⟨m.memory_bitmap, rfl⟩, rfl,
        by simp⟩
    obtain ⟨turns, s, hrun, hdone, hpage⟩ :=
      hstart.run h.windows h.slots h.block (h.undisturbed hmods hend) hend hne
    obtain ⟨hsources, hbytes⟩ := Copied.finished h hdone hpage
    refine ⟨turns, s, hrun, hsources, hbytes, ?_⟩
    intro address haddress
    obtain ⟨hal, hlo, hhi⟩ := hdone.freed address haddress
    unfold ALIGN_DOWN at hlo
    apply hown
    exact overlaps_iff.mpr ⟨hne, by unfold PAGE_SIZE; omega, by unfold PAGE_SIZE; omega⟩

end handover

/-! ## Two boots -/

/-- Sixteen bytes on two pages. -/
def smallInitrd : multiboot_module_t := ⟨0x300FF8, 0x301008, by decide, by decide⟩

/-- Another module in the rest of the second page. -/
def nextModule : multiboot_module_t := ⟨0x301008, 0x302000, by decide, by decide⟩

def smallBoot (others : List multiboot_module_t) : multiboot_info_t where
  mmap := [⟨0, 0x400000, 1, first_address_lt, by decide⟩]
  mods := smallInitrd :: others
  kernel_physical_start := 0x100000
  kernel_physical_end := 0x101000
  kernel_start_lt := oneExtraPage.kernel_start_lt
  kernel_end_lt := by decide

/-- A directory with itself, the table of the bounce pages and one page of the kernel heap. -/
def bootFrames (f i : Nat) : Nat :=
  if f = 0x200 then
    if i = 960 then 0x202003 else if i = 1022 then 0x201003 else if i = 1023 then 0x200003 else 0
  else if f = 0x202 then if i = 0 then 0x203003 else 0
  else 0

def bootMachine : Machine where
  frames := bootFrames
  cr3 := 0x200000
  memory_bitmap := memory_bitmap_module_init (fun _ => 0) (smallBoot [nextModule])
  bounce_pages_used := fun _ => false
  kernel_page_directory_phys := 0x200000

theorem boot_frame_free {others : List multiboot_module_t}
    (h : ∀ mod ∈ others, 0x300000 ≤ mod.mod_start) {f : Nat} (hlo : 0x200 ≤ f) (hhi : f < 0x300) :
    f < bitmap_pages_of (smallBoot others) ∧
      ¬ Used (memory_bitmap_module_init (fun _ => 0) (smallBoot others)) f := by
  have hpages : bitmap_pages_of (smallBoot others) = 1024 :=
    (show bitmap_pages_of (smallBoot []) = 1024 by decide)
  have hstart : bitmap_start (smallBoot others) = 0x101 :=
    (show bitmap_start (smallBoot []) = 0x101 by decide)
  refine ⟨by omega, ?_⟩
  rw [used_after_init _ _ (by omega), not_or, not_not]
  constructor
  · exact ⟨_, List.mem_cons_self, rfl, Nat.zero_le f,
      lt_of_lt_of_le (show f < 0x400 by omega) (by decide)⟩
  · unfold Locked
    rw [hstart, hpages, show ALIGN_UP (1024 / 8) / 4096 = 1 by decide]
    rintro (hc | ⟨mod, hmod, hc, -⟩ | ⟨-, hc⟩ | ⟨-, hc⟩)
    · omega
    · rcases List.mem_cons.mp hmod with rfl | hmod
      · rw [show smallInitrd.mod_start / 4096 = 0x300 by decide] at hc
        omega
      · have := h mod hmod
        omega
    · rw [show u32 ((smallBoot others).kernel_physical_end + 4095) / 4096 = 0x101 from
        (show u32 (0x101000 + 4095) / 4096 = 0x101 by decide)] at hc
      omega
    · omega

theorem boot_windows : Windows bootMachine where
  self_present := by decide
  self := by decide
  bounce_present := by decide
  apart := by decide
  closed := by
    intro i hi hu
    rw [show bootMachine.bounceTable = 0x201 by decide]
    rfl

theorem boot_entry {a : Nat} (hlo : 0xF0000000 ≤ a) (hhi : a < 0xF0001000) :
    page_directory_index a = 960 ∧
      bootMachine.entry bootMachine.dir a = some 0x203003 := by
  have hpdi : page_directory_index a = 960 := by
    unfold page_directory_index
    omega
  have hpti : page_table_index a = 0 := by
    unfold page_table_index
    omega
  refine ⟨hpdi, entry_eq_some.mpr ?_⟩
  rw [hpdi, hpti]
  decide

theorem boot_plain : Plain bootMachine bootMachine.dir 0x203 where
  ne_current := by decide
  ne_bounce := by decide
  ne_dir := by decide
  ne_table := by
    intro j hj hp
    have hdir : bootMachine.frames bootMachine.dir j =
        if j = 960 then 0x202003 else if j = 1022 then 0x201003 else
          if j = 1023 then 0x200003 else 0 := by
      rw [show bootMachine.dir = 0x200 by decide]
      rfl
    rw [hdir]
    split
    · decide
    · split
      · decide
      · split <;> decide

theorem boot_block : Block bootMachine 0xF0000000 16 where
  top := by decide
  reached := by
    intro k hk
    exact ⟨_, (boot_entry (by omega) (by omega)).2, by decide, boot_plain⟩
  tables := by
    intro k hk
    rw [(boot_entry (by omega) (by omega)).1]
    decide
  apart := by
    intro j k x y hj hk hx hy hf
    omega

theorem small_booted {others : List multiboot_module_t}
    (h : ∀ mod ∈ others, 0x300000 ≤ mod.mod_start) :
    Booted (fun _ => 0) (smallBoot others) bootMachine 0xF0000000
      (smallInitrd.mod_end - smallInitrd.mod_start) where
  windows := boot_windows
  slots := by decide
  block := boot_block
  block_frames := by
    intro k x hk hx
    rw [show smallInitrd.mod_end - smallInitrd.mod_start = 16 by decide] at hk
    rw [(boot_entry (by omega) (by omega)).2, Option.some_inj] at hx
    subst hx
    exact boot_frame_free h (by decide) (by decide)
  bounce_frame := boot_frame_free h (by decide) (by decide)

theorem small_initrd_is_on_its_own : OnItsOwn (smallBoot []) smallInitrd [] := by
  refine ⟨by decide, ?_⟩
  intro p hp
  obtain ⟨-, hlo, -⟩ := overlaps_iff.mp hp
  have hfirst : 0x300 ≤ p := hlo
  rintro (hk | hb | ⟨mod, hmod, -⟩)
  · obtain ⟨-, -, hlt⟩ := overlaps_iff.mp hk
    have hlast : 4096 * p < 0x101000 := hlt
    omega
  · obtain ⟨-, -, hlt⟩ := overlaps_iff.mp hb
    have hlast : ALIGN_UP (smallBoot []).kernel_physical_end + bitmap_bytes (smallBoot []) =
      0x101080 := by decide
    omega
  · cases hmod

theorem a_small_initrd_is_handed_over :
    HandedOver (smallBoot []) smallInitrd [] bootMachine 0xF0000000 :=
  (the_initrd_is_handed_over rfl (by decide) (small_booted (by simp))).mpr
    small_initrd_is_on_its_own

/-- The page that two modules share is freed while the second one is still in it. -/
theorem a_shared_page_is_freed :
    ∃ multiboot initrd others, multiboot.mods = initrd :: others ∧
      initrd.mod_start < initrd.mod_end ∧
      Booted (fun _ => 0) multiboot bootMachine 0xF0000000 (initrd.mod_end - initrd.mod_start) ∧
      ¬ HandedOver multiboot initrd others bootMachine 0xF0000000 := by
  refine ⟨smallBoot [nextModule], smallInitrd, [nextModule], rfl, by decide,
    small_booted (by simp [nextModule]), ?_⟩
  rintro ⟨turns, s, hrun, -, -, hown⟩
  have hfreed := (loop_frees (by decide) hrun (by decide)).2 0x301 (by decide) (by decide)
  exact hown _ hfreed (Or.inr (Or.inr ⟨nextModule, List.mem_singleton_self _,
    0x301008, by decide, by decide, by decide⟩))

end alura_os.ramfs_driver
