-- What an archive in memory says: its members with their fields, and that the parser reads them as they
-- are written.
import AluraOs.UstarReads

namespace alura_os.ustar

open alura_os.memory alura_os.vfs
open vfs_node_type

variable {memory : Nat → Nat} {p : Nat}

/-! ## Members -/

/-- A member of an archive. -/
structure member_t where
  name : List Nat
  filename_prefix : List Nat
  type : vfs_node_type
  data : List Nat
  deriving DecidableEq, Repr

/-- `filename_prefix`, with a slash behind it if there is one, and `name`. -/
def member_t.text (m : member_t) : List Nat :=
  (if m.filename_prefix = [] then [] else m.filename_prefix ++ [47]) ++ m.name

def member_t.full_name (m : member_t) : List Char := m.text.map Char.ofNat

/-- The path without the leading dot, as the names that it consists of. -/
def member_t.path (m : member_t) : List (List Char) := components [] (tar_path m.full_name)

/-- The data of a member with what fills its last block. -/
def member_t.rounded (m : member_t) : Nat :=
  (m.data.length + TAR_BLOCK_SIZE - 1) / TAR_BLOCK_SIZE * TAR_BLOCK_SIZE

/-! ## The layout -/

/-- The bytes from `a` on. -/
def Bytes (memory : Nat → Nat) (a : Nat) (bytes : List Nat) : Prop :=
  ∀ i < bytes.length, memory (a + i) = bytes.getD i 0

/-- A field of characters, with a zero behind them if there is room for it. -/
structure Field (memory : Nat → Nat) (a length : Nat) (text : List Nat) : Prop where
  fits : text.length ≤ length
  chars : Bytes memory a text
  stop : text.length < length → memory (a + text.length) = 0

/-- A field of octal digits. -/
def Octal (memory : Nat → Nat) (a length n : Nat) : Prop :=
  ∃ digits : List Nat, digits.length ≤ length ∧ (∀ d ∈ digits, d < 8) ∧
    digits.foldl (fun v d => v * 8 + d) 0 = n ∧
    Bytes memory a (digits.map (48 + ·)) ∧
    (digits.length < length →
      memory (a + digits.length) < 48 ∨ 55 < memory (a + digits.length))

/-- The size of the fields `name` and `filename_prefix`. -/
def NAME_LENGTH : Nat := 100
def FILENAME_PREFIX_LENGTH : Nat := 155

/-- The header of a member. -/
structure Header (memory : Nat → Nat) (p : Nat) (m : member_t) : Prop where
  name : Field memory p NAME_LENGTH m.name
  filename_prefix : Field memory (p + FILENAME_PREFIX_OFFSET) FILENAME_PREFIX_LENGTH m.filename_prefix
  size : Octal memory (p + SIZE_OFFSET) SIZE_LENGTH m.data.length
  type : memory (p + TYPE_OFFSET) = 53 ↔ m.type = VFS_NODE_TYPE_DIRECTORY

/-- The members from `p` on, each with its data, and a block of zeros behind the last. -/
inductive Archive (memory : Nat → Nat) (tar_end : Nat) : Nat → List member_t → Prop
  | zero {p : Nat} : p + TAR_BLOCK_SIZE ≤ tar_end →
      (∀ i < TAR_BLOCK_SIZE, memory (p + i) = 0) → Archive memory tar_end p []
  | member {p : Nat} {m : member_t} {members : List member_t} :
      p + TAR_BLOCK_SIZE + m.rounded ≤ tar_end → Header memory p m →
      Bytes memory (p + TAR_BLOCK_SIZE) m.data →
      Archive memory tar_end (p + TAR_BLOCK_SIZE + m.rounded) members →
      Archive memory tar_end p (m :: members)

/-- The path of a member can be in an archive. -/
structure Named (m : member_t) : Prop where
  dotted : ∃ rest, m.full_name = '.' :: '/' :: rest
  short : m.text.length < VFS_NODE_NAME_LENGTH
  chars : 0 ∉ m.name ∧ 0 ∉ m.filename_prefix
  file : m.type = VFS_NODE_TYPE_FILE → m.full_name.getLast? ≠ some '/'
  directory : m.type = VFS_NODE_TYPE_DIRECTORY → ¬ ['/', '/'] <:+ m.full_name ∧ m.data = []

/-! ## Fields that are read -/

/-- `name` and `filename_prefix` end where the parser looks for their end: with a zero in the field or
behind it, or where the buffer of the path is full. -/
def Terminated (memory : Nat → Nat) (p : Nat) (m : member_t) : Prop :=
  (m.name.length < NAME_LENGTH ∨ memory (p + NAME_LENGTH) = 0 ∨
      m.text.length = VFS_NODE_NAME_LENGTH - 1) ∧
    (m.filename_prefix.length < FILENAME_PREFIX_LENGTH ∨
      memory (p + FILENAME_PREFIX_OFFSET + FILENAME_PREFIX_LENGTH) = 0)

theorem Bytes.head {a c : Nat} {bytes : List Nat} (h : Bytes memory a (c :: bytes)) :
    memory a = c := by
  simpa using h 0 (by simp)

theorem Bytes.tail {a c : Nat} {bytes : List Nat} (h : Bytes memory a (c :: bytes)) :
    Bytes memory (a + 1) bytes := by
  intro i hi
  have := h (i + 1) (by simpa using hi)
  rwa [Nat.add_assoc, Nat.add_comm 1]

theorem strncpy_text {src n : Nat} {text : List Nat} (hsrc : src + text.length < 0x100000000)
    (hlen : text.length ≤ n) (hchars : Bytes memory src text) (hne : 0 ∉ text)
    (hstop : text.length < n → memory (src + text.length) = 0) :
    (strncpy src n memory).1 = text := by
  induction text generalizing src n with
  | nil =>
    cases n with
    | zero => rfl
    | succ n =>
      have hz : memory (u32 src) = 0 := by
        rw [u32_of_lt (by simpa using hsrc)]
        exact hstop (by simp)
      simp [strncpy, byte_bind, hz, reading_pure]
  | cons c text ih =>
    rw [List.length_cons] at hsrc hlen hstop
    obtain ⟨n, rfl⟩ : ∃ k, n = k + 1 := ⟨n - 1, by omega⟩
    rw [List.mem_cons, not_or] at hne
    have hc : memory (u32 src) = c := by
      rw [u32_of_lt (by omega)]
      exact hchars.head
    have htail : (strncpy (src + 1) n memory).1 = text :=
      ih (by omega) (by omega) hchars.tail hne.2 (by
        intro hlt
        rw [Nat.add_assoc, Nat.add_comm 1]
        exact hstop (by omega))
    have hc0 : ¬ c = 0 := fun h => hne.1 h.symm
    simp only [strncpy, byte_bind]
    rw [if_neg (by rwa [hc]), hc]
    simp only [reading_bind, reading_pure, htail]

theorem copy_chars_text {src room : Nat} {text : List Nat}
    (hsrc : src + text.length < 0x100000000) (hlen : text.length ≤ room)
    (hchars : Bytes memory src text) (hne : 0 ∉ text)
    (hstop : text.length < room → memory (src + text.length) = 0) :
    (copy_chars src room memory).1 = text := by
  induction text generalizing src room with
  | nil =>
    cases room with
    | zero => simp [copy_chars, byte_bind, reading_pure]
    | succ room =>
      have hz : memory (u32 src) = 0 := by
        rw [u32_of_lt (by simpa using hsrc)]
        exact hstop (by simp)
      simp [copy_chars, byte_bind, hz, reading_pure]
  | cons c text ih =>
    rw [List.length_cons] at hsrc hlen hstop
    obtain ⟨room, rfl⟩ : ∃ k, room = k + 1 := ⟨room - 1, by omega⟩
    rw [List.mem_cons, not_or] at hne
    have hc : memory (u32 src) = c := by
      rw [u32_of_lt (by omega)]
      exact hchars.head
    have htail : (copy_chars (src + 1) room memory).1 = text :=
      ih (by omega) (by omega) hchars.tail hne.2 (by
        intro hlt
        rw [Nat.add_assoc, Nat.add_comm 1]
        exact hstop (by omega))
    have hc0 : ¬ c = 0 := fun h => hne.1 h.symm
    simp only [copy_chars, byte_bind]
    rw [if_neg (by rwa [hc]), hc]
    simp only [reading_bind, reading_pure, htail]

theorem u32_digits (digits : List Nat) (value : Nat) :
    u32 (digits.foldl (fun v d => v * 8 + d) (u32 value)) =
      u32 (digits.foldl (fun v d => v * 8 + d) value) := by
  induction digits generalizing value with
  | nil => simp [u32]
  | cons d digits ih =>
    rw [List.foldl_cons, List.foldl_cons, ← ih (u32 value * 8 + d), ← ih (value * 8 + d)]
    congr 2
    unfold u32
    omega

theorem size_text {text length value : Nat} {digits : List Nat}
    (hsrc : text + digits.length < 0x100000000) (hlen : digits.length ≤ length)
    (hdigits : ∀ d ∈ digits, d < 8) (hchars : Bytes memory text (digits.map (48 + ·)))
    (hvalue : value < 0x100000000)
    (hstop : digits.length < length →
      memory (text + digits.length) < 48 ∨ 55 < memory (text + digits.length)) :
    (tar_get_size_from_octal value text length memory).1 =
      u32 (digits.foldl (fun v d => v * 8 + d) value) := by
  induction digits generalizing text length value with
  | nil =>
    cases length with
    | zero =>
      rw [List.foldl_nil, u32_of_lt hvalue]
      rfl
    | succ length =>
      have hend : memory (u32 text) < 48 ∨ 55 < memory (u32 text) := by
        rw [u32_of_lt (by simpa using hsrc)]
        exact hstop (by simp)
      rw [List.foldl_nil, u32_of_lt hvalue]
      simp [tar_get_size_from_octal, byte_bind, hend, reading_pure]
  | cons d digits ih =>
    rw [List.length_cons] at hsrc hlen hstop
    obtain ⟨length, rfl⟩ : ∃ k, length = k + 1 := ⟨length - 1, by omega⟩
    have hd : d < 8 := hdigits d List.mem_cons_self
    have hc : memory (u32 text) = 48 + d := by
      rw [u32_of_lt (by omega)]
      exact hchars.head
    have hin : ¬ (memory (u32 text) < 48 ∨ 55 < memory (u32 text)) := by omega
    have htail : (tar_get_size_from_octal (u32 (value * 8 + d)) (text + 1) length memory).1 =
        u32 (digits.foldl (fun v d => v * 8 + d) (u32 (value * 8 + d))) :=
      ih (by omega) (by omega) (fun x hx => hdigits x (List.mem_cons_of_mem _ hx)) hchars.tail
        (u32_lt _) (by
          intro hlt
          rw [Nat.add_assoc, Nat.add_comm 1]
          exact hstop (by omega))
    rw [u32_digits] at htail
    simp only [tar_get_size_from_octal, byte_bind]
    rw [if_neg hin, hc, Nat.add_sub_cancel_left, htail, List.foldl_cons]

/-! ## Headers that are read -/

theorem zero_block_iff {block n : Nat} :
    (tar_is_zero_block block n memory).1 = true ↔ ∀ i < n, memory (u32 (block + i)) = 0 := by
  induction n generalizing block with
  | zero => simp [tar_is_zero_block, reading_pure]
  | succ n ih =>
    simp only [tar_is_zero_block, byte_bind]
    by_cases hc : memory (u32 block) ≠ 0
    · rw [if_pos hc]
      simp only [reading_pure, Bool.false_eq_true, false_iff, not_forall]
      exact ⟨0, by omega, hc⟩
    · rw [if_neg hc, ih]
      push Not at hc
      constructor
      · intro h i hi
        cases i with
        | zero => exact hc
        | succ i =>
          have := h i (by omega)
          rwa [Nat.add_assoc, Nat.add_comm 1] at this
      · intro h i hi
        have := h (i + 1) (by omega)
        rwa [Nat.add_assoc, Nat.add_comm 1]

variable {m : member_t}

/-- The path is read as it is written, if its fields are terminated. -/
theorem full_name_text (h : Header memory p m) (hn : Named m) (ht : Terminated memory p m)
    (hp : p + TAR_BLOCK_SIZE ≤ 0x100000000) : (tar_full_name p memory).1 = m.text := by
  have hname := h.name.fits
  have hprefix := h.filename_prefix.fits
  have hshort := hn.short
  unfold TAR_BLOCK_SIZE at hp
  unfold NAME_LENGTH at hname
  unfold FILENAME_PREFIX_LENGTH at hprefix
  -- Where `name` ends before the buffer does, there is a zero.
  have hstop : m.text.length < VFS_NODE_NAME_LENGTH - 1 → memory (p + m.name.length) = 0 := by
    intro hlt
    rcases ht.1 with hlen | hzero | hfull
    · exact h.name.stop hlen
    · by_cases hlen : m.name.length < NAME_LENGTH
      · exact h.name.stop hlen
      · obtain hlen : m.name.length = NAME_LENGTH := by
          unfold NAME_LENGTH at hlen ⊢
          omega
        rwa [hlen]
    · omega
  simp only [tar_full_name, byte_bind]
  by_cases hnil : m.filename_prefix = []
  · have hzero : memory (u32 (p + FILENAME_PREFIX_OFFSET)) = 0 := by
      have := h.filename_prefix.stop (by rw [hnil]; decide)
      rw [hnil] at this
      rwa [u32_of_lt (by unfold FILENAME_PREFIX_OFFSET; omega)]
    have htext : m.text = m.name := by simp [member_t.text, hnil]
    rw [if_neg (by rw [hzero]; simp), htext]
    rw [htext] at hstop
    unfold VFS_NODE_NAME_LENGTH at hstop ⊢
    exact strncpy_text (by omega) (by omega) h.name.chars hn.chars.1 (fun hlt => hstop hlt)
  · obtain ⟨c, rest, hcons⟩ := List.exists_cons_of_ne_nil hnil
    have hfirst : memory (u32 (p + FILENAME_PREFIX_OFFSET)) ≠ 0 := by
      rw [u32_of_lt (by unfold FILENAME_PREFIX_OFFSET; omega)]
      have hhead := h.filename_prefix.chars
      rw [hcons] at hhead
      rw [hhead.head]
      intro hz
      apply hn.chars.2
      rw [hcons, hz]
      exact List.mem_cons_self
    have hend : m.filename_prefix.length < 255 →
        memory (p + FILENAME_PREFIX_OFFSET + m.filename_prefix.length) = 0 := by
      intro _
      by_cases hlen : m.filename_prefix.length < FILENAME_PREFIX_LENGTH
      · exact h.filename_prefix.stop hlen
      · have hzero := ht.2.resolve_left hlen
        obtain hlen : m.filename_prefix.length = FILENAME_PREFIX_LENGTH := by
          unfold FILENAME_PREFIX_LENGTH at hlen ⊢
          omega
        rwa [hlen]
    have hdst : (copy_chars (p + FILENAME_PREFIX_OFFSET) (VFS_NODE_NAME_LENGTH - 1) memory).1 =
        m.filename_prefix := by
      unfold VFS_NODE_NAME_LENGTH
      refine copy_chars_text ?_ (by omega) h.filename_prefix.chars hn.chars.2 hend
      unfold FILENAME_PREFIX_OFFSET
      omega
    have htext : m.text.length = m.filename_prefix.length + 1 + m.name.length := by
      simp [member_t.text, hnil, Nat.add_comm 1, Nat.add_assoc]
    have hslash : m.filename_prefix ≠ [] ∧
        m.filename_prefix.length + 1 < VFS_NODE_NAME_LENGTH := by
      unfold VFS_NODE_NAME_LENGTH
      exact ⟨hnil, by omega⟩
    rw [if_pos hfirst]
    simp only [tar_build_path, reading_bind, reading_pure, hdst]
    rw [if_pos hslash]
    have hsrc : (copy_chars p (VFS_NODE_NAME_LENGTH - 1 - (m.filename_prefix ++ [47]).length)
        memory).1 = m.name := by
      rw [htext] at hshort hstop
      rw [List.length_append, List.length_singleton]
      unfold VFS_NODE_NAME_LENGTH at hshort hstop ⊢
      exact copy_chars_text (by omega) (by omega) h.name.chars hn.chars.1
        fun hlt => hstop (by omega)
    rw [hsrc]
    simp [member_t.text, hnil]

theorem octal_size {text length n : Nat} (h : Octal memory text length n)
    (hsrc : text + length < 0x100000000) (hn : n < 0x100000000) :
    (tar_get_size_from_octal 0 text length memory).1 = n := by
  obtain ⟨digits, hlen, hdigits, hvalue, hchars, hstop⟩ := h
  rw [size_text (by omega) hlen hdigits hchars (by decide) hstop, hvalue, u32_of_lt hn]

/-- The header is read as it is written. -/
theorem tar_header_read (h : Header memory p m) (hn : Named m) (ht : Terminated memory p m)
    (hp : p + TAR_BLOCK_SIZE ≤ 0x100000000) (hdata : m.data.length < 0x100000000) :
    (tar_header p memory).1 = ⟨m.data.length, m.type, m.full_name⟩ := by
  have hp' : p + 512 ≤ 0x100000000 := hp
  have hsize := octal_size h.size (by unfold SIZE_OFFSET SIZE_LENGTH; omega) hdata
  have hname := full_name_text h hn ht hp
  have htype : (byte (p + TYPE_OFFSET) memory).1 = memory (p + TYPE_OFFSET) := by
    have : u32 (p + TYPE_OFFSET) = p + TYPE_OFFSET := u32_of_lt (by unfold TYPE_OFFSET; omega)
    simp [byte, this]
  have heq : (tar_header p memory).1 =
      ⟨(tar_get_size_from_octal 0 (p + SIZE_OFFSET) SIZE_LENGTH memory).1,
        if (byte (p + TYPE_OFFSET) memory).1 = 53 then VFS_NODE_TYPE_DIRECTORY
        else VFS_NODE_TYPE_FILE,
        (tar_full_name p memory).1.map Char.ofNat⟩ := rfl
  rw [heq, hsize, hname, htype]
  congr 1
  by_cases hd : m.type = VFS_NODE_TYPE_DIRECTORY
  · rw [if_pos (h.type.mpr hd), hd]
  · rw [if_neg fun hc => hd (h.type.mp hc)]
    cases hm : m.type with
    | VFS_NODE_TYPE_FILE => rfl
    | VFS_NODE_TYPE_DIRECTORY => exact absurd hm hd

/-- A header is no block of zeros. -/
theorem header_not_zero (h : Header memory p m) (hn : Named m)
    (hp : p + TAR_BLOCK_SIZE ≤ 0x100000000) :
    (tar_is_zero_block p TAR_BLOCK_SIZE memory).1 = false := by
  have hp' : p + 512 ≤ 0x100000000 := hp
  rw [← Bool.not_eq_true, zero_block_iff]
  intro hzero
  have hbyte : ∀ i < 512, memory (p + i) = 0 := by
    intro i hi
    have := hzero i hi
    rwa [u32_of_lt (by omega)] at this
  have hname : m.name = [] := by
    rw [List.eq_nil_iff_forall_not_mem]
    intro c hc
    obtain ⟨i, hi, rfl⟩ := List.getElem_of_mem hc
    have hfits := h.name.fits
    unfold NAME_LENGTH at hfits
    have hchar := h.name.chars i hi
    rw [hbyte i (by omega), List.getD_eq_getElem?_getD, List.getElem?_eq_getElem hi,
      Option.getD_some] at hchar
    exact hn.chars.1 (hchar ▸ hc)
  have hprefix : m.filename_prefix = [] := by
    rw [List.eq_nil_iff_forall_not_mem]
    intro c hc
    obtain ⟨i, hi, rfl⟩ := List.getElem_of_mem hc
    have hfits := h.filename_prefix.fits
    unfold FILENAME_PREFIX_LENGTH at hfits
    have hchar := h.filename_prefix.chars i hi
    unfold FILENAME_PREFIX_OFFSET at hchar
    rw [Nat.add_assoc, hbyte (345 + i) (by omega), List.getD_eq_getElem?_getD,
      List.getElem?_eq_getElem hi, Option.getD_some] at hchar
    exact hn.chars.2 (hchar ▸ hc)
  obtain ⟨rest, hrest⟩ := hn.dotted
  simp [member_t.full_name, member_t.text, hname, hprefix] at hrest

end alura_os.ustar
