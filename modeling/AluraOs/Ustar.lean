-- The initrd (`fs/ustar.c`): the members of a tar archive in memory become nodes of the ramfs. What
-- the parser reads is kept beside what it finds, address by address.
import AluraOs.Vfs

namespace alura_os.ustar

open alura_os.memory alura_os.vfs
open vfs_node_type ramfs_result_t

def TAR_BLOCK_SIZE : Nat := 512

/-! ## Reads -/

/-- A computation that reads bytes of the memory: its result and the addresses that it read. -/
abbrev Reading (α : Type) : Type := (Nat → Nat) → α × List Nat

instance : Monad Reading where
  pure a := fun _ => (a, [])
  bind x f := fun memory =>
    let first := x memory
    let second := f first.1 memory
    (second.1, first.2 ++ second.2)

/-- `*text` -/
def byte (a : Nat) : Reading Nat := fun memory => (memory (u32 a), [u32 a])

/-! ## The fields of a header -/

/-- The offsets of `size`, `type` and `filename_prefix` in `tar_block_t`; `name` is first. -/
def SIZE_OFFSET : Nat := 124
def TYPE_OFFSET : Nat := 156
def FILENAME_PREFIX_OFFSET : Nat := 345

/-- The size of the field `size`. -/
def SIZE_LENGTH : Nat := 12

/-- `tar_get_size_from_octal`, with the value before the characters that are left. -/
def tar_get_size_from_octal (value text : Nat) : Nat → Reading Nat
  | 0 => pure value
  | length + 1 => do
    let c ← byte text
    if c < 48 ∨ 55 < c then return value
    tar_get_size_from_octal (u32 (value * 8 + (c - 48))) (text + 1) length

/-- `tar_is_zero_block`, with the bytes that are left. -/
def tar_is_zero_block (block : Nat) : Nat → Reading Bool
  | 0 => pure true
  | length + 1 => do
    let c ← byte block
    if c ≠ 0 then return false
    tar_is_zero_block (block + 1) length

/-- `strncpy`: the characters before the padding. -/
def strncpy (src : Nat) : Nat → Reading (List Nat)
  | 0 => pure []
  | n + 1 => do
    let c ← byte src
    if c = 0 then return []
    return c :: (← strncpy (src + 1) n)

/-- `while (*src && pos + 1 < dst_size) dst[pos++] = *src++`, with the room that is left. -/
def copy_chars (src : Nat) : Nat → Reading (List Nat)
  | 0 => do
    let _ ← byte src
    return []
  | room + 1 => do
    let c ← byte src
    if c = 0 then return []
    return c :: (← copy_chars (src + 1) room)

def tar_build_path (dst_size filename_start name : Nat) : Reading (List Nat) := do
  let dst ← copy_chars filename_start (dst_size - 1)
  let dst := if dst ≠ [] ∧ dst.length + 1 < dst_size then dst ++ [47] else dst
  return dst ++ (← copy_chars name (dst_size - 1 - dst.length))

/-- `full_name` -/
def tar_full_name (header : Nat) : Reading (List Nat) := do
  if (← byte (header + FILENAME_PREFIX_OFFSET)) ≠ 0 then
    tar_build_path VFS_NODE_NAME_LENGTH (header + FILENAME_PREFIX_OFFSET) header
  else strncpy header (VFS_NODE_NAME_LENGTH - 1)

/-- What a turn takes from the header of a member. -/
structure header_t where
  file_size : Nat
  type : vfs_node_type
  full_name : List Char
  deriving DecidableEq, Repr

def tar_header (header : Nat) : Reading header_t := do
  let file_size ← tar_get_size_from_octal 0 (header + SIZE_OFFSET) SIZE_LENGTH
  let type := if (← byte (header + TYPE_OFFSET)) = 53 then VFS_NODE_TYPE_DIRECTORY
    else VFS_NODE_TYPE_FILE
  let full_name ← tar_full_name header
  return ⟨file_size, type, full_name.map Char.ofNat⟩

/-- `blocks * TAR_BLOCK_SIZE` -/
def data_length (file_size : Nat) : Nat :=
  u32 (u32 (file_size + TAR_BLOCK_SIZE - 1) / TAR_BLOCK_SIZE * TAR_BLOCK_SIZE)

/-! ## Members -/

/-- Why an import has no result: the node of a file was used but not set, or a call of the file
systems failed. -/
inductive tar_fault_t where
  | unset
  | fs (fault : fault_t)
  deriving DecidableEq, Repr

/-- The addresses from `a` on. -/
def addresses (a length : Nat) : List Nat := (List.range length).map fun i => u32 (a + i)

/-- The body of the loop after the header: the node of a member and, for a file, its data at `data`. -/
def tar_member (root : Nat) (fs : fs_t) (header : header_t) (data : Nat) :
    List Nat × Except tar_fault_t fs_t :=
  let path := tar_path header.full_name
  if path = [] ∨ path = ['/'] then ([], .ok fs)
  else
    match header.type with
    | VFS_NODE_TYPE_DIRECTORY =>
      let path := if path.getLast? = some '/' then path.dropLast else path
      match ramfs_create_path fs root path VFS_NODE_TYPE_DIRECTORY with
      | .error f => ([], .error (.fs f))
      | .ok (fs, _) => ([], .ok fs)
    | VFS_NODE_TYPE_FILE =>
      match ramfs_create_path fs root path VFS_NODE_TYPE_FILE with
      | .error f => ([], .error (.fs f))
      | .ok (_, none) => ([], .error .unset)
      | .ok (fs, some node) =>
        let bytes := (addresses data header.file_size).map fs.memory
        match tar_copy_data fs node bytes with
        | .error f => (addresses data header.file_size, .error (.fs f))
        | .ok fs => (addresses data header.file_size, .ok fs)

/-! ## The loop -/

/-- A turn of the loop: what it reads, and where it goes on; with no place to go on the loop ends. -/
structure turn_t where
  reads : List Nat
  outcome : Except tar_fault_t (Option (fs_t × Nat))

/-- The place after a member. -/
def next_header (ptr file_size : Nat) : Nat :=
  u32 (u32 (ptr + TAR_BLOCK_SIZE) + data_length file_size)

@[irreducible] def tar_turn (root tar_end : Nat) (fs : fs_t) (ptr : Nat) : turn_t :=
  if tar_end < u32 (ptr + TAR_BLOCK_SIZE) then ⟨[], .ok none⟩
  else
    let zero := tar_is_zero_block ptr TAR_BLOCK_SIZE fs.memory
    if zero.1 then ⟨zero.2, .ok none⟩
    else
      let header := tar_header ptr fs.memory
      let member := tar_member root fs header.1 (u32 (ptr + TAR_BLOCK_SIZE))
      ⟨zero.2 ++ header.2 ++ member.1,
        member.2.map fun fs => some (fs, next_header ptr header.1.file_size)⟩

/-- The loop with fuel; `none` is a loop that has not ended yet. -/
def tar_loop (root tar_end : Nat) : Nat → fs_t → Nat → Option (Except tar_fault_t fs_t)
  | 0, _, _ => none
  | fuel + 1, fs, ptr =>
    match (tar_turn root tar_end fs ptr).outcome with
    | .error f => some (.error f)
    | .ok none => some (.ok fs)
    | .ok (some (fs, ptr)) => tar_loop root tar_end fuel fs ptr

/-- `tar_create_ramfs_node`: the root, 0 for `NULL`. -/
def tar_create_ramfs_node (fuel : Nat) (fs : fs_t) (tar_data tar_size : Nat) :
    Option (Except tar_fault_t (fs_t × Nat)) :=
  match ramfs_create_node fs VFS_NODE_TYPE_DIRECTORY 0 9 with
  | .error f => some (.error (.fs f))
  | .ok (fs, result, root) =>
    if result ≠ RAMFS_RESULT_OK then some (.ok (fs, 0))
    else
      (tar_loop root (u32 (tar_data + tar_size)) fuel fs tar_data).map fun r =>
        r.map fun fs => (fs, root)

end alura_os.ustar
