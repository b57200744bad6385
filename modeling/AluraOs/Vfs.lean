-- The file systems (`vfs.c`, `fs/ramfs.c`, `fs/devfs.c`): nodes of the VFS in a
-- cache that counts their references, the ramfs behind most of them, and the
-- devices that are mounted on `/dev`. A call that meets freed memory ends in a fault.
import Mathlib.Data.List.DropRight
import AluraOs.Resource
import AluraOs.KernelHeap

namespace alura_os.vfs

open alura_os.memory alura_os.task_manager alura_os.resource
open resource_result_t resource_type_t

def VFS_NODE_NAME_LENGTH : Nat := 256
def RAMFS_NODE_MAX_CHILDREN : Nat := 64
def SYSCALL_O_CREAT : Nat := 0x0200
def SYSCALL_O_TRUNC : Nat := 0x0400

/-! ## The records -/

inductive vfs_node_type where
  | VFS_NODE_TYPE_FILE
  | VFS_NODE_TYPE_DIRECTORY
  deriving DecidableEq, Repr

open vfs_node_type

/-- `vfs_node_operations_t`, as the table that it was copied from: `ramfs_node_operations`,
`devfs_node_operations` or one of `devfs_entries`. -/
inductive vfs_node_operations_t where
  | ramfs
  | devfs
  | keyboard
  | terminal
  | framebuffer
  deriving DecidableEq, Repr

structure vfs_node_t where
  mount : Nat
  operations : vfs_node_operations_t
  type : vfs_node_type
  resource_type : resource_type_t
  fs_data : Nat
  cache_index : Nat
  index : Int
  ref_count : Nat
  deriving DecidableEq, Repr

structure ramfs_dirent_t where
  name : List Char
  node : Nat
  deriving DecidableEq, Repr

/-- The entries `children[0..children_count]` are a list. -/
structure ramfs_node_t where
  id : Nat
  children : List ramfs_dirent_t
  type : vfs_node_type
  data : Nat
  data_size : Nat
  link_count : Nat
  deriving DecidableEq, Repr

/-- One list of the cache, with the addresses of its nodes. -/
structure vfs_node_cache_t where
  index : Nat
  nodes : List Nat
  deriving DecidableEq, Repr

/-- `vfs` and `ramfs` with the memory that they reach. `node_blocks` and `inode_blocks` are the
addresses that the kernel heap has given out for nodes of the VFS and of the ramfs, `data_blocks` those of
file data with their lengths, and `memory` the bytes of the data. `heap` is what `kernel_heap_malloc`
will give next, 0 for `NULL`. `freed` lists the ids of the ramfs nodes that were freed. -/
structure fs_t where
  nodes : Nat → vfs_node_t
  node_blocks : Finset Nat
  inodes : Nat → ramfs_node_t
  inode_blocks : Finset Nat
  memory : Nat → Nat
  data_blocks : List (Nat × Nat)
  heap : Nat → Nat
  root : Nat
  cache : List vfs_node_cache_t
  last_cache_index : Nat
  root_node : Nat
  last_index : Nat
  freed : List Nat

/-- Why a call has no result: it used freed memory or a `NULL` pointer, it wrote past the buffer of
a path component, or the kernel heap gave a block that is in use. -/
inductive fault_t where
  | freed
  | overflow
  | taken
  deriving DecidableEq, Repr

/-! ## Memory -/

namespace fs_t

/-- `*node` -/
def node (fs : fs_t) (a : Nat) : Except fault_t vfs_node_t :=
  if a ∈ fs.node_blocks then .ok (fs.nodes a) else .error .freed

def inode (fs : fs_t) (a : Nat) : Except fault_t ramfs_node_t :=
  if a ∈ fs.inode_blocks then .ok (fs.inodes a) else .error .freed

def setNode (fs : fs_t) (a : Nat) (n : vfs_node_t) : fs_t :=
  { fs with nodes := Function.update fs.nodes a n }

/-- `node->ref_count = n` -/
def setCount (fs : fs_t) (a n : Nat) : fs_t := fs.setNode a { fs.nodes a with ref_count := n }

def setInode (fs : fs_t) (a : Nat) (i : ramfs_node_t) : fs_t :=
  { fs with inodes := Function.update fs.inodes a i }

/-- The kernel heap gives its next block. -/
def next_block (fs : fs_t) : Nat := fs.heap 0

def pop_block (fs : fs_t) : fs_t := { fs with heap := fun n => fs.heap (n + 1) }

/-- No node is at the address. -/
def Unused (fs : fs_t) (a : Nat) : Prop := a ∉ fs.node_blocks ∧ a ∉ fs.inode_blocks

instance (fs : fs_t) (a : Nat) : Decidable (fs.Unused a) :=
  inferInstanceAs (Decidable (_ ∧ _))

/-- `kernel_heap_free(node)` for a node of the ramfs and its data. -/
def free_inode (fs : fs_t) (a : Nat) : fs_t :=
  { fs with
    data_blocks := fs.data_blocks.filter fun b => b.1 ≠ (fs.inodes a).data
    inode_blocks := fs.inode_blocks.erase a
    freed := (fs.inodes a).id :: fs.freed }

end fs_t

@[simp]
theorem node_ok {fs : fs_t} {a : Nat} {n : vfs_node_t} :
    fs.node a = .ok n ↔ a ∈ fs.node_blocks ∧ fs.nodes a = n := by
  unfold fs_t.node
  split <;> simp [*]

@[simp]
theorem inode_ok {fs : fs_t} {a : Nat} {i : ramfs_node_t} :
    fs.inode a = .ok i ↔ a ∈ fs.inode_blocks ∧ fs.inodes a = i := by
  unfold fs_t.inode
  split <;> simp [*]

/-! ## References and the cache -/

def vfs_lock_node (fs : fs_t) (node : Nat) : Except fault_t fs_t :=
  if node = 0 then .ok fs
  else do
    let n ← fs.node node
    return fs.setCount node (u32 (n.ref_count + 1))

/-- The list that the search of `vfs_cache_query_node` and its like ends at. -/
def cache_head (fs : fs_t) (cache_index : Nat) : Option vfs_node_cache_t :=
  fs.cache.find? fun head => head.index = cache_index

/-- The node of a cache list that has the id. -/
def cache_node (fs : fs_t) (id : Int) : List Nat → Except fault_t (Option Nat)
  | [] => .ok none
  | a :: rest => do
    let n ← fs.node a
    if n.index = id then return some a else cache_node fs id rest

def vfs_cache_query_node (fs : fs_t) (cache_index : Nat) (id : Int) :
    Except fault_t (Option Nat) :=
  match cache_head fs cache_index with
  | none => .error .freed
  | some head => cache_node fs id head.nodes

/-- `f` changes the first list of the cache with the index. -/
def update_cache (cache_index : Nat) (f : vfs_node_cache_t → Option vfs_node_cache_t) :
    List vfs_node_cache_t → List vfs_node_cache_t
  | [] => []
  | head :: rest =>
    if head.index = cache_index then (f head).toList ++ rest
    else head :: update_cache cache_index f rest

/-- The first part of `vfs_cache_put`: the cache gets a list for the index. `false` says that the
kernel heap has no block for it. -/
def cache_list (fs : fs_t) (cache_index : Nat) : fs_t × Bool :=
  if (cache_head fs cache_index).isSome then (fs, true)
  else if fs.next_block = 0 then (fs.pop_block, false)
  else ({ fs.pop_block with cache := fs.cache ++ [⟨cache_index, []⟩] }, true)

/-- The last part of `vfs_cache_put`: the node goes to the end of its list. -/
def cache_append (fs : fs_t) (cache_index node : Nat) :
    Except fault_t (fs_t × resource_result_t) :=
  if fs.next_block = 0 then .ok (fs.pop_block, RESOURCE_RESULT_ALLOCATION_ERROR)
  else do
    let fs := { fs.pop_block with
      cache := update_cache cache_index
        (fun head => some { head with nodes := head.nodes ++ [node] }) fs.cache }
    return (← vfs_lock_node fs node, RESOURCE_RESULT_OK)

def vfs_cache_put (fs : fs_t) (node : Nat) : Except fault_t (fs_t × resource_result_t) := do
  let n ← fs.node node
  let (fs, listed) := cache_list fs n.cache_index
  if !listed then return (fs, RESOURCE_RESULT_ALLOCATION_ERROR)
  match ← vfs_cache_query_node fs n.cache_index n.index with
  | some _ => return (fs, RESOURCE_RESULT_ALREADY_PRESENT)
  | none => cache_append fs n.cache_index node

/-- The cache index of a new node: that of its parent, or a new one for a `parent` of `NULL`. -/
def index_under (fs : fs_t) (parent : Nat) : Nat :=
  if parent = 0 then fs.last_cache_index else (fs.nodes parent).cache_index

/-- The record of a new node is filled. -/
def node_filled (fs : fs_t) (parent node : Nat) (n : vfs_node_t) : fs_t :=
  { fs.pop_block with
    node_blocks := insert node fs.node_blocks
    nodes := Function.update fs.nodes node n
    last_cache_index := if parent = 0 then fs.last_cache_index + 1 else fs.last_cache_index }

/-- `vfs_create_node`. The result of `vfs_cache_put` is not looked at. -/
def vfs_create_node (fs : fs_t) (parent : Nat) (id : Int) (operations : vfs_node_operations_t)
    (fs_data : Nat) (type : vfs_node_type) (resource_type : resource_type_t) :
    Except fault_t (fs_t × resource_result_t × Nat) :=
  let node := fs.next_block
  if node = 0 then .ok (fs.pop_block, RESOURCE_RESULT_ALLOCATION_ERROR, 0)
  else if ¬ fs.Unused node then .error .taken
  else if parent ≠ 0 ∧ parent ∉ fs.node_blocks then .error .freed
  else do
    let n := ⟨0, operations, type, resource_type, fs_data, index_under fs parent, id, 0⟩
    let (fs, _) ← vfs_cache_put (node_filled fs parent node n) node
    return (fs, RESOURCE_RESULT_OK, node)

/-- `ramfs_release`: a node without a name goes with the last node of the VFS for it. -/
def ramfs_release (fs : fs_t) (file : Nat) : Except fault_t fs_t := do
  let f ← fs.node file
  let node ← fs.inode f.fs_data
  if 0 < node.link_count then return fs
  return fs.free_inode f.fs_data

/-- `node->operations.release(node)`, which only the ramfs has. -/
def release (fs : fs_t) (node : Nat) : Except fault_t fs_t := do
  let n ← fs.node node
  match n.operations with
  | .ramfs => ramfs_release fs node
  | _ => return fs

/-- The entry of a list of the cache that has the id leaves it, and an empty list leaves the cache. -/
def cache_without (fs : fs_t) (id : Int) (head : vfs_node_cache_t) : Option vfs_node_cache_t :=
  let nodes := head.nodes.eraseP fun a => (fs.nodes a).index = id
  if nodes = [] then none else some { head with nodes := nodes }

/-- The node leaves the cache. -/
def cache_remove (fs : fs_t) (n : vfs_node_t) : fs_t :=
  { fs with cache := update_cache n.cache_index (cache_without fs n.index) fs.cache }

/-- `kernel_heap_free(node)` for a node of the VFS. -/
def fs_t.free_node (fs : fs_t) (a : Nat) : fs_t :=
  { fs with node_blocks := fs.node_blocks.erase a }

def vfs_cache_try_evict (fs : fs_t) (node : Nat) : Except fault_t (fs_t × resource_result_t) := do
  let n ← fs.node node
  if n.ref_count ≠ 1 then return (fs, RESOURCE_RESULT_STILL_IN_USE)
  match cache_head fs n.cache_index with
  | none => return (fs, RESOURCE_RESULT_NOT_FOUND)
  | some head =>
    match ← cache_node fs n.index head.nodes with
    | none => return (fs, RESOURCE_RESULT_NOT_FOUND)
    | some _ =>
      let fs ← release (cache_remove fs n) node
      return (fs.free_node node, RESOURCE_RESULT_OK)

def vfs_release_node (fs : fs_t) (node : Nat) : Except fault_t fs_t :=
  if node = 0 then .ok fs
  else do
    let n ← fs.node node
    let (fs, _) ← vfs_cache_try_evict (fs.setCount node (sub32 n.ref_count 1)) node
    return fs

/-! ## The ramfs -/

inductive ramfs_result_t where
  | RAMFS_RESULT_OK
  | RAMFS_RESULT_MAX_CHILDREN
  | RAMFS_RESULT_NOT_FOUND
  | RAMFS_RESULT_ERROR
  deriving DecidableEq, Repr

open ramfs_result_t

def ramfs_create_node (fs : fs_t) (type : vfs_node_type) (data data_size : Nat) :
    Except fault_t (fs_t × ramfs_result_t × Nat) := do
  let node := fs.next_block
  let fs' := fs.pop_block
  if node = 0 then return (fs', RAMFS_RESULT_ERROR, 0)
  if ¬ fs.Unused node then throw .taken
  return ({ fs' with
      inode_blocks := insert node fs'.inode_blocks
      inodes := Function.update fs'.inodes node ⟨fs'.last_index, [], type, data, data_size, 1⟩
      last_index := fs'.last_index + 1 }, RAMFS_RESULT_OK, node)

def ramfs_add_child (fs : fs_t) (parent : Nat) (name : List Char) (child : Nat) :
    Except fault_t (fs_t × ramfs_result_t) := do
  let p ← fs.inode parent
  if RAMFS_NODE_MAX_CHILDREN ≤ p.children.length then return (fs, RAMFS_RESULT_MAX_CHILDREN)
  let name_copy := fs.next_block
  let fs := fs.pop_block
  if name_copy = 0 then return (fs, RAMFS_RESULT_ERROR)
  return (fs.setInode parent { p with children := p.children ++ [⟨name, child⟩] }, RAMFS_RESULT_OK)

/-- The entry of a name. -/
def ramfs_node_t.child (node : ramfs_node_t) (name : List Char) : Option ramfs_dirent_t :=
  node.children.find? fun e => e.name = name

/-- `ramfs_find_child`: `none` is `RAMFS_RESULT_NOT_FOUND`. -/
def ramfs_find_child (fs : fs_t) (parent : Nat) (name : List Char) :
    Except fault_t (Option Nat) := do
  let p ← fs.inode parent
  return (p.child name).map fun e => e.node

/-- The node of the VFS for a node of the ramfs: the one of the cache, or a new one. -/
def ramfs_node_of (fs : fs_t) (directory child : Nat) :
    Except fault_t (fs_t × resource_result_t × Nat) := do
  let d ← fs.node directory
  let i ← fs.inode child
  match ← vfs_cache_query_node fs d.cache_index i.id with
  | some out => return (fs, RESOURCE_RESULT_OK, out)
  | none => vfs_create_node fs directory i.id .ramfs child i.type RESOURCE_TYPE_FILE

def ramfs_lookup (fs : fs_t) (directory : Nat) (path : List Char) :
    Except fault_t (fs_t × resource_result_t × Nat) := do
  let d ← fs.node directory
  match ← ramfs_find_child fs d.fs_data path with
  | none => return (fs, RESOURCE_RESULT_NOT_FOUND, 0)
  | some child => ramfs_node_of fs directory child

def ramfs_create (fs : fs_t) (directory : Nat) (name : List Char) (type : vfs_node_type) :
    Except fault_t (fs_t × resource_result_t × Nat) := do
  let d ← fs.node directory
  match ← ramfs_find_child fs d.fs_data name with
  | some existing => ramfs_node_of fs directory existing
  | none =>
    let (fs, result, node) ← ramfs_create_node fs type 0 0
    if result ≠ RAMFS_RESULT_OK then return (fs, RESOURCE_RESULT_ALLOCATION_ERROR, 0)
    let (fs, result) ← ramfs_add_child fs d.fs_data name node
    if result ≠ RAMFS_RESULT_OK then return (fs, RESOURCE_RESULT_ALLOCATION_ERROR, 0)
    let i ← fs.inode node
    vfs_create_node fs directory i.id .ramfs node i.type RESOURCE_TYPE_FILE

def ramfs_link (fs : fs_t) (directory : Nat) (name : List Char) (target : Nat) :
    Except fault_t (fs_t × resource_result_t) := do
  let d ← fs.node directory
  let t ← fs.node target
  match ← ramfs_find_child fs d.fs_data name with
  | some _ => return (fs, RESOURCE_RESULT_ALREADY_PRESENT)
  | none =>
    let (fs, result) ← ramfs_add_child fs d.fs_data name t.fs_data
    if result ≠ RAMFS_RESULT_OK then return (fs, RESOURCE_RESULT_ALLOCATION_ERROR)
    let i ← fs.inode t.fs_data
    return (fs.setInode t.fs_data { i with link_count := i.link_count + 1 }, RESOURCE_RESULT_OK)

/-- `children[index] = children[children_count - 1]; children_count--` -/
def remove_child (children : List ramfs_dirent_t) (index : Nat) : List ramfs_dirent_t :=
  (children.set index (children.getLastD ⟨[], 0⟩)).dropLast

def ramfs_unlink (fs : fs_t) (directory : Nat) (name : List Char) :
    Except fault_t (fs_t × resource_result_t) := do
  let d ← fs.node directory
  let parent ← fs.inode d.fs_data
  match parent.child name with
  | none => return (fs, RESOURCE_RESULT_NOT_FOUND)
  | some entry =>
    let target ← fs.inode entry.node
    if target.type = VFS_NODE_TYPE_DIRECTORY then return (fs, RESOURCE_RESULT_BAD_PARAMETER)
    let index := parent.children.findIdx fun e => e.name = name
    let fs := fs.setInode d.fs_data { parent with children := remove_child parent.children index }
    let target ← fs.inode entry.node
    let fs := fs.setInode entry.node { target with link_count := target.link_count - 1 }
    if target.link_count - 1 ≠ 0 then return (fs, RESOURCE_RESULT_OK)
    match ← vfs_cache_query_node fs d.cache_index target.id with
    | some _ => return (fs, RESOURCE_RESULT_OK)
    | none => return (fs.free_inode entry.node, RESOURCE_RESULT_OK)

/-! ## File data -/

/-- The bytes of the block that `kernel_heap_malloc` gives for a request: whole headers, less the
one of the block itself. -/
def block_length (size : Nat) : Nat := 8 * (kernel_heap.kernel_heap_headers_for size - 1)

/-- A block of file data lies inside the address space, apart from the others. -/
def DataBlock (data_blocks : List (Nat × Nat)) (address length : Nat) : Prop :=
  address + length ≤ 0x100000000 ∧
    ∀ b ∈ data_blocks, b.1 ≠ address ∧ (address + length ≤ b.1 ∨ b.1 + b.2 ≤ address)

instance (data_blocks : List (Nat × Nat)) (address length : Nat) :
    Decidable (DataBlock data_blocks address length) :=
  inferInstanceAs (Decidable (_ ∧ ∀ b ∈ data_blocks, _ ∧ (_ ∨ _)))

/-- `memcpy` and `memset`: the addresses wrap at the end of the address space. -/
def copy (memory : Nat → Nat) (destination : Nat) (source : Nat → Nat) (length : Nat) :
    Nat → Nat := fun a =>
  if a < 0x100000000 ∧ sub32 a destination < length then source (sub32 a destination)
  else memory a

/-- `ramfs_read`: the bytes that it copies. -/
def ramfs_read (fs : fs_t) (file offset length : Nat) :
    Except fault_t (resource_result_t × List Nat) := do
  let f ← fs.node file
  let node ← fs.inode f.fs_data
  if node.data_size ≤ offset then return (RESOURCE_RESULT_OK, [])
  let remaining := node.data_size - offset
  let length_to_read := if length < remaining then length else remaining
  return (RESOURCE_RESULT_OK,
    (List.range length_to_read).map fun i => fs.memory (u32 (node.data + offset + i)))

/-- The new buffer of `ramfs_write`, of `required_size` bytes: 0 is `NULL`. -/
def ramfs_grow (fs : fs_t) (inode offset required_size : Nat) :
    Except fault_t (fs_t × Nat) := do
  let node ← fs.inode inode
  let new_data := fs.next_block
  let fs := fs.pop_block
  if new_data = 0 then return (fs, 0)
  if ¬ DataBlock fs.data_blocks new_data (block_length required_size) then throw .taken
  let memory := copy fs.memory new_data (fun i => fs.memory (u32 (node.data + i))) node.data_size
  let memory :=
    if node.data_size < offset then
      copy memory (u32 (new_data + node.data_size)) (fun _ => 0) (offset - node.data_size)
    else memory
  return ({ fs with
      memory := memory
      data_blocks := (new_data, block_length required_size) ::
        fs.data_blocks.filter fun b => b.1 ≠ node.data }.setInode inode
    { node with data := new_data, data_size := required_size }, new_data)

/-- `ramfs_write`: `buffer i` is the byte at `buffer + i`. -/
def ramfs_write (fs : fs_t) (file offset : Nat) (buffer : Nat → Nat) (length : Nat) :
    Except fault_t (fs_t × resource_result_t × Nat) := do
  let f ← fs.node file
  let node ← fs.inode f.fs_data
  let required_size := u32 (offset + length)
  let (fs, data) ←
    if node.data_size < required_size then ramfs_grow fs f.fs_data offset required_size
    else pure (fs, node.data)
  if node.data_size < required_size ∧ data = 0 then
    return (fs, RESOURCE_RESULT_ALLOCATION_ERROR, 0)
  return ({ fs with memory := copy fs.memory (u32 (data + offset)) buffer length },
    RESOURCE_RESULT_OK, length)

def ramfs_size (fs : fs_t) (file : Nat) : Except fault_t Nat := do
  let f ← fs.node file
  let node ← fs.inode f.fs_data
  return node.data_size

def ramfs_truncate (fs : fs_t) (file : Nat) : Except fault_t fs_t := do
  let f ← fs.node file
  let node ← fs.inode f.fs_data
  return { fs with data_blocks := fs.data_blocks.filter fun b => b.1 ≠ node.data }.setInode f.fs_data
    { node with data := 0, data_size := 0 }

/-! ## Devices -/

/-- `devfs_entries`: the names with the operations and resource types. What the drivers keep behind
`fs_data` is not part of the file systems. -/
def devfs_entries : List (List Char × vfs_node_operations_t × resource_type_t) :=
  [("keyboard".toList, .keyboard, RESOURCE_TYPE_KEYBOARD),
   ("terminal".toList, .terminal, RESOURCE_TYPE_TERMINAL),
   ("framebuffer".toList, .framebuffer, RESOURCE_TYPE_FRAMEBUFFER)]

/-- The turn of `devfs_lookup` for the entry `i`. -/
def devfs_node_of (fs : fs_t) (directory i : Nat) (operations : vfs_node_operations_t)
    (resource_type : resource_type_t) : Except fault_t (fs_t × resource_result_t × Nat) := do
  let d ← fs.node directory
  match ← vfs_cache_query_node fs d.cache_index i with
  | some out => return (fs, RESOURCE_RESULT_OK, out)
  | none => vfs_create_node fs directory i operations 0 VFS_NODE_TYPE_FILE resource_type

def devfs_lookup (fs : fs_t) (directory : Nat) (name : List Char) :
    Except fault_t (fs_t × resource_result_t × Nat) :=
  let i := devfs_entries.findIdx fun e => e.1 = name
  match devfs_entries[i]? with
  | none => .ok (fs, RESOURCE_RESULT_NOT_FOUND, 0)
  | some (_, operations, resource_type) => devfs_node_of fs directory i operations resource_type

/-- `current->operations.lookup`; the devices have none. -/
def lookup (fs : fs_t) (directory : Nat) (name : List Char) :
    Except fault_t (fs_t × resource_result_t × Nat) := do
  let d ← fs.node directory
  match d.operations with
  | .ramfs => ramfs_lookup fs directory name
  | .devfs => devfs_lookup fs directory name
  | _ => return (fs, RESOURCE_RESULT_BAD_PARAMETER, 0)

/-! ## Paths -/

/-- The components that `vfs_resolve` cuts a path into, after the part of one that it has read. -/
def components (component : List Char) : List Char → List (List Char)
  | [] => if component = [] then [] else [component]
  | c :: path =>
    if c = '/' then
      if component = [] then components [] path else component :: components [] path
    else components (component ++ [c]) path

/-- The node on which the next component is looked up: the root of what is mounted here, or the
node itself. The node that the mount is on stays locked. -/
def cross_mount (fs : fs_t) (current : Nat) : Except fault_t (fs_t × Nat) := do
  let n ← fs.node current
  if n.mount = 0 then return (fs, current)
  return (← vfs_lock_node fs n.mount, n.mount)

/-- One turn of the loop of `vfs_resolve`. A lookup that fails leaves `current` locked. -/
def resolve_component (fs : fs_t) (current : Nat) (component : List Char) :
    Except fault_t (fs_t × resource_result_t × Nat) := do
  if VFS_NODE_NAME_LENGTH ≤ component.length then throw .overflow
  let (fs, current) ← cross_mount fs current
  let (fs, result, next) ← lookup fs current component
  if result ≠ RESOURCE_RESULT_OK then return (fs, result, 0)
  let fs ← vfs_lock_node fs next
  let fs ← vfs_release_node fs current
  if next = 0 then return (fs, RESOURCE_RESULT_NOT_FOUND, 0)
  return (fs, RESOURCE_RESULT_OK, next)

def resolve_components (fs : fs_t) (current : Nat) :
    List (List Char) → Except fault_t (fs_t × resource_result_t × Nat)
  | [] => .ok (fs, RESOURCE_RESULT_OK, current)
  | component :: path => do
    let (fs, result, next) ← resolve_component fs current component
    if result ≠ RESOURCE_RESULT_OK then return (fs, result, 0)
    resolve_components fs next path

def vfs_resolve (fs : fs_t) (path : List Char) :
    Except fault_t (fs_t × resource_result_t × Nat) := do
  let fs ← vfs_lock_node fs fs.root
  resolve_components fs fs.root (components [] path)

/-- `strncpy(path_copy, path, VFS_NODE_NAME_LENGTH - 1)` -/
def path_copy (path : List Char) : List Char := path.take (VFS_NODE_NAME_LENGTH - 1)

/-- `vfs_split_path`: the name after the last slash, and the path before it. -/
def vfs_split_path (path : List Char) : List Char × List Char :=
  if '/' ∈ path then
    let name := path.rtakeWhile fun c => c ≠ '/'
    let parent := (path.rdropWhile fun c => c ≠ '/').dropLast
    (name, if parent = [] then ['/'] else parent)
  else (path, ['/'])

/-- `parent->type` is a directory, and its operations can change it: those of the ramfs. -/
def is_directory (n : vfs_node_t) : Bool :=
  n.type = VFS_NODE_TYPE_DIRECTORY ∧ n.operations = .ramfs

def vfs_create (fs : fs_t) (path : List Char) (type : vfs_node_type) :
    Except fault_t (fs_t × resource_result_t × Nat) := do
  let (name, parent_path) := vfs_split_path (path_copy path)
  if name = [] then return (fs, RESOURCE_RESULT_BAD_PARAMETER, 0)
  let (fs, result, parent) ← vfs_resolve fs parent_path
  if result ≠ RESOURCE_RESULT_OK then return (fs, result, 0)
  if !is_directory (← fs.node parent) then
    return (← vfs_release_node fs parent, RESOURCE_RESULT_BAD_PARAMETER, 0)
  let (fs, result, child) ← ramfs_create fs parent name type
  let fs ← vfs_release_node fs parent
  if result ≠ RESOURCE_RESULT_OK then return (fs, result, 0)
  return (← vfs_lock_node fs child, RESOURCE_RESULT_OK, child)

def vfs_link (fs : fs_t) (old_path new_path : List Char) :
    Except fault_t (fs_t × resource_result_t) := do
  let (fs, result, source) ← vfs_resolve fs old_path
  if result ≠ RESOURCE_RESULT_OK then return (fs, result)
  let s ← fs.node source
  if s.type ≠ VFS_NODE_TYPE_FILE ∨ s.resource_type ≠ RESOURCE_TYPE_FILE then
    return (← vfs_release_node fs source, RESOURCE_RESULT_BAD_PARAMETER)
  let (name, parent_path) := vfs_split_path (path_copy new_path)
  if name = [] then return (← vfs_release_node fs source, RESOURCE_RESULT_BAD_PARAMETER)
  let (fs, result, parent) ← vfs_resolve fs parent_path
  if result ≠ RESOURCE_RESULT_OK then return (← vfs_release_node fs source, result)
  if !is_directory (← fs.node parent) then
    let fs ← vfs_release_node fs parent
    return (← vfs_release_node fs source, RESOURCE_RESULT_BAD_PARAMETER)
  let (fs, result) ← ramfs_link fs parent name source
  let fs ← vfs_release_node fs parent
  return (← vfs_release_node fs source, result)

def vfs_unlink (fs : fs_t) (path : List Char) : Except fault_t (fs_t × resource_result_t) := do
  let (name, parent_path) := vfs_split_path (path_copy path)
  if name = [] then return (fs, RESOURCE_RESULT_BAD_PARAMETER)
  let (fs, result, parent) ← vfs_resolve fs parent_path
  if result ≠ RESOURCE_RESULT_OK then return (fs, result)
  if !is_directory (← fs.node parent) then
    return (← vfs_release_node fs parent, RESOURCE_RESULT_BAD_PARAMETER)
  let (fs, result) ← ramfs_unlink fs parent name
  return (← vfs_release_node fs parent, result)

/-! ## Open files -/

/-- `node->operations.truncate`, which only the ramfs has. -/
def vfs_truncate (fs : fs_t) (node : Nat) : Except fault_t (fs_t × resource_result_t) := do
  if node = 0 then return (fs, RESOURCE_RESULT_BAD_PARAMETER)
  let n ← fs.node node
  if n.type ≠ VFS_NODE_TYPE_FILE then return (fs, RESOURCE_RESULT_INVALID)
  match n.operations with
  | .ramfs => return (← ramfs_truncate fs node, RESOURCE_RESULT_OK)
  | _ => return (fs, RESOURCE_RESULT_BAD_PARAMETER)

/-- `node->operations.size`, which only the ramfs has. -/
def vfs_get_size (fs : fs_t) (node : Nat) : Except fault_t (resource_result_t × Nat) := do
  let n ← fs.node node
  match n.operations with
  | .ramfs => return (RESOURCE_RESULT_OK, ← ramfs_size fs node)
  | _ => return (RESOURCE_RESULT_BAD_PARAMETER, 0)

/-- The part of `vfs_open` up to `resource_register`: the node of the file. -/
def vfs_open_node (fs : fs_t) (path : List Char) (flags : Nat) :
    Except fault_t (fs_t × resource_result_t × Nat) := do
  let (fs, result, node) ← vfs_resolve fs path
  if result ≠ RESOURCE_RESULT_OK then
    if result ≠ RESOURCE_RESULT_NOT_FOUND ∨ flags &&& SYSCALL_O_CREAT = 0 then
      return (fs, result, 0)
    let (fs, result, node) ← vfs_create fs path VFS_NODE_TYPE_FILE
    if result ≠ RESOURCE_RESULT_OK then return (fs, result, 0)
    if (← fs.node node).type ≠ VFS_NODE_TYPE_FILE then
      return (fs, RESOURCE_RESULT_BAD_PARAMETER, 0)
    return (fs, RESOURCE_RESULT_OK, node)
  if (← fs.node node).type ≠ VFS_NODE_TYPE_FILE then
    return (fs, RESOURCE_RESULT_BAD_PARAMETER, 0)
  if flags &&& SYSCALL_O_TRUNC = 0 then return (fs, RESOURCE_RESULT_OK, node)
  let (fs, _) ← vfs_truncate fs node
  return (fs, RESOURCE_RESULT_OK, node)

/-! ## Boot -/

/-- A member of the initrd: its name, its type and its contents, which lie inside the archive. -/
structure tar_entry_t where
  full_name : List Char
  type : vfs_node_type
  data : List Nat
  data_fits : data.length + 8 ≤ 0x100000000

/-- The loop of `ramfs_get_or_create_directory`, which does not look whether an entry was added. -/
def get_or_create_directory (fs : fs_t) (current : Nat) :
    List (List Char) → Except fault_t (fs_t × Option Nat)
  | [] => .ok (fs, some current)
  | token :: path => do
    match ← ramfs_find_child fs current token with
    | some child => get_or_create_directory fs child path
    | none =>
      let (fs, result, child) ← ramfs_create_node fs VFS_NODE_TYPE_DIRECTORY 0 0
      if result ≠ RAMFS_RESULT_OK then return (fs, none)
      let (fs, _) ← ramfs_add_child fs current token child
      get_or_create_directory fs child path

def ramfs_create_path (fs : fs_t) (root : Nat) (path : List Char) (type : vfs_node_type) :
    Except fault_t (fs_t × Option Nat) := do
  let name := path.rtakeWhile fun c => c ≠ '/'
  let directory := (path.rdropWhile fun c => c ≠ '/').dropLast
  let (fs, parent) ← get_or_create_directory fs root (components [] directory)
  match parent with
  | none => return (fs, none)
  | some parent =>
    match ← ramfs_find_child fs parent name with
    | some node => return (fs, some node)
    | none =>
      let (fs, result, node) ← ramfs_create_node fs type 0 0
      if result ≠ RAMFS_RESULT_OK then return (fs, none)
      let (fs, result) ← ramfs_add_child fs parent name node
      if result ≠ RAMFS_RESULT_OK then return (fs, none)
      return (fs, some node)

/-- The path of a member: without the dot that it starts with. -/
def tar_path (full_name : List Char) : List Char :=
  if full_name.head? = some '.' then full_name.tail else full_name

/-- `node->data = kernel_heap_calloc(file_size)` and the copy of the contents. -/
def tar_copy_data (fs : fs_t) (node : Nat) (data : List Nat) : Except fault_t fs_t := do
  let i ← fs.inode node
  if data.length = 0 then return fs.setInode node { i with data_size := 0 }
  let block := fs.next_block
  let fs := fs.pop_block
  if block = 0 then throw .freed
  if ¬ DataBlock fs.data_blocks block (block_length data.length) then throw .taken
  return { fs with
    memory := copy fs.memory block (fun k => data.getD k 0) data.length
    data_blocks := (block, block_length data.length) :: fs.data_blocks }.setInode node
      { i with data := block, data_size := data.length }

/-- One turn of the loop of `tar_create_ramfs_node`. The node of a file that cannot be made is an
uninitialised pointer. -/
def tar_create_entry (root : Nat) (fs : fs_t) (entry : tar_entry_t) : Except fault_t fs_t := do
  let path := tar_path entry.full_name
  if path = [] ∨ path = ['/'] then return fs
  match entry.type with
  | VFS_NODE_TYPE_DIRECTORY =>
    let path := if path.getLast? = some '/' then path.dropLast else path
    let (fs, _) ← ramfs_create_path fs root path VFS_NODE_TYPE_DIRECTORY
    return fs
  | VFS_NODE_TYPE_FILE =>
    match ← ramfs_create_path fs root path VFS_NODE_TYPE_FILE with
    | (_, none) => throw .freed
    | (fs, some node) => tar_copy_data fs node entry.data

/-- The file systems before `ramfs_driver_init`. -/
def unmounted (memory heap : Nat → Nat) : fs_t where
  nodes := fun _ => ⟨0, .ramfs, VFS_NODE_TYPE_FILE, RESOURCE_TYPE_FILE, 0, 0, 0, 0⟩
  node_blocks := ∅
  inodes := fun _ => ⟨0, [], VFS_NODE_TYPE_FILE, 0, 0, 0⟩
  inode_blocks := ∅
  memory := memory
  data_blocks := []
  heap := heap
  root := 0
  cache := []
  last_cache_index := 0
  root_node := 0
  last_index := 0
  freed := []

/-- `ramfs_driver_init` with the members of the initrd: `tar_create_ramfs_node`. -/
def ramfs_driver_init (fs : fs_t) (initrd : List tar_entry_t) : Except fault_t fs_t := do
  let (fs, result, root) ← ramfs_create_node fs VFS_NODE_TYPE_DIRECTORY 0 9
  if result ≠ RAMFS_RESULT_OK then throw .freed
  let fs ← initrd.foldlM (tar_create_entry root) fs
  return { fs with root_node := root }

def vfs_module_init (fs : fs_t) : Except fault_t fs_t := do
  let r ← fs.inode fs.root_node
  let (fs, _, root) ← vfs_create_node fs 0 r.id .ramfs fs.root_node r.type RESOURCE_TYPE_FILE
  let fs := { fs with root := root }
  vfs_lock_node fs root

def DEV : List Char := "/dev".toList

/-- `dev_directory->mount = devfs_root`, with the root of the devices locked. -/
def devfs_mount (fs : fs_t) (dev_directory : Nat) : Except fault_t fs_t := do
  let (fs, result, devfs_root) ←
    vfs_create_node fs 0 (-1) .devfs 0 VFS_NODE_TYPE_DIRECTORY RESOURCE_TYPE_FILE
  if result ≠ RESOURCE_RESULT_OK then return fs
  let fs ← vfs_lock_node fs devfs_root
  let d ← fs.node dev_directory
  return fs.setNode dev_directory { d with mount := devfs_root }

def devfs_module_init (fs : fs_t) : Except fault_t fs_t := do
  let (fs, result, dev_directory) ← vfs_resolve fs DEV
  if result = RESOURCE_RESULT_OK then devfs_mount fs dev_directory
  else
    let (fs, result, dev_directory) ← vfs_create fs DEV VFS_NODE_TYPE_DIRECTORY
    if result ≠ RESOURCE_RESULT_OK then return fs
    devfs_mount fs dev_directory

/-- The file systems as `kernel_initialize` leaves them. -/
def boot (memory heap : Nat → Nat) (initrd : List tar_entry_t) : Except fault_t fs_t := do
  let fs ← ramfs_driver_init (unmounted memory heap) initrd
  let fs ← vfs_module_init fs
  devfs_module_init fs

end alura_os.vfs
