-- What the file systems are for: files with bytes under names, some of them open. The calls of
-- the tasks are described on such a listing alone, without nodes, caches and counts.
import AluraOs.FsNames

namespace alura_os.vfs

open alura_os.memory alura_os.task_manager alura_os.resource faults byte_strings name_trees
open resource_result_t resource_type_t vfs_node_type

/-! ## Listings -/

/-- The names and the bytes of the files, and what the open resources are for. -/
structure Listing where
  entries : List (List Char) → Option Nat
  mounted : Nat → Bool
  kind : Nat → vfs_node_type
  bytes : Nat → List Nat
  opens : Nat → Option place

variable {l l' : Listing} {altered : Nat → Prop} {path p q : List (List Char)} {x : Nat}

/-- What a path leads to, through the mount points. -/
def Listing.names (l : Listing) (path : List (List Char)) : Except resource_result_t place :=
  seen (fun x => l.mounted x = true) behind_devices (fun x => .ok (.inode x))
    (.error RESOURCE_RESULT_NOT_FOUND) l.entries [] path

/-- A file or a directory that has a name or is open. -/
def Listing.Visible (l : Listing) (x : Nat) : Prop :=
  (∃ path, l.entries path = some x) ∨ ∃ r, l.opens r = some (.inode x)

/-- What is visible before and after a call stays what it is, and its bytes stay, unless the call
alters them. -/
structure Listing.Stays (l l' : Listing) (altered : Nat → Prop) : Prop where
  mounted : l'.mounted = l.mounted
  kind : ∀ x, l.Visible x → l'.Visible x → l'.kind x = l.kind x
  bytes : ∀ x, l.Visible x → l'.Visible x → l.kind x = VFS_NODE_TYPE_FILE → ¬ altered x →
    l'.bytes x = l.bytes x

/-- The path ends in a directory that is not mounted from elsewhere. -/
def Listing.InFolder (l : Listing) (path : List (List Char)) : Prop :=
  ∃ folder name y, path = folder ++ [name] ∧ l.names folder = .ok (.inode y) ∧
    l.kind y = VFS_NODE_TYPE_DIRECTORY

/-- `c` is at the path, and was there or is new and empty. -/
def Listing.Made (l l' : Listing) (path : List (List Char)) (type : vfs_node_type) (c : Nat) :
    Prop :=
  l.InFolder path ∧ ((l.entries path = some c ∧ l'.entries = l.entries) ∨
    (l.entries path = none ∧ ¬ l.Visible c ∧ l.mounted c = false ∧ l'.kind c = type ∧
      l'.bytes c = [] ∧ l'.entries = Function.update l.entries path (some c)))

/-- An open is for what the path leads to, or for a file that it makes. -/
def Listing.Opened (l l' : Listing) (path : List Char) (flags : Nat) (place : place) : Prop :=
  (l.names (components [] path) = .ok place ∧ l'.entries = l.entries) ∨
    (l.names (components [] path) = .error RESOURCE_RESULT_NOT_FOUND ∧
      flags &&& SYSCALL_O_CREAT ≠ 0 ∧
      ∃ c, place = .inode c ∧ l.Made l' (components [] (path_copy path)) VFS_NODE_TYPE_FILE c)

/-- The answer of a call that only looks at a path. -/
def answer : Except resource_result_t place → resource_result_t
  | .ok _ => RESOURCE_RESULT_OK
  | .error r => r

/-! ## Calls -/

/-- What a call answers, and what it does to the listing. `slots` gives the resources in the slots
of the tasks. -/
def Answered (slots : Nat → Nat → Nat) (l : Listing) (c : VfsCall) (result : resource_result_t)
    (l' : Listing) : Prop :=
  match c with
  | .open_file _ path flags block =>
    l.Stays l' (fun x => flags &&& SYSCALL_O_TRUNC ≠ 0 ∧
        l.names (components [] path) = .ok (.inode x)) ∧
      if result = RESOURCE_RESULT_OK then ∃ place, l.Opened l' path flags place ∧
          l.opens block = none ∧ l'.opens = Function.update l.opens block (some place) ∧
          (∀ x, place = .inode x → l'.kind x = VFS_NODE_TYPE_FILE) ∧
          (flags &&& SYSCALL_O_TRUNC ≠ 0 → ∀ x, l.names (components [] path) = .ok (.inode x) →
            l'.bytes x = [])
      else l'.opens = l.opens ∧
        (l'.entries = l.entries ∨ ∃ place, l.Opened l' path flags place)
  | .close_file task index =>
    l.Stays l' (fun _ => False) ∧ l'.entries = l.entries ∧
      ∀ r, l'.opens r = l.opens r ∨ (l'.opens r = none ∧ r = slots task index)
  | .destroy task =>
    l.Stays l' (fun _ => False) ∧ l'.entries = l.entries ∧
      ∀ r, l'.opens r = l.opens r ∨
        (l'.opens r = none ∧ ∃ index < TASK_MAX_RESOURCES, r = slots task index)
  | .write task index offset buffer length _ =>
    l.Stays l' (fun x => l.opens (slots task index) = some (.inode x)) ∧
      l'.entries = l.entries ∧ l'.opens = l.opens ∧
      ∀ x, l.opens (slots task index) = some (.inode x) →
        result = RESOURCE_RESULT_OK ∧
          l'.bytes x = overwrite (l.bytes x) offset (bytes_of buffer length)
  | .stat path =>
    l.Stays l' (fun _ => False) ∧ l'.entries = l.entries ∧ l'.opens = l.opens ∧
      result = answer (l.names (components [] path))
  | .exec path _ =>
    l.Stays l' (fun _ => False) ∧ l'.entries = l.entries ∧ l'.opens = l.opens ∧
      (result = RESOURCE_RESULT_OK →
        ∃ place, l.names (components [] path) = .ok place)
  | .create path type =>
    l.Stays l' (fun _ => False) ∧ l'.opens = l.opens ∧
      if result = RESOURCE_RESULT_OK then ∃ c, l.Made l' (components [] (path_copy path)) type c
      else l'.entries = l.entries
  | .link old_path new_path =>
    l.Stays l' (fun _ => False) ∧ l'.opens = l.opens ∧
      if result = RESOURCE_RESULT_OK then ∃ c, l.names (components [] old_path) = .ok (.inode c) ∧
          l.kind c = VFS_NODE_TYPE_FILE ∧ l.InFolder (components [] (path_copy new_path)) ∧
          l.entries (components [] (path_copy new_path)) = none ∧
          l'.entries = Function.update l.entries (components [] (path_copy new_path)) (some c)
      else l'.entries = l.entries
  | .unlink path =>
    l.Stays l' (fun _ => False) ∧ l'.opens = l.opens ∧
      if result = RESOURCE_RESULT_OK then ∃ c, l.InFolder (components [] (path_copy path)) ∧
          l.entries (components [] (path_copy path)) = some c ∧ l.kind c = VFS_NODE_TYPE_FILE ∧
          l'.entries = Function.update l.entries (components [] (path_copy path)) none
      else l'.entries = l.entries
  | .fork .. => l.Stays l' (fun _ => False) ∧ l'.entries = l.entries ∧ l'.opens = l.opens
  | .run .. => l.Stays l' (fun _ => False) ∧ l'.entries = l.entries ∧ l'.opens = l.opens
  | .seek .. => l.Stays l' (fun _ => False) ∧ l'.entries = l.entries ∧ l'.opens = l.opens

/-- The call takes the name at a path away. -/
def Unlinks (c : VfsCall) (path : List (List Char)) : Prop :=
  match c with
  | .unlink old_path => components [] (path_copy old_path) = path
  | _ => False

/-- A name stays what it is until it is unlinked, and no directory is. -/
theorem Answered.entry_kept {slots : Nat → Nat → Nat} {c : VfsCall} {result : resource_result_t}
    (h : Answered slots l c result l') (hx : l.entries path = some x)
    (hno : Unlinks c path → l.kind x ≠ VFS_NODE_TYPE_FILE) : l'.entries path = some x := by
  have hmade : ∀ {p type c}, l.Made l' p type c → l'.entries path = some x := by
    rintro p type c ⟨-, ⟨-, he⟩ | ⟨hnone, -, -, -, -, he⟩⟩
    · rw [he, hx]
    · have hne : path ≠ p := fun hp => by
        rw [← hp, hx] at hnone
        cases hnone
      rw [he, Function.update_of_ne hne, hx]
  have hopened : ∀ {p flags place}, l.Opened l' p flags place → l'.entries path = some x := by
    rintro p flags place (⟨-, he⟩ | ⟨-, -, c, -, hm⟩)
    · rw [he, hx]
    · exact hmade hm
  unfold Answered at h
  cases c with
  | open_file task p flags block =>
    obtain ⟨-, h⟩ := h
    split at h
    · obtain ⟨place, ho, -⟩ := h
      exact hopened ho
    · obtain ⟨-, he | ⟨place, ho⟩⟩ := h
      · rw [he, hx]
      · exact hopened ho
  | create p type =>
    obtain ⟨-, -, h⟩ := h
    split at h
    · obtain ⟨c, hm⟩ := h
      exact hmade hm
    · rw [h, hx]
  | link old_path new_path =>
    obtain ⟨-, -, h⟩ := h
    split at h
    · obtain ⟨c, -, -, -, hnone, he⟩ := h
      have hne : path ≠ components [] (path_copy new_path) := fun hp => by
        rw [← hp, hx] at hnone
        cases hnone
      rw [he, Function.update_of_ne hne, hx]
    · rw [h, hx]
  | unlink p =>
    obtain ⟨-, -, h⟩ := h
    split at h
    · obtain ⟨c, -, hc, hkind, he⟩ := h
      have hne : path ≠ components [] (path_copy p) := fun hp => by
        rw [← hp, hx] at hc
        cases hc
        exact hno hp.symm hkind
      rw [he, Function.update_of_ne hne, hx]
    · rw [h, hx]
  | close_file task index => rw [h.2.1, hx]
  | destroy task => rw [h.2.1, hx]
  | write task index offset buffer length device => rw [h.2.1, hx]
  | stat p => rw [h.2.1, hx]
  | exec p released => rw [h.2.1, hx]
  | fork parent child task => rw [h.2.1, hx]
  | run task after => rw [h.2.1, hx]
  | seek resource offset flags => rw [h.2.1, hx]

/-- One call more, on a listing. -/
def ListingStep (l l' : Listing) : Prop := ∃ slots c result, Answered slots l c result l'

end alura_os.vfs
