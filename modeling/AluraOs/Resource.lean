-- Open resources (`resource.c`): the slots of the tasks, the records that the
-- slots point to, and the count of the slots that share a record.
import Mathlib.Data.Finset.Prod
import AluraOs.Task
import AluraOs.Pools

namespace alura_os.resource

open alura_os.memory alura_os.task_manager

/-! ## The records -/

inductive resource_result_t where
  | RESOURCE_RESULT_OK
  | RESOURCE_RESULT_INVALID
  | RESOURCE_RESULT_NOT_FOUND
  | RESOURCE_RESULT_BAD_PARAMETER
  | RESOURCE_RESULT_ALREADY_PRESENT
  | RESOURCE_RESULT_STILL_IN_USE
  | RESOURCE_RESULT_ALLOCATION_ERROR
  | RESOURCE_RESULT_NO_FREE_SLOTS
  | RESOURCE_RESULT_WILL_BLOCK
  deriving DecidableEq, Repr

inductive resource_type_t where
  | RESOURCE_TYPE_FILE
  | RESOURCE_TYPE_KEYBOARD
  | RESOURCE_TYPE_TERMINAL
  | RESOURCE_TYPE_FRAMEBUFFER
  deriving DecidableEq, Repr

/-- `resource_operations_t`: which of the pointers are not `NULL`. -/
structure resource_operations_t where
  close : Bool
  read : Bool
  write : Bool
  ioctl : Bool
  deriving DecidableEq, Repr

/-- The only operations that the kernel registers. -/
def vfs_operations : resource_operations_t := ⟨true, true, true, true⟩

structure resource_t where
  type : resource_type_t
  data : Nat
  operations : resource_operations_t
  ref_count : Nat
  offset : Nat
  flags : Nat
  deriving DecidableEq, Repr

/-- What is left of `resource_t` by `kernel_heap_calloc`. -/
def resource_t.zeroed : resource_t :=
  ⟨resource_type_t.RESOURCE_TYPE_FILE, 0, ⟨false, false, false, false⟩, 0, 0, 0⟩

/-! ## The store -/

/-- The tasks and the resources of the kernel, by address. `live` and `blocks` are the addresses
that the kernel heap has given out for them; `ledger` lists, the latest first, the resources that were
registered (`taken`) and those that were closed (`returned`), and `opened_flags` keeps the flags that
each was registered with. -/
structure Store where
  tasks : Nat → task_t
  live : Finset Nat
  resources : Nat → resource_t
  blocks : Finset Nat
  ledger : List (pools.Event Nat)
  opened_flags : Nat → Nat

namespace Store

/-- `task->resources[index] = resource` -/
def setSlot (s : Store) (task index resource : Nat) : Store :=
  { s with
    tasks := Function.update s.tasks task
      { s.tasks task with
        resources := Function.update (s.tasks task).resources index resource } }

/-- `*resource = r` -/
def setResource (s : Store) (resource : Nat) (r : resource_t) : Store :=
  { s with resources := Function.update s.resources resource r }

def slot (s : Store) (task index : Nat) : Nat := (s.tasks task).resources index

end Store

/-! ## The heap -/

/-- `sizeof(task_t)` -/
def SIZEOF_TASK : Nat := 2400

/-- The kernel heap gives a block for a task: inside its window, and apart from those of the
tasks that exist. -/
def TaskBlock (live : Finset Nat) (a : Nat) : Prop :=
  KERNEL_HEAP_VIRTUAL_START ≤ a ∧ a + SIZEOF_TASK ≤ KERNEL_HEAP_VIRTUAL_END + 1 ∧
    ∀ b ∈ live, a + SIZEOF_TASK ≤ b ∨ b + SIZEOF_TASK ≤ a

instance (live : Finset Nat) (a : Nat) : Decidable (TaskBlock live a) :=
  inferInstanceAs (Decidable (_ ∧ _ ∧ ∀ b ∈ live, _ ∨ _))

/-- The kernel heap gives a block for a smaller record: not `NULL`, and none of those in use. -/
def Block (blocks : Finset Nat) (a : Nat) : Prop := a ≠ 0 ∧ a < 0x100000000 ∧ a ∉ blocks

instance (blocks : Finset Nat) (a : Nat) : Decidable (Block blocks a) :=
  inferInstanceAs (Decidable (_ ∧ _ ∧ _))

/-! ## The code -/

open resource_result_t

/-- `kernel_heap_calloc(sizeof(task_t))` -/
def new_task (s : Store) (a : Nat) (task : task_t) : Store :=
  { s with tasks := Function.update s.tasks a task, live := insert a s.live }

/-- `kernel_heap_free(task)` -/
def free_task (s : Store) (a : Nat) : Store := { s with live := s.live.erase a }

/-- `kernel_heap_calloc(sizeof(resource_t))` gives `block`, which is then filled. -/
def new_resource (s : Store) (block : Nat) (r : resource_t) : Store :=
  { s with
    resources := Function.update s.resources block r
    blocks := insert block s.blocks
    ledger := .taken block :: s.ledger
    opened_flags := Function.update s.opened_flags block r.flags }

/-- The search of `resource_register`: the first slot that is `NULL`. -/
def free_slot (s : Store) (task : Nat) : Option Nat :=
  (List.range TASK_MAX_RESOURCES).find? fun i => s.slot task i = 0

/-- `resource_register`. `block` is the record that `kernel_heap_calloc` gives; the first result
is `none` where the heap could not have given it. -/
def resource_register (s : Store) (task : Nat) (type : resource_type_t) (data : Nat)
    (operations : resource_operations_t) (flags block : Nat) :
    Option (Store × resource_result_t × Nat) :=
  match free_slot s task with
  | none => some (s, RESOURCE_RESULT_NO_FREE_SLOTS, 0)
  | some free_index =>
    if Block s.blocks block then
      let s := new_resource s block
        { resource_t.zeroed with
          type := type
          data := data
          operations := operations
          ref_count := 1
          flags := flags }
      some (s.setSlot task free_index block, RESOURCE_RESULT_OK, free_index)
    else none

/-- `resource->operations.close(resource); kernel_heap_free(resource)` -/
def close_and_free (s : Store) (resource : Nat) : Store :=
  let s :=
    if (s.resources resource).operations.close then { s with ledger := .returned resource :: s.ledger }
    else s
  { s with blocks := s.blocks.erase resource }

def resource_remove (s : Store) (task index : Nat) : Store × resource_result_t :=
  if TASK_MAX_RESOURCES ≤ index then (s, RESOURCE_RESULT_BAD_PARAMETER)
  else
    let resource := s.slot task index
    if resource = 0 then (s, RESOURCE_RESULT_OK)
    else
      let r := { s.resources resource with ref_count := sub32 (s.resources resource).ref_count 1 }
      let s := s.setResource resource r
      let s := if r.ref_count = 0 then close_and_free s resource else s
      (s.setSlot task index 0, RESOURCE_RESULT_OK)

def resource_share (s : Store) (child index resource : Nat) : Store :=
  let r := s.resources resource
  let s := s.setResource resource { r with ref_count := u32 (r.ref_count + 1) }
  s.setSlot child index resource

/-- The sharing loop of `task_manager_task_copy`. -/
def share_resources (s : Store) (task parent : Nat) : Store :=
  (List.range TASK_MAX_RESOURCES).foldl
    (fun s i => if s.slot parent i ≠ 0 then resource_share s task i (s.slot parent i) else s) s

/-- The release loop of `task_manager_destroy_task`. -/
def release_resources (s : Store) (task : Nat) : Store :=
  (List.range TASK_MAX_RESOURCES).foldl
    (fun s i => if s.slot task i = 0 then s else (resource_remove s task i).1) s

end alura_os.resource
