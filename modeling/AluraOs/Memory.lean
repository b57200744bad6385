-- The address space of the kernel (`memory.h`): its fixed addresses, the
-- 32-bit arithmetic of the C code and the page macros.
import Mathlib.Tactic

namespace alura_os.memory

/-! ## The constants -/

def PAGE_SIZE : Nat := 4096

def KERNEL_VIRTUAL_SPACE_START : Nat := 0xC0000000
def KERNEL_LOW_WINDOW_SIZE : Nat := 0x04000000

def KERNEL_HEAP_VIRTUAL_START : Nat := 0xF0000000
def KERNEL_HEAP_VIRTUAL_END : Nat := 0xF7FFFFFF

def USER_STACK_TOP : Nat := 0xBFFFE000
def KERNEL_STACK_TOP : Nat := 0xD0000000

def USER_HEAP_GUARD_SIZE : Nat := 0x100000
def USER_HEAP_VIRTUAL_CEILING : Nat := USER_STACK_TOP - PAGE_SIZE - USER_HEAP_GUARD_SIZE

/-! ## 32-bit arithmetic -/

/-- The value that a `uint32_t`, `size_t` or pointer keeps of a result. -/
def u32 (n : Nat) : Nat := n % 0x100000000

/-- The 32-bit difference `a - b`, which wraps below zero. -/
def sub32 (a b : Nat) : Nat := (a + 0x100000000 - b % 0x100000000) % 0x100000000

/-- The value of a 32-bit word as `int32_t`. -/
def int32 (n : Nat) : Int := if n < 0x80000000 then n else (n : Int) - 0x100000000

/-- `ALIGN_DOWN`: the mask `~(PAGE_SIZE - 1)` clears the low 12 bits. -/
def ALIGN_DOWN (value : Nat) : Nat := value / 4096 * 4096

/-- `ALIGN_UP`: the sum before the mask is a 32-bit sum, so it wraps in the
last page of the address space. -/
def ALIGN_UP (value : Nat) : Nat := ALIGN_DOWN (u32 (value + 4095))

theorem u32_lt (n : Nat) : u32 n < 0x100000000 := Nat.mod_lt _ (by decide)

theorem u32_of_lt {n : Nat} (h : n < 0x100000000) : u32 n = n := Nat.mod_eq_of_lt h

theorem sub32_of_le {a b : Nat} (h : b ≤ a) (ha : a < 0x100000000) : sub32 a b = a - b := by
  unfold sub32; omega

theorem ALIGN_DOWN_le (v : Nat) : ALIGN_DOWN v ≤ v := by
  unfold ALIGN_DOWN; omega

theorem ALIGN_DOWN_mod (v : Nat) : ALIGN_DOWN v % 4096 = 0 := by
  unfold ALIGN_DOWN; omega

theorem ALIGN_UP_mod (v : Nat) : ALIGN_UP v % 4096 = 0 := ALIGN_DOWN_mod _

/-- Away from the last page, `ALIGN_UP` gives the next page boundary. -/
theorem ALIGN_UP_bounds {v : Nat} (h : v + 4095 < 0x100000000) :
    v ≤ ALIGN_UP v ∧ ALIGN_UP v < v + 4096 := by
  unfold ALIGN_UP ALIGN_DOWN
  rw [u32_of_lt h]
  omega

end alura_os.memory
