-- Formatted output (`print.c`): `vsnprintf` with its conversions. A write outside the buffer and a
-- read past the end of the format end it, and so does an argument of another type.
import AluraOs.UserMemory

namespace alura_os.print

open alura_os.memory alura_os.task_manager

def FORMATTED_PRINT_NUMBER_BUFFER_LENGTH : Nat := 32
/-! ## The call -/

/-- An argument. The characters of a string are those before its `NUL`. -/
inductive arg_t where
  | int (n : Int)
  | unsigned (n : Nat)
  | long (n : Nat)
  | string (s : List Nat)
  deriving DecidableEq, Repr

inductive fault_t where
  | format
  | buffer
  | arguments
  deriving DecidableEq, Repr

structure print_t where
  buffer : Nat → Nat
  buffer_len : Nat
  written : Nat

namespace print_t

/-- `buffer[i] = character` -/
def store (s : print_t) (i character : Nat) : Except fault_t print_t :=
  if i < s.buffer_len then .ok { s with buffer := Function.update s.buffer i character }
  else .error .buffer

/-- `written += n` -/
def advance (s : print_t) (n : Nat) : print_t := { s with written := s.written + n }

/-- `buffer[written] = character; written++` -/
def put (s : print_t) (character : Nat) : Except fault_t print_t := do
  let s ← s.store s.written character
  return s.advance 1

/-- The loops `while (… && written + 1 < buffer_len)` over the characters that are left. -/
def put_text (s : print_t) : List Nat → Except fault_t print_t
  | [] => .ok s
  | c :: rest =>
    if s.written + 1 < s.buffer_len then do
      let s ← s.put c
      s.put_text rest
    else .ok s

end print_t

open print_t

/-! ## Numbers -/

/-- `reverse_number_buffer` of `%d`, with room for more digits. The division truncates. -/
def decimal_digits : Nat → Int → List Nat
  | 0, _ => []
  | room + 1, number =>
    ((48 + number.tmod 10) % 256).toNat ::
      if number.tdiv 10 = 0 then [] else decimal_digits room (number.tdiv 10)

/-- `reverse_number_buffer` of `%x` and `%lx`. -/
def hexadecimal_digits : Nat → Nat → List Nat
  | 0, _ => []
  | room + 1, number =>
    (if number % 16 < 10 then 48 + number % 16 else 65 + number % 16 - 10) ::
      if number / 16 = 0 then [] else hexadecimal_digits room (number / 16)

/-- `-number` of an `int`, which wraps. -/
def negate (number : Int) : Int := int32 ((-number % 0x100000000).toNat)

/-- `%d` and `%ld` -/
def print_decimal (s : print_t) (number : Int) : Except fault_t print_t :=
  if number < 0 then do
    let s ← s.put 45
    s.put_text (decimal_digits (FORMATTED_PRINT_NUMBER_BUFFER_LENGTH - 1) (negate number)).reverse
  else s.put_text (decimal_digits (FORMATTED_PRINT_NUMBER_BUFFER_LENGTH - 1) number).reverse

/-- `%x` and `%lx` -/
def print_hexadecimal (s : print_t) (number : Nat) : Except fault_t print_t := do
  let s ← s.store s.written 48
  let s ← s.store (s.written + 1) 120
  (s.advance 2).put_text
    (hexadecimal_digits (FORMATTED_PRINT_NUMBER_BUFFER_LENGTH - 1) number).reverse

/-- The `default` cases: `first` is `%` or `l`. The second character is not stored in the last byte of
the buffer, but it is counted. -/
def print_unknown (s : print_t) (first c : Nat) : Except fault_t print_t := do
  let s ← s.put first
  let s ← if s.written + 1 < s.buffer_len then s.store s.written c else pure s
  return s.advance 1

/-! ## The format -/

def PERCENT : Nat := 37

/-- The loop of `vsnprintf`, on the part of the format that is left. After a conversion that takes the
terminating `NUL` for its letter, the loop reads on behind it. -/
def format_loop (s : print_t) : List Nat → List arg_t → Except fault_t print_t
  | [], _ => .ok s
  | c :: fmt, args =>
    if s.buffer_len ≤ s.written + 1 then .ok s
    else if c ≠ PERCENT then do
      let s ← s.put c
      format_loop s fmt args
    else
      match fmt with
      | [] => do
        let _ ← print_unknown s PERCENT 0
        throw .format
      | 115 :: fmt =>
        match args with
        | .string string :: args => do
          let s ← s.put_text string
          format_loop s fmt args
        | _ => throw .arguments
      | 100 :: fmt =>
        match args with
        | .int number :: args => do
          let s ← print_decimal s number
          format_loop s fmt args
        | _ => throw .arguments
      | 99 :: fmt =>
        match args with
        | .int number :: args => do
          let s ← s.put (number % 256).toNat
          format_loop s fmt args
        | _ => throw .arguments
      | 120 :: fmt =>
        match args with
        | .unsigned number :: args => do
          let s ← print_hexadecimal s number
          format_loop s fmt args
        | _ => throw .arguments
      | [108] => do
        let _ ← print_unknown s 108 0
        throw .format
      | 108 :: 120 :: fmt =>
        match args with
        | .long number :: args => do
          let s ← print_hexadecimal s number
          format_loop s fmt args
        | _ => throw .arguments
      | 108 :: 100 :: fmt =>
        match args with
        | .int number :: args => do
          let s ← print_decimal s number
          format_loop s fmt args
        | _ => throw .arguments
      | 108 :: c :: fmt => do
        let s ← print_unknown s 108 c
        format_loop s fmt args
      | c :: fmt => do
        let s ← print_unknown s PERCENT c
        format_loop s fmt args

/-- `vsnprintf`: the buffer and the number of characters as an `int`. -/
def vsnprintf (buffer : Nat → Nat) (buffer_len : Nat) (fmt : List Nat) (args : List arg_t) :
    Except fault_t ((Nat → Nat) × Int) := do
  let s ← format_loop ⟨buffer, buffer_len, 0⟩ fmt args
  let s ← s.store s.written 0
  return (s.buffer, int32 s.written)

end alura_os.print
