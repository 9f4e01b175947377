import NekOS.Foundation.Loops
import NekOS.Kernel.Arch
import Mathlib.Data.Nat.Notation

/-!
# `printf`

The formatted output of the C library.  The console is written to byte by byte, and each of these writes may
fail.  Where the behaviour of C is undefined (an address that cannot be read, an argument of another type, an
overflow of `int`, a write behind the end of the buffer) there is no result.
-/

namespace NekOS

namespace Printf

/-- `EOF`. -/
def eof : ℤ := -1

/-- `INT_MAX`. -/
def intMax : ℕ := 2 ^ 31 - 1

/-- The console: the bytes that it has been sent, and the number of calls of `write`. -/
structure Console where
  emitted : List UInt8
  calls : ℕ
  deriving DecidableEq

/-- The console before the first call. -/
def Console.new : Console := ⟨[], 0⟩

/-- The memory of the program.  What cannot be read has no value. -/
abbrev Readable := ℕ → Option UInt8

/-- An argument of a type that `printf` asks `va_arg` for. -/
inductive Arg
  | int (v : Int32)
  | uint (v : UInt32)
  | long (v : Int64)
  | ulong (v : UInt64)
  | ptr (v : UInt64)
  deriving DecidableEq

/-- A function that prints and returns an `int`. -/
abbrev Print := Console → Option (ℤ × Console)

/-- A sum of two `int`. -/
def addInt (x y : ℤ) : Option ℤ := if x + y ≤ intMax then some (x + y) else none

/-- Return a value. -/
def done (r : ℤ) : Print := fun c => some (r, c)

/-- Return `EOF` if a function does, and go on otherwise. -/
def orEof (x : Print) (f : ℤ → Print) : Print := fun c =>
  match x c with
  | none => none
  | some (r, c) => if r = eof then some (eof, c) else f r c

/-- Return the sum of a value and that of a function. -/
def addTo (n : ℤ) (x : Print) : Print := orEof x fun r c => (addInt n r).map fun t => (t, c)

/-- `emit_char`: a call of `write` may fail. -/
def emitChar (ok : ℕ → Bool) (byte : UInt8) : Print := fun c =>
  if ok c.calls then some (1, ⟨c.emitted ++ [byte], c.calls + 1⟩) else some (eof, ⟨c.emitted, c.calls + 1⟩)

/-- The bytes of a literal. -/
def literal (s : List UInt8) : Readable := fun i => (s ++ [0])[i]?

/-- A round of the loop of `emit_string`. -/
def emitRound (ok : ℕ → Bool) (text : Readable) (s : ℕ × ℤ × Console) :
    Flow (Option (ℤ × Console)) (ℕ × ℤ × Console) :=
  let (i, count, c) := s
  match text i with
  | none => .ret none
  | some byte =>
    if byte = 0 then .ret (some (count, c))
    else
      match emitChar ok byte c with
      | none => .ret none
      | some (r, c) =>
        if r = eof then .ret (some (eof, c))
        else
          match addInt count 1 with
          | none => .ret none
          | some count => .next (i + 1, count, c)

/-- The number of bytes in the address space. -/
def addressSpace : ℕ := 2 ^ 64

/-- The loop of `emit_string`. -/
def emitText (ok : ℕ → Bool) (text : Readable) : Print := fun c =>
  (Flow.loop (emitRound ok text) addressSpace (0, 0, c)).join

/-- `(null)`. -/
def nullText : List UInt8 := [0x28, 0x6E, 0x75, 0x6C, 0x6C, 0x29]

/-- `emit_string`. -/
def emitString (ok : ℕ → Bool) (m : Readable) (text : ℕ) : Print :=
  emitText ok (if text = 0 then literal nullText else fun i => m (text + i))

/-- `digits`. -/
def digits : List UInt8 :=
  [0x30, 0x31, 0x32, 0x33, 0x34, 0x35, 0x36, 0x37, 0x38, 0x39, 0x61, 0x62, 0x63, 0x64, 0x65, 0x66]

/-- The loop of `print_unsigned` that fills the buffer, which has room for some more digits. -/
def digitsLoop (base : ℕ) : ℕ → ℕ → List UInt8 → Option (List UInt8)
  | 0, _, _ => none
  | room + 1, value, buffer =>
    let buffer := buffer ++ [digits.getD (value % base) 0]
    if value / base = 0 then some buffer else digitsLoop base room (value / base) buffer

/-- The loop of `print_unsigned` that prints the buffer from its end on. -/
def emitDigits (ok : ℕ → Bool) (count : ℤ) : List UInt8 → Print
  | [] => done count
  | byte :: rest => orEof (emitChar ok byte) fun _ => emitDigits ok (count + 1) rest

/-- `print_unsigned`. -/
def printUnsigned (ok : ℕ → Bool) (value base : ℕ) : Print := fun c =>
  match digitsLoop base 64 value [] with
  | none => none
  | some buffer => emitDigits ok 0 buffer.reverse c

/-- `print_signed`. -/
def printSigned (ok : ℕ → Bool) (value : ℤ) : Print :=
  if value < 0 then
    orEof (emitChar ok 0x2D) fun _ => addTo 1 (printUnsigned ok (wrap (2 ^ 64 - asUsize value)) 10)
  else addTo 0 (printUnsigned ok (asUsize value) 10)

/-- The cases of the inner `switch`. -/
def longConversion (ok : ℕ → Bool) (byte : UInt8) (args : List Arg) : Option (Print × List Arg) :=
  if byte = 0x64 then
    match args with
    | .long v :: args => some (printSigned ok v.toInt, args)
    | _ => none
  else if byte = 0x75 then
    match args with
    | .ulong v :: args => some (printUnsigned ok v.toNat 10, args)
    | _ => none
  else if byte = 0x78 then
    match args with
    | .ulong v :: args => some (printUnsigned ok v.toNat 16, args)
    | _ => none
  else
    some (orEof (emitText ok (literal [0x25, 0x6C])) fun written =>
      if byte ≠ 0 then addTo written (emitChar ok byte) else done written, args)

/-- The cases of the outer `switch`, apart from `l`. -/
def conversion (ok : ℕ → Bool) (m : Readable) (byte : UInt8) (args : List Arg) :
    Option (Print × List Arg) :=
  if byte = 0 ∨ byte = 0x25 then some (emitChar ok 0x25, args)
  else if byte = 0x63 then
    match args with
    | .int v :: args => some (emitChar ok v.toUInt32.toUInt8, args)
    | _ => none
  else if byte = 0x73 then
    match args with
    | .ptr v :: args => some (emitString ok m v.toNat, args)
    | _ => none
  else if byte = 0x64 then
    match args with
    | .int v :: args => some (printSigned ok v.toInt, args)
    | _ => none
  else if byte = 0x75 then
    match args with
    | .uint v :: args => some (printUnsigned ok v.toNat 10, args)
    | _ => none
  else if byte = 0x78 then
    match args with
    | .uint v :: args => some (printUnsigned ok v.toNat 16, args)
    | _ => none
  else if byte = 0x70 then
    match args with
    | .ptr v :: args =>
      some (orEof (emitText ok (literal [0x30, 0x78])) fun written =>
        addTo written (printUnsigned ok v.toNat 16), args)
    | _ => none
  else
    some (orEof (emitChar ok 0x25) fun written => addTo written (emitChar ok byte), args)

/-- The variables of `printf`. -/
structure State where
  pos : ℕ
  args : List Arg
  total : ℤ
  console : Console

/-- The end of a round, where `format` points to a byte. -/
def finish (pos : ℕ) (byte : UInt8) (total : ℤ) (c : Console) (step : Option (Print × List Arg)) :
    Flow (Option (ℤ × Console)) State :=
  match step with
  | none => .ret none
  | some (print, args) =>
    match print c with
    | none => .ret none
    | some (written, c) =>
      if written = eof then .ret (some (eof, c))
      else
        match addInt total written with
        | none => .ret none
        | some total => if byte = 0 then .ret (some (total, c)) else .next ⟨pos + 1, args, total, c⟩

/-- A round of the loop of `printf`. -/
def round (ok : ℕ → Bool) (m : Readable) (format : ℕ) (s : State) : Flow (Option (ℤ × Console)) State :=
  match m (format + s.pos) with
  | none => .ret none
  | some byte =>
    if byte = 0 then .ret (some (s.total, s.console))
    else if byte ≠ 0x25 then finish s.pos byte s.total s.console (some (emitChar ok byte, s.args))
    else
      match m (format + (s.pos + 1)) with
      | none => .ret none
      | some byte =>
        if byte ≠ 0x6C then
          finish (s.pos + 1) byte s.total s.console (conversion ok m byte s.args)
        else
          match m (format + (s.pos + 2)) with
          | none => .ret none
          | some byte => finish (s.pos + 2) byte s.total s.console (longConversion ok byte s.args)

/-- `printf`. -/
def printf (ok : ℕ → Bool) (m : Readable) (format : ℕ) (args : List Arg) : Print := fun c =>
  if format = 0 then some (eof, c)
  else (Flow.loop (round ok m format) addressSpace ⟨0, args, 0, c⟩).join

end Printf

end NekOS
