import NekOS.Foundation.Bytes
import Mathlib.Data.List.Basic

/-!
# Directory slots and names

The 32-byte slots of a directory, the names that they spell, and the functions on text that the file
server takes from the standard library.
-/

namespace NekOS

namespace Fs

/-! ### Text -/

/-- A `&str`. -/
abbrev Str := List Char

namespace Str

/-- `as_bytes`. -/
def asBytes (s : Str) : List UInt8 := s.flatMap String.utf8EncodeChar

/-- `encode_utf16`. -/
def encodeUtf16 (s : Str) : List ℕ :=
  s.flatMap fun c =>
    if c.toNat < 0x10000 then [c.toNat]
    else [0xD800 + (c.toNat - 0x10000) / 0x400, 0xDC00 + (c.toNat - 0x10000) % 0x400]

/-- `find`: where a text occurs in another one for the first time. -/
def find (pat s : Str) : Option ℕ :=
  (List.range (s.length + 1)).find? fun i => pat.isPrefixOf (s.drop i)

/-- `rfind('/')`, as the text before the last slash and the text behind it. -/
def rsplitSlash (s : Str) : Option (Str × Str) :=
  if '/' ∈ s then
    some ((s.reverse.dropWhile (· ≠ '/')).tail.reverse, (s.reverse.takeWhile (· ≠ '/')).reverse)
  else none

/-- `trim_end_matches('\0')`. -/
def trimNul (s : Str) : Str := (s.reverse.dropWhile (· = '\x00')).reverse

end Str

/-- `to_ascii_lowercase`. -/
def toAsciiLowercase (c : UInt8) : UInt8 := if 0x41 ≤ c ∧ c ≤ 0x5A then c + 0x20 else c

/-- `to_ascii_uppercase`. -/
def toAsciiUppercase (c : UInt8) : UInt8 := if 0x61 ≤ c ∧ c ≤ 0x7A then c - 0x20 else c

/-- `is_ascii_alphanumeric`. -/
def isAsciiAlphanumeric (c : UInt8) : Bool :=
  (0x30 ≤ c ∧ c ≤ 0x39) ∨ (0x41 ≤ c ∧ c ≤ 0x5A) ∨ (0x61 ≤ c ∧ c ≤ 0x7A)

/-- The comparison of two names with `eq_ignore_ascii_case`. -/
def nameMatches (name search : List UInt8) : Bool :=
  name.length = search.length &&
    (name.zip search).all fun p => toAsciiLowercase p.1 = toAsciiLowercase p.2

/-! ### Slots -/

/-- `ATTR_DIRECTORY`. -/
def attrDirectory : UInt8 := 0x10

/-- `ATTR_ARCHIVE`. -/
def attrArchive : UInt8 := 0x20

/-- The attribute of a slot of a long name. -/
def attrLfn : UInt8 := 0x0F

/-- The first byte of the slot that ends a directory. -/
def slotEnd : UInt8 := 0x00

/-- The first byte of a deleted slot. -/
def slotDeleted : UInt8 := 0xE5

/-- A slot of a directory: the bytes of a `DirEntry` or of an `LfnEntry`. -/
abbrev DirEntry := Fin 32 → UInt8

namespace DirEntry

/-- The slot at an address. -/
def read (m : Bytes) (a : ℕ) : DirEntry := fun i => m (a + i)

/-- A byte of a slot. -/
def byte (e : DirEntry) (i : ℕ) : UInt8 := if h : i < 32 then e ⟨i, h⟩ else 0

/-- Two bytes of a slot as a number. -/
def half (e : DirEntry) (i : ℕ) : ℕ := (e.byte i).toNat + 2 ^ 8 * (e.byte (i + 1)).toNat

/-- `attr`. -/
def attr (e : DirEntry) : UInt8 := e.byte 11

/-- The test of `ATTR_DIRECTORY`. -/
def isDirectory (e : DirEntry) : Bool := e.attr &&& attrDirectory ≠ 0

/-- `first_cluster_hi` and `first_cluster_lo` as one number. -/
def firstCluster (e : DirEntry) : ℕ := e.half 26 + 2 ^ 16 * e.half 20

/-- `file_size`. -/
def fileSize (e : DirEntry) : ℕ := e.half 28 + 2 ^ 16 * e.half 30

/-- The name and the extension as they are stored. -/
def short (e : DirEntry) : List UInt8 := (List.range 11).map e.byte

/-- The name of a short entry: the name and the extension without the spaces behind them. -/
def shortName (e : DirEntry) : List UInt8 :=
  let name := ((List.range 8).map e.byte).takeWhile (· ≠ 0x20)
  if e.byte 8 ≠ 0x20 then
    name ++ 0x2E :: ((List.range 3).map fun j => e.byte (8 + j)).takeWhile (· ≠ 0x20)
  else name

/-- Where a character lies in a slot of a long name: `name1`, `name2` and `name3` have five, six and two. -/
def charOffset (k : ℕ) : ℕ :=
  if k < 5 then 1 + 2 * k else if k < 11 then 14 + 2 * (k - 5) else 28 + 2 * (k - 11)

/-- A character in a slot of a long name. -/
def char (e : DirEntry) (k : ℕ) : ℕ := e.half (charOffset k)

/-- The index of the part of a long name that a slot holds. -/
def lfnIdx (e : DirEntry) : ℕ := (e.byte 0).toNat % 64 - 1

end DirEntry

/-- An entry with its name. -/
abbrev Found := DirEntry × List UInt8

/-! ### Long names -/

/-- `lfn_buf` and `lfn_len`. -/
structure Lfn where
  buf : ℕ → ℕ
  len : ℕ

namespace Lfn

/-- The buffer at the start of a walk. -/
def init : Lfn := ⟨fun _ => 0, 0⟩

/-- The buffer after a short entry or a deleted one. -/
def reset (lfn : Lfn) : Lfn := { lfn with len := 0 }

/-- The buffer after a slot of a long name. -/
def push (lfn : Lfn) (e : DirEntry) : Lfn :=
  let base := e.lfnIdx * 13
  if e.lfnIdx < 20 then
    { buf := if base + 13 ≤ 256 then
        fun j => if base ≤ j ∧ j < base + 13 then e.char (j - base) else lfn.buf j
      else lfn.buf
      len := max lfn.len (base + 13) }
  else lfn

/-- The name in the buffer: its ASCII characters up to the first terminator. -/
def text (lfn : Lfn) : List UInt8 :=
  (((((List.range lfn.len).map lfn.buf).takeWhile fun ch => ch ≠ 0 ∧ ch ≠ 0xFFFF).filter
    (· < 0x80)).map UInt8.ofNat).take 256

/-- The name of a short entry, if the buffer holds what precedes it. -/
def entryName (lfn : Lfn) (e : DirEntry) : List UInt8 :=
  if 0 < lfn.len then lfn.text else e.shortName

end Lfn

end Fs

end NekOS
