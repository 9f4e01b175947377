import Mathlib.Data.List.Basic
import NekOS.Foundation.Hex
import NekOS.Kernel.Exec

/-!
# The initial ramdisk

`build.rs` packs the user programs into a `newc` archive, which is linked into the kernel, and
`kernel/initrd.rs` parses the archive at boot.  The two are separate programs: the first is
`packInitrd`, the second `Initrd.init` with `Initrd.find`.
-/

namespace NekOS

/-- `isize::MAX`, the most bytes that a vector or a slice can have. -/
def isizeMax : ℕ := 2 ^ 63 - 1

/-- The contents of a vector or a slice of bytes. -/
structure ByteSlice where
  /-- The bytes. -/
  bytes : List UInt8
  /-- There are at most `isize::MAX`. -/
  length_le : bytes.length ≤ isizeMax
  deriving DecidableEq

/-- Vectors with the same bytes are equal. -/
lemma ByteSlice.ext_bytes {v w : ByteSlice} (h : v.bytes = w.bytes) : v = w := by
  cases v
  cases w
  simpa using h

/-- The empty vector. -/
def ByteSlice.empty : ByteSlice := ⟨[], Nat.zero_le _⟩

/-- The magic number `070701`. -/
def newcMagic : List UInt8 := [0x30, 0x37, 0x30, 0x37, 0x30, 0x31]

/-- The name that ends an archive. -/
def trailerName : String := "TRAILER!!!"

/-! ### The packer -/

/-- The fields of a header: the number of the file, its mode, owner, group, links and time, the
length of the data, four device numbers, the length of the name with its NUL, and a checksum. -/
def newcFields (namesize dataLen ino : ℕ) : List ℕ :=
  [ino, 0o100755, 0, 0, 1, 0, dataLen, 0, 0, 0, 0, namesize, 0]

/-- The header that `append_newc_entry` formats. -/
def newcHeader (namesize dataLen ino : ℕ) : List UInt8 :=
  newcMagic ++ (newcFields namesize dataLen ino).flatMap (hexFormat 8)

/-- The loop that appends zeros until the length is a multiple of four. -/
def padTo4 (archive : List UInt8) : List UInt8 :=
  archive ++ List.replicate ((4 - archive.length % 4) % 4) 0

/-- The bytes of a string. -/
def stringBytes (name : String) : List UInt8 := name.toUTF8.data.toList

/-- What `append_newc_entry` appends to, extends and pads. -/
def newcExtend (archive : List UInt8) (name : String) (data : List UInt8) (ino : ℕ) : List UInt8 :=
  padTo4 (padTo4 (archive ++ newcHeader ((stringBytes name).length + 1) data.length ino ++
    stringBytes name ++ [0]) ++ data)

/-- `append_newc_entry`.  It panics when a field does not fit in the header, or when the vector
would be too long. -/
def appendNewcEntry (archive : ByteSlice) (name : String) (data : List UInt8) (ino : ℕ) :
    Option ByteSlice :=
  if h : (newcHeader ((stringBytes name).length + 1) data.length ino).length = 110 ∧
      (newcExtend archive.bytes name data ino).length ≤ isizeMax then
    some ⟨newcExtend archive.bytes name data ino, h.2⟩
  else none

/-- `index as u32 + 1`. -/
def inodeOf (index : ℕ) : ℕ := (index % 2 ^ 32 + 1) % 2 ^ 32

/-- Append files to an archive that already has a number of them. -/
def appendFiles (archive : ByteSlice) (index : ℕ) : List (String × List UInt8) → Option ByteSlice
  | [] => some archive
  | file :: files => do
    let archive ← appendNewcEntry archive file.1 file.2 (inodeOf index)
    appendFiles archive (index + 1) files

/-- The part of the `main` of `build.rs` that assembles the archive. -/
def packInitrd (files : List (String × List UInt8)) : Option ByteSlice := do
  let cpio ← appendFiles .empty 0 files
  appendNewcEntry cpio trailerName [] (inodeOf files.length)

/-! ### The parser -/

/-- A file of the ramdisk (`Entry`). -/
structure InitrdEntry where
  name : String
  data : List UInt8
  deriving DecidableEq

/-- `FILES` and `FILE_COUNT`. -/
structure Initrd where
  files : List (Option InitrdEntry)
  fileCount : ℕ
  deriving DecidableEq

/-- `MAX_FILES`. -/
def maxFiles : ℕ := 16

/-- `HEADER_SIZE`. -/
def headerSize : ℕ := 110

/-- The value of a hexadecimal digit, in either case. -/
def hexValue (byte : UInt8) : Option ℕ :=
  if 0x30 ≤ byte ∧ byte ≤ 0x39 then some (byte.toNat - 0x30)
  else if 0x61 ≤ byte ∧ byte ≤ 0x66 then some (byte.toNat - 0x61 + 10)
  else if 0x41 ≤ byte ∧ byte ≤ 0x46 then some (byte.toNat - 0x41 + 10)
  else none

/-- One step of the loop of `hex`. -/
def hexStep (value : ℕ) (byte : UInt8) : Option ℕ := do
  let value ← checkedMul value 16
  let digit ← hexValue byte
  checkedAdd value digit

/-- `hex`. -/
def hex (bytes : List UInt8) : Option ℕ := bytes.foldlM hexStep 0

/-- `align4`: `(value + 3) & !3`. -/
def align4 (value : ℕ) : ℕ := wrap (value + 3) / 4 * 4

namespace Initrd

/-- The header and the name that the loop of `init` reads at a position: the name, the position
after it and the length of the data. -/
def nameAt (archive : List UInt8) (pos : ℕ) : Option (String × ℕ × ℕ) := do
  let headerEnd ← checkedAdd pos headerSize
  guard (headerEnd ≤ archive.length)
  let header := archive.extract pos headerEnd
  guard (header.take 6 = newcMagic)
  let namesize ← hex (header.extract 94 102)
  let filesize ← hex (header.extract 54 62)
  let nameStart := pos + headerSize
  let nameEnd ← checkedAdd nameStart namesize
  guard (namesize ≠ 0 ∧ nameEnd ≤ archive.length)
  let name ← String.fromUTF8? ⟨(archive.extract nameStart (nameEnd - 1)).toArray⟩
  return (name, nameEnd, filesize)

/-- The entry that the loop of `init` reads at a position, with the next position.  Without one the
loop ends. -/
def entryAt (archive : List UInt8) (pos : ℕ) : Option (InitrdEntry × ℕ) := do
  let (name, nameEnd, filesize) ← nameAt archive pos
  guard (name ≠ trailerName)
  let dataStart := align4 nameEnd
  let dataEnd ← checkedAdd dataStart filesize
  guard (dataEnd ≤ archive.length)
  return (⟨name, archive.extract dataStart dataEnd⟩, align4 dataEnd)

/-- Enter a file in the table, while there is room. -/
def register (d : Initrd) (entry : InitrdEntry) : Initrd :=
  if d.fileCount < maxFiles ∧ entry.name ≠ "." then
    ⟨d.files.set d.fileCount (some entry), d.fileCount + 1⟩
  else d

/-- Before `init` the table is empty. -/
def new : Initrd := ⟨List.replicate maxFiles none, 0⟩

/-- The name ends after the header, inside the archive. -/
lemma nameAt_bounds {archive : List UInt8} {pos nameEnd filesize : ℕ} {name : String}
    (h : nameAt archive pos = some (name, nameEnd, filesize)) :
    pos + 110 ≤ nameEnd ∧ nameEnd ≤ archive.length := by
  simp only [nameAt, Option.bind_eq_bind, Option.bind_eq_some_iff, Option.guard_eq_some',
    checkedAdd_eq_some, Option.pure_def, Option.some.injEq, Prod.mk.injEq] at h
  obtain ⟨_, ⟨-, rfl⟩, _, -, _, -, namesize, -, _, -, _, ⟨-, rfl⟩, _, ⟨-, hname⟩, _, -, -, rfl,
    -⟩ := h
  exact ⟨Nat.le_add_right _ _, hname⟩

/-- The loop goes forward. -/
lemma entryAt_lt {archive : List UInt8} (hlen : archive.length ≤ isizeMax) {pos next : ℕ}
    {entry : InitrdEntry} (h : entryAt archive pos = some (entry, next)) :
    pos < archive.length ∧ pos < next := by
  simp only [entryAt, Option.bind_eq_bind, Option.bind_eq_some_iff, Option.guard_eq_some',
    checkedAdd_eq_some, Option.pure_def, Option.some.injEq, Prod.mk.injEq] at h
  obtain ⟨⟨_, nameEnd, filesize⟩, hname, _, -, _, ⟨-, rfl⟩, _, hdata, -, rfl⟩ := h
  obtain ⟨hstart, hend⟩ := nameAt_bounds hname
  simp only [isizeMax, align4, wrap] at *
  omega

/-- The loop of `init`. -/
def initLoop (archive : ByteSlice) (pos : ℕ) (d : Initrd) : Initrd :=
  match h : entryAt archive.bytes pos with
  | none => d
  | some (entry, next) =>
    have := entryAt_lt archive.length_le h
    initLoop archive next (d.register entry)
termination_by archive.bytes.length - pos
decreasing_by omega

/-- The loop ends where no entry is read. -/
lemma initLoop_of_none {archive : ByteSlice} {pos : ℕ} {d : Initrd}
    (h : entryAt archive.bytes pos = none) : initLoop archive pos d = d := by
  rw [initLoop]
  split
  · rfl
  · next h' => rw [h] at h'; cases h'

/-- The loop registers the entry that it reads and goes on after it. -/
lemma initLoop_of_some {archive : ByteSlice} {pos next : ℕ} {d : Initrd} {entry : InitrdEntry}
    (h : entryAt archive.bytes pos = some (entry, next)) :
    initLoop archive pos d = initLoop archive next (d.register entry) := by
  rw [initLoop]
  split
  · next h' => rw [h] at h'; cases h'
  · next h' => rw [h] at h'; cases h'; rfl

/-- `init`. -/
def init (archive : ByteSlice) : Initrd := initLoop archive 0 new

/-- `find`. -/
def find (d : Initrd) (name : String) : Option (List UInt8) :=
  ((d.files.take d.fileCount).reduceOption.find? fun entry => entry.name = name).map
    InitrdEntry.data

/-- The files in the table, as `Kernel` keeps them. -/
def contents (d : Initrd) : List (String × List UInt8) :=
  (d.files.take d.fileCount).reduceOption.map fun entry => (entry.name, entry.data)

/-- A kernel with the files of the table finds what `find` does. -/
lemma findFile_contents {k : Kernel} {d : Initrd} (h : k.files = d.contents) (name : String) :
    k.findFile name = d.find name := by
  rw [Kernel.findFile, h, contents, find, List.find?_map, Option.map_map]
  rfl

end Initrd

end NekOS
