import Mathlib.Tactic.IntervalCases
import NekOS.Ramdisk.Archive

/-!
# The packer and the parser of the ramdisk are inverse

An archive is a sequence of records, each of a length that is a multiple of four.  The parser reads
a record back whole, wherever it stands, and stops at the trailer.
-/

namespace NekOS

/-! ### Reading a field -/

/-- A digit is read back. -/
lemma hexValue_hexChar {d : ℕ} (h : d < 16) : hexValue (hexChar d) = some d := by
  interval_cases d <;> rfl

/-- Reading a digit makes the value larger. -/
lemma le_foldl_digits (ds : List ℕ) (v : ℕ) : v ≤ ds.foldl (fun v d => v * 16 + d) v := by
  induction ds generalizing v with
  | nil => exact le_rfl
  | cons d ds ih => exact le_trans (by omega) (ih (v * 16 + d))

/-- Digits whose value is a 64-bit number are read without an overflow. -/
lemma foldlM_hexStep {ds : List ℕ} (hds : ∀ d ∈ ds, d < 16) {v : ℕ}
    (hv : ds.foldl (fun v d => v * 16 + d) v < 2 ^ 64) :
    (ds.map hexChar).foldlM hexStep v = some (ds.foldl (fun v d => v * 16 + d) v) := by
  induction ds generalizing v with
  | nil => rfl
  | cons d ds ih =>
    have hle : v * 16 + d < 2 ^ 64 := lt_of_le_of_lt (le_foldl_digits ds _) hv
    have hstep : hexStep v (hexChar d) = some (v * 16 + d) := by
      have hmul : checkedMul v 16 = some (v * 16) := if_pos (by omega)
      have hadd : checkedAdd (v * 16) d = some (v * 16 + d) := if_pos hle
      have hval := hexValue_hexChar (hds d List.mem_cons_self)
      simp only [hexStep, hmul, hval, hadd, Option.bind_eq_bind, Option.bind_some]
    rw [List.map_cons, List.foldlM_cons, hstep]
    exact ih (fun e he => hds e (List.mem_cons_of_mem d he)) hv

/-- A field is read back. -/
lemma hex_hexFormat (width : ℕ) {n : ℕ} (h : n < 2 ^ 64) : hex (hexFormat width n) = some n := by
  have hn := foldl_hexDigits width n
  rw [hex, hexFormat, foldlM_hexStep (fun d hd => hexDigits_lt hd) (by rwa [hn]), hn]

/-- Rounding up without an overflow. -/
lemma align4_of_lt {value : ℕ} (h : value + 3 < 2 ^ 64) : align4 value = (value + 3) / 4 * 4 := by
  rw [align4, wrap_of_lt h]

/-- The bytes of a string are read back. -/
lemma fromUTF8_stringBytes (name : String) :
    String.fromUTF8? ⟨(stringBytes name).toArray⟩ = some name := by
  have hbytes : (⟨(stringBytes name).toArray⟩ : ByteArray) = name.toByteArray := rfl
  rw [hbytes]
  exact dif_pos name.isValidUTF8

/-! ### The layout of an archive -/

/-- What is read of the second of two parts. -/
lemma extract_append {α : Type} (before l : List α) (a b : ℕ) :
    (before ++ l).extract (before.length + a) (before.length + b) = l.extract a b := by
  rw [List.extract_eq_take_drop, List.extract_eq_take_drop, List.drop_length_add_append,
    Nat.add_sub_add_left]

/-- What is read of the part in the middle. -/
lemma extract_middle {α : Type} (before l after : List α) :
    (before ++ l ++ after).extract before.length (before.length + l.length) = l := by
  rw [List.append_assoc]
  exact (extract_append before (l ++ after) 0 l.length).trans (by simp)

/-- Padding after a part whose length is a multiple of four. -/
lemma padTo4_append {before l : List UInt8} (h : before.length % 4 = 0) :
    padTo4 (before ++ l) = before ++ padTo4 l := by
  have hmod : (before ++ l).length % 4 = l.length % 4 := by
    rw [List.length_append]
    omega
  rw [padTo4, padTo4, hmod, List.append_assoc]

/-- The length after padding. -/
lemma padTo4_length (l : List UInt8) : (padTo4 l).length = (l.length + 3) / 4 * 4 := by
  rw [padTo4, List.length_append, List.length_replicate]
  omega

/-- The header, the name and its NUL. -/
def newcHead (name : String) (data : List UInt8) (ino : ℕ) : List UInt8 :=
  newcHeader ((stringBytes name).length + 1) data.length ino ++ stringBytes name ++ [0]

/-- The record of a file. -/
def newcRecord (name : String) (data : List UInt8) (ino : ℕ) : List UInt8 :=
  padTo4 (newcHead name data ino) ++ padTo4 data

/-- A record is appended whole. -/
lemma newcExtend_eq {archive : List UInt8} (h : archive.length % 4 = 0) (name : String)
    (data : List UInt8) (ino : ℕ) :
    newcExtend archive name data ino = archive ++ newcRecord name data ino := by
  have hassoc : archive ++ newcHeader ((stringBytes name).length + 1) data.length ino ++
      stringBytes name ++ [0] = archive ++ newcHead name data ino := by
    simp only [newcHead, List.append_assoc]
  have hpad : (archive ++ padTo4 (newcHead name data ino)).length % 4 = 0 := by
    rw [List.length_append, padTo4_length]
    omega
  rw [newcExtend, hassoc, padTo4_append h, padTo4_append hpad, newcRecord, List.append_assoc]

/-- The length of a record is a multiple of four. -/
lemma newcRecord_length_mod (name : String) (data : List UInt8) (ino : ℕ) :
    (newcRecord name data ino).length % 4 = 0 := by
  rw [newcRecord, List.length_append, padTo4_length, padTo4_length]
  omega

/-- The number of a file is a 32-bit value. -/
lemma inodeOf_lt (index : ℕ) : inodeOf index < 2 ^ 32 := Nat.mod_lt _ (by decide)

/-- The fields of a header fit when the lengths do. -/
lemma newcFields_lt {namesize dataLen ino : ℕ} (hname : namesize < 2 ^ 32)
    (hdata : dataLen < 2 ^ 32) (hino : ino < 2 ^ 32) :
    ∀ n ∈ newcFields namesize dataLen ino, (hexFormat 8 n).length = 8 := by
  intro n hn
  rw [hexFormat_length_eq_iff]
  simp only [newcFields, List.mem_cons, List.not_mem_nil, or_false] at hn
  omega

/-- A header has its 110 bytes exactly when the lengths are 32-bit values. -/
lemma newcHeader_length_iff {ino : ℕ} (namesize dataLen : ℕ) (hino : ino < 2 ^ 32) :
    (newcHeader namesize dataLen ino).length = 110 ↔ namesize < 2 ^ 32 ∧ dataLen < 2 ^ 32 := by
  have hrest : (hexFormat 8 0).length = 8 ∧ (hexFormat 8 1).length = 8 ∧
      (hexFormat 8 0o100755).length = 8 ∧ (hexFormat 8 ino).length = 8 := by
    simp only [hexFormat_length_eq_iff]
    omega
  have hlen : (newcHeader namesize dataLen ino).length =
      94 + (hexFormat 8 dataLen).length + (hexFormat 8 namesize).length := by
    simp only [newcHeader, newcMagic, newcFields, List.flatMap_cons, List.flatMap_nil,
      List.length_append, List.length_cons, List.length_nil, hrest]
    omega
  have hname : 8 ≤ (hexFormat 8 namesize).length := by rw [hexFormat_length]; omega
  have hdata : 8 ≤ (hexFormat 8 dataLen).length := by rw [hexFormat_length]; omega
  have hsizes : (newcHeader namesize dataLen ino).length = 110 ↔
      (hexFormat 8 namesize).length = 8 ∧ (hexFormat 8 dataLen).length = 8 := by omega
  rw [hsizes, hexFormat_length_eq_iff, hexFormat_length_eq_iff]
  rfl

/-- A field of a header whose fields fit. -/
lemma newcHeader_field {namesize dataLen ino : ℕ} (hname : namesize < 2 ^ 32)
    (hdata : dataLen < 2 ^ 32) (hino : ino < 2 ^ 32) {k : ℕ}
    (hk : k < (newcFields namesize dataLen ino).length) :
    (newcHeader namesize dataLen ino).extract (6 + 8 * k) (6 + (8 * k + 8)) =
      hexFormat 8 (newcFields namesize dataLen ino)[k] :=
  (extract_append newcMagic _ (8 * k) (8 * k + 8)).trans
    (extract_flatMap (newcFields_lt hname hdata hino) hk)

/-- The lengths of a file are 32-bit values. -/
def FitsHeader (file : String × List UInt8) : Prop :=
  (stringBytes file.1).length + 1 < 2 ^ 32 ∧ file.2.length < 2 ^ 32

instance (file : String × List UInt8) : Decidable (FitsHeader file) :=
  inferInstanceAs (Decidable (_ ∧ _))

/-- The length of a record. -/
lemma newcRecord_length {name : String} {data : List UInt8} (h : FitsHeader (name, data))
    (index : ℕ) :
    (newcRecord name data (inodeOf index)).length =
      (114 + (stringBytes name).length) / 4 * 4 + (data.length + 3) / 4 * 4 := by
  have hheader := (newcHeader_length_iff _ _ (inodeOf_lt index)).mpr h
  rw [newcRecord, List.length_append, padTo4_length, padTo4_length, newcHead, List.length_append,
    List.length_append, hheader, List.length_singleton]
  congr 3
  omega

/-- What the packer appends. -/
lemma appendNewcEntry_eq_some {archive result : ByteSlice} (hmod : archive.bytes.length % 4 = 0)
    {name : String} {data : List UInt8} {index : ℕ} :
    appendNewcEntry archive name data (inodeOf index) = some result ↔
      FitsHeader (name, data) ∧
        result.bytes = archive.bytes ++ newcRecord name data (inodeOf index) := by
  have hheader := newcHeader_length_iff ((stringBytes name).length + 1) data.length
    (inodeOf_lt index)
  rw [appendNewcEntry, ← newcExtend_eq hmod]
  constructor
  · intro h
    split at h
    · next hfits => exact ⟨hheader.mp hfits.1, by rw [← Option.some.inj h]⟩
    · cases h
  · rintro ⟨hfits, hbytes⟩
    have hlen := result.length_le
    rw [hbytes] at hlen
    rw [dif_pos ⟨hheader.mpr hfits, hlen⟩]
    exact congrArg some (ByteSlice.ext_bytes hbytes.symm)

/-- The records of files, from an index on. -/
def newcRecords (index : ℕ) : List (String × List UInt8) → List UInt8
  | [] => []
  | file :: files => newcRecord file.1 file.2 (inodeOf index) ++ newcRecords (index + 1) files

/-- The length of all records is a multiple of four. -/
lemma newcRecords_length_mod (index : ℕ) (files : List (String × List UInt8)) :
    (newcRecords index files).length % 4 = 0 := by
  induction files generalizing index with
  | nil => rfl
  | cons file files ih =>
    have hrecord := newcRecord_length_mod file.1 file.2 (inodeOf index)
    have hrest := ih (index + 1)
    rw [newcRecords, List.length_append]
    omega

/-- What the packer appends for a list of files. -/
lemma appendFiles_eq_some {archive result : ByteSlice} (hmod : archive.bytes.length % 4 = 0)
    {index : ℕ} {files : List (String × List UInt8)} :
    appendFiles archive index files = some result ↔
      (∀ file ∈ files, FitsHeader file) ∧
        result.bytes = archive.bytes ++ newcRecords index files := by
  induction files generalizing archive index with
  | nil =>
    simp only [appendFiles, Option.some.injEq, List.not_mem_nil, IsEmpty.forall_iff, implies_true,
      true_and, newcRecords, List.append_nil]
    exact ⟨fun h => by rw [h], fun h => ByteSlice.ext_bytes h.symm⟩
  | cons file files ih =>
    simp only [appendFiles, Option.bind_eq_bind, Option.bind_eq_some_iff,
      appendNewcEntry_eq_some hmod, List.forall_mem_cons, newcRecords]
    have hmid : (archive.bytes ++ newcRecord file.1 file.2 (inodeOf index)).length % 4 = 0 := by
      have hrecord := newcRecord_length_mod file.1 file.2 (inodeOf index)
      rw [List.length_append]
      omega
    constructor
    · rintro ⟨middle, ⟨hfits, hbytes⟩, hrest⟩
      obtain ⟨hall, hresult⟩ := (ih (by rw [hbytes, hmid])).mp hrest
      exact ⟨⟨hfits, hall⟩, by rw [hresult, hbytes, List.append_assoc]⟩
    · rintro ⟨⟨hfits, hall⟩, hresult⟩
      have hlen : (archive.bytes ++ newcRecord file.1 file.2 (inodeOf index)).length ≤ isizeMax := by
        have hle := result.length_le
        rw [hresult, ← List.append_assoc, List.length_append] at hle
        omega
      exact ⟨⟨_, hlen⟩, ⟨hfits, rfl⟩, (ih hmid).mpr ⟨hall, by rw [hresult, List.append_assoc]⟩⟩

/-- The archive of a list of files. -/
def newcArchive (files : List (String × List UInt8)) : List UInt8 :=
  newcRecords 0 files ++ newcRecord trailerName [] (inodeOf files.length)

/-- The packer makes the archive of the files when their lengths are 32-bit values. -/
lemma packInitrd_eq_some {files : List (String × List UInt8)} {archive : ByteSlice} :
    packInitrd files = some archive ↔
      (∀ file ∈ files, FitsHeader file) ∧ archive.bytes = newcArchive files := by
  have hmod := newcRecords_length_mod 0 files
  have hempty : ByteSlice.empty.bytes.length % 4 = 0 := rfl
  have htrailer : FitsHeader (trailerName, []) := ⟨by decide, by decide⟩
  simp only [packInitrd, Option.bind_eq_bind, Option.bind_eq_some_iff, appendFiles_eq_some hempty]
  constructor
  · rintro ⟨cpio, ⟨hall, hbytes⟩, h⟩
    have hbytes : cpio.bytes = newcRecords 0 files := hbytes
    rw [appendNewcEntry_eq_some (by rw [hbytes, hmod])] at h
    exact ⟨hall, by rw [h.2, hbytes, newcArchive]⟩
  · rintro ⟨hall, hbytes⟩
    have hlen : (newcRecords 0 files).length ≤ isizeMax := by
      have hle := archive.length_le
      rw [hbytes, newcArchive, List.length_append] at hle
      omega
    exact ⟨⟨_, hlen⟩, ⟨hall, rfl⟩, (appendNewcEntry_eq_some hmod).mpr ⟨htrailer, hbytes⟩⟩

/-- The packer succeeds when the lengths are 32-bit values and the archive fits in a vector. -/
lemma packInitrd_isSome {files : List (String × List UInt8)} :
    (packInitrd files).isSome ↔
      (∀ file ∈ files, FitsHeader file) ∧ (newcArchive files).length ≤ isizeMax := by
  rw [Option.isSome_iff_exists]
  constructor
  · rintro ⟨archive, h⟩
    obtain ⟨hall, hbytes⟩ := packInitrd_eq_some.mp h
    exact ⟨hall, hbytes ▸ archive.length_le⟩
  · rintro ⟨hall, hlen⟩
    exact ⟨⟨_, hlen⟩, packInitrd_eq_some.mpr ⟨hall, rfl⟩⟩

/-! ### Parsing a record -/

namespace Initrd

/-- The header and the name of a record are read back. -/
lemma nameAt_record {before after : List UInt8} {name : String} {data : List UInt8} {ino : ℕ}
    (hlen : (before ++ newcRecord name data ino ++ after).length ≤ isizeMax)
    (hname : (stringBytes name).length + 1 < 2 ^ 32) (hdata : data.length < 2 ^ 32)
    (hino : ino < 2 ^ 32) :
    nameAt (before ++ newcRecord name data ino ++ after) before.length =
      some (name, before.length + (newcHead name data ino).length, data.length) := by
  set archive := before ++ newcRecord name data ino ++ after with harchive
  set header := newcHeader ((stringBytes name).length + 1) data.length ino with hheader
  have hheaderLen : header.length = 110 := (newcHeader_length_iff _ _ hino).mpr ⟨hname, hdata⟩
  have hheadLen : (newcHead name data ino).length = 110 + (stringBytes name).length + 1 := by
    rw [newcHead, List.length_append, List.length_append, hheaderLen, List.length_singleton]
  have harchiveLen : before.length + (newcHead name data ino).length ≤ archive.length := by
    rw [harchive, newcRecord, padTo4]
    simp only [List.length_append]
    omega
  have hreadHeader : archive.extract before.length (before.length + 110) = header := by
    have hsplit : archive = before ++ header ++ (stringBytes name ++ [0] ++
        List.replicate ((4 - (newcHead name data ino).length % 4) % 4) 0 ++ padTo4 data ++
        after) := by
      simp only [harchive, newcRecord, padTo4, newcHead, List.append_assoc, hheader]
    rw [hsplit, ← hheaderLen]
    exact extract_middle _ _ _
  have hreadName : archive.extract (before.length + 110)
      (before.length + 110 + ((stringBytes name).length + 1) - 1) = stringBytes name := by
    have hsplit : archive = (before ++ header) ++ stringBytes name ++ ([0] ++
        List.replicate ((4 - (newcHead name data ino).length % 4) % 4) 0 ++ padTo4 data ++
        after) := by
      simp only [harchive, newcRecord, padTo4, newcHead, List.append_assoc, hheader]
    have hpos : before.length + 110 = (before ++ header).length := by
      rw [List.length_append, hheaderLen]
    rw [hpos, hsplit]
    exact extract_middle _ _ _
  have hmagic : header.take 6 = newcMagic := rfl
  have hnamesize : hex (header.extract 94 102) = some ((stringBytes name).length + 1) := by
    have hfield := newcHeader_field hname hdata hino (k := 11) (by simp [newcFields])
    exact (congrArg hex hfield).trans (hex_hexFormat 8 (hname.trans (by decide)))
  have hfilesize : hex (header.extract 54 62) = some data.length := by
    have hfield := newcHeader_field hname hdata hino (k := 6) (by simp [newcFields])
    exact (congrArg hex hfield).trans (hex_hexFormat 8 (hdata.trans (by decide)))
  simp only [isizeMax] at hlen
  simp only [nameAt, headerSize, checkedAdd_eq_some, Option.bind_eq_bind, Option.bind_eq_some_iff,
    Option.guard_eq_some', Option.pure_def, Option.some.injEq, Prod.mk.injEq]
  refine ⟨_, ⟨by omega, rfl⟩, (), by omega, (), by rw [hreadHeader]; exact hmagic, _,
    by rw [hreadHeader]; exact hnamesize, _, by rw [hreadHeader]; exact hfilesize, _,
    ⟨by omega, rfl⟩, (), ⟨by omega, by omega⟩, name,
    by rw [hreadName]; exact fromUTF8_stringBytes name, rfl, by omega, rfl⟩

/-- A record is read back whole, and the next position is the one after it. -/
lemma entryAt_record {before after : List UInt8} {name : String} {data : List UInt8} {ino : ℕ}
    (hlen : (before ++ newcRecord name data ino ++ after).length ≤ isizeMax)
    (hbefore : before.length % 4 = 0) (hname : (stringBytes name).length + 1 < 2 ^ 32)
    (hdata : data.length < 2 ^ 32) (hino : ino < 2 ^ 32) (htrailer : name ≠ trailerName) :
    entryAt (before ++ newcRecord name data ino ++ after) before.length =
      some (⟨name, data⟩, before.length + (newcRecord name data ino).length) := by
  have hread := nameAt_record hlen hname hdata hino
  have hpadLen := padTo4_length (newcHead name data ino)
  have hdataLen := padTo4_length data
  have hrecordLen : (newcRecord name data ino).length =
      (padTo4 (newcHead name data ino)).length + (padTo4 data).length := List.length_append
  have hreadData : (before ++ newcRecord name data ino ++ after).extract
      (before.length + (padTo4 (newcHead name data ino)).length)
      (before.length + (padTo4 (newcHead name data ino)).length + data.length) = data := by
    have hsplit : before ++ newcRecord name data ino ++ after =
        (before ++ padTo4 (newcHead name data ino)) ++ data ++
          (List.replicate ((4 - data.length % 4) % 4) 0 ++ after) := by
      simp only [newcRecord, List.append_assoc, padTo4]
    rw [← List.length_append, hsplit]
    exact extract_middle _ _ _
  simp only [isizeMax, List.length_append] at hlen
  have hdataStart : align4 (before.length + (newcHead name data ino).length) =
      before.length + (padTo4 (newcHead name data ino)).length := by
    rw [align4_of_lt (by omega), hpadLen]
    omega
  have hnext : align4 (before.length + (padTo4 (newcHead name data ino)).length + data.length) =
      before.length + (newcRecord name data ino).length := by
    rw [align4_of_lt (by omega), hrecordLen, hpadLen, hdataLen]
    omega
  have hinside : before.length + (padTo4 (newcHead name data ino)).length + data.length ≤
      (before ++ newcRecord name data ino ++ after).length := by
    simp only [List.length_append]
    omega
  simp only [entryAt, hread, Option.bind_eq_bind, Option.bind_some, hdataStart]
  simp only [checkedAdd_eq_some, Option.bind_eq_some_iff, Option.guard_eq_some', Option.pure_def,
    Option.some.injEq, Prod.mk.injEq]
  exact ⟨(), htrailer, _, ⟨by omega, rfl⟩, (), hinside, by rw [hreadData], hnext⟩

/-- The trailer ends the loop. -/
lemma entryAt_trailer {before : List UInt8} {ino : ℕ}
    (hlen : (before ++ newcRecord trailerName [] ino).length ≤ isizeMax) (hino : ino < 2 ^ 32) :
    entryAt (before ++ newcRecord trailerName [] ino) before.length = none := by
  rw [← List.append_nil (before ++ newcRecord trailerName [] ino)] at hlen
  have hread := nameAt_record hlen (by decide) (by decide) hino
  rw [List.append_nil] at hread
  simp [entryAt, hread]

/-! ### The table -/

/-- The entry of a file. -/
def entryOf (file : String × List UInt8) : InitrdEntry := ⟨file.1, file.2⟩

/-- The loop registers the files of the records that it passes. -/
lemma initLoop_records {archive : ByteSlice} {files : List (String × List UInt8)}
    (hfits : ∀ file ∈ files, FitsHeader file) (hnames : ∀ file ∈ files, file.1 ≠ trailerName)
    (before : List UInt8) {after : List UInt8} (index : ℕ) (hmod : before.length % 4 = 0)
    (hbytes : archive.bytes = before ++ newcRecords index files ++ after) (d : Initrd) :
    initLoop archive before.length d =
      initLoop archive (before.length + (newcRecords index files).length)
        (files.foldl (fun d file => d.register (entryOf file)) d) := by
  induction files generalizing before index d with
  | nil => rfl
  | cons file files ih =>
    have hrecord := newcRecord_length_mod file.1 file.2 (inodeOf index)
    have hsplit : archive.bytes = before ++ newcRecord file.1 file.2 (inodeOf index) ++
        (newcRecords (index + 1) files ++ after) := by
      rw [hbytes, newcRecords]
      simp only [List.append_assoc]
    have hfile := hfits file List.mem_cons_self
    have hentry : entryAt archive.bytes before.length = some (entryOf file,
        before.length + (newcRecord file.1 file.2 (inodeOf index)).length) := by
      rw [hsplit]
      exact entryAt_record (hsplit ▸ archive.length_le) hmod hfile.1 hfile.2 (inodeOf_lt index)
        (hnames file List.mem_cons_self)
    rw [initLoop_of_some hentry, ← List.length_append,
      ih (fun f hf => hfits f (List.mem_cons_of_mem file hf))
        (fun f hf => hnames f (List.mem_cons_of_mem file hf)) _ (index + 1)
        (by rw [List.length_append]; omega) (by rw [hsplit]; simp only [List.append_assoc]),
      newcRecords, List.length_append, List.length_append, Nat.add_assoc, List.foldl_cons]

/-- What `init` makes of an archive of the packer. -/
lemma init_packInitrd {files : List (String × List UInt8)} {archive : ByteSlice}
    (hnames : ∀ file ∈ files, file.1 ≠ trailerName) (h : packInitrd files = some archive) :
    init archive = files.foldl (fun d file => d.register (entryOf file)) new := by
  obtain ⟨hfits, hbytes⟩ := packInitrd_eq_some.mp h
  have hrecords := initLoop_records hfits hnames [] 0 rfl hbytes new
  have htrailer : entryAt archive.bytes (newcRecords 0 files).length = none := by
    have hlen := archive.length_le
    rw [hbytes, newcArchive] at hlen ⊢
    exact entryAt_trailer hlen (inodeOf_lt _)
  rw [init, ← List.length_nil (α := UInt8), hrecords, List.length_nil, Nat.zero_add,
    initLoop_of_none htrailer]

/-- The table holds these entries, in this order. -/
structure Holds (d : Initrd) (entries : List InitrdEntry) : Prop where
  fileCount : d.fileCount = entries.length
  le : entries.length ≤ maxFiles
  files : d.files = entries.map some ++ List.replicate (maxFiles - entries.length) none

/-- The empty table. -/
lemma Holds.new : Holds new [] := ⟨rfl, Nat.zero_le _, rfl⟩

/-- A file is entered after the others while there is room. -/
lemma Holds.register {d : Initrd} {entries : List InitrdEntry} (h : Holds d entries)
    {entry : InitrdEntry} (hname : entry.name ≠ ".") :
    Holds (d.register entry) ((entries ++ [entry]).take maxFiles) := by
  by_cases hroom : d.fileCount < maxFiles
  · have hlen : entries.length < maxFiles := h.fileCount ▸ hroom
    have htake : (entries ++ [entry]).take maxFiles = entries ++ [entry] := by
      apply List.take_of_length_le
      rw [List.length_append, List.length_singleton]
      omega
    obtain ⟨n, hn⟩ : ∃ n, maxFiles - entries.length = n + 1 := ⟨maxFiles - entries.length - 1, by
      omega⟩
    rw [Initrd.register, if_pos ⟨hroom, hname⟩, htake]
    refine ⟨by simp [h.fileCount], by simp; omega, ?_⟩
    have hn' : maxFiles - (entries ++ [entry]).length = n := by
      rw [List.length_append, List.length_singleton]
      omega
    rw [h.files, h.fileCount, hn, hn', List.map_append, List.replicate_succ]
    simp
  · have htake : (entries ++ [entry]).take maxFiles = entries := by
      have hlen : entries.length = maxFiles := by have := h.le; have := h.fileCount; omega
      rw [← hlen, List.take_left]
    rw [Initrd.register, if_neg (fun hc => hroom hc.1), htake]
    exact h

/-- Only the first elements of a list matter for the first elements of a longer one. -/
lemma take_take_append {α : Type} (n : ℕ) (l m : List α) :
    (l.take n ++ m).take n = (l ++ m).take n := by
  have hlen : n - min n l.length = n - l.length := by omega
  rw [List.take_append, List.take_append, List.take_take, min_self, List.length_take, hlen]

/-- The first files are entered, as many as there is room for. -/
lemma Holds.foldl {files : List (String × List UInt8)} (hnames : ∀ file ∈ files, file.1 ≠ ".")
    {d : Initrd} {entries : List InitrdEntry} (h : Holds d entries) :
    Holds (files.foldl (fun d file => d.register (entryOf file)) d)
      ((entries ++ files.map entryOf).take maxFiles) := by
  induction files generalizing d entries with
  | nil =>
    rw [List.map_nil, List.append_nil, List.take_of_length_le h.le]
    exact h
  | cons file files ih =>
    have hname : (entryOf file).name ≠ "." := hnames file List.mem_cons_self
    have hrest := ih (fun f hf => hnames f (List.mem_cons_of_mem file hf)) (h.register hname)
    rw [take_take_append, List.append_assoc] at hrest
    exact hrest

/-- The entries in use. -/
lemma Holds.used {d : Initrd} {entries : List InitrdEntry} (h : Holds d entries) :
    d.files.take d.fileCount = entries.map some := by
  rw [h.files, h.fileCount]
  exact List.take_left' (List.length_map some)

/-- A search goes through the entries in order. -/
lemma Holds.find {d : Initrd} {entries : List InitrdEntry} (h : Holds d entries) (name : String) :
    d.find name = (entries.find? fun entry => entry.name = name).map InitrdEntry.data := by
  have hreduce : (entries.map some).reduceOption = entries := by
    change (entries.map some).filterMap id = entries
    rw [List.filterMap_map]
    exact List.filterMap_some
  rw [Initrd.find, h.used, hreduce]

/-- The entry with a name, when the names are distinct. -/
lemma find?_of_nodup {files : List (String × List UInt8)} (hnodup : (files.map Prod.fst).Nodup)
    {file : String × List UInt8} (hmem : file ∈ files) :
    (files.map entryOf).find? (fun entry => entry.name = file.1) = some (entryOf file) := by
  induction files with
  | nil => cases hmem
  | cons f files ih =>
    rw [List.map_cons, List.nodup_cons] at hnodup
    rw [List.map_cons, List.find?_cons]
    by_cases hname : f.1 = file.1
    · have hfile : file = f := by
        rcases List.mem_cons.mp hmem with rfl | hrest
        · rfl
        · exact absurd (hname ▸ List.mem_map_of_mem hrest) hnodup.1
      simp [entryOf, hfile]
    · have hrest : file ∈ files := by
        rcases List.mem_cons.mp hmem with rfl | hrest
        · exact absurd rfl hname
        · exact hrest
      simpa [entryOf, hname] using ih hnodup.2 hrest

/-- The packer makes an archive of every list of files whose lengths are 32-bit values, up to the
longest vector.  From the archive of files with distinct names the parser registers the first
sixteen in order; `find` returns the bytes of each of them, and nothing for any other name. -/
theorem find_packInitrd {files : List (String × List UInt8)}
    (hnodup : (files.map Prod.fst).Nodup)
    (hnames : ∀ file ∈ files, file.1 ≠ "." ∧ file.1 ≠ trailerName) :
    ((packInitrd files).isSome ↔
      (∀ file ∈ files, FitsHeader file) ∧ (newcArchive files).length ≤ isizeMax) ∧
    ∀ archive, packInitrd files = some archive →
      (init archive).files.take (init archive).fileCount =
        (files.take maxFiles).map (fun file => some ⟨file.1, file.2⟩) ∧
      (∀ file ∈ files.take maxFiles, (init archive).find file.1 = some file.2) ∧
      ∀ name, name ∉ (files.take maxFiles).map Prod.fst → (init archive).find name = none := by
  refine ⟨packInitrd_isSome, fun archive hpack => ?_⟩
  have hinit := init_packInitrd (fun file hfile => (hnames file hfile).2) hpack
  have hholds : Holds (init archive) ((files.take maxFiles).map entryOf) := by
    have hfold := Holds.foldl (fun file hfile => (hnames file hfile).1) Holds.new
    rwa [← hinit, List.nil_append, ← List.map_take] at hfold
  refine ⟨?_, fun file hfile => ?_, fun name hname => ?_⟩
  · rw [hholds.used, List.map_map]
    rfl
  · have hsub : ((files.take maxFiles).map Prod.fst).Nodup :=
      hnodup.sublist ((List.take_sublist _ _).map _)
    rw [hholds.find, find?_of_nodup hsub hfile]
    rfl
  · have hnone : ((files.take maxFiles).map entryOf).find? (fun entry => entry.name = name) =
        none := by
      rw [List.find?_eq_none]
      intro entry hentry
      obtain ⟨file, hfile, rfl⟩ := List.mem_map.mp hentry
      simp only [decide_eq_true_eq]
      rintro rfl
      exact hname (List.mem_map_of_mem hfile)
    rw [hholds.find, hnone]
    rfl

/-- Two files are packed and found again. -/
theorem find_packInitrd_two : ∃ archive,
    packInitrd [("init", [1, 2, 3]), ("sh", [4])] = some archive ∧
    (init archive).find "sh" = some [4] ∧ (init archive).find "ps" = none := by
  obtain ⟨hsome, hfind⟩ := find_packInitrd
    (show ([("init", [1, 2, 3]), ("sh", [4])].map Prod.fst).Nodup by decide) (by decide)
  have hlen : (newcArchive [("init", [1, 2, 3]), ("sh", [4])]).length ≤ isizeMax := by
    rw [newcArchive, newcRecords, newcRecords, newcRecords, List.append_nil, List.length_append,
      List.length_append, newcRecord_length (by decide), newcRecord_length (by decide),
      newcRecord_length (by decide)]
    decide
  obtain ⟨archive, harchive⟩ := Option.isSome_iff_exists.mp (hsome.mpr ⟨by decide, hlen⟩)
  obtain ⟨-, hin, hout⟩ := hfind archive harchive
  exact ⟨archive, harchive, hin ("sh", [4]) (by decide), hout "ps" (by decide)⟩

end Initrd

end NekOS
