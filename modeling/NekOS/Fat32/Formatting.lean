import NekOS.Fat32.Requests

/-!
# Formatting

`format_fat32` writes the boot sector, its copy, the information sector, the first sector of the table and the
root directory.  It relies on the RAM disk for the other sectors of the table.
-/

namespace NekOS

namespace Fs

/-! ### The sectors -/

/-- `copy_from_slice` of a byte string. -/
def putBytes (m : Bytes) (a : ℕ) (s : List UInt8) : Bytes := m.blit a (fun i => s.getD i 0) 0 s.length

/-- `fat_size`: every cluster of one sector has an entry of four bytes. -/
def formatFatSize : ℕ := (ramdiskSectors / 1 * 4 + blockSize - 1) / blockSize

/-- The fields of the boot sector up to the root cluster. -/
def formatFields : Bytes :=
  let bpb := ((Bytes.zero.set 0 0xEB).set 1 0x58).set 2 0x90
  let bpb := putBytes bpb 3 (Str.asBytes "NEKOS   ".toList)
  let bpb := (((bpb.store 11 512 2).set 13 1).store 14 32 2).set 16 1
  let bpb := (((bpb.store 17 0 2).store 19 0 2).set 21 0xF8).store 22 0 2
  let bpb := (((bpb.store 24 1 2).store 26 1 2).store 28 0 4).store 32 ramdiskSectors 4
  ((((bpb.store 36 formatFatSize 4).store 40 0 2).store 42 0 2).store 44 2 4)

/-- The boot sector. -/
def formatBpb : Bytes :=
  let bpb := (((formatFields.store 48 1 2).store 50 6 2).set 64 0x80).set 66 0x29
  let bpb := putBytes (bpb.store 67 0x12345678 4) 71 (Str.asBytes "NEKOS      ".toList)
  ((putBytes bpb 82 (Str.asBytes "FAT32   ".toList)).set 510 0x55).set 511 0xAA

/-- The information sector. -/
def formatFsinfo : Bytes :=
  let fsinfo := putBytes (putBytes Bytes.zero 0 [0x52, 0x52, 0x61, 0x41]) 484 [0x72, 0x72, 0x41, 0x61]
  putBytes ((fsinfo.store 488 (ramdiskSectors / 1 - 33) 4).store 492 3 4) 508 [0x00, 0x00, 0x55, 0xAA]

/-- The first sector of the table: the reserved entries and the root directory. -/
def formatFatSector : Bytes :=
  ((Bytes.zero.store 0 0x0FFFFFF8 4).store 4 0x0FFFFFFF 4).store 8 fat32Eoc 4

/-- `disk_write` if the result is not used. -/
def diskPut (d : Disk) (sector : ℕ) (buf : Bytes) : Option Disk :=
  (diskWrite d sector buf).map fun r => r.getD d

/-- `format_fat32`: the result and the disk afterwards. -/
def formatFat32 (d : Disk) : Option (Bool × Disk) :=
  match diskWrite d 0 formatBpb with
  | none => none
  | some none => some (false, d)
  | some (some d) =>
    match diskWrite d 6 formatBpb with
    | none => none
    | some none => some (false, d)
    | some (some d) =>
      let fatStart := 32
      let dataStart := fatStart + formatFatSize
      (((diskPut d 1 formatFsinfo).bind fun d => diskPut d fatStart formatFatSector).bind fun d =>
        diskPut d dataStart Bytes.zero).map fun d => (true, d)

namespace Fat32Fs

/-- What `main` does before its loop: the volume and the disk.  Without a value the server exits or panics. -/
def mount (d : Disk) : Option (Fat32Fs × Disk) :=
  match formatFat32 d with
  | some (true, d) =>
    match diskRead d 0 with
    | none => none
    | some buf =>
      match openFs (buf.getD Bytes.zero) with
      | some (some fs) => some (fs, d)
      | _ => none
  | _ => none

/-- `main`, until so many requests have been answered. -/
def serverMain (clients : Clients Request Reply) (n : ℕ) : Option (List (Request × Reply) × Disk) :=
  (mount Bytes.zero).bind fun r => converse r.1.serve clients n [] r.2

/-- The volume that `format_fat32` makes. -/
def formattedFs : Fat32Fs :=
  ⟨⟨512, 1, 32, 1, 0, 0, 8192, 64, 2⟩, 32, 96, 8096, 2⟩

/-- The disk that `format_fat32` makes. -/
def formatted (d : Disk) : Disk :=
  ((((d.blit 0 formatBpb 0 blockSize).blit 3072 formatBpb 0 blockSize).blit 512 formatFsinfo 0 blockSize).blit
    16384 formatFatSector 0 blockSize).blit 49152 Bytes.zero 0 blockSize

variable {d : Disk} {c : ℕ}

/-- `format_fat32` does not fail. -/
lemma formatFat32_eq (d : Disk) : formatFat32 d = some (true, formatted d) := by
  have hsectors : ramdiskSectors = 8192 := by decide
  have hsize : formatFatSize = 64 := by decide
  have hput : ∀ (d : Disk) (sector : ℕ) (buf : Bytes), sector < 8192 →
      diskPut d sector buf = some (d.blit (sector * blockSize) buf 0 blockSize) := fun d sector buf hlt => by
    rw [diskPut, diskWrite_of_lt (by omega)]
    rfl
  rw [formatFat32, diskWrite_of_lt (by omega)]
  dsimp only
  rw [diskWrite_of_lt (by omega)]
  dsimp only
  rw [hput _ _ _ (by omega), Option.bind_some, hput _ _ _ (by omega), Option.bind_some, hsize,
    hput _ _ _ (by omega), Option.map_some]
  rfl

/-- The volume depends on the fields of the boot sector alone. -/
lemma openFs_congr {m m' : Bytes} (h : Bytes.Agree m m' 0 48) : openFs m' = openFs m := by
  have hload : ∀ a n, a + n ≤ 48 → m'.load a n = m.load a n := fun a n hle =>
    (h.mono (Nat.zero_le a) (by omega)).load_eq
  have hread : Fat32Bpb.read m' = Fat32Bpb.read m := by
    unfold Fat32Bpb.read
    rw [hload 11 2 (by omega), hload 13 1 (by omega), hload 14 2 (by omega), hload 16 1 (by omega),
      hload 17 2 (by omega), hload 22 2 (by omega), hload 32 4 (by omega), hload 36 4 (by omega),
      hload 44 4 (by omega)]
  rw [openFs, openFs, hread]

/-- The boot sector of a formatted disk. -/
lemma openFs_formatted (d : Disk) : openFs (fun i => formatted d (0 * blockSize + i)) = some (some formattedFs) := by
  have hopen : openFs formatBpb = some (some formattedFs) := by decide +kernel
  rw [← hopen]
  refine openFs_congr fun x _ hx => ?_
  unfold formatted blockSize
  rw [Bytes.blit_outside (by omega), Bytes.blit_outside (by omega), Bytes.blit_outside (by omega),
    Bytes.blit_outside (by omega), Nat.zero_mul, Bytes.blit_inside (by omega), Nat.zero_add]

/-- Mounting succeeds. -/
lemma mount_eq (d : Disk) : mount d = some (formattedFs, formatted d) := by
  have hsector : 0 < ramdiskSectors := by decide
  unfold mount
  rw [formatFat32_eq]
  dsimp only
  rw [diskRead_of_lt hsector]
  dsimp only
  rw [Option.getD_some, openFs_formatted]

/-- The formatted volume. -/
lemma formattedFs_sound : formattedFs.Sound := by
  have hdata : formattedFs.DataOnDisk := by
    unfold DataOnDisk
    decide
  have hcovers : formattedFs.TableCovers := by
    unfold TableCovers
    decide
  exact ⟨.of_open (openFs_formatted Bytes.zero) hdata, hcovers⟩

/-! ### The table -/

/-- The entries in the first sector of the table. -/
lemma formatted_entry_lt (hc : c < 128) :
    formattedFs.fatEntry (formatted d) c = formatFatSector.load (4 * c) 4 % 2 ^ 28 := by
  have haddr : formattedFs.fatAddr c = 16384 + 4 * c := rfl
  rw [fatEntry, haddr, ← Bytes.load_shift]
  refine congrArg (· % 2 ^ 28) (Bytes.Agree.load_eq fun x hx hlt => ?_)
  unfold formatted blockSize
  rw [Bytes.blit_outside (by omega), Bytes.blit_inside (by omega), Nat.zero_add]

/-- The other entries are kept. -/
lemma formatted_entry_ge (hc : 128 ≤ c) (hlt : c < 8192) :
    formattedFs.fatEntry (formatted d) c = formattedFs.fatEntry d c := by
  have haddr : formattedFs.fatAddr c = 16384 + 4 * c := rfl
  refine fatEntry_congr fun x hx hxlt => ?_
  rw [haddr] at hx hxlt
  unfold formatted blockSize
  rw [Bytes.blit_outside (by omega), Bytes.blit_outside (by omega), Bytes.blit_outside (by omega),
    Bytes.blit_outside (by omega), Bytes.blit_outside (by omega)]

/-- The root directory has one cluster. -/
lemma formatted_entry_root : formattedFs.fatEntry (formatted d) 2 = fat32Eoc := by
  rw [formatted_entry_lt (by decide), formatFatSector, Bytes.load_store_of_lt (by decide)]
  rfl

/-- The entries behind it in its sector are free. -/
lemma formatted_entry_free (hc : 3 ≤ c) (hlt : c < 128) :
    formattedFs.fatEntry (formatted d) c = fat32Free := by
  have hzero : formatFatSector.load (4 * c) 4 = Bytes.zero.load (4 * c) 4 :=
    Bytes.Agree.load_eq fun x hx _ => by
      rw [formatFatSector, Bytes.store_apply (by omega), Bytes.store_apply (by omega),
        Bytes.store_apply (by omega)]
  rw [formatted_entry_lt hlt, hzero]
  rfl

/-! ### The root directory -/

/-- The slots of the root directory. -/
lemma formatted_slots : ∀ e ∈ slotsOf (formatted d) (formattedFs.dirSectors [2]), e.byte 0 = slotEnd := by
  intro e he
  have hcount : formattedFs.slotCount [2] = 16 := by decide
  rw [dirSlots_eq, hcount] at he
  obtain ⟨p, hp, rfl⟩ := List.mem_map.mp he
  have hlt := (List.mem_range'_1.mp hp).2
  have haddr : ∀ p < 16, formattedFs.slotAddr [2] p = 49152 + p * 32 := by decide
  rw [DirEntry.byte_read (by decide), haddr p (by omega), Nat.add_zero]
  unfold formatted blockSize
  rw [Bytes.blit_inside (by omega)]
  rfl

/-- The store after formatting: all clusters but that of the root directory are free. -/
def blank : Store := ⟨[], fun _ => none, 8093⟩

/-- The store after formatting is in order. -/
lemma blank_valid : blank.Valid := ⟨.nil, nofun, .nil⟩

/-- The clusters of the root directory alone are in use. -/
def blankOwn : Option ℕ → List ℕ := Function.update (fun _ => []) none [2]

/-- The entries of a formatted table without other entries. -/
lemma formatted_used_iff (h : ∀ c, 128 ≤ c → formattedFs.IsCluster c → formattedFs.fatEntry d c = fat32Free) :
    formattedFs.IsCluster c ∧ formattedFs.fatEntry (formatted d) c ≠ fat32Free ↔ c = 2 := by
  constructor
  · rintro ⟨hc, hne⟩
    have hlt : c < 8098 := hc.2
    have hge := hc.1
    by_contra hother
    by_cases h128 : c < 128
    · exact hne (formatted_entry_free (by omega) h128)
    · exact hne ((formatted_entry_ge (by omega) (by omega)).trans (h c (by omega) hc))
  · rintro rfl
    rw [formatted_entry_root]
    exact ⟨⟨by decide, by decide⟩, by decide⟩

/-- The free clusters of such a table. -/
lemma formatted_free (h : ∀ c, 128 ≤ c → formattedFs.IsCluster c → formattedFs.fatEntry d c = fat32Free) :
    formattedFs.freeClusters (formatted d) = List.range' 3 8093 := by
  have htotal : formattedFs.totalClusters - 2 = 8093 + 1 := rfl
  have hroot : formattedFs.fatEntry (formatted d) 2 ≠ fat32Free := by
    rw [formatted_entry_root]
    decide
  rw [freeClusters, htotal, List.range'_succ, List.filter_cons_of_neg (by simpa using hroot), List.filter_eq_self]
  intro c hc
  obtain ⟨hge, hlt⟩ := List.mem_range'_1.mp hc
  refine decide_eq_true (Classical.byContradiction fun hne => ?_)
  have htwo := (formatted_used_iff h).mp ⟨⟨by omega, show c < 8098 by omega⟩, hne⟩
  omega

/-- The chain of the root directory. -/
lemma formatted_chain : Chain (formattedFs.link (formatted d)) 2 [2] := by
  refine .last ?_
  rw [formattedFs_sound.link_eq ⟨by decide, by decide⟩, formatted_entry_root]
  rfl

/-- A formatted disk without other entries represents the store without files. -/
lemma formatted_represents
    (h : ∀ c, 128 ≤ c → formattedFs.IsCluster c → formattedFs.fatEntry d c = fat32Free) :
    formattedFs.Represents (formatted d) blankOwn blank := by
  have hroot : blankOwn none = [2] := Function.update_self ..
  have hother : ∀ a, blankOwn (some a) = [] := fun a => Function.update_of_ne (by simp) ..
  have hmem : ∀ o, ∀ c ∈ blankOwn o, o = none ∧ c = 2 := fun o c hc => by
    cases o with
    | none =>
      rw [hroot] at hc
      exact ⟨rfl, List.mem_singleton.mp hc⟩
    | some a =>
      rw [hother] at hc
      cases hc
  refine ⟨⟨formattedFs_sound, fun o ho => ?_, by rw [hroot]; exact List.cons_ne_nil _ _, fun o c hc => ?_,
    fun o o' hne c hc hc' => ?_, fun c => ?_⟩, ?_, ?_, fun a => ?_, ?_⟩
  · cases o with
    | none =>
      rw [hroot]
      exact formatted_chain
    | some a => exact absurd (hother a) ho
  · obtain ⟨-, rfl⟩ := hmem o c hc
    exact ⟨by decide, by decide⟩
  · exact hne ((hmem o c hc).1.trans (hmem o' c hc').1.symm)
  · rw [formatted_used_iff h]
    constructor
    · rintro rfl
      exact ⟨none, by rw [hroot]; exact List.mem_singleton_self 2⟩
    · rintro ⟨o, hc⟩
      exact (hmem o c hc).2
  · rw [hroot]
    have hnil : Plain [] := ⟨nofun, .nil⟩
    exact hnil.append_end formatted_slots
  · rw [hroot, listing, ← List.nil_append (slotsOf ..), Tidy.entries_append_end formatted_slots]
    rfl
  · rw [hother, content, if_pos rfl, blank]
  · rw [formatted_free h, List.length_range']
    rfl

/-- What `format_fat32` is for: the disk is mounted as the volume without files.  Five sectors are written, so
that it depends on the disk whether the other entries of the table are free. -/
def Formats (d : Disk) : Prop :=
  ∃ d', formatFat32 d = some (true, d') ∧ mount d = some (formattedFs, d') ∧
    (∀ x, x / blockSize ∉ [0, 1, 6, 32, 96] → d' x = d x) ∧
    (formattedFs.Stores d' blank ↔
      ∀ c, 128 ≤ c → formattedFs.IsCluster c → formattedFs.fatEntry d c = fat32Free)

/-- **Formatting.**  The formatted disk represents the store without files if and only if the entries of the
table behind its first sector were free. -/
theorem format_exact (d : Disk) : Formats d := by
  refine ⟨formatted d, formatFat32_eq d, mount_eq d, fun x hx => ?_, fun hstores c hge hc => ?_, fun h => ?_⟩
  · simp only [List.mem_cons, List.not_mem_nil, or_false, not_or, blockSize] at hx
    unfold formatted blockSize
    rw [Bytes.blit_outside (by omega), Bytes.blit_outside (by omega), Bytes.blit_outside (by omega),
      Bytes.blit_outside (by omega), Bytes.blit_outside (by omega)]
  · obtain ⟨-, own, hrep⟩ := hstores
    have hlt : c < 8098 := hc.2
    rw [← formatted_entry_ge hge (by omega)]
    by_contra hused
    obtain ⟨o, ho⟩ := (hrep.owned.divides.used_iff c).mp ⟨hc, hused⟩
    cases o with
    | none =>
      have hchain := hrep.owned.chain none hrep.owned.root
      rw [Option.getD_none] at hchain
      rw [hchain.unique formatted_chain, List.mem_singleton] at ho
      omega
    | some a =>
      rw [hrep.file_eq_none.mp rfl] at ho
      cases ho
  · exact ⟨blank_valid, blankOwn, formatted_represents h⟩

end Fat32Fs

end Fs

end NekOS
