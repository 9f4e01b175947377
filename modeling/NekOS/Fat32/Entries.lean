import NekOS.Fat32.Updating
import Mathlib.Data.List.TakeWhile

/-!
# Entries that are written

The slots that `create_dir_entry` writes for an entry, and the names that a walk reads from them.
-/

namespace NekOS

namespace Fs

/-! ### Short entries -/

/-- A slot is the short entry with some name, attribute, first cluster and size. -/
structure ShortSlot (e : DirEntry) (shortName : List UInt8) (attr : UInt8) (firstCluster fileSize : ℕ) :
    Prop where
  short : e.short = shortName
  attr : e.attr = attr
  first : e.firstCluster = firstCluster
  size : e.fileSize = fileSize

/-- A slot holds a part of a long name. -/
structure LfnSlot (e : DirEntry) (longName : Str) (lfnIdx : ℕ) : Prop where
  order : (e.byte 0).toNat % 64 = lfnIdx + 1
  used : e.byte 0 ≠ slotEnd ∧ e.byte 0 ≠ slotDeleted
  attr : e.attr = attrLfn
  char : ∀ k < 13, e.char k = Fat32Fs.lfnChar (Fat32Fs.nameChars longName) (lfnIdx * 13 + k)

namespace Fat32Fs

variable {longName : Str} {shortName : List UInt8} {attr : UInt8} {firstCluster fileSize a b x : ℕ}
  {buf : Bytes}

/-- Writing a short entry leaves the other bytes alone. -/
lemma putShort_apply (hx : x < a ∨ a + 32 ≤ x) :
    putShort shortName attr firstCluster fileSize a buf x = buf x := by
  unfold putShort
  rw [Bytes.store_apply (by omega), Bytes.store_apply (by omega), Bytes.store_apply (by omega),
    Bytes.set_ne (by omega), Bytes.blit_outside (by omega)]

/-- The short entry that is written. -/
lemma read_putShort (hshort : shortName.length = 11) (hfirst : firstCluster < 2 ^ 32)
    (hsize : fileSize < 2 ^ 32) :
    ShortSlot (DirEntry.read (putShort shortName attr firstCluster fileSize a buf) a) shortName attr
      firstCluster fileSize := by
  have hname : ∀ i < 11, putShort shortName attr firstCluster fileSize a buf (a + i) =
      shortName.getD i 0 := fun i hi => by
    unfold putShort
    rw [Bytes.store_apply (by omega), Bytes.store_apply (by omega), Bytes.store_apply (by omega),
      Bytes.set_ne (by omega), Bytes.blit_inside hi, Nat.zero_add]
  refine ⟨?_, ?_, ?_, ?_⟩
  · refine List.ext_getElem (by simp [DirEntry.short, hshort]) fun i h₁ h₂ => ?_
    have hi : i < 11 := by rwa [hshort] at h₂
    simp only [DirEntry.short, List.getElem_map, List.getElem_range]
    rw [DirEntry.byte_read (by omega), hname i hi, List.getD_eq_getElem _ _ h₂]
  · rw [DirEntry.attr, DirEntry.byte_read (by decide)]
    unfold putShort
    rw [Bytes.store_apply (by omega), Bytes.store_apply (by omega), Bytes.store_apply (by omega),
      Bytes.set_self]
  · have hlow : (putShort shortName attr firstCluster fileSize a buf).load (a + 26) 2 =
        firstCluster % 256 ^ 2 := by
      unfold putShort
      rw [(Bytes.agree_store (by omega)).load_eq, Bytes.load_store]
    have hhigh : (putShort shortName attr firstCluster fileSize a buf).load (a + 20) 2 =
        firstCluster / 2 ^ 16 % 256 ^ 2 := by
      unfold putShort
      rw [(Bytes.agree_store (by omega)).load_eq, (Bytes.agree_store (by omega)).load_eq, Bytes.load_store]
    rw [DirEntry.firstCluster, DirEntry.half_read (by decide), DirEntry.half_read (by decide), hlow, hhigh]
    omega
  · have hload : (putShort shortName attr firstCluster fileSize a buf).load (a + 28) 4 = fileSize := by
      unfold putShort
      exact Bytes.load_store_of_lt hsize
    rw [DirEntry.fileSize, DirEntry.half_read (by decide), DirEntry.half_read (by decide)]
    simp only [Bytes.load, Nat.add_assoc, Nat.reduceAdd] at hload ⊢
    omega

/-! ### Slots of a long name -/

/-- The characters of a name are 16-bit numbers. -/
lemma nameChars_lt {c : ℕ} (h : c ∈ nameChars longName) : c < 2 ^ 16 := by
  obtain ⟨ch, -, hc⟩ := List.mem_flatMap.mp (List.mem_of_mem_take h)
  have hchar : ch.toNat < 0x110000 := by
    rcases ch.valid with h | h
    · exact h.trans (by decide)
    · exact h.2
  split_ifs at hc with hsmall
  · rw [List.mem_singleton.mp hc]
    omega
  · simp only [List.mem_cons, List.not_mem_nil, or_false] at hc
    omega

/-- So are the characters that are stored. -/
lemma lfnChar_lt (i : ℕ) : lfnChar (nameChars longName) i < 2 ^ 16 := by
  unfold lfnChar
  split_ifs with hi
  · rw [List.getD_eq_getElem _ _ hi]
    exact nameChars_lt (List.getElem_mem hi)
  · decide
  · decide

/-- The characters of a slot do not overlap. -/
lemma charOffset_apart {j k : ℕ} (hne : j ≠ k) :
    DirEntry.charOffset j + 2 ≤ DirEntry.charOffset k ∨ DirEntry.charOffset k + 2 ≤ DirEntry.charOffset j := by
  unfold DirEntry.charOffset
  split_ifs <;> omega

/-- They lie in the slot, behind its first byte and not at the bytes for the attribute and the checksum. -/
lemma charOffset_mem {k : ℕ} (hk : k < 13) : 1 ≤ DirEntry.charOffset k ∧ DirEntry.charOffset k + 2 ≤ 32 ∧
    (DirEntry.charOffset k + 2 ≤ 11 ∨ 14 ≤ DirEntry.charOffset k) := by
  unfold DirEntry.charOffset
  split_ifs <;> omega

variable {checksum : UInt8} {start lfnIdx : ℕ}

/-- Where a slot of a long name lies in its sector. -/
def lfnOffset (longName : Str) (start lfnIdx : ℕ) : ℕ := (start + (lfnCount longName - 1 - lfnIdx)) * 32

/-- Writing a slot of a long name leaves the other bytes alone. -/
lemma putLfn_apply (hx : x < lfnOffset longName start lfnIdx ∨ lfnOffset longName start lfnIdx + 32 ≤ x) :
    putLfn longName checksum start buf lfnIdx x = buf x := by
  unfold putLfn
  rw [← lfnOffset, Bytes.foldl_store_apply fun k hk => ?_, Bytes.set_ne (by omega), Bytes.set_ne (by omega),
    Bytes.set_ne (by omega), Bytes.set_ne (by omega)]
  have h := charOffset_mem (List.mem_range.mp hk)
  omega

/-- The slot of a long name that is written. -/
lemma read_putLfn (hidx : lfnIdx < lfnCount longName) (hcount : lfnCount longName < 64) :
    LfnSlot (DirEntry.read (putLfn longName checksum start buf lfnIdx) (lfnOffset longName start lfnIdx))
      longName lfnIdx := by
  have hflag : ∀ n < 63, (UInt8.ofNat (n + 1)).toNat % 64 = n + 1 ∧
      (UInt8.ofNat (n + 1) ||| 0x40).toNat % 64 = n + 1 ∧
      UInt8.ofNat (n + 1) ≠ slotEnd ∧ UInt8.ofNat (n + 1) ≠ slotDeleted ∧
      UInt8.ofNat (n + 1) ||| 0x40 ≠ slotEnd ∧ UInt8.ofNat (n + 1) ||| 0x40 ≠ slotDeleted := by decide
  obtain ⟨h₁, h₂, h₃, h₄, h₅, h₆⟩ := hflag lfnIdx (by omega)
  have hhead : ∀ i < 14, (i = 0 ∨ 11 ≤ i) → putLfn longName checksum start buf lfnIdx
      (lfnOffset longName start lfnIdx + i) =
        if i = 13 then checksum else if i = 12 then 0 else if i = 11 then attrLfn
        else if lfnIdx = lfnCount longName - 1 then UInt8.ofNat (lfnIdx + 1) ||| 0x40
        else UInt8.ofNat (lfnIdx + 1) := fun i hi hcase => by
    unfold putLfn
    rw [← lfnOffset, Bytes.foldl_store_apply fun k hk => ?_]
    · by_cases h13 : i = 13
      · rw [if_pos h13, h13, Bytes.set_self]
      rw [if_neg h13, Bytes.set_ne (by omega)]
      by_cases h12 : i = 12
      · rw [if_pos h12, h12, Bytes.set_self]
      rw [if_neg h12, Bytes.set_ne (by omega)]
      by_cases h11 : i = 11
      · rw [if_pos h11, h11, Bytes.set_self]
      obtain rfl : i = 0 := by omega
      rw [if_neg h11, Bytes.set_ne (by omega)]
      exact Bytes.set_self ..
    · have h := charOffset_mem (List.mem_range.mp hk)
      omega
  have hfirst : (DirEntry.read (putLfn longName checksum start buf lfnIdx)
      (lfnOffset longName start lfnIdx)).byte 0 =
      if lfnIdx = lfnCount longName - 1 then UInt8.ofNat (lfnIdx + 1) ||| 0x40
      else UInt8.ofNat (lfnIdx + 1) := by
    rw [DirEntry.byte_read (by decide), hhead 0 (by decide) (Or.inl rfl)]
    rfl
  refine ⟨?_, ?_, ?_, fun k hk => ?_⟩
  · rw [hfirst]
    split_ifs <;> assumption
  · rw [hfirst]
    split_ifs
    · exact ⟨h₅, h₆⟩
    · exact ⟨h₃, h₄⟩
  · rw [DirEntry.attr, DirEntry.byte_read (by decide), hhead 11 (by decide) (Or.inr le_rfl)]
    rfl
  · have hmem := charOffset_mem hk
    rw [DirEntry.char, DirEntry.half_read (by omega)]
    unfold putLfn
    rw [← lfnOffset]
    refine (Bytes.load_foldl_store (f := fun k => lfnOffset longName start lfnIdx + DirEntry.charOffset k)
      (g := fun k => lfnChar (nameChars longName) (lfnIdx * 13 + k)) List.nodup_range
      (fun i _ j _ hne => ?_) (List.mem_range.mpr hk) _).trans (Nat.mod_eq_of_lt (lfnChar_lt _))
    have h := charOffset_apart hne
    omega

/-- The slots of a long name leave the other bytes alone. -/
lemma foldl_putLfn_apply {idxs : List ℕ} (hx : ∀ i ∈ idxs, x < lfnOffset longName start i ∨
    lfnOffset longName start i + 32 ≤ x) (buf : Bytes) :
    idxs.foldl (putLfn longName checksum start) buf x = buf x := by
  induction idxs generalizing buf with
  | nil => rfl
  | cons i idxs ih =>
    obtain ⟨hi, hidxs⟩ := List.forall_mem_cons.mp hx
    rw [List.foldl_cons, ih hidxs, putLfn_apply hi]

/-- The slots of a long name lie apart. -/
lemma lfnOffset_apart (start : ℕ) {i j : ℕ} (hi : i < lfnCount longName) (hj : j < lfnCount longName) (hne : i ≠ j) :
    lfnOffset longName start i + 32 ≤ lfnOffset longName start j ∨
      lfnOffset longName start j + 32 ≤ lfnOffset longName start i := by
  unfold lfnOffset
  omega

/-- The slots of a long name that are written. -/
lemma read_foldl_putLfn {idxs : List ℕ} (hidxs : ∀ i ∈ idxs, i < lfnCount longName) (hnodup : idxs.Nodup)
    (hcount : lfnCount longName < 64) {i : ℕ} (hi : i ∈ idxs) (buf : Bytes) :
    LfnSlot (DirEntry.read (idxs.foldl (putLfn longName checksum start) buf) (lfnOffset longName start i))
      longName i := by
  induction idxs generalizing buf with
  | nil => cases hi
  | cons k idxs ih =>
    obtain ⟨hk, hlater⟩ := List.forall_mem_cons.mp hidxs
    obtain ⟨hnot, hnodup⟩ := List.nodup_cons.mp hnodup
    rw [List.foldl_cons]
    by_cases hmem : i ∈ idxs
    · exact ih hlater hnodup hmem _
    · obtain rfl := (List.mem_cons.mp hi).resolve_right hmem
      have hsame : DirEntry.read (idxs.foldl (putLfn longName checksum start)
          (putLfn longName checksum start buf i)) (lfnOffset longName start i) =
          DirEntry.read (putLfn longName checksum start buf i) (lfnOffset longName start i) := by
        funext x
        refine foldl_putLfn_apply (fun j hj => ?_) _
        have hapart := lfnOffset_apart start hk (hlater j hj) fun heq => hnot (heq ▸ hj)
        have hx := x.isLt
        omega
      rw [hsame]
      exact read_putLfn hk hcount

/-- **The slots of an entry that are written.** -/
theorem read_putEntry (longName : Str) (attr : UInt8) (start : ℕ) (buf : Bytes)
    (hshort : shortName.length = 11) (hfirst : firstCluster < 2 ^ 32)
    (hsize : fileSize < 2 ^ 32) (hcount : lfnCount longName < 64) :
    ShortSlot (DirEntry.read (putEntry longName shortName attr firstCluster fileSize start buf)
      ((start + lfnCount longName) * 32)) shortName attr firstCluster fileSize ∧
    (∀ i < lfnCount longName, LfnSlot (DirEntry.read
      (putEntry longName shortName attr firstCluster fileSize start buf) (lfnOffset longName start i))
      longName i) ∧
    ∀ j, j < start ∨ start + lfnCount longName < j → DirEntry.read
      (putEntry longName shortName attr firstCluster fileSize start buf) (j * 32) =
        DirEntry.read buf (j * 32) := by
  unfold putEntry
  refine ⟨read_putShort hshort hfirst hsize, fun i hi => ?_, fun j hj => ?_⟩
  · have hsame : ∀ m : Bytes, DirEntry.read (putShort shortName attr firstCluster fileSize
        ((start + lfnCount longName) * 32) m) (lfnOffset longName start i) =
        DirEntry.read m (lfnOffset longName start i) := fun m => by
      funext x
      refine putShort_apply ?_
      have hx := x.isLt
      unfold lfnOffset
      omega
    rw [hsame]
    exact read_foldl_putLfn (fun j hj => List.mem_range.mp (List.mem_reverse.mp hj))
      (List.nodup_reverse.mpr List.nodup_range) hcount (List.mem_reverse.mpr (List.mem_range.mpr hi)) buf
  · funext x
    have hx := x.isLt
    refine (putShort_apply (by omega)).trans (foldl_putLfn_apply (fun i hi => ?_) buf)
    have hi' := List.mem_range.mp (List.mem_reverse.mp hi)
    unfold lfnOffset
    omega

/-! ### Reading a long name -/

/-- The buffer holds the characters of a long name from a part on. -/
structure Loaded (lfn : Lfn) (longName : Str) (n : ℕ) : Prop where
  len : lfn.len = if n = lfnCount longName then 0 else lfnCount longName * 13
  buf : ∀ j, n * 13 ≤ j → j < lfnCount longName * 13 → lfn.buf j = lfnChar (nameChars longName) j

/-- The parts of a long name from the last to the first. -/
abbrev LfnSlots (longName : Str) (n : ℕ) (ls : List DirEntry) : Prop :=
  List.Forall₂ (fun e i => LfnSlot e longName i) ls (List.range n).reverse

/-- One more part. -/
lemma Loaded.push {lfn : Lfn} {n : ℕ} {e : DirEntry} (h : Loaded lfn longName (n + 1))
    (he : LfnSlot e longName n) (hn : n < lfnCount longName) (hcount : lfnCount longName < 20) :
    Loaded (lfn.push e) longName n := by
  have hidx : e.lfnIdx = n := by rw [DirEntry.lfnIdx, he.order, Nat.add_sub_cancel]
  have hlen := h.len
  unfold Lfn.push
  rw [hidx]
  dsimp only
  rw [if_pos (by omega), if_pos (by omega)]
  refine ⟨?_, fun j hle hj => ?_⟩
  · dsimp only
    rw [if_neg (by omega), hlen]
    split_ifs <;> omega
  · dsimp only
    by_cases hin : n * 13 ≤ j ∧ j < n * 13 + 13
    · rw [if_pos hin, he.char _ (by omega), show n * 13 + (j - n * 13) = j by omega]
    · rw [if_neg hin]
      exact h.buf j (by omega) hj

/-- A walk over the parts of a long name visits no entry and loads the name. -/
lemma LfnSlots.load {n : ℕ} {ls : List DirEntry} (h : LfnSlots longName n ls)
    (hn : n ≤ lfnCount longName) (hcount : lfnCount longName < 20) {lfn : Lfn}
    (hloaded : Loaded lfn longName n) (k : ℕ) :
    entriesFrom k lfn ls = [] ∧ ∃ lfn', carry lfn ls = some lfn' ∧ Loaded lfn' longName 0 := by
  induction n generalizing ls lfn k with
  | zero =>
    cases h
    exact ⟨rfl, lfn, rfl, hloaded⟩
  | succ n ih =>
    rw [LfnSlots, List.range_succ, List.reverse_append, List.reverse_singleton, List.singleton_append] at h
    cases h with
    | @cons e _ ls _ he hls =>
      rw [entriesFrom, carry, if_neg he.used.1, if_neg he.used.2, if_pos he.attr, if_neg he.used.1,
        if_neg he.used.2, if_pos he.attr]
      exact ih hls (by omega) (hloaded.push he (by omega) hcount) (k + 1)

/-- The number of slots of a long name. -/
lemma lfnCount_spec (h : lfnCount longName ≠ 0) : (nameChars longName).length ≤ lfnCount longName * 13 ∧
    lfnCount longName * 13 < (nameChars longName).length + 13 := by
  unfold lfnCount at h ⊢
  split_ifs at h ⊢
  · exact absurd rfl h
  · omega

/-- The characters that are stored are those of the name, a terminator if there is room, and a padding. -/
lemma takeWhile_lfnChar {chars : List ℕ} (hchars : ∀ c ∈ chars, c ≠ 0 ∧ c ≠ 0xFFFF) {n : ℕ}
    (hle : chars.length ≤ n) :
    ((List.range n).map (lfnChar chars)).takeWhile (fun ch => ch ≠ 0 ∧ ch ≠ 0xFFFF) = chars := by
  have hfirst : (List.range chars.length).map (lfnChar chars) = chars := by
    refine List.ext_getElem (by simp) fun i _ hi => ?_
    rw [List.getElem_map, List.getElem_range, lfnChar, if_pos hi, List.getD_eq_getElem _ _ hi]
  obtain ⟨k, rfl⟩ := Nat.exists_eq_add_of_le hle
  rw [List.range_add, List.map_append, hfirst,
    List.takeWhile_append_of_pos fun c hc => decide_eq_true (hchars c hc)]
  refine (congrArg _ ?_).trans (List.append_nil _)
  cases k with
  | zero => rfl
  | succ k =>
    rw [List.range_succ_eq_map, List.map_cons, List.map_cons, Nat.add_zero, List.takeWhile_cons, lfnChar,
      if_neg (Nat.lt_irrefl _), if_pos rfl]
    rfl

/-- The text of a long name: its ASCII characters. -/
lemma Loaded.text_eq {lfn : Lfn} (h : Loaded lfn longName 0) (hlong : lfnCount longName ≠ 0)
    (hchars : ∀ c ∈ nameChars longName, c ≠ 0 ∧ c ≠ 0xFFFF) :
    lfn.text = ((((nameChars longName).filter (· < 0x80)).map UInt8.ofNat).take 256) := by
  obtain ⟨hle, -⟩ := lfnCount_spec hlong
  have hlen : lfn.len = lfnCount longName * 13 := by rw [h.len, if_neg (Ne.symm hlong)]
  have hbuf : (List.range lfn.len).map lfn.buf =
      (List.range (lfnCount longName * 13)).map (lfnChar (nameChars longName)) := by
    rw [hlen]
    exact List.map_congr_left fun j hj => h.buf j (by omega) (List.mem_range.mp hj)
  rw [Lfn.text, hbuf, takeWhile_lfnChar hchars hle]

/-! ### Names that are read back -/

/-- A long name of ASCII characters that fits in a sector. -/
def LongAscii (longName : Str) : Prop :=
  13 < longName.length ∧ longName.length ≤ 195 ∧ ∀ c ∈ longName, 0 < c.toNat ∧ c.toNat < 0x80

/-- A valid short name whose dot is followed by an extension. -/
def Proper83 (longName : Str) : Prop :=
  isValid83 longName = true ∧ (0x2E ∈ longName.asBytes → (splitDot longName.asBytes).2 ≠ [])

/-- The characters of a name of ASCII characters. -/
lemma nameChars_ascii (h : ∀ c ∈ longName, 0 < c.toNat ∧ c.toNat < 0x80) (hlen : longName.length ≤ 256) :
    nameChars longName = longName.map Char.toNat := by
  have hutf : longName.encodeUtf16 = longName.map Char.toNat := by
    unfold Str.encodeUtf16
    clear hlen
    induction longName with
    | nil => rfl
    | cons c cs ih =>
      obtain ⟨hc, hcs⟩ := List.forall_mem_cons.mp h
      rw [List.flatMap_cons, if_pos (by omega), ih hcs, List.map_cons, List.singleton_append]
  rw [nameChars, hutf, List.take_of_length_le (by rwa [List.length_map])]

/-- Its bytes. -/
lemma asBytes_ascii (h : ∀ c ∈ longName, c.toNat < 0x80) :
    longName.asBytes = longName.map fun c => UInt8.ofNat c.toNat := by
  unfold Str.asBytes
  induction longName with
  | nil => rfl
  | cons c cs ih =>
    obtain ⟨hc, hcs⟩ := List.forall_mem_cons.mp h
    have hone : String.utf8EncodeChar c = [UInt8.ofNat c.toNat] := by
      unfold String.utf8EncodeChar
      exact if_pos (Nat.le_of_lt_succ hc)
    rw [List.flatMap_cons, ih hcs, List.map_cons, hone, List.singleton_append]

/-- A name has not more characters than bytes. -/
lemma encodeUtf16_length (s : Str) : s.encodeUtf16.length ≤ s.asBytes.length := by
  unfold Str.encodeUtf16 Str.asBytes
  induction s with
  | nil => exact le_rfl
  | cons c cs ih =>
    rw [List.flatMap_cons, List.flatMap_cons, List.length_append, List.length_append]
    refine Nat.add_le_add ?_ ih
    rw [String.length_utf8EncodeChar]
    split_ifs with hsmall
    · exact c.utf8Size_pos
    · have hval : ∀ n : UInt32, n.toNat < 0x10000 → ¬ c.val ≤ n := fun n hn hle => by
        have hle' : c.toNat ≤ n.toNat := UInt32.le_iff_toNat_le.mp hle
        omega
      unfold Char.utf8Size
      rw [if_neg (hval _ (by decide)), if_neg (hval _ (by decide)), if_neg (hval _ (by decide))]
      exact Nat.le_of_ble_eq_true rfl

/-- The number of slots of such a name. -/
lemma LongAscii.count (h : LongAscii longName) : 0 < lfnCount longName ∧ lfnCount longName ≤ 15 := by
  obtain ⟨hlong, hshort, hascii⟩ := h
  rw [lfnCount, nameChars_ascii hascii (by omega), List.length_map, if_neg (by omega)]
  omega

/-- The text of a long name of ASCII characters is the name. -/
lemma LongAscii.text_eq (h : LongAscii longName) {lfn : Lfn} (hloaded : Loaded lfn longName 0) :
    lfn.text = longName.asBytes := by
  have hcount : lfnCount longName ≠ 0 := h.count.1.ne'
  obtain ⟨hlong, hshort, hascii⟩ := h
  have hchars := nameChars_ascii hascii (by omega)
  have hmem : ∀ c ∈ nameChars longName, 0 < c ∧ c < 0x80 := fun c hc => by
    rw [hchars] at hc
    obtain ⟨ch, hch, rfl⟩ := List.mem_map.mp hc
    exact hascii ch hch
  rw [hloaded.text_eq hcount fun c hc => by have := hmem c hc; omega,
    List.filter_eq_self.mpr fun c hc => decide_eq_true (hmem c hc).2, hchars, List.map_map,
    List.take_of_length_le (by rw [List.length_map]; omega),
    asBytes_ascii fun c hc => (hascii c hc).2]
  rfl

/-! ### Reading a short name -/

/-- A property of all bytes. -/
lemma forall_byte {p : UInt8 → Prop} (h : ∀ n < 256, p (UInt8.ofNat n)) (c : UInt8) : p c := by
  have hc := h c.toNat c.toNat_lt
  rwa [UInt8.ofNat_toNat] at hc

/-- Upper case is ignored. -/
lemma toAsciiLowercase_uppercase (c : UInt8) :
    toAsciiLowercase (toAsciiUppercase c) = toAsciiLowercase c :=
  forall_byte (p := fun c => toAsciiLowercase (toAsciiUppercase c) = toAsciiLowercase c)
    (by decide +kernel) c

/-- The characters of short names are neither spaces nor dots, nor do they mark a slot, in both cases. -/
lemma shortChar_spec {c : UInt8} (h : shortChar c = true) :
    toAsciiUppercase c ≠ 0x20 ∧ c ≠ 0x2E ∧ toAsciiUppercase c ≠ slotEnd ∧
      toAsciiUppercase c ≠ slotDeleted :=
  forall_byte (p := fun c => shortChar c = true → toAsciiUppercase c ≠ 0x20 ∧ c ≠ 0x2E ∧
    toAsciiUppercase c ≠ slotEnd ∧ toAsciiUppercase c ≠ slotDeleted) (by decide +kernel) c h

/-- Reading back a part of a short name. -/
lemma takeWhile_padded {n : ℕ} {name : List UInt8} (hlen : name.length ≤ n) (hname : ∀ c ∈ name, c ≠ 0x20) :
    (padded n name).takeWhile (· ≠ 0x20) = name := by
  obtain ⟨k, rfl⟩ := Nat.exists_eq_add_of_le hlen
  have htake : padded (name.length + k) name = name ++ List.replicate k 0x20 := by
    rw [padded, List.take_append, List.take_of_length_le (by omega), Nat.add_sub_cancel_left,
      List.take_replicate, Nat.min_eq_left (by omega)]
  rw [htake, List.takeWhile_append_of_pos fun c hc => decide_eq_true (hname c hc)]
  refine (congrArg _ ?_).trans (List.append_nil _)
  cases k with
  | zero => rfl
  | succ k => rfl

/-- The length of a part of a short name. -/
lemma padded_length (n : ℕ) (name : List UInt8) : (padded n name).length = n := by
  rw [padded, List.length_take, List.length_append, List.length_replicate]
  omega

/-- The parts of a name before and behind its last dot. -/
lemma splitDot_spec (name : List UInt8) :
    name = (splitDot name).1 ++ (if 0x2E ∈ name then 0x2E :: (splitDot name).2 else []) ∧
      (0x2E ∉ name → (splitDot name).2 = []) := by
  unfold splitDot
  split_ifs with hdot
  · refine ⟨?_, fun h => absurd hdot h⟩
    have hparts := List.takeWhile_append_dropWhile (p := fun c : UInt8 => decide (c ≠ 0x2E)) (l := name.reverse)
    cases hdrop : name.reverse.dropWhile fun c : UInt8 => decide (c ≠ 0x2E) with
    | nil =>
      refine absurd (List.dropWhile_eq_nil_iff.mp hdrop 0x2E (List.mem_reverse.mpr hdot)) ?_
      decide
    | cons c cs =>
      have hhead := List.head_dropWhile_not (l := name.reverse) (fun c : UInt8 => decide (c ≠ 0x2E))
        (by rw [hdrop]; exact List.cons_ne_nil _ _)
      simp only [hdrop, List.head_cons, decide_eq_false_iff_not, not_not] at hhead
      rw [hdrop, hhead] at hparts
      have hname := congrArg List.reverse hparts
      rw [List.reverse_reverse, List.reverse_append, List.reverse_cons, List.append_assoc] at hname
      exact hname.symm
  · exact ⟨(List.append_nil _).symm, fun _ => rfl⟩

/-- What is valid in a short name. -/
lemma isValid83_spec (h : isValid83 longName = true) :
    0 < (splitDot longName.asBytes).1.length ∧ (splitDot longName.asBytes).1.length ≤ 8 ∧
      (splitDot longName.asBytes).2.length ≤ 3 ∧
      (∀ c ∈ (splitDot longName.asBytes).1, shortChar c = true) ∧
      ∀ c ∈ (splitDot longName.asBytes).2, shortChar c = true := by
  unfold isValid83 at h
  dsimp only at h
  obtain ⟨h₁, h₂, h₃, h₄, h₅⟩ := of_decide_eq_true h
  exact ⟨h₁, h₂, h₃, List.all_eq_true.mp h₄, List.all_eq_true.mp h₅⟩

/-- The short name of a valid short name. -/
lemma makeShortName_valid {fs : Fat32Fs} {d : Disk} {dirCluster : ℕ} (h : isValid83 longName = true) :
    fs.makeShortName d longName dirCluster =
      some (padded 8 ((splitDot longName.asBytes).1.map toAsciiUppercase) ++
        padded 3 ((splitDot longName.asBytes).2.map toAsciiUppercase)) := by
  have hext := (isValid83_spec h).2.2.1
  have hbase : baseName longName = padded 8 ((splitDot longName.asBytes).1.map toAsciiUppercase) := if_pos h
  rw [makeShortName, if_pos h, hbase, baseExt, List.take_of_length_le hext]

/-- A valid short name has no long name. -/
lemma lfnCount_valid (h : isValid83 longName = true) : lfnCount longName = 0 := by
  obtain ⟨-, hname, hext, -, -⟩ := isValid83_spec h
  have hbytes := (splitDot_spec longName.asBytes).1
  have hlen := congrArg List.length hbytes
  have hutf := encodeUtf16_length longName
  rw [List.length_append] at hlen
  rw [lfnCount, if_pos]
  rw [nameChars, List.length_take]
  split_ifs at hlen
  · rw [List.length_cons] at hlen
    omega
  · rw [List.length_nil] at hlen
    omega

/-- The bytes of the name and of the extension. -/
lemma short_bytes (e : DirEntry) : (List.range 8).map e.byte = e.short.take 8 ∧
    ((List.range 3).map fun j => e.byte (8 + j)) = e.short.drop 8 ∧ e.byte 8 = e.short.getD 8 0 ∧
    e.byte 0 = e.short.getD 0 0 :=
  ⟨rfl, rfl, rfl, rfl⟩

/-- **Reading a short name back.** -/
lemma shortName_eq {e : DirEntry} {name ext : List UInt8} (h : e.short = padded 8 name ++ padded 3 ext)
    (hname : name.length ≤ 8) (hext : ext.length ≤ 3) (hname' : ∀ c ∈ name, c ≠ 0x20)
    (hext' : ∀ c ∈ ext, c ≠ 0x20) :
    e.shortName = name ++ if ext = [] then [] else 0x2E :: ext := by
  obtain ⟨h₁, h₂, h₃, -⟩ := short_bytes e
  have hlen := padded_length 8 name
  have hbyte : e.byte 8 = (padded 3 ext).getD 0 0 := by
    rw [h₃, h, List.getD_append_right _ _ _ _ (by omega), hlen]
  rw [DirEntry.shortName, h₁, h₂, hbyte, h, List.take_left' hlen, List.drop_left' hlen,
    takeWhile_padded hname hname', takeWhile_padded hext hext']
  cases ext with
  | nil => exact (if_neg (by decide)).trans (List.append_nil _).symm
  | cons c ext =>
    have hc : (padded 3 (c :: ext)).getD 0 0 = c := rfl
    rw [hc, if_pos (hext' c (List.mem_cons_self ..)), if_neg (List.cons_ne_nil _ _)]

/-- Names that differ in their case alone match. -/
lemma nameMatches_uppercase {name search : List UInt8} (h : name = search.map toAsciiUppercase) :
    nameMatches name search = true := by
  refine nameMatches_iff.mpr ?_
  rw [h, List.map_map]
  exact List.map_congr_left fun c _ => toAsciiLowercase_uppercase c

/-- **A valid short name is read back**, in upper case, and its slot is in use. -/
theorem Proper83.read (h : Proper83 longName) {e : DirEntry}
    (he : e.short = padded 8 ((splitDot longName.asBytes).1.map toAsciiUppercase) ++
      padded 3 ((splitDot longName.asBytes).2.map toAsciiUppercase)) :
    nameMatches e.shortName longName.asBytes = true ∧ e.byte 0 ≠ slotEnd ∧ e.byte 0 ≠ slotDeleted := by
  obtain ⟨hpos, hname, hext, hchars, hchars'⟩ := isValid83_spec h.1
  obtain ⟨hsplit, hnone⟩ := splitDot_spec longName.asBytes
  have hupper : ∀ {l : List UInt8}, (∀ c ∈ l, shortChar c = true) →
      ∀ c ∈ l.map toAsciiUppercase, c ≠ 0x20 ∧ c ≠ slotEnd ∧ c ≠ slotDeleted := fun hl c hc => by
    obtain ⟨b, hb, rfl⟩ := List.mem_map.mp hc
    have hspec := shortChar_spec (hl b hb)
    exact ⟨hspec.1, hspec.2.2⟩
  refine ⟨nameMatches_uppercase ?_, ?_⟩
  · rw [shortName_eq he (by rwa [List.length_map]) (by rwa [List.length_map])
      (fun c hc => (hupper hchars c hc).1) fun c hc => (hupper hchars' c hc).1]
    have hdot : toAsciiUppercase 0x2E = 0x2E := by decide
    conv_rhs => rw [hsplit]
    rw [List.map_append]
    refine congrArg _ ?_
    by_cases hmem : 0x2E ∈ longName.asBytes
    · rw [if_pos hmem, if_neg fun hnil => h.2 hmem (List.map_eq_nil_iff.mp hnil), List.map_cons, hdot]
    · rw [if_neg hmem, hnone hmem, List.map_nil, if_pos rfl]
  · obtain ⟨-, -, -, hbyte⟩ := short_bytes e
    cases hfirst : (splitDot longName.asBytes).1 with
    | nil =>
      rw [hfirst] at hpos
      exact absurd hpos (Nat.lt_irrefl 0)
    | cons c cs =>
      rw [hfirst] at he hchars
      have hzero : e.byte 0 = toAsciiUppercase c := by
        rw [hbyte, he]
        rfl
      rw [hzero]
      exact (hupper hchars _ (List.mem_cons_self ..)).2

end Fat32Fs

end Fs

end NekOS
