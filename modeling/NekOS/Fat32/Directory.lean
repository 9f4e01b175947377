import NekOS.Fat32.Files
import NekOS.Fat32.Slots

/-!
# Directories

The functions of the file server on directories: walking, searching, creating, updating and deleting
entries, and resolving paths.
-/

namespace NekOS

namespace Fs

/-- The number of slots in a sector. -/
def entriesPerSector : ℕ := blockSize / 32

namespace Fat32Fs

variable (fs : Fat32Fs)

/-- The loops over the sectors of the clusters of a chain that the functions on directories have in
common. -/
def forSectors {ρ σ : Type*} (body : ℕ → σ → Flow ρ σ) (next : ℕ → σ → Flow ρ (ℕ × σ)) (cluster : ℕ)
    (s : σ) : Option ρ :=
  Flow.loop (fun (c : ℕ × σ) =>
    (Flow.forEach (fun i => body (wrap (fs.clusterToSector c.1 + i))) (List.range fs.spc) c.2).andThen
      (next c.1)) loopRounds (cluster, s)

/-! ### Walking -/

/-- `walk_dir` at one slot. -/
def walkSlot {σ : Type*} (f : DirEntry → List UInt8 → σ → σ) (buf : Bytes) (i : ℕ) (s : Lfn × σ) :
    Flow (Option (Bool × σ)) (Lfn × σ) :=
  let e := DirEntry.read buf (i * 32)
  if e.byte 0 = slotEnd then .ret (some (true, s.2))
  else if e.byte 0 = slotDeleted then .next (s.1.reset, s.2)
  else if e.attr = attrLfn then .next (s.1.push e, s.2)
  else .next (s.1.reset, f e (s.1.entryName e) s.2)

/-- `walk_dir` at one sector. -/
def walkSector {σ : Type*} (d : Disk) (f : DirEntry → List UInt8 → σ → σ) (sector : ℕ) (s : Lfn × σ) :
    Flow (Option (Bool × σ)) (Lfn × σ) :=
  match diskRead d sector with
  | none => .ret none
  | some none => .ret (some (false, s.2))
  | some (some buf) => Flow.forEach (walkSlot f buf) (List.range entriesPerSector) s

/-- `walk_dir`: its result, and what the callback has made of its state. -/
def walkDir {σ : Type*} (d : Disk) (dirCluster : ℕ) (f : DirEntry → List UInt8 → σ → σ) (s : σ) :
    Option (Bool × σ) :=
  (fs.forSectors (walkSector d f) (fun cluster s =>
    match fs.fatNext d cluster with
    | none => .ret none
    | some next =>
      match validLink next with
      | some next => .next (next, s)
      | none => .ret (some (true, s.2))) dirCluster (Lfn.init, s)).join

/-- The callback of `find_entry`. -/
def findCallback (search : List UInt8) (e : DirEntry) (name : List UInt8) :
    Option (DirEntry × List UInt8) → Option (DirEntry × List UInt8)
  | some result => some result
  | none => if nameMatches name search then some (e, name) else none

/-- `find_entry`. -/
def findEntry (d : Disk) (dirCluster : ℕ) (name : Str) : Option (Option (DirEntry × List UInt8)) :=
  (fs.walkDir d dirCluster (findCallback name.asBytes) none).map Prod.snd

/-- The entry that `resolve_path` makes up for the root directory. -/
def rootEntry : DirEntry :=
  DirEntry.read ((((Bytes.zero.fill 0 0x20 11).set 11 attrDirectory).store 20
    (fs.rootCluster / 2 ^ 16) 2).store 26 fs.rootCluster 2) 0

/-- `resolve_path` at one component of the path. -/
def resolveComponent (d : Disk) (path component : Str) (s : ℕ × Option (DirEntry × List UInt8)) :
    Flow (Option (Option (DirEntry × List UInt8))) (ℕ × Option (DirEntry × List UInt8)) :=
  if component = [] then .next s
  else
    match fs.findEntry d s.1 component with
    | none => .ret none
    | some none => .ret (some none)
    | some (some (entry, name)) =>
      if entry.isDirectory then .next (entry.firstCluster, some (entry, name))
      else
        match Str.find component path with
        | none => .ret none
        | some pos =>
          if '/' ∈ path.drop (pos + component.length) then .ret (some none)
          else .next (s.1, some (entry, name))

/-- `resolve_path`. -/
def resolvePath (d : Disk) (path : Str) : Option (Option (DirEntry × List UInt8)) :=
  let path := path.dropWhile (· = '/')
  if path = [] then some (some (fs.rootEntry, [0x2F]))
  else
    match Flow.forEach (fs.resolveComponent d path) (path.splitOn '/') (fs.rootCluster, none) with
    | .ret r => r
    | .next s => some s.2

/-! ### Short names -/

/-- `lfn_checksum`. -/
def lfnChecksum (shortName : List UInt8) : UInt8 :=
  shortName.foldl (fun sum c => (sum >>> 1) + (sum <<< 7) + c) 0

/-- The characters of a valid short name. -/
def shortChar (c : UInt8) : Bool := isAsciiAlphanumeric c || c = 0x5F

/-- A part of a short name, filled up with spaces. -/
def padded (n : ℕ) (name : List UInt8) : List UInt8 := (name ++ List.replicate n 0x20).take n

/-- The part of a name before the last dot, and the part behind it. -/
def splitDot (name : List UInt8) : List UInt8 × List UInt8 :=
  if 0x2E ∈ name then
    ((name.reverse.dropWhile (· ≠ 0x2E)).tail.reverse, (name.reverse.takeWhile (· ≠ 0x2E)).reverse)
  else (name, [])

/-- `is_valid_83`. -/
def isValid83 (longName : Str) : Bool :=
  let (namePart, extPart) := splitDot longName.asBytes
  0 < namePart.length ∧ namePart.length ≤ 8 ∧ extPart.length ≤ 3 ∧ namePart.all shortChar ∧
    extPart.all shortChar

/-- The name that `make_short_name` starts with. -/
def baseName (longName : Str) : List UInt8 :=
  let (namePart, _) := splitDot longName.asBytes
  if isValid83 longName then padded 8 (namePart.map toAsciiUppercase)
  else ((padded 8 (((namePart.filter shortChar).take 6).map toAsciiUppercase)).set 6 0x7E).set 7 0x31

/-- The extension of `make_short_name`. -/
def baseExt (longName : Str) : List UInt8 :=
  padded 3 (((splitDot longName.asBytes).2.take 3).map toAsciiUppercase)

/-- A round of the loop of `make_short_name` that looks for a name that is not in use. -/
def shortRound (d : Disk) (dirCluster : ℕ) (ext : List UInt8) (n : ℕ) (base : List UInt8) :
    Flow (Option (List UInt8)) (List UInt8) :=
  match fs.walkDir d dirCluster (fun e _ found => found || e.short = base ++ ext) false with
  | none => .ret none
  | some (_, false) => .ret (some base)
  | some (_, true) =>
    if n < 10 then .next (base.set 7 (0x30 + UInt8.ofNat n))
    else .next ((base.set 6 0x7E).set 7 (0x30 + UInt8.ofNat n))

/-- `make_short_name`: the name and the extension, one after the other. -/
def makeShortName (d : Disk) (longName : Str) (dirCluster : ℕ) : Option (List UInt8) :=
  let base := baseName longName
  let ext := baseExt longName
  if isValid83 longName then some (base ++ ext)
  else
    match Flow.forEach (fs.shortRound d dirCluster ext) (List.range' 1 99) base with
    | .ret none => none
    | .ret (some base) => some (base ++ ext)
    | .next base => some (base ++ ext)

/-! ### Creating entries -/

/-- `name_chars` and `name_len`. -/
def nameChars (longName : Str) : List ℕ := longName.encodeUtf16.take 256

/-- `lfn_count`. -/
def lfnCount (longName : Str) : ℕ :=
  if (nameChars longName).length ≤ 13 then 0 else ((nameChars longName).length + 12) / 13

/-- The character of a long name at an index: a terminator and a padding follow the name. -/
def lfnChar (chars : List ℕ) (i : ℕ) : ℕ :=
  if i < chars.length then chars.getD i 0 else if i = chars.length then 0 else 0xFFFF

/-- Write a slot of a long name. -/
def putLfn (longName : Str) (checksum : UInt8) (start : ℕ) (buf : Bytes) (lfnIdx : ℕ) : Bytes :=
  let off := (start + (lfnCount longName - 1 - lfnIdx)) * 32
  let order := UInt8.ofNat (lfnIdx + 1)
  let lastFlag := if lfnIdx = lfnCount longName - 1 then order ||| 0x40 else order
  let buf := (((buf.set off lastFlag).set (off + 11) attrLfn).set (off + 12) 0).set (off + 13) checksum
  (List.range 13).foldl (fun buf k =>
    buf.store (off + DirEntry.charOffset k) (lfnChar (nameChars longName) (lfnIdx * 13 + k)) 2) buf

/-- Write a short entry. -/
def putShort (shortName : List UInt8) (attr : UInt8) (firstCluster fileSize off : ℕ) (buf : Bytes) :
    Bytes :=
  let buf := buf.blit off (fun i => shortName.getD i 0) 0 11
  let buf := buf.set (off + 11) attr
  ((buf.store (off + 20) (firstCluster / 2 ^ 16) 2).store (off + 26) firstCluster 2).store (off + 28)
    fileSize 4

/-- Write all slots of an entry. -/
def putEntry (longName : Str) (shortName : List UInt8) (attr : UInt8) (firstCluster fileSize start : ℕ)
    (buf : Bytes) : Bytes :=
  putShort shortName attr firstCluster fileSize ((start + lfnCount longName) * 32)
    ((List.range (lfnCount longName)).reverse.foldl (putLfn longName (lfnChecksum shortName) start) buf)

/-- The search of `create_dir_entry` for free slots in a sector, at one slot: it returns where they
start. -/
def scanFree (buf : Bytes) (totalEntries i : ℕ) (run : Option ℕ × ℕ) : Flow ℕ (Option ℕ × ℕ) :=
  let first := buf (i * 32)
  if first = slotEnd ∨ first = slotDeleted then
    if totalEntries ≤ run.2 + 1 then .ret (run.1.getD i) else .next (some (run.1.getD i), run.2 + 1)
  else .next (none, 0)

/-- `create_dir_entry` at one sector. -/
def createSector (longName : Str) (shortName : List UInt8) (attr : UInt8) (firstCluster fileSize : ℕ)
    (sector : ℕ) (d : Disk) : Flow (Option (Option (ℕ × ℕ) × Disk)) Disk :=
  match diskRead d sector with
  | none => .ret none
  | some none => .ret (some (none, d))
  | some (some buf) =>
    match Flow.forEach (scanFree buf (lfnCount longName + 1)) (List.range entriesPerSector) (none, 0) with
    | .next _ => .next d
    | .ret start =>
      match diskWrite d sector (putEntry longName shortName attr firstCluster fileSize start buf) with
      | none => .ret none
      | some none => .ret (some (none, d))
      | some (some d) => .ret (some (some (sector, (start + lfnCount longName) * 32), d))

/-- `create_dir_entry`: where the short entry is, and the disk afterwards. -/
def createDirEntry (d : Disk) (dirCluster : ℕ) (longName : Str) (attr : UInt8)
    (firstCluster fileSize : ℕ) : Option (Option (ℕ × ℕ) × Disk) :=
  match fs.makeShortName d longName dirCluster with
  | none => none
  | some shortName =>
    (fs.forSectors (createSector longName shortName attr firstCluster fileSize) (fun cluster d =>
      match fs.nextOrNew d cluster with
      | none => .ret none
      | some (none, d) => .ret (some (none, d))
      | some (some next, d) => .next (next, d)) dirCluster d).join

/-! ### Updating and deleting entries -/

/-- Write the size and the first cluster of an entry. -/
def putSize (newSize newCluster off : ℕ) (buf : Bytes) : Bytes :=
  ((buf.store (off + 28) newSize 4).store (off + 26) newCluster 2).store (off + 20)
    (newCluster / 2 ^ 16) 2

/-- The state of `update_dir_entry_size` in its loop over the slots of a sector. -/
structure UpdateState where
  lfn : Lfn
  found : Bool
  buf : Bytes
  modified : Bool

/-- `update_dir_entry_size` at one slot.  It returns `found`. -/
def updateSlot (search : List UInt8) (newSize newCluster i : ℕ) (st : UpdateState) :
    Flow Bool UpdateState :=
  let e := DirEntry.read st.buf (i * 32)
  if e.byte 0 = slotEnd then .ret st.found
  else if e.byte 0 = slotDeleted then .next { st with lfn := st.lfn.reset }
  else if e.attr = attrLfn then .next { st with lfn := st.lfn.push e }
  else if nameMatches (st.lfn.entryName e) search then
    .next ⟨st.lfn.reset, true, putSize newSize newCluster (i * 32) st.buf, true⟩
  else .next { st with lfn := st.lfn.reset }

/-- `update_dir_entry_size` at one sector. -/
def updateSector (search : List UInt8) (newSize newCluster sector : ℕ) (s : Lfn × Bool × Disk) :
    Flow (Option (Bool × Disk)) (Lfn × Bool × Disk) :=
  let (lfn, found, d) := s
  match diskRead d sector with
  | none => .ret none
  | some none => .ret (some (false, d))
  | some (some buf) =>
    match Flow.forEach (updateSlot search newSize newCluster) (List.range entriesPerSector)
      ⟨lfn, found, buf, false⟩ with
    | .ret found => .ret (some (found, d))
    | .next st =>
      match if st.modified then diskWrite d sector st.buf else some (some d) with
      | none => .ret none
      | some none => .ret (some (false, d))
      | some (some d) => if st.found then .ret (some (true, d)) else .next (st.lfn, st.found, d)

/-- `update_dir_entry_size`: its result, and the disk afterwards. -/
def updateDirEntrySize (d : Disk) (dirCluster : ℕ) (name : Str) (newSize newCluster : ℕ) :
    Option (Bool × Disk) :=
  (fs.forSectors (updateSector name.asBytes newSize newCluster) (fun cluster s =>
    match fs.fatNext s.2.2 cluster with
    | none => .ret none
    | some next =>
      match validLink next with
      | some next => .next (next, s)
      | none => .ret (some s.2)) dirCluster (Lfn.init, false, d)).join

/-- The state of `delete_dir_entry` in its loops. -/
structure DeleteState where
  lfn : Lfn
  lfnStartSector : ℕ
  lfnStartIdx : ℕ

/-- The sector in which an entry is marked as deleted. -/
def markDeleted (buf : Bytes) (sector i : ℕ) (st : DeleteState) : Bytes :=
  let buf := buf.set (i * 32) slotDeleted
  if 0 < st.lfn.len ∧ st.lfnStartSector = sector then
    (List.range' st.lfnStartIdx (i - st.lfnStartIdx)).foldl
      (fun buf li => buf.set (li * 32) slotDeleted) buf
  else buf

/-- `delete_dir_entry` at one slot. -/
def deleteSlot (d : Disk) (search : List UInt8) (sector : ℕ) (buf : Bytes) (i : ℕ) (st : DeleteState) :
    Flow (Option (Bool × Disk)) DeleteState :=
  let e := DirEntry.read buf (i * 32)
  if e.byte 0 = slotEnd then .ret (some (false, d))
  else if e.byte 0 = slotDeleted then .next { st with lfn := st.lfn.reset }
  else if e.attr = attrLfn then
    .next (if st.lfn.len = 0 then ⟨st.lfn.push e, sector, i⟩ else { st with lfn := st.lfn.push e })
  else
    let matched := nameMatches (st.lfn.entryName e) search
    let st := { st with lfn := st.lfn.reset }
    if matched then
      match diskWrite d sector (markDeleted buf sector i st) with
      | none => .ret none
      | some none => .ret (some (true, d))
      | some (some d) => .ret (some (true, d))
    else .next st

/-- `delete_dir_entry` at one sector. -/
def deleteSector (d : Disk) (search : List UInt8) (sector : ℕ) (st : DeleteState) :
    Flow (Option (Bool × Disk)) DeleteState :=
  match diskRead d sector with
  | none => .ret none
  | some none => .ret (some (false, d))
  | some (some buf) => Flow.forEach (deleteSlot d search sector buf) (List.range entriesPerSector) st

/-- `delete_dir_entry`: its result, and the disk afterwards. -/
def deleteDirEntry (d : Disk) (dirCluster : ℕ) (name : Str) : Option (Bool × Disk) :=
  (fs.forSectors (deleteSector d name.asBytes) (fun cluster s =>
    match fs.fatNext d cluster with
    | none => .ret none
    | some next =>
      match validLink next with
      | some next => .next (next, s)
      | none => .ret (some (false, d))) dirCluster ⟨Lfn.init, 0, 0⟩).join

/-! ### Directories and files as a whole -/

/-- The first sector of an empty directory. -/
def emptyDirSector (cluster parentCluster : ℕ) : Bytes :=
  let buf := ((Bytes.zero.set 0 0x2E).fill 1 0x20 10).set 11 attrDirectory
  let buf := (buf.store 20 (cluster / 2 ^ 16) 2).store 26 cluster 2
  let buf := (((buf.set 32 0x2E).set 33 0x2E).fill 34 0x20 9).set 43 attrDirectory
  (buf.store 52 (parentCluster / 2 ^ 16) 2).store 58 parentCluster 2

/-- `create_empty_dir`. -/
def createEmptyDir (d : Disk) (parentCluster : ℕ) : Option (Option ℕ × Disk) :=
  match fs.allocCluster d with
  | none => none
  | some (none, d) => some (none, d)
  | some (some cluster, d) =>
    match diskWrite d (fs.clusterToSector cluster) (emptyDirSector cluster parentCluster) with
    | none => none
    | some none => some (none, d)
    | some (some d) => some (some cluster, d)

/-- `truncate_file`. -/
def truncateFile (d : Disk) (cluster dirCluster : ℕ) (name : Str) : Option (Bool × Disk) :=
  if cluster < 2 then some (true, d)
  else
    match fs.fatNext d cluster with
    | none => none
    | some next =>
      let freed :=
        match validLink next with
        | some next => (fs.freeChain d next).map Prod.snd
        | none => some d
      match freed with
      | none => none
      | some d =>
        match fs.fatSet d cluster fat32Eoc with
        | none => none
        | some (_, d) =>
          match fs.clearCluster d cluster with
          | none => none
          | some d => fs.updateDirEntrySize d dirCluster name 0 cluster

end Fat32Fs

end Fs

end NekOS
