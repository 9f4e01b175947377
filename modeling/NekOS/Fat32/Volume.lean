import NekOS.Fat32.Disk
import NekOS.Foundation.Loops

/-!
# The volume

`Fat32Fs` and its operations on clusters: mounting, the file allocation table and the allocator.
-/

namespace NekOS

namespace Fs

/-! ### Mounting -/

/-- `FAT32_EOC`. -/
def fat32Eoc : ℕ := 0x0FFFFFF8

/-- `FAT32_FREE`. -/
def fat32Free : ℕ := 0

/-- The fields of `Fat32Bpb` that the server uses. -/
structure Fat32Bpb where
  bytesPerSector : ℕ
  sectorsPerCluster : ℕ
  reservedSectorCount : ℕ
  numFats : ℕ
  rootEntryCount : ℕ
  fatSize16 : ℕ
  totalSectors32 : ℕ
  fatSize32 : ℕ
  rootCluster : ℕ
  deriving DecidableEq

/-- The packed structure at the start of the boot sector. -/
def Fat32Bpb.read (sector : Bytes) : Fat32Bpb where
  bytesPerSector := sector.load 11 2
  sectorsPerCluster := sector.load 13 1
  reservedSectorCount := sector.load 14 2
  numFats := sector.load 16 1
  rootEntryCount := sector.load 17 2
  fatSize16 := sector.load 22 2
  totalSectors32 := sector.load 32 4
  fatSize32 := sector.load 36 4
  rootCluster := sector.load 44 4

/-- `Fat32Fs`. -/
structure Fat32Fs where
  bpb : Fat32Bpb
  fatStart : ℕ
  dataStart : ℕ
  totalClusters : ℕ
  rootCluster : ℕ
  deriving DecidableEq

namespace Fat32Fs

/-- `Fat32Fs::open`.  Without a value the division panics. -/
def openFs (bpbSector : Bytes) : Option (Option Fat32Fs) :=
  let bpb := Fat32Bpb.read bpbSector
  if bpb.bytesPerSector ≠ blockSize then some none
  else if bpb.rootEntryCount ≠ 0 ∨ bpb.fatSize16 ≠ 0 then some none
  else if bpb.numFats = 0 ∨ bpb.fatSize32 = 0 then some none
  else
    let fatStart := bpb.reservedSectorCount
    let dataStart := fatStart + bpb.numFats * bpb.fatSize32
    if bpb.sectorsPerCluster = 0 then none
    else
      let totalClusters := wrapSub bpb.totalSectors32 dataStart / bpb.sectorsPerCluster
      some (some ⟨bpb, fatStart, dataStart, wrap32 totalClusters, bpb.rootCluster⟩)

variable (fs : Fat32Fs)

/-- The number of sectors in a cluster. -/
def spc : ℕ := fs.bpb.sectorsPerCluster

/-- `cluster_to_sector`. -/
def clusterToSector (cluster : ℕ) : ℕ :=
  wrap (fs.dataStart + wrap (wrap (2 ^ 64 + cluster - 2) * fs.spc))

/-! ### The file allocation table -/

/-- `fat_next`. -/
def fatNext (d : Disk) (cluster : ℕ) : Option (Option ℕ) :=
  let fatOffset := cluster * 4
  let sector := fs.fatStart + fatOffset / blockSize
  let offsetInSector := fatOffset % blockSize
  match diskRead d sector with
  | none => none
  | some none => some none
  | some (some buf) => some (some (buf.load offsetInSector 4 % 2 ^ 28))

/-- `fat_set`: the result and the disk afterwards. -/
def fatSet (d : Disk) (cluster value : ℕ) : Option (Bool × Disk) :=
  let fatOffset := cluster * 4
  let sector := fs.fatStart + fatOffset / blockSize
  let offsetInSector := fatOffset % blockSize
  match diskRead d sector with
  | none => none
  | some none => some (false, d)
  | some (some buf) =>
    match diskWrite d sector (buf.store offsetInSector value 4) with
    | none => none
    | some none => some (false, d)
    | some (some d) => some (true, d)

/-- The pattern `Some(next) if next >= 2 && next < FAT32_EOC` on a result of `fat_next`. -/
def validLink : Option ℕ → Option ℕ
  | some next => if 2 ≤ next ∧ next < fat32Eoc then some next else none
  | none => none

/-- `find_free_cluster`. -/
def findFreeCluster (d : Disk) : Option (Option ℕ) :=
  match Flow.forEach (fun c (_ : Unit) =>
      match fs.fatNext d c with
      | none => .ret none
      | some (some val) => if val = fat32Free then .ret (some (some c)) else .next ()
      | some none => .next ()) (List.range' 2 (fs.totalClusters - 2)) () with
  | .ret r => r
  | .next _ => some none

/-- The loop that clears the sectors of a cluster. -/
def clearCluster (d : Disk) (cluster : ℕ) : Option Disk :=
  match Flow.forEach (fun i d =>
      match diskWrite d (wrap (fs.clusterToSector cluster + i)) Bytes.zero with
      | none => (.ret () : Flow Unit Disk)
      | some none => .next d
      | some (some d) => .next d) (List.range fs.spc) d with
  | .ret _ => none
  | .next d => some d

/-- `alloc_cluster`. -/
def allocCluster (d : Disk) : Option (Option ℕ × Disk) :=
  match fs.findFreeCluster d with
  | none => none
  | some none => some (none, d)
  | some (some cluster) =>
    match fs.fatSet d cluster fat32Eoc with
    | none => none
    | some (false, d) => some (none, d)
    | some (true, d) => (fs.clearCluster d cluster).map fun d => (some cluster, d)

/-- The number of rounds after which a loop over clusters and 32-bit offsets repeats a round. -/
def loopRounds : ℕ := 2 ^ 64

/-- `free_chain`: the number of clusters freed and the disk afterwards. -/
def freeChain (d : Disk) (cluster : ℕ) : Option (ℕ × Disk) :=
  if cluster < 2 then some (0, d)
  else
    (Flow.loop (fun (s : ℕ × ℕ × Disk) =>
      let (cur, count, d) := s
      match fs.fatNext d cur with
      | none => .ret none
      | some none => .ret (some (count, d))
      | some (some next) =>
        match fs.fatSet d cur fat32Free with
        | none => .ret none
        | some (_, d) =>
          let count := wrap32 (count + 1)
          match validLink (some next) with
          | some next => .next (next, count, d)
          | none => .ret (some (count, d))) loopRounds (cluster, 0, d)).join

end Fat32Fs

end Fs

end NekOS
