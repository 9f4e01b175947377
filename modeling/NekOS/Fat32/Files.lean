import NekOS.Fat32.Volume

/-!
# Reading and writing files

`read_file` and `write_file`.  A buffer is a memory of bytes with a length.
-/

namespace NekOS

namespace Fs

namespace Fat32Fs

variable (fs : Fat32Fs)

/-- `cluster_size`. -/
def clusterSize : ℕ := wrap32 (fs.spc * blockSize)

/-- The state of `read_file` in its loops. -/
structure ReadState where
  curCluster : ℕ
  curOffset : ℕ
  bytesRead : ℕ
  buf : Bytes

/-- A round of the loop of `read_file` that looks for the cluster of an offset. -/
def seekRound (d : Disk) (offset : ℕ) (s : ℕ × ℕ) : Flow (Option (Option (ℕ × ℕ))) (ℕ × ℕ) :=
  let (curCluster, curOffset) := s
  if wrap32 (curOffset + fs.clusterSize) ≤ offset then
    match fs.fatNext d curCluster with
    | none => .ret none
    | some next =>
      match validLink next with
      | some next => .next (next, wrap32 (curOffset + fs.clusterSize))
      | none => .ret (some none)
  else .ret (some (some (curCluster, curOffset)))

/-- Where in a sector `read_file` and `write_file` start. -/
def sectorSkip (offset skipInCluster curOffset s moved : ℕ) : ℕ :=
  if wrap32 (curOffset + wrap32 (s * blockSize)) ≤ offset ∧ moved = 0 then
    min skipInCluster blockSize
  else 0

/-- `read_file` at one sector of a cluster. -/
def readSector (d : Disk) (offset skipInCluster toRead : ℕ) (s : ℕ) (st : ReadState) :
    Flow (Option (ℕ × Bytes)) ReadState :=
  match diskRead d (wrap (fs.clusterToSector st.curCluster + s)) with
  | none => .ret none
  | some none => .ret (some (st.bytesRead, st.buf))
  | some (some secBuf) =>
    let start := sectorSkip offset skipInCluster st.curOffset s st.bytesRead
    let n := min (blockSize - start) (toRead - st.bytesRead)
    if n = 0 then .next st
    else
      let buf := st.buf.blit st.bytesRead secBuf start n
      let bytesRead := st.bytesRead + n
      if toRead ≤ bytesRead then .ret (some (bytesRead, buf))
      else .next { st with bytesRead := bytesRead, buf := buf }

/-- `read_file` at one cluster. -/
def readCluster (d : Disk) (offset skipInCluster toRead : ℕ) (st : ReadState) :
    Flow (Option (ℕ × Bytes)) ReadState :=
  if st.bytesRead < toRead then
    (Flow.forEach (fs.readSector d offset skipInCluster toRead) (List.range fs.spc) st).andThen
      fun st =>
        match fs.fatNext d st.curCluster with
        | none => .ret none
        | some next =>
          match validLink next with
          | some next =>
            .next { st with curCluster := next, curOffset := wrap32 (st.curOffset + fs.clusterSize) }
          | none => .ret (some (st.bytesRead, st.buf))
  else .ret (some (st.bytesRead, st.buf))

/-- `read_file` into a buffer of `len` bytes: the number of bytes and the buffer afterwards. -/
def readFile (d : Disk) (cluster offset fileSize len : ℕ) (buf : Bytes) : Option (ℕ × Bytes) :=
  if fileSize ≤ offset ∨ cluster < 2 then some (0, buf)
  else
    let toRead := min len (fileSize - offset)
    match (Flow.loop (fs.seekRound d offset) loopRounds (cluster, 0)).join with
    | none => none
    | some none => some (0, buf)
    | some (some (curCluster, curOffset)) =>
      (Flow.loop (fs.readCluster d offset (offset - curOffset) toRead) loopRounds
        ⟨curCluster, curOffset, 0, buf⟩).join

/-- The state of `write_file` in its loops. -/
structure WriteState where
  curCluster : ℕ
  curOffset : ℕ
  bytesWritten : ℕ
  disk : Disk

/-- What `write_file` returns, and the disk afterwards: the number of bytes and the last cluster. -/
abbrev WriteResult := Option ((ℕ × ℕ) × Disk)

/-- The cluster after one: the next one of its chain, or a new one that is linked to it. -/
def nextOrNew (d : Disk) (cluster : ℕ) : Option (Option ℕ × Disk) :=
  match fs.fatNext d cluster with
  | none => none
  | some next =>
    match validLink next with
    | some next => some (some next, d)
    | none =>
      match fs.allocCluster d with
      | none => none
      | some (none, d) => some (none, d)
      | some (some new, d) => (fs.fatSet d cluster new).map fun r => (some new, r.2)

/-- A round of the loop of `write_file` that looks for the cluster of an offset. -/
def writeSeekRound (cluster offset : ℕ) (st : WriteState) :
    Flow (Flow WriteResult WriteState) WriteState :=
  if wrap32 (st.curOffset + fs.clusterSize) ≤ offset then
    match fs.nextOrNew st.disk st.curCluster with
    | none => .ret (.ret none)
    | some (none, d) => .ret (.ret (some ((st.bytesWritten, cluster), d)))
    | some (some next, d) =>
      .next { st with
        curCluster := next, curOffset := wrap32 (st.curOffset + fs.clusterSize), disk := d }
  else .ret (.next st)

/-- `write_file` at one sector of a cluster. -/
def writeSector (offset skipInCluster len : ℕ) (buf : Bytes) (s : ℕ) (st : WriteState) :
    Flow WriteResult WriteState :=
  let sector := wrap (fs.clusterToSector st.curCluster + s)
  let start := sectorSkip offset skipInCluster st.curOffset s st.bytesWritten
  let old := if 0 < start then diskRead st.disk sector else some none
  match old with
  | none => .ret none
  | some old =>
    let n := min (blockSize - start) (len - st.bytesWritten)
    if n = 0 then .next st
    else
      match diskWrite st.disk sector ((old.getD Bytes.zero).blit start buf st.bytesWritten n) with
      | none => .ret none
      | some none => .ret (some ((st.bytesWritten, st.curCluster), st.disk))
      | some (some d) =>
        let bytesWritten := st.bytesWritten + n
        if len ≤ bytesWritten then .ret (some ((bytesWritten, st.curCluster), d))
        else .next { st with bytesWritten := bytesWritten, disk := d }

/-- `write_file` at one cluster. -/
def writeCluster (offset skipInCluster len : ℕ) (buf : Bytes) (st : WriteState) :
    Flow WriteResult WriteState :=
  if st.bytesWritten < len then
    (Flow.forEach (fs.writeSector offset skipInCluster len buf) (List.range fs.spc) st).andThen
      fun st =>
        match fs.nextOrNew st.disk st.curCluster with
        | none => .ret none
        | some (none, d) => .ret (some ((st.bytesWritten, st.curCluster), d))
        | some (some next, d) =>
          .next { st with
            curCluster := next, curOffset := wrap32 (st.curOffset + fs.clusterSize), disk := d }
  else .ret (some ((st.bytesWritten, st.curCluster), st.disk))

/-- `write_file` of a buffer of `len` bytes. -/
def writeFile (d : Disk) (cluster offset len : ℕ) (buf : Bytes) : WriteResult :=
  if cluster < 2 then some ((0, cluster), d)
  else
    match Flow.loop (fs.writeSeekRound cluster offset) loopRounds ⟨cluster, 0, 0, d⟩ with
    | none => none
    | some (.ret r) => r
    | some (.next st) =>
      (Flow.loop (fs.writeCluster offset (offset - st.curOffset) len buf) loopRounds st).join

end Fat32Fs

end Fs

end NekOS
