import NekOS.Fat32.Directory

/-!
# The file server

The requests of the main loop of the file server.  A path is what `from_utf8` makes of the buffer of a
request, the empty text if that fails.
-/

namespace NekOS

namespace Fs

/-- `FS_OK`. -/
def fsOk : ℕ := 0

/-- `FS_ERR`. -/
def fsErr : ℕ := 2 ^ 64 - 1

/-- `IPC_BUFFER_SIZE`. -/
def ipcBufferSize : ℕ := 4096

/-- The requests, with what the server reads of their words and of their buffers. -/
inductive Request
  | openFile (path : Str)
  | read (cluster offset size : ℕ)
  | readDir (cluster : ℕ)
  | close
  | mkdir (path : Str)
  | write (cluster offset len : ℕ) (buf : Bytes)
  | createOpen (path : Str)
  | updateSize (path : Str) (size cluster : ℕ)
  | delete (path : Str)
  | truncate (path : Str)
  | other

/-- The words of a reply. -/
structure Reply where
  status : ℕ
  word1 : ℕ
  word2 : ℕ
  word3 : ℕ
  deriving DecidableEq

/-- A reply without further words. -/
def Reply.plain (status : ℕ) : Reply := ⟨status, 0, 0, 0⟩

/-- The reply with an entry. -/
def Reply.entry (e : DirEntry) : Reply := ⟨fsOk, e.firstCluster, e.fileSize, e.attr.toNat⟩

namespace Fat32Fs

variable (fs : Fat32Fs)

/-- The handlers resolve the directory of a path and go on with its cluster and the last name. -/
def inParent (d : Disk) (path : Str) (go : ℕ → Str → Option (Reply × Disk)) : Option (Reply × Disk) :=
  match path.rsplitSlash with
  | none => some (.plain fsErr, d)
  | some (before, name) =>
    match fs.resolvePath d (if before = [] then ['/'] else before) with
    | none => none
    | some none => some (.plain fsErr, d)
    | some (some (parentEntry, _)) => go parentEntry.firstCluster name

/-- `FS_MKDIR`. -/
def serveMkdir (d : Disk) (path : Str) : Option (Reply × Disk) :=
  fs.inParent d path.trimNul fun parentCluster dirName =>
    match fs.createEmptyDir d parentCluster with
    | none => none
    | some (none, d) => some (.plain fsErr, d)
    | some (some newCluster, d) =>
      (fs.createDirEntry d parentCluster dirName attrDirectory newCluster 0).map fun r =>
        (⟨fsOk, newCluster, 0, 0⟩, r.2)

/-- `FS_WRITE`. -/
def serveWrite (d : Disk) (cluster offset len : ℕ) (buf : Bytes) : Option (Reply × Disk) :=
  match if cluster < 2 then fs.allocCluster d else some (some cluster, d) with
  | none => none
  | some (none, d) => some (.plain fsErr, d)
  | some (some cluster, d) =>
    (fs.writeFile d cluster offset len buf).map fun r => (⟨fsOk, r.1.1, r.1.2, 0⟩, r.2)

/-- `FS_CREATE_OPEN`. -/
def serveCreateOpen (d : Disk) (path : Str) : Option (Reply × Disk) :=
  match fs.resolvePath d path.trimNul with
  | none => none
  | some (some (entry, _)) => some (.entry entry, d)
  | some none =>
    fs.inParent d path.trimNul fun parentCluster fileName =>
      match fs.createDirEntry d parentCluster fileName attrArchive 0 0 with
      | none => none
      | some (none, d) => some (.plain fsErr, d)
      | some (some _, d) => some (⟨fsOk, 0, 0, attrArchive.toNat⟩, d)

/-- `FS_UPDATE_SIZE`. -/
def serveUpdateSize (d : Disk) (path : Str) (size cluster : ℕ) : Option (Reply × Disk) :=
  fs.inParent d path.trimNul fun parentCluster fileName =>
    (fs.updateDirEntrySize d parentCluster fileName size cluster).map fun r =>
      (.plain (if r.1 then fsOk else fsErr), r.2)

/-- `FS_DELETE`. -/
def serveDelete (d : Disk) (path : Str) : Option (Reply × Disk) :=
  fs.inParent d path.trimNul fun parentCluster fileName =>
    match fs.findEntry d parentCluster fileName with
    | none => none
    | some none => some (.plain fsErr, d)
    | some (some (entry, _)) =>
      match fs.deleteDirEntry d parentCluster fileName with
      | none => none
      | some (false, d) => some (.plain fsErr, d)
      | some (true, d) =>
        if 2 ≤ entry.firstCluster then
          (fs.freeChain d entry.firstCluster).map fun r => (.plain fsOk, r.2)
        else some (.plain fsOk, d)

/-- `FS_TRUNCATE`. -/
def serveTruncate (d : Disk) (path : Str) : Option (Reply × Disk) :=
  fs.inParent d path.trimNul fun parentCluster fileName =>
    match fs.findEntry d parentCluster fileName with
    | none => none
    | some none => some (.plain fsErr, d)
    | some (some (entry, _)) =>
      if 2 ≤ entry.firstCluster then
        (fs.truncateFile d entry.firstCluster parentCluster fileName).map fun r =>
          (.plain (if r.1 then fsOk else fsErr), r.2)
      else some (.plain fsOk, d)

/-- The reply of the server to a request, and the disk afterwards.  Without a value the server panics or
does not reply. -/
def serve (d : Disk) : Request → Option (Reply × Disk)
  | .openFile path =>
    match fs.resolvePath d path.trimNul with
    | none => none
    | some none => some (.plain fsErr, d)
    | some (some (entry, _)) => some (.entry entry, d)
  | .read cluster offset size =>
    (fs.readFile d (wrap32 cluster) (wrap32 offset) (2 ^ 32 - 1) (min (wrap32 size) ipcBufferSize)
      Bytes.zero).map fun r => (⟨fsOk, r.1, 0, 0⟩, d)
  | .readDir cluster =>
    (fs.walkDir d (wrap32 cluster) (fun _ _ count => wrap (count + 1)) 0).map fun r =>
      (⟨fsOk, r.2, 0, 0⟩, d)
  | .close => some (.plain fsOk, d)
  | .mkdir path => fs.serveMkdir d path
  | .write cluster offset len buf => fs.serveWrite d (wrap32 cluster) (wrap32 offset) len buf
  | .createOpen path => fs.serveCreateOpen d path
  | .updateSize path size cluster => fs.serveUpdateSize d path (wrap32 size) (wrap32 cluster)
  | .delete path => fs.serveDelete d path
  | .truncate path => fs.serveTruncate d path
  | .other => some (.plain fsErr, d)

end Fat32Fs

end Fs

end NekOS
