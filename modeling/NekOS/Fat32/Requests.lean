import NekOS.Fat32.Serving

/-!
# The requests of the file server

Each request that a file store allows is answered by the server as by the store, and the disk represents the
store afterwards.
-/

namespace NekOS

namespace Fs

namespace Fat32Fs

variable {fs : Fat32Fs} {d d' : Disk} {own : Option ℕ → List ℕ} {s : Store} {a free : ℕ} {l : List ℕ}
  {f : Content} {name path : Str}

namespace Represents

/-! ### Files as a whole -/

/-- **Making a directory without entries.** -/
theorem emptied (h : fs.Represents d own s) {new : ℕ} {rest : List ℕ} (hfree : fs.freeClusters d = new :: rest)
    (parent : ℕ) : ∃ d' own' s', fs.createEmptyDir d parent = some (some new, d') ∧
      s.Made fs new (emptyDirSector new parent) s' ∧ fs.Represents d' own' s' := by
  have hs := h.owned.sound
  obtain ⟨hrep, hmade⟩ := h.made hfree
  have howned := hrep.owned
  obtain ⟨h₁, h₂, -⟩ := mem_freeClusters.mp (hfree ▸ List.mem_cons_self (a := new) (l := rest))
  have hnew : fs.IsCluster new := ⟨h₁, by omega⟩
  have hsector : fs.clusterToSector new = fs.dataStart + (new - 2) * fs.spc := by
    have heq := clusterToSector_eq hs.data hnew hs.spc_pos
    rw [Nat.add_zero, Nat.add_zero] at heq
    rwa [clusterToSector, wrap, wrap, Nat.mod_mod] at heq
  have hon : fs.dataStart + (new - 2) * fs.spc < ramdiskSectors := cluster_sectors hs.data hnew hs.spc_pos
  have hself : Function.update own (some new) [new] (some new) = [new] := Function.update_self ..
  have hchain := howned.chain (some new) (by rw [hself]; exact List.cons_ne_nil _ _)
  have hsplit : Function.update own (some new) [new] (some new) ++ [] = [] ++ new :: [] := by
    rw [hself]
    rfl
  have hw := (Written.refl hchain howned.used).write (b := emptyDirSector new parent) hs howned.clusters hsplit
    hs.spc_pos
  obtain ⟨howned', hkept⟩ := howned.written rfl hw
  have hrep' := hrep.replaced howned' hkept rfl
  have hcontent : fs.content ((fs.allocated d new).blit (fs.clusterAddr new + 0 * blockSize)
      (emptyDirSector new parent) 0 blockSize) (Function.update own (some new) [new] (some new) ++ []) =
      some (Store.newFile fs (emptyDirSector new parent)) := by
    have hzero := content_renewed fs d new
    rw [content, if_neg (List.cons_ne_nil _ _), Option.some.injEq] at hzero
    have hold : ∀ p, fs.fileByte (fs.allocated d new) [new] p = 0 := fun p => by
      have hbyte := congrFun (congrArg Content.byte hzero) p
      dsimp only [Store.newFile] at hbyte
      rw [hbyte]
      split_ifs <;> rfl
    have hbytes := hw.bytes
    simp only [hself, List.append_nil] at hbytes ⊢
    rw [content, if_neg (List.cons_ne_nil _ _), Store.newFile, chainLength_singleton]
    refine congrArg some (congrArg (Content.mk fs.clusterSize) (funext fun p => ?_))
    have hblock : blockSize ≤ fs.clusterSize := by
      rw [hs.size_eq]
      exact Nat.le_mul_of_pos_left _ hs.spc_pos
    rw [fileByte]
    by_cases hp : p < fs.chainLength [new]
    · rw [if_pos hp, hbytes p hp, chainLength_nil, hold]
      simp only [Nat.zero_mul, Nat.zero_add, Nat.zero_le, true_and, Nat.sub_zero]
    · rw [chainLength_singleton] at hp
      rw [if_neg (by rwa [chainLength_singleton]), if_neg (by omega)]
  rw [hcontent] at hrep'
  refine ⟨_, _, _, ?_, ⟨hmade.number, hmade.fresh, ?_, ?_⟩, hrep'⟩
  · rw [createEmptyDir, hs.allocCluster_cons hfree]
    dsimp only
    rw [hsector, diskWrite_of_lt hon, Nat.zero_mul, Nat.add_zero, clusterAddr]
  · have htaken := congrArg List.length hw.taken
    rw [List.nil_append, ← hrep.free] at htaken
    exact htaken ▸ hmade.free
  · rw [Store.put, Store.put, Store.put, Function.update_idem]

/-- **Cutting a file down to one cluster**, which is cleared. -/
theorem cleared (h : fs.Represents d own s) (ha : s.file a = some f) :
    ∃ tail own' free, own (some a) = a :: tail ∧
      fs.Represents (fs.allocated (fs.freed d tail) a) own' (s.put a (some (Store.newFile fs Bytes.zero)) free) ∧
      free * fs.clusterSize + fs.clusterSize = s.free * fs.clusterSize + f.length := by
  have hs := h.owned.sound
  obtain ⟨hne, rfl⟩ := h.chain_of_file ha
  obtain ⟨tail, htail⟩ := h.owned.file_cons hne
  have hmem : a ∈ own (some a) := htail ▸ List.mem_cons_self ..
  have hsub : ∀ c ∈ tail, c ∈ own (some a) := fun c hc => htail ▸ List.mem_cons_of_mem _ hc
  have hnodup := (h.chain hne).nodup
  rw [htail, List.nodup_cons] at hnodup
  obtain ⟨howned, hkept⟩ := h.owned.renewed (Or.inl htail) (h.owned.range _ a hmem)
  have hlen : (fs.freeClusters (fs.allocated (fs.freed d tail) a)).length =
      (fs.freeClusters d).length + tail.length := by
    rw [← freeClusters_freed hnodup.2 fun c hc => ⟨h.owned.range _ c (hsub c hc), h.owned.used c (hsub c hc)⟩,
      freeClusters_taken (d := fs.freed d tail) (p := fun _ => True) fun c hc => ?_, List.filter_eq_self.mpr]
    · exact fun _ _ => decide_eq_true trivial
    · rw [and_true, hs.fatEntry_allocated hc]
      split_ifs with hca
      · rw [hca, freed_entry hnodup.1]
        exact iff_of_false (by decide) (h.owned.used a hmem)
      · exact Iff.rfl
  have hrep := h.replaced howned hkept hlen.symm
  rw [content_renewed] at hrep
  refine ⟨tail, _, _, htail, hrep, ?_⟩
  rw [h.free, htail, chainLength_cons, chainLength, Nat.add_mul]
  dsimp only
  omega

/-- **Truncating a file.** -/
theorem truncated (h : fs.Represents d own s) (hs : s.Valid) (hfound : s.lookup name ≠ none)
    (ha : s.file a = some f) :
    ∃ d' own' s' free, fs.truncateFile d a fs.rootCluster name = some (true, d') ∧
      s' = s.put a (some (Store.newFile fs Bytes.zero)) free ∧
      free * fs.clusterSize + fs.clusterSize = s.free * fs.clusterSize + f.length ∧
      (fs.Represents d' own' s' ∨ fs.Represents d' own' (s'.resize name 0 a)) := by
  have hsound := h.owned.sound
  obtain ⟨tail, own', free, htail, hrep, hfree⟩ := h.cleared ha
  obtain ⟨hne, -⟩ := h.chain_of_file ha
  have hmem : a ∈ own (some a) := htail ▸ List.mem_cons_self ..
  have hcluster := h.owned.clusters a hmem
  have hle := hsound.clusters_le
  have hsmall : ramdiskSectors < 2 ^ 14 := by decide
  have hfound' : (s.put a (some (Store.newFile fs Bytes.zero)) free).lookup name ≠ none := hfound
  have hlt : a < 2 ^ 32 := by
    have := hcluster.2
    omega
  obtain ⟨d', hrun, hcases⟩ := hrep.resized (hs.put_some a _ free) hfound' (show 0 < 2 ^ 32 by decide) hlt
  refine ⟨d', own', _, free, ?_, rfl, hfree, hcases⟩
  have hchain := h.chain hne
  have hclusters := h.owned.clusters (o := some a)
  rw [htail] at hchain hclusters
  rw [truncateFile, if_neg (by have := hcluster.1; omega), hsound.fatNext_eq hcluster]
  dsimp only
  rw [← hsound.link_eq hcluster]
  cases hchain with
  | last hnone =>
    rw [hnone]
    dsimp only
    rw [hsound.fatSet_eq hcluster]
    dsimp only
    rw [hsound.clearCluster_eq hcluster]
    rw [freed_nil] at hrun
    exact hrun
  | link hsome hrest =>
    obtain ⟨count, hcount⟩ := freeChain_chain hsound hrest fun c hc => hclusters c (List.mem_cons_of_mem _ hc)
    rw [hsome]
    dsimp only
    rw [hcount, Option.map_some]
    dsimp only
    rw [hsound.fatSet_eq hcluster]
    dsimp only
    rw [hsound.clearCluster_eq hcluster]
    exact hrun

/-! ### Requests -/

/-- A request is answered as the store may answer it, and the disk represents the store afterwards. -/
def Answers (fs : Fat32Fs) (d : Disk) (s : Store) (request : Request) : Prop :=
  ∃ reply d' s', fs.serve d request = some (reply, d') ∧ Store.Step fs s request reply s' ∧
    ∃ own', fs.Represents d' own' s'

/-- Looking for a name on the disk and in the store. -/
lemma find_or_missing (h : fs.Represents d own s) (name : Str) :
    (s.lookup name = none ∧ fs.findEntry d fs.rootCluster name = some none ∧
      (fs.listing d (own none)).find? (fun q => nameMatches q.2.2 name.asBytes) = none) ∨
    ∃ e text, fs.findEntry d fs.rootCluster name = some (some (e, text)) ∧
      s.lookup name = some ⟨e.firstCluster, e.fileSize, e.attr⟩ := by
  rw [h.owned.directory.findEntry_eq, lookup_listing h.dir]
  cases (fs.listing d (own none)).find? fun q => nameMatches q.2.2 name.asBytes with
  | none => exact Or.inl ⟨rfl, rfl, rfl⟩
  | some r => exact Or.inr ⟨r.2.1, r.2.2, rfl, rfl⟩

/-- `FS_OPEN`. -/
lemma answers_open (h : fs.Represents d own s) (hpath : RootPath path name) :
    Answers fs d s (.openFile path) := by
  have hresolve := resolve_root h.owned.directory hpath
  rcases h.find_or_missing name with ⟨hnone, hfind, -⟩ | ⟨e, text, hfind, hsome⟩
  · refine ⟨_, d, s, ?_, .openMissing hpath hnone, own, h⟩
    rw [serve, hresolve, hfind]
  · refine ⟨_, d, s, ?_, .openFound hpath hsome, own, h⟩
    rw [serve, hresolve, hfind]
    rfl

/-- `FS_CREATE_OPEN`. -/
lemma answers_create (h : fs.Represents d own s) (hpath : RootPath path name)
    (hname : s.lookup name = none → Proper83 name) : Answers fs d s (.createOpen path) := by
  have hresolve := resolve_root h.owned.directory hpath
  rcases h.find_or_missing name with ⟨hnone, hfind, -⟩ | ⟨e, text, hfind, hsome⟩
  · rcases h.added (hname hnone) (show 0 < 2 ^ 32 by decide) (show 0 < 2 ^ 32 by decide)
      (show attrArchive ≠ attrLfn by decide) with ⟨hfull, hrun⟩ | ⟨place, d', own', s', hrun, hadd, hrep⟩
    · refine ⟨_, d, s, ?_, .createFull hpath hnone hfull, own, h⟩
      rw [serve, serveCreateOpen, hresolve, hfind]
      dsimp only
      rw [inParent_root h.root_lt hpath, hrun]
    · refine ⟨_, d', s', ?_, .create hpath hnone hadd, own', hrep⟩
      rw [serve, serveCreateOpen, hresolve, hfind]
      dsimp only
      rw [inParent_root h.root_lt hpath, hrun]
      rfl
  · refine ⟨_, d, s, ?_, .createFound hpath hsome, own, h⟩
    rw [serve, serveCreateOpen, hresolve, hfind]
    rfl

/-- `FS_MKDIR`. -/
lemma answers_mkdir (h : fs.Represents d own s) (hpath : RootPath path name) (hname : Proper83 name) :
    Answers fs d s (.mkdir path) := by
  cases hfree : fs.freeClusters d with
  | nil =>
    refine ⟨_, d, s, ?_, .mkdirFull (by rw [h.free, hfree]; rfl), own, h⟩
    rw [serve, serveMkdir, inParent_root h.root_lt hpath, createEmptyDir,
      h.owned.sound.allocCluster_nil hfree]
  | cons new rest =>
    obtain ⟨d₁, own₁, s₁, hrun₁, hmade, hrep₁⟩ := h.emptied hfree fs.rootCluster
    rcases hrep₁.added hname hmade.number.2 (show 0 < 2 ^ 32 by decide)
      (show attrDirectory ≠ attrLfn by decide) with ⟨hfull, hrun⟩ | ⟨place, d', own', s', hrun, hadd, hrep⟩
    · refine ⟨_, d₁, s₁, ?_, .mkdirLost hpath hmade hfull, own₁, hrep₁⟩
      rw [serve, serveMkdir, inParent_root h.root_lt hpath, hrun₁]
      dsimp only
      rw [hrun, Option.map_some]
    · refine ⟨_, d', s', ?_, .mkdir hpath hmade hadd, own', hrep⟩
      rw [serve, serveMkdir, inParent_root h.root_lt hpath, hrun₁]
      dsimp only
      rw [hrun, Option.map_some]

/-- `FS_UPDATE_SIZE`. -/
lemma answers_update (h : fs.Represents d own s) (hs : s.Valid) (hpath : RootPath path name)
    (size cluster : ℕ) : Answers fs d s (.updateSize path size cluster) := by
  have hserve : fs.serve d (.updateSize path size cluster) =
      (fs.updateDirEntrySize d fs.rootCluster name (wrap32 size) (wrap32 cluster)).map fun r =>
        (.plain (if r.1 then fsOk else fsErr), r.2) := by
    rw [serve, serveUpdateSize, inParent_root h.root_lt hpath]
  have hlt : ∀ n, wrap32 n < 2 ^ 32 := fun n => Nat.mod_lt _ (by decide)
  rcases h.find_or_missing name with ⟨hnone, -, hmiss⟩ | ⟨e, text, -, hsome⟩
  · refine ⟨_, d, s, ?_, .updateMissing hpath hnone, own, h⟩
    rw [hserve, h.owned.directory.update_missing _ _ hmiss]
    rfl
  · have hfound : s.lookup name ≠ none := by rw [hsome]; exact Option.some_ne_none _
    obtain ⟨d', hrun, hlost | hdone⟩ := h.resized hs hfound (hlt size) (hlt cluster)
    · exact ⟨_, d', s, by rw [hserve, hrun]; rfl, .updateLost hpath hfound, own, hlost⟩
    · exact ⟨_, d', _, by rw [hserve, hrun]; rfl, .update hpath hfound, own, hdone⟩

/-- `FS_DELETE`. -/
lemma answers_delete (h : fs.Represents d own s) (hs : s.Valid) (hpath : RootPath path name) :
    Answers fs d s (.delete path) := by
  rcases h.find_or_missing name with ⟨hnone, hfind, -⟩ | ⟨e, text, hfind, hsome⟩
  · refine ⟨_, d, s, ?_, .deleteMissing hpath hnone, own, h⟩
    rw [serve, serveDelete, inParent_root h.root_lt hpath, hfind]
  · have hfound : s.lookup name ≠ none := by
      rw [hsome]
      exact Option.some_ne_none _
    obtain ⟨d₁, hrun, hrep⟩ := h.marked hs hfound
    by_cases hge : 2 ≤ e.firstCluster
    · obtain ⟨f, hf⟩ := Option.ne_none_iff_exists'.mp (hs.files _ (Store.mem_of_lookup hsome) hge)
      obtain ⟨own', free, hrep', hfree⟩ := hrep.freed (a := e.firstCluster) (f := f) hf
      obtain ⟨hne, -⟩ := hrep.chain_of_file (a := e.firstCluster) (f := f) hf
      obtain ⟨count, hchain⟩ := freeChain_chain hrep.owned.sound (hrep.chain hne) hrep.owned.clusters
      refine ⟨_, _, _, ?_, .delete hpath hsome hge hf hfree, own', hrep'⟩
      rw [serve, serveDelete, inParent_root h.root_lt hpath, hfind]
      dsimp only
      rw [hrun]
      dsimp only
      rw [if_pos hge, hchain, Option.map_some]
    · refine ⟨_, d₁, _, ?_, .deleteEmpty hpath hsome (Nat.lt_of_not_le hge), own, hrep⟩
      rw [serve, serveDelete, inParent_root h.root_lt hpath, hfind]
      dsimp only
      rw [hrun]
      dsimp only
      rw [if_neg hge]

/-- `FS_TRUNCATE`. -/
lemma answers_truncate (h : fs.Represents d own s) (hs : s.Valid) (hpath : RootPath path name) :
    Answers fs d s (.truncate path) := by
  rcases h.find_or_missing name with ⟨hnone, hfind, -⟩ | ⟨e, text, hfind, hsome⟩
  · refine ⟨_, d, s, ?_, .truncateMissing hpath hnone, own, h⟩
    rw [serve, serveTruncate, inParent_root h.root_lt hpath, hfind]
  · by_cases hge : 2 ≤ e.firstCluster
    · obtain ⟨f, hf⟩ := Option.ne_none_iff_exists'.mp (hs.files _ (Store.mem_of_lookup hsome) hge)
      have hfound : s.lookup name ≠ none := by
        rw [hsome]
        exact Option.some_ne_none _
      obtain ⟨d', own', s', free, hrun, heq, hfree, hcases⟩ := h.truncated hs hfound hf
      have hserve : fs.serve d (.truncate path) = some (.plain fsOk, d') := by
        rw [serve, serveTruncate, inParent_root h.root_lt hpath, hfind]
        dsimp only
        rw [if_pos hge, hrun]
        rfl
      rcases hcases with hlost | hdone
      · exact ⟨_, d', s', hserve, .truncateLost hpath hsome hge hf hfree heq, own', hlost⟩
      · exact ⟨_, d', _, hserve, .truncate hpath hsome hge hf hfree heq, own', hdone⟩
    · refine ⟨_, d, s, ?_, .truncateEmpty hpath hsome (Nat.lt_of_not_le hge), own, h⟩
      rw [serve, serveTruncate, inParent_root h.root_lt hpath, hfind]
      dsimp only
      rw [if_neg hge]

/-- What `FS_WRITE` does with a file. -/
lemma answers_write (h : fs.Represents d own s) {cluster : ℕ} (ha : s.file (wrap32 cluster) = some f)
    (offset len : ℕ) (buf : Bytes) : Answers fs d s (.write cluster offset len buf) := by
  obtain ⟨hne, -⟩ := h.chain_of_file ha
  obtain ⟨t, ht⟩ := h.owned.file_cons hne
  have hge := (h.owned.range _ (wrap32 cluster) (ht ▸ List.mem_cons_self ..)).1
  obtain ⟨n, last, d', own', f', free, hrun, hwrote, hrep⟩ := h.wrote ha (wrap32 offset) len buf
  refine ⟨_, d', _, ?_, .write ha hwrote, own', hrep⟩
  rw [serve, serveWrite, if_neg (by omega)]
  dsimp only
  rw [hrun, Option.map_some]

/-- What `FS_WRITE` does with a file without a cluster. -/
lemma answers_write_new (h : fs.Represents d own s) {cluster : ℕ} (hlt : wrap32 cluster < 2)
    (offset len : ℕ) (buf : Bytes) : Answers fs d s (.write cluster offset len buf) := by
  cases hfree : fs.freeClusters d with
  | nil =>
    refine ⟨_, d, s, ?_, .writeFull hlt (by rw [h.free, hfree]; rfl), own, h⟩
    rw [serve, serveWrite, if_pos hlt, h.owned.sound.allocCluster_nil hfree]
  | cons new rest =>
    obtain ⟨hrep, hmade⟩ := h.made hfree
    have hfile : (s.put new (some (Store.newFile fs Bytes.zero)) rest.length).file new =
        some (Store.newFile fs Bytes.zero) := Function.update_self ..
    obtain ⟨n, last, d', own', f', free, hrun, hwrote, hrep'⟩ := hrep.wrote hfile (wrap32 offset) len buf
    refine ⟨_, d', _, ?_, .writeNew hlt hmade hwrote, own', hrep'⟩
    rw [serve, serveWrite, if_pos hlt, h.owned.sound.allocCluster_cons hfree]
    dsimp only
    rw [hrun, Option.map_some]

/-- **Reading a file.** -/
theorem reads (h : fs.Represents d own s) (ha : s.file a = some f) (offset size : ℕ) :
    ∃ n buf, fs.readFile d a (wrap32 offset) (2 ^ 32 - 1) (min (wrap32 size) ipcBufferSize) Bytes.zero =
        some (n, buf) ∧
      n = (if wrap32 offset < f.length then
        min (min (wrap32 size) ipcBufferSize) (f.length - fs.transferStart (wrap32 offset)) else 0) ∧
      ∀ i < n, buf i = f.byte (fs.transferStart (wrap32 offset) + i) := by
  obtain ⟨hne, rfl⟩ := h.chain_of_file ha
  have hs := h.owned.sound
  have hr : fs.Readable d a (own (some a)) :=
    ⟨hs.spc_pos, hs.spc_lt, hs.fat_lt, hs.data, h.chain hne, h.owned.clusters⟩
  obtain ⟨n, buf, hrun, hn, hbytes⟩ := hr.readFile_spec (wrap32 offset) (2 ^ 32 - 1)
    (min (wrap32 size) ipcBufferSize) Bytes.zero
  have hlen := hr.length_le
  have hsmall : ramdiskSize < 2 ^ 31 := by decide
  have hbuf : ipcBufferSize = 4096 := rfl
  refine ⟨n, buf, hrun, ?_, fun i hi => ?_⟩
  · rw [hn]
    dsimp only
    by_cases hin : wrap32 offset < fs.chainLength (own (some a))
    · rw [if_pos hin, if_pos hin, Nat.min_eq_left (a := min (wrap32 size) ipcBufferSize) (by omega)]
    · rw [if_neg hin, if_neg hin]
  · rw [hbytes i, if_pos hi]
    dsimp only
    rw [fileByte, if_pos]
    split_ifs at hn <;> omega

/-- `FS_READ`. -/
lemma answers_read (h : fs.Represents d own s) {cluster : ℕ} (ha : s.file (wrap32 cluster) = some f)
    (offset size : ℕ) : Answers fs d s (.read cluster offset size) := by
  obtain ⟨n, buf, hrun, hn, -⟩ := h.reads ha offset size
  refine ⟨_, d, s, ?_, .read ha hn, own, h⟩
  rw [serve, hrun, Option.map_some]

/-- The entries of a directory are not more than its slots. -/
lemma entriesFrom_length (k : ℕ) (lfn : Lfn) (es : List DirEntry) :
    (entriesFrom k lfn es).length ≤ es.length := by
  induction es generalizing k lfn with
  | nil => exact le_rfl
  | cons e es ih =>
    rw [entriesFrom, List.length_cons]
    split_ifs
    · exact Nat.zero_le _
    · exact (ih ..).trans (Nat.le_succ _)
    · exact (ih ..).trans (Nat.le_succ _)
    · exact Nat.succ_le_succ (ih ..)

/-- Counting entries. -/
lemma foldEntries_count (es : List Found) {n : ℕ} (hn : n + es.length < 2 ^ 64) :
    foldEntries (fun _ _ count => wrap (count + 1)) n es = n + es.length := by
  induction es generalizing n with
  | nil => rfl
  | cons e es ih =>
    rw [List.length_cons] at hn ⊢
    rw [foldEntries, List.foldl_cons, wrap_of_lt (by omega)]
    exact (ih (by omega)).trans (by omega)

/-- `FS_READDIR`. -/
lemma answers_readDir (h : fs.Represents d own s) {cluster : ℕ} (hroot : wrap32 cluster = fs.rootCluster) :
    Answers fs d s (.readDir cluster) := by
  have hdir := h.owned.directory
  have hsmall : 2 ^ 32 * entriesPerSector < 2 ^ 64 := by decide
  have hlen : (fs.listing d (own none)).length ≤ 2 ^ 32 * entriesPerSector := by
    have hslots := entriesFrom_length 0 Lfn.init (slotsOf d (fs.dirSectors (own none)))
    have hsectors := length_le_of_lt hdir.sectors_nodup fun x hx =>
      (hdir.sector_lt hx).trans (by decide)
    rw [slotsOf_length] at hslots
    exact hslots.trans (Nat.mul_le_mul_right _ hsectors)
  have hcount : (fs.walkDir d fs.rootCluster (fun _ _ count => wrap (count + 1)) 0).map Prod.snd =
      some s.dir.length := by
    rw [walkDir_eq_visited, hdir.visited_eq, Option.map_some, Option.map_some,
      foldEntries_count _ (by rw [List.length_map]; omega), Nat.zero_add, List.length_map, h.dir,
      List.length_map]
  obtain ⟨r, hrun, hr⟩ := Option.map_eq_some_iff.mp hcount
  refine ⟨_, d, s, ?_, .readDir hroot, own, h⟩
  rw [serve, hroot, hrun, Option.map_some, hr]

end Represents

/-! ### Conversations -/

/-- A disk represents a store in order. -/
def Stores (fs : Fat32Fs) (d : Disk) (s : Store) : Prop := s.Valid ∧ ∃ own, fs.Represents d own s

/-- **The file server is a file store**: it answers all requests that the store allows. -/
theorem serve_implements (fs : Fat32Fs) : (Store.service fs).ImplementedBy fs.serve fs.Stores := by
  rintro d s request ⟨hs, own, h⟩ hallows
  suffices hanswers : Represents.Answers fs d s request by
    obtain ⟨reply, d', s', hserve, hstep, hrep⟩ := hanswers
    exact ⟨reply, d', s', hserve, hstep, hstep.valid hs hallows, hrep⟩
  cases request with
  | openFile path =>
    obtain ⟨name, hpath⟩ := hallows
    exact h.answers_open hpath
  | read cluster offset size =>
    obtain ⟨f, hf⟩ := Option.ne_none_iff_exists'.mp hallows
    exact h.answers_read hf offset size
  | readDir cluster => exact h.answers_readDir hallows
  | close => exact ⟨_, d, s, rfl, .close, own, h⟩
  | mkdir path =>
    obtain ⟨name, hpath, -, hname⟩ := hallows
    exact h.answers_mkdir hpath hname
  | write cluster offset len buf =>
    by_cases hlt : wrap32 cluster < 2
    · exact h.answers_write_new hlt offset len buf
    · obtain ⟨f, hf⟩ := Option.ne_none_iff_exists'.mp (Or.resolve_left hallows hlt)
      exact h.answers_write hf offset len buf
  | createOpen path =>
    obtain ⟨name, hpath, hname⟩ := hallows
    exact h.answers_create hpath hname
  | updateSize path size cluster =>
    obtain ⟨name, hpath, -⟩ := hallows
    exact h.answers_update hs hpath size cluster
  | delete path =>
    obtain ⟨name, hpath⟩ := hallows
    exact h.answers_delete hs hpath
  | truncate path =>
    obtain ⟨name, hpath⟩ := hallows
    exact h.answers_truncate hs hpath
  | other => exact ⟨_, d, s, rfl, .other, own, h⟩

end Fat32Fs

end Fs

end NekOS
