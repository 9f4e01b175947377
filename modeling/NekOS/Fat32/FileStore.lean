import NekOS.Fat32.Server
import NekOS.Fat32.Writing
import NekOS.Fat32.Entries
import NekOS.Foundation.Service

/-!
# File stores

What the file server is for its clients: a directory that maps names to files, and files that map positions to
bytes.  `Store.Step` is what the server may do with a request, and `Store.Allows` is what clients may ask for:
names in the root directory, and numbers of files that they have been given.
-/

namespace NekOS

namespace Fs

/-! ### Files and directories -/

/-- What a directory knows of a file: its number, its size and its attribute. -/
structure Info where
  first : ℕ
  size : ℕ
  attr : UInt8
  deriving DecidableEq

/-- The contents of a file: how many bytes there is room for, and the bytes, which are zero behind them. -/
structure Content where
  length : ℕ
  byte : ℕ → UInt8

/-- The state of a file server. -/
structure Store where
  dir : List (List UInt8 × Info)
  file : ℕ → Option Content
  free : ℕ

/-- Names that differ in their case alone have the same key. -/
def Str.key (name : Str) : List UInt8 := name.asBytes.map toAsciiLowercase

/-- The file of a name. -/
def Store.lookup (s : Store) (name : Str) : Option Info :=
  (s.dir.find? fun e => e.1 = name.key).map Prod.snd

/-- A path of a name in the root directory. -/
structure RootPath (path name : Str) : Prop where
  path_eq : path.trimNul = '/' :: name
  ne_nil : name ≠ []
  noSlash : '/' ∉ name

/-- The reply with what is known of a file. -/
def Reply.info (i : Info) : Reply := ⟨fsOk, i.first, i.size, i.attr.toNat⟩

namespace Store

/-- What is known of a file is changed. -/
def resize (s : Store) (name : Str) (size first : ℕ) : Store :=
  { s with dir := s.dir.map fun e => if e.1 = name.key then (e.1, ⟨first, size, e.2.attr⟩) else e }

/-- A name is removed. -/
def remove (s : Store) (name : Str) : Store := { s with dir := s.dir.filter fun e => e.1 ≠ name.key }

/-- The contents of a file are changed. -/
def put (s : Store) (first : ℕ) (o : Option Content) (free : ℕ) : Store :=
  { s with file := Function.update s.file first o, free := free }

variable (fs : Fat32Fs)

/-- A name is added somewhere to the directory, which may take a cluster. -/
structure Added (s : Store) (name : Str) (i : Info) (s' : Store) : Prop where
  dir : ∃ before behind, s.dir = before ++ behind ∧ s'.dir = before ++ (name.key, i) :: behind
  file : s'.file = s.file
  free : s'.free = s.free ∨ s'.free + 1 = s.free

/-- Bytes are written to a file, which may take clusters.  The last cluster is the number of the file if they fit
in its first cluster. -/
structure Wrote (number : ℕ) (f : Content) (free offset len : ℕ) (buf : Bytes) (n last : ℕ) (f' : Content)
    (free' : ℕ) : Prop where
  count : n = min len (f.length + free * fs.clusterSize - fs.transferStart offset)
  grows : f.length ≤ f'.length
  total : f'.length + free' * fs.clusterSize = f.length + free * fs.clusterSize
  covers : 0 < n → fs.transferStart offset + n ≤ f'.length
  byte : f'.byte = Fat32Fs.landed f.byte (fs.transferStart offset) n buf
  last : offset < fs.clusterSize → fs.transferStart offset + len ≤ fs.clusterSize → last = number

/-- A new file with some first sector. -/
def newFile (buf : Bytes) : Content := ⟨fs.clusterSize, fun p => if p < blockSize then buf p else 0⟩

/-- A new file has been made: it has a number that no file has, and takes a cluster. -/
structure Made (s : Store) (new : ℕ) (buf : Bytes) (s' : Store) : Prop where
  number : 2 ≤ new ∧ new < 2 ^ 32
  fresh : s.file new = none
  free : s'.free + 1 = s.free
  put : s' = s.put new (some (newFile fs buf)) s'.free

/-- What the server may do with a request. -/
inductive Step : Store → Request → Reply → Store → Prop
  | openFound {s : Store} {path name : Str} {i : Info} : RootPath path name → s.lookup name = some i →
      Step s (.openFile path) (.info i) s
  | openMissing {s : Store} {path name : Str} : RootPath path name → s.lookup name = none →
      Step s (.openFile path) (.plain fsErr) s
  | createFound {s : Store} {path name : Str} {i : Info} : RootPath path name → s.lookup name = some i →
      Step s (.createOpen path) (.info i) s
  | create {s s' : Store} {path name : Str} : RootPath path name → s.lookup name = none →
      s.Added name ⟨0, 0, attrArchive⟩ s' → Step s (.createOpen path) (.info ⟨0, 0, attrArchive⟩) s'
  | createFull {s : Store} {path name : Str} : RootPath path name → s.lookup name = none → s.free = 0 →
      Step s (.createOpen path) (.plain fsErr) s
  | mkdir {s s' s'' : Store} {path name : Str} {new : ℕ} : RootPath path name →
      s.Made fs new (Fat32Fs.emptyDirSector new fs.rootCluster) s' → s'.Added name ⟨new, 0, attrDirectory⟩ s'' →
      Step s (.mkdir path) ⟨fsOk, new, 0, 0⟩ s''
  | mkdirLost {s s' : Store} {path name : Str} {new : ℕ} : RootPath path name →
      s.Made fs new (Fat32Fs.emptyDirSector new fs.rootCluster) s' → s'.free = 0 →
      Step s (.mkdir path) ⟨fsOk, new, 0, 0⟩ s'
  | mkdirFull {s : Store} {path : Str} : s.free = 0 → Step s (.mkdir path) (.plain fsErr) s
  | updateMissing {s : Store} {path name : Str} {size cluster : ℕ} : RootPath path name →
      s.lookup name = none → Step s (.updateSize path size cluster) (.plain fsErr) s
  | update {s : Store} {path name : Str} {size cluster : ℕ} : RootPath path name → s.lookup name ≠ none →
      Step s (.updateSize path size cluster) (.plain fsOk) (s.resize name (wrap32 size) (wrap32 cluster))
  | updateLost {s : Store} {path name : Str} {size cluster : ℕ} : RootPath path name →
      s.lookup name ≠ none → Step s (.updateSize path size cluster) (.plain fsOk) s
  | deleteMissing {s : Store} {path name : Str} : RootPath path name → s.lookup name = none →
      Step s (.delete path) (.plain fsErr) s
  | deleteEmpty {s : Store} {path name : Str} {i : Info} : RootPath path name → s.lookup name = some i →
      i.first < 2 → Step s (.delete path) (.plain fsOk) (s.remove name)
  | delete {s : Store} {path name : Str} {i : Info} {f : Content} {free : ℕ} : RootPath path name →
      s.lookup name = some i → 2 ≤ i.first → s.file i.first = some f →
      free * fs.clusterSize = s.free * fs.clusterSize + f.length →
      Step s (.delete path) (.plain fsOk) ((s.remove name).put i.first none free)
  | truncateMissing {s : Store} {path name : Str} : RootPath path name → s.lookup name = none →
      Step s (.truncate path) (.plain fsErr) s
  | truncateEmpty {s : Store} {path name : Str} {i : Info} : RootPath path name → s.lookup name = some i →
      i.first < 2 → Step s (.truncate path) (.plain fsOk) s
  | truncate {s s' : Store} {path name : Str} {i : Info} {f : Content} {free : ℕ} : RootPath path name →
      s.lookup name = some i → 2 ≤ i.first → s.file i.first = some f →
      free * fs.clusterSize + fs.clusterSize = s.free * fs.clusterSize + f.length →
      s' = s.put i.first (some (newFile fs Bytes.zero)) free →
      Step s (.truncate path) (.plain fsOk) (s'.resize name 0 i.first)
  | truncateLost {s s' : Store} {path name : Str} {i : Info} {f : Content} {free : ℕ} : RootPath path name →
      s.lookup name = some i → 2 ≤ i.first → s.file i.first = some f →
      free * fs.clusterSize + fs.clusterSize = s.free * fs.clusterSize + f.length →
      s' = s.put i.first (some (newFile fs Bytes.zero)) free →
      Step s (.truncate path) (.plain fsOk) s'
  | read {s : Store} {cluster offset size n : ℕ} {f : Content} : s.file (wrap32 cluster) = some f →
      n = (if wrap32 offset < f.length then
        min (min (wrap32 size) ipcBufferSize) (f.length - fs.transferStart (wrap32 offset)) else 0) →
      Step s (.read cluster offset size) ⟨fsOk, n, 0, 0⟩ s
  | readDir {s : Store} {cluster : ℕ} : wrap32 cluster = fs.rootCluster →
      Step s (.readDir cluster) ⟨fsOk, s.dir.length, 0, 0⟩ s
  | write {s : Store} {cluster offset len n last free : ℕ} {buf : Bytes} {f f' : Content} :
      s.file (wrap32 cluster) = some f →
      Wrote fs (wrap32 cluster) f s.free (wrap32 offset) len buf n last f' free →
      Step s (.write cluster offset len buf) ⟨fsOk, n, last, 0⟩ (s.put (wrap32 cluster) (some f') free)
  | writeNew {s s' : Store} {cluster offset len n last new free : ℕ} {buf : Bytes} {f' : Content} :
      wrap32 cluster < 2 → s.Made fs new Bytes.zero s' →
      Wrote fs new (newFile fs Bytes.zero) s'.free (wrap32 offset) len buf n last f' free →
      Step s (.write cluster offset len buf) ⟨fsOk, n, last, 0⟩ (s'.put new (some f') free)
  | writeFull {s : Store} {cluster offset len : ℕ} {buf : Bytes} : wrap32 cluster < 2 → s.free = 0 →
      Step s (.write cluster offset len buf) (.plain fsErr) s
  | close {s : Store} : Step s .close (.plain fsOk) s
  | other {s : Store} : Step s .other (.plain fsErr) s

/-- What clients may ask for.  New names are valid short names, a file is read and written by its number, and
the number that is entered for a name is that of a file without another name. -/
def Allows (s : Store) : Request → Prop
  | .openFile path => ∃ name, RootPath path name
  | .read cluster _ _ => s.file (wrap32 cluster) ≠ none
  | .readDir cluster => wrap32 cluster = fs.rootCluster
  | .close => True
  | .mkdir path => ∃ name, RootPath path name ∧ s.lookup name = none ∧ Fat32Fs.Proper83 name
  | .write cluster _ _ _ => wrap32 cluster < 2 ∨ s.file (wrap32 cluster) ≠ none
  | .createOpen path => ∃ name, RootPath path name ∧ (s.lookup name = none → Fat32Fs.Proper83 name)
  | .updateSize path _ cluster => ∃ name, RootPath path name ∧ (s.lookup name ≠ none →
      wrap32 cluster < 2 ∨ s.file (wrap32 cluster) ≠ none ∧
        ∀ e ∈ s.dir, e.1 ≠ name.key → e.2.first ≠ wrap32 cluster)
  | .delete path => ∃ name, RootPath path name
  | .truncate path => ∃ name, RootPath path name
  | .other => True

/-- The service of the file server. -/
def service : Service Store Request Reply := ⟨Step fs, fun s => s.Allows fs⟩

/-! ### Stores in order -/

/-- Two entries are not entries of one file. -/
def Apart (e e' : List UInt8 × Info) : Prop := 2 ≤ e.2.first → e.2.first ≠ e'.2.first

/-- The order of the entries does not matter. -/
lemma Apart.symm {e e' : List UInt8 × Info} (h : Apart e e') : Apart e' e :=
  fun hge heq => h (heq ▸ hge) heq.symm

instance : Std.Symm Apart := ⟨fun _ _ => Apart.symm⟩

instance : Std.Symm fun e e' : List UInt8 × Info => e.1 ≠ e'.1 := ⟨fun _ _ => Ne.symm⟩

/-- The names of a store are different, its entries are entries of files, and no file has two of them. -/
structure Valid (s : Store) : Prop where
  names : s.dir.Pairwise fun e e' => e.1 ≠ e'.1
  files : ∀ e ∈ s.dir, 2 ≤ e.2.first → s.file e.2.first ≠ none
  firsts : s.dir.Pairwise Apart

variable {fs : Fat32Fs} {s s' : Store} {name : Str} {i : Info} {e e' : List UInt8 × Info} {new free : ℕ}
  {buf : Bytes} {request : Request} {reply : Reply}

/-- A name that is looked up is the name of an entry. -/
lemma mem_of_lookup (h : s.lookup name = some i) : (name.key, i) ∈ s.dir := by
  obtain ⟨e, he, rfl⟩ := Option.map_eq_some_iff.mp h
  have hkey := of_decide_eq_true (List.find?_some (p := fun e : List UInt8 × Info => decide (e.1 = name.key)) he)
  rw [← hkey]
  exact List.mem_of_find?_eq_some he

/-- A name that is not found is no name of an entry. -/
lemma lookup_eq_none : s.lookup name = none ↔ ∀ e ∈ s.dir, e.1 ≠ name.key := by
  rw [lookup, Option.map_eq_none_iff, List.find?_eq_none]
  simp only [decide_eq_true_eq, ne_eq]

namespace Valid

variable (h : s.Valid)

include h

/-- An entry is determined by its key. -/
lemma eq_of_key (he : e ∈ s.dir) (he' : e' ∈ s.dir) (hkey : e.1 = e'.1) : e = e' := by
  by_contra hne
  exact h.names.forall he he' hne hkey

/-- A file has one entry. -/
lemma eq_of_first (he : e ∈ s.dir) (he' : e' ∈ s.dir) (hfile : 2 ≤ e.2.first)
    (hfirst : e.2.first = e'.2.first) : e = e' := by
  by_contra hne
  exact h.firsts.forall he he' hne hfile hfirst

/-- A name that is added. -/
lemma added (hadd : s.Added name i s') (hnone : s.lookup name = none)
    (hfile : 2 ≤ i.first → s.file i.first ≠ none ∧ ∀ e ∈ s.dir, e.2.first ≠ i.first) : s'.Valid := by
  obtain ⟨⟨before, behind, hold, hnew⟩, hsame, -⟩ := hadd
  have hmem : ∀ {e}, e ∈ s'.dir ↔ e = (name.key, i) ∨ e ∈ s.dir := by
    intro e
    rw [hnew, hold, List.mem_append, List.mem_cons, List.mem_append]
    tauto
  have hkeys := lookup_eq_none.mp hnone
  refine ⟨?_, fun e he hge => ?_, ?_⟩
  · rw [hnew, List.pairwise_middle (fun hxy => Ne.symm hxy), ← hold]
    exact List.pairwise_cons.mpr ⟨fun e he heq => hkeys e he heq.symm, h.names⟩
  · rw [hsame]
    rcases hmem.mp he with rfl | he
    · exact (hfile hge).1
    · exact h.files e he hge
  · rw [hnew, List.pairwise_middle Apart.symm, ← hold]
    exact List.pairwise_cons.mpr ⟨fun e he hge heq => (hfile hge).2 e he heq.symm, h.firsts⟩

/-- A name that is removed. -/
lemma removed (name : Str) : (s.remove name).Valid :=
  ⟨h.names.filter _, fun e he => h.files e (List.mem_of_mem_filter he), h.firsts.filter _⟩

/-- Contents that change. -/
lemma put_some (a : ℕ) (f : Content) (free : ℕ) : (s.put a (some f) free).Valid := by
  refine ⟨h.names, fun e he hge => ?_, h.firsts⟩
  by_cases heq : e.2.first = a
  · rw [put, heq]
    dsimp only
    rw [Function.update_self]
    exact Option.some_ne_none f
  · rw [put]
    dsimp only
    rw [Function.update_of_ne heq]
    exact h.files e he hge

/-- A file that is freed has no entry any more. -/
lemma put_none {a : ℕ} (hnot : ∀ e ∈ s.dir, 2 ≤ e.2.first → e.2.first ≠ a) (free : ℕ) :
    (s.put a none free).Valid := by
  refine ⟨h.names, fun e he hge => ?_, h.firsts⟩
  rw [put]
  dsimp only
  rw [Function.update_of_ne (hnot e he hge)]
  exact h.files e he hge

/-- An entry that changes. -/
lemma resized {size first : ℕ} (hfile : 2 ≤ first → s.file first ≠ none ∧
    ∀ e ∈ s.dir, e.1 ≠ name.key → e.2.first ≠ first) : (s.resize name size first).Valid := by
  refine ⟨List.pairwise_map.mpr (h.names.imp fun {e e'} hne => ?_), fun e he hge => ?_,
    List.pairwise_map.mpr ((h.names.and h.firsts).imp_of_mem fun {e e'} he he' hboth => ?_)⟩
  · split_ifs <;> exact hne
  · obtain ⟨x, hx, rfl⟩ := List.mem_map.mp he
    dsimp only [resize] at hge ⊢
    split_ifs at hge ⊢ with hkey
    · exact (hfile hge).1
    · exact h.files x hx hge
  · obtain ⟨hne, hfirst⟩ := hboth
    split_ifs with hkey hkey' hkey'
    · exact absurd (hkey.trans hkey'.symm) hne
    · exact fun hge heq => (hfile hge).2 e' he' hkey' heq.symm
    · exact fun hge heq => (hfile (heq.symm.trans_ge hge)).2 e he hkey heq
    · exact hfirst

end Valid

/-- A new file has no entry. -/
lemma Made.fresh_entry (h : s.Made fs new buf s') (hs : s.Valid) : ∀ e ∈ s.dir, e.2.first ≠ new :=
  fun e he heq => hs.files e he (heq ▸ h.number.1) (heq ▸ h.fresh)

/-- **Every step keeps a store in order**, if clients ask for what is allowed. -/
theorem Step.valid (h : Step fs s request reply s') (hs : s.Valid) (hallows : s.Allows fs request) :
    s'.Valid := by
  cases h with
  | openFound => exact hs
  | openMissing => exact hs
  | createFound => exact hs
  | create _ hnone hadd => exact hs.added hadd hnone fun hge => absurd hge (by decide)
  | createFull => exact hs
  | @mkdir s₁ _ path name new hpath hmade hadd =>
    obtain ⟨name', hpath', hnone, -⟩ := hallows
    obtain rfl : name = name' := (List.cons.inj (hpath.path_eq.symm.trans hpath'.path_eq)).2
    have hs₁ : s₁.Valid := by
      rw [hmade.put]
      exact hs.put_some ..
    have hdir : s₁.dir = s.dir := by rw [hmade.put]; rfl
    refine hs₁.added hadd ?_ fun _ => ⟨?_, ?_⟩
    · rw [lookup, hdir]
      exact hnone
    · rw [hmade.put, put]
      dsimp only
      rw [Function.update_self]
      exact Option.some_ne_none _
    · rw [hdir]
      exact hmade.fresh_entry hs
  | mkdirLost _ hmade =>
    rw [hmade.put]
    exact hs.put_some ..
  | mkdirFull => exact hs
  | updateMissing => exact hs
  | @update path name size cluster hpath hfound =>
    obtain ⟨name', hpath', hfile⟩ := hallows
    obtain rfl : name = name' := (List.cons.inj (hpath.path_eq.symm.trans hpath'.path_eq)).2
    exact hs.resized fun hge => (hfile hfound).resolve_left (Nat.not_lt_of_le hge)
  | updateLost => exact hs
  | deleteMissing => exact hs
  | deleteEmpty => exact hs.removed _
  | @delete path name i f free hpath hfound hge hfile _ =>
    refine (hs.removed name).put_none (fun e he _ heq => ?_) free
    obtain ⟨he, hkey⟩ := List.mem_filter.mp he
    have hsame := hs.eq_of_first (mem_of_lookup hfound) he hge heq.symm
    exact of_decide_eq_true hkey (congrArg Prod.fst hsame).symm
  | truncateMissing => exact hs
  | truncateEmpty => exact hs
  | @truncate s₁ path name i f free hpath hfound hge hfile _ heq =>
    subst heq
    refine (hs.put_some ..).resized fun _ => ⟨?_, fun e he hkey heq => ?_⟩
    · rw [put]
      dsimp only
      rw [Function.update_self]
      exact Option.some_ne_none _
    · exact hkey (congrArg Prod.fst (hs.eq_of_first (mem_of_lookup hfound) he hge heq.symm)).symm
  | truncateLost _ _ _ _ _ heq =>
    subst heq
    exact hs.put_some ..
  | read => exact hs
  | readDir => exact hs
  | write => exact hs.put_some ..
  | writeNew _ hmade =>
    refine Valid.put_some ?_ ..
    rw [hmade.put]
    exact hs.put_some ..
  | writeFull => exact hs
  | close => exact hs
  | other => exact hs

/-! ### Files that are left alone -/

/-- Requests that name a file: by its number, or by the name of its entry. -/
def Names (s : Store) (a : ℕ) : Request → Prop
  | .write cluster _ _ _ => wrap32 cluster = a
  | .delete path => ∃ name i, RootPath path name ∧ s.lookup name = some i ∧ i.first = a
  | .truncate path => ∃ name i, RootPath path name ∧ s.lookup name = some i ∧ i.first = a
  | _ => False

/-- A new file is none of the old ones. -/
lemma Made.file_kept (h : s.Made fs new buf s') {a : ℕ} {f : Content} (ha : s.file a = some f) :
    s'.file a = some f := by
  have hne : a ≠ new := fun heq => by
    rw [heq, h.fresh] at ha
    cases ha
  have hput : s'.file = Function.update s.file new (some (newFile fs buf)) := by
    rw [h.put]
    rfl
  rw [hput, Function.update_of_ne hne, ha]

/-- **A step changes the files that its request names, alone.** -/
theorem Step.file_kept (h : Step fs s request reply s') {a : ℕ} {f : Content} (ha : s.file a = some f)
    (hnot : ¬ s.Names a request) : s'.file a = some f := by
  have hput : ∀ {b : ℕ} (o : Option Content) (free : ℕ), b ≠ a → (s.put b o free).file a = some f :=
    fun o free hne => (Function.update_of_ne hne.symm ..).trans ha
  cases h with
  | openFound => exact ha
  | openMissing => exact ha
  | createFound => exact ha
  | create _ _ hadd => rw [hadd.file, ha]
  | createFull => exact ha
  | mkdir _ hmade hadd => rw [hadd.file, hmade.file_kept ha]
  | mkdirLost _ hmade => exact hmade.file_kept ha
  | mkdirFull => exact ha
  | updateMissing => exact ha
  | update => exact ha
  | updateLost => exact ha
  | deleteMissing => exact ha
  | deleteEmpty => exact ha
  | @delete path name i f free hpath hfound =>
    exact hput none free fun heq => hnot ⟨name, i, hpath, hfound, heq⟩
  | truncateMissing => exact ha
  | truncateEmpty => exact ha
  | @truncate s₁ path name i f free hpath hfound _ _ _ heq =>
    subst heq
    exact hput _ free fun heq => hnot ⟨name, i, hpath, hfound, heq⟩
  | @truncateLost s₁ path name i f free hpath hfound _ _ _ heq =>
    subst heq
    exact hput _ free fun heq => hnot ⟨name, i, hpath, hfound, heq⟩
  | read => exact ha
  | readDir => exact ha
  | @write cluster offset len n last free => exact hput _ free hnot
  | @writeNew s₁ cluster offset len n last new free buf f' _ hmade =>
    have hne : a ≠ new := fun heq => by
      rw [heq, hmade.fresh] at ha
      cases ha
    exact (Function.update_of_ne hne ..).trans (hmade.file_kept ha)
  | writeFull => exact ha
  | close => exact ha
  | other => exact ha

end Store

end Fs

end NekOS
