import NekOS.Fat32.FileStore
import NekOS.Fat32.Listing
import NekOS.Fat32.Deleting

/-!
# Names in the root directory

What the server makes of a path that is a name in the root directory, and the entries of the directory as the
names of a file store.
-/

namespace NekOS

namespace Fs

/-! ### Paths -/

/-- A text without slashes is one part. -/
lemma splitOn_root {name : Str} (h : '/' ∉ name) : name.splitOn '/' = [name] := by
  induction name with
  | nil => exact List.splitOn_nil ..
  | cons c name ih =>
    obtain ⟨hc, hname⟩ := not_or.mp (fun hor => h (List.mem_cons.mpr hor))
    rw [List.splitOn_cons_eq_if_modifyHead, if_neg (by simpa using fun heq => hc heq.symm), ih hname]
    rfl

/-- A name in the root directory is what stands behind the only slash of its path. -/
lemma rsplitSlash_root {name : Str} (h : '/' ∉ name) : Str.rsplitSlash ('/' :: name) = some ([], name) := by
  have hne : ∀ c ∈ name.reverse, decide (c ≠ '/') = true := fun c hc =>
    decide_eq_true fun heq => h (heq ▸ List.mem_reverse.mp hc)
  rw [Str.rsplitSlash, if_pos (List.mem_cons_self ..), List.reverse_cons,
    List.dropWhile_append_of_pos hne, List.takeWhile_append_of_pos hne]
  simp

/-- A text occurs in itself from the start on. -/
lemma find_self (name : Str) : Str.find name name = some 0 := by
  rw [Str.find, List.range_succ_eq_map, List.find?_cons_of_pos]
  rw [List.drop_zero]
  exact List.isPrefixOf_iff_prefix.mpr (List.prefix_refl _)

namespace Fat32Fs

variable {fs : Fat32Fs} {d : Disk} {path name : Str} {cs : List ℕ}

/-- The entry of the root directory has its cluster. -/
lemma rootEntry_first (h : fs.rootCluster < 2 ^ 32) : fs.rootEntry.firstCluster = fs.rootCluster := by
  rw [rootEntry, DirEntry.firstCluster, DirEntry.half_read (by omega), DirEntry.half_read (by omega),
    Nat.zero_add, Nat.zero_add, Bytes.load_store, (Bytes.agree_store (by omega)).load_eq, Bytes.load_store]
  omega

/-- `resolve_path` finds a name in the root directory. -/
lemma resolve_root (h : fs.Directory d fs.rootCluster cs) (hpath : RootPath path name) :
    fs.resolvePath d path.trimNul = fs.findEntry d fs.rootCluster name := by
  obtain ⟨heq, hne, hslash⟩ := hpath
  have hdrop : ('/' :: name).dropWhile (· = '/') = name := by
    cases name with
    | nil => exact absurd rfl hne
    | cons c name =>
      have hc : c ≠ '/' := fun heq => hslash (heq ▸ List.mem_cons_self ..)
      rw [List.dropWhile_cons_of_pos (by decide), List.dropWhile_cons_of_neg (by simpa using hc)]
  have hfind := h.findEntry_eq name
  rw [heq, resolvePath, hdrop, splitOn_root hslash, if_neg hne, Flow.forEach, resolveComponent, if_neg hne]
  dsimp only
  rw [hfind]
  cases ((fs.listing d cs).find? fun p => nameMatches p.2.2 name.asBytes).map Prod.snd with
  | none => rfl
  | some found =>
    obtain ⟨entry, text⟩ := found
    dsimp only
    by_cases hdir : entry.isDirectory = true
    · rw [if_pos hdir]
      rfl
    · rw [if_neg hdir, find_self]
      dsimp only
      rw [Nat.zero_add, List.drop_length, if_neg List.not_mem_nil]
      rfl

/-- The directory of a name in the root directory is the root directory. -/
lemma inParent_root (hroot : fs.rootCluster < 2 ^ 32) (hpath : RootPath path name)
    (go : ℕ → Str → Option (Reply × Disk)) :
    fs.inParent d path.trimNul go = go fs.rootCluster name := by
  have hparent : fs.resolvePath d (if ([] : Str) = [] then ['/'] else []) =
      some (some (fs.rootEntry, [0x2F])) := rfl
  rw [inParent_eq (by rw [hpath.path_eq]; exact rsplitSlash_root hpath.noSlash) hparent,
    rootEntry_first hroot]

/-! ### Entries as names -/

/-- What a file store knows of an entry. -/
def view (q : ℕ × Found) : List UInt8 × Info :=
  (q.2.2.map toAsciiLowercase, ⟨q.2.1.firstCluster, q.2.1.fileSize, q.2.1.attr⟩)

/-- Names match if they have the same key. -/
lemma nameMatches_key {found : List UInt8} :
    nameMatches found name.asBytes = true ↔ found.map toAsciiLowercase = name.key := nameMatches_iff

/-- Looking for a name in the entries. -/
lemma lookup_listing {s : Store} (hs : s.dir = (fs.listing d cs).map view) (name : Str) :
    s.lookup name =
      ((fs.listing d cs).find? fun q => nameMatches q.2.2 name.asBytes).map fun q => (view q).2 := by
  have hsame : ((fun e : List UInt8 × Info => decide (e.1 = name.key)) ∘ view) =
      fun q => nameMatches q.2.2 name.asBytes := funext fun q => by
    rw [Bool.eq_iff_iff, Function.comp_apply, decide_eq_true_iff, nameMatches_key]
    exact Iff.rfl
  rw [Store.lookup, hs, List.find?_map, hsame, Option.map_map]
  rfl

end Fat32Fs

end Fs

end NekOS
