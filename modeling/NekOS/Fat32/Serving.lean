import NekOS.Fat32.FirstWrites
import NekOS.Fat32.Ownership
import NekOS.Fat32.Plain
import NekOS.Fat32.RootPaths

/-!
# The server as a file store

What it means that a disk represents a file store, and what the operations on the disk are for the store.
-/

namespace NekOS

namespace Fs

namespace Fat32Fs

/-- A disk represents a file store: the entries of the root directory are its names, and the chains are its
files. -/
structure Represents (fs : Fat32Fs) (d : Disk) (own : Option ℕ → List ℕ) (s : Store) : Prop where
  owned : fs.Owned d own
  plain : Plain (slotsOf d (fs.dirSectors (own none)))
  dir : s.dir = (fs.listing d (own none)).map view
  file : ∀ a, s.file a = fs.content d (own (some a))
  free : s.free = (fs.freeClusters d).length

variable {fs : Fat32Fs} {d d' : Disk} {own : Option ℕ → List ℕ} {s : Store} {a free : ℕ} {l : List ℕ}
  {f : Content} {name : Str}

namespace Represents

variable (h : fs.Represents d own s)

include h

/-- The cluster of the root directory is a small number. -/
lemma root_lt : fs.rootCluster < 2 ^ 32 := by
  obtain ⟨t, ht⟩ := h.owned.directory.chain.eq_cons
  exact (h.owned.directory.lt (ht ▸ List.mem_cons_self ..)).2

/-- A file of the store has a chain. -/
lemma chain_of_file (ha : s.file a = some f) : own (some a) ≠ [] ∧
    f = ⟨fs.chainLength (own (some a)), fs.fileByte d (own (some a))⟩ := by
  rw [h.file, content] at ha
  split_ifs at ha with hnil
  exact ⟨hnil, (Option.some.inj ha).symm⟩

/-- A number without a file. -/
lemma file_eq_none : s.file a = none ↔ own (some a) = [] := by
  rw [h.file, content, ite_eq_left_iff]
  exact ⟨fun himp => not_not.mp fun hne => Option.some_ne_none _ (himp hne), fun hnil hne => absurd hnil hne⟩

/-- The chain of a file. -/
lemma chain (ha : own (some a) ≠ []) : Chain (fs.link d) a (own (some a)) := h.owned.chain (some a) ha

/-- **A change of one file.** -/
lemma replaced (howned : fs.Owned d' (Function.update own (some a) l))
    (hkept : ∀ o, o ≠ some a → fs.Kept d d' (own o)) (hfree : free = (fs.freeClusters d').length) :
    fs.Represents d' (Function.update own (some a) l) (s.put a (fs.content d' l) free) := by
  have hroot : Function.update own (some a) l none = own none := Function.update_of_ne (by simp) ..
  have hslots := h.owned.directory.slots_kept (hkept none (by simp))
  refine ⟨howned, ?_, ?_, fun b => ?_, hfree⟩
  · rw [hroot, hslots]
    exact h.plain
  · rw [hroot, listing, hslots, ← listing]
    exact h.dir
  · rw [Store.put]
    dsimp only
    by_cases hb : b = a
    · subst hb
      rw [Function.update_self, Function.update_self]
    · have hne : some b ≠ some a := fun heq => hb (Option.some.inj heq)
      rw [Function.update_of_ne hb, Function.update_of_ne hne, h.file,
        (hkept (some b) hne).content_eq h.owned.sound]

/-- **A change of the directory.** -/
lemma redirected {cs : List ℕ} {s' : Store} (howned : fs.Owned d' (Function.update own none cs))
    (hkept : ∀ o, o ≠ none → fs.Kept d d' (own o)) (hplain : Plain (slotsOf d' (fs.dirSectors cs)))
    (hdir : s'.dir = (fs.listing d' cs).map view) (hfile : s'.file = s.file)
    (hfree : s'.free = (fs.freeClusters d').length) :
    fs.Represents d' (Function.update own none cs) s' := by
  refine ⟨howned, by rwa [Function.update_self], by rwa [Function.update_self], fun a => ?_, hfree⟩
  rw [hfile, h.file, Function.update_of_ne (by simp), (hkept (some a) (by simp)).content_eq h.owned.sound]

/-- A change of the directory that leaves the table alone. -/
lemma rearranged {s' : Store} (hentries : ∀ c, fs.IsCluster c → fs.fatEntry d' c = fs.fatEntry d c)
    (hkept : ∀ o, o ≠ none → fs.Kept d d' (own o)) (hplain : Plain (slotsOf d' (fs.dirSectors (own none))))
    (hdir : s'.dir = (fs.listing d' (own none)).map view) (hfile : s'.file = s.file)
    (hfree : s'.free = s.free) : fs.Represents d' own s' := by
  refine ⟨h.owned.congr hentries, hplain, hdir, fun a => ?_, ?_⟩
  · rw [hfile, h.file, (hkept (some a) (by simp)).content_eq h.owned.sound]
  · rw [hfree, h.free, freeClusters_congr hentries]

/-! ### Files -/

/-- **Writing a file.** -/
theorem wrote (ha : s.file a = some f) (offset len : ℕ) (buf : Bytes) :
    ∃ n last d' own' f' free, fs.writeFile d a offset len buf = some ((n, last), d') ∧
      Store.Wrote fs a f s.free offset len buf n last f' free ∧
      fs.Represents d' own' (s.put a (some f') free) := by
  obtain ⟨hne, rfl⟩ := h.chain_of_file ha
  have hs := h.owned.sound
  have hchain := h.chain hne
  obtain ⟨n, last, d', news, hrun, hn, hroom, hw⟩ := writeFile_spec hs h.owned.clusters hchain h.owned.used
    offset len buf
  obtain ⟨howned, hkept⟩ := h.owned.written (o := some a) rfl hw
  have hne' : own (some a) ++ news ≠ [] := fun hnil => hne (List.append_eq_nil_iff.mp hnil).1
  have hrep := h.replaced howned hkept rfl
  rw [content, if_neg hne'] at hrep
  have htotal := hw.length_eq
  refine ⟨n, last, d', _, _, _, hrun, ⟨?_, ?_, ?_, hroom, funext fun p => ?_, fun hoffset hfits => ?_⟩, hrep⟩
  · rw [hn, writable, h.free, chainLength, Nat.add_mul]
  · rw [chainLength_append]
    exact Nat.le_add_right ..
  · rw [h.free, chainLength, chainLength, ← Nat.add_mul, ← Nat.add_mul, htotal]
  · dsimp only
    by_cases hp : p < fs.chainLength (own (some a) ++ news)
    · rw [fileByte, if_pos hp, hw.bytes p hp]
    · have hold : fs.fileByte d (own (some a)) p = 0 := by
        rw [chainLength_append] at hp
        exact if_neg (by omega)
      rw [fileByte, if_neg hp, landed, if_neg, hold]
      · split_ifs <;> rfl
      · rintro ⟨hle, hlt⟩
        have := hroom (by omega)
        omega
  · obtain ⟨n', d'', hrun'⟩ := writeFile_first hs h.owned.clusters hchain h.owned.used hoffset hfits buf
    rw [hrun] at hrun'
    cases hrun'
    rfl

/-- **Making a file.** -/
theorem made {new : ℕ} {rest : List ℕ} (hfree : fs.freeClusters d = new :: rest) :
    fs.Represents (fs.allocated d new) (Function.update own (some new) [new])
        (s.put new (some (Store.newFile fs Bytes.zero)) rest.length) ∧
      s.Made fs new Bytes.zero (s.put new (some (Store.newFile fs Bytes.zero)) rest.length) := by
  obtain ⟨hnil, hge, hlt, howned, hkept, hrest⟩ := h.owned.made hfree
  have hrep := h.replaced howned hkept (congrArg List.length hrest).symm
  rw [content_renewed] at hrep
  refine ⟨hrep, ⟨hge, hlt⟩, h.file_eq_none.mpr hnil, ?_, rfl⟩
  rw [h.free, hfree]
  rfl

/-- **Freeing a file.** -/
theorem freed (ha : s.file a = some f) :
    ∃ own' free, fs.Represents (fs.freed d (own (some a))) own' (s.put a none free) ∧
      free * fs.clusterSize = s.free * fs.clusterSize + f.length := by
  obtain ⟨hne, rfl⟩ := h.chain_of_file ha
  obtain ⟨howned, hkept, hlen⟩ := h.owned.freed (a := a) rfl
  have hrep := h.replaced howned hkept hlen.symm
  rw [content, if_pos rfl] at hrep
  exact ⟨_, _, hrep, by rw [h.free, Nat.add_mul]; rfl⟩

/-! ### Names -/

/-- **Adding a name.** -/
theorem added {attr : UInt8} {first size : ℕ} (hname : Proper83 name) (hfirst : first < 2 ^ 32)
    (hsize : size < 2 ^ 32) (hattr : attr ≠ attrLfn) :
    (s.free = 0 ∧ fs.createDirEntry d fs.rootCluster name attr first size = some (none, d)) ∨
    ∃ place d' own' s', fs.createDirEntry d fs.rootCluster name attr first size = some (some place, d') ∧
      s.Added name ⟨first, size, attr⟩ s' ∧ fs.Represents d' own' s' := by
  have hdir := h.owned.directory
  have hcount := lfnCount_valid hname.1
  obtain ⟨shortName, hshort, hlen, hbyte, hvalid⟩ := hdir.shortName_usable name
  rcases create_spec hdir h.owned.used h.plain.tidy hshort hlen hbyte (by rw [hcount]; decide) hfirst hsize
    hattr with ⟨-, hfree, hrun⟩ | ⟨place, d', news, hrun, ⟨⟨f, hw⟩, hgrows, -, hshown⟩⟩
  · exact Or.inl ⟨by rw [h.free, hfree]; rfl, hrun⟩
  rw [hcount] at hshown
  obtain ⟨e, text, es, hput, ends, rfl, hends⟩ := hshown not_pastEnd
  have hplain := h.plain.append_end hends
  obtain ⟨-, before, behind, p, hold, hnew⟩ := hput.insert hplain.tidy
  rw [Tidy.entries_append_end hends, ← listing] at hold
  rw [← listing] at hnew
  obtain ⟨howned, hkept⟩ := h.owned.written (o := none) rfl hw
  have hview : view (p, e, text) = (name.key, ⟨first, size, attr⟩) := by
    have hkey := nameMatches_key.mp (hput.name_matches hvalid (Or.inl hname))
    rw [view]
    dsimp only
    rw [hkey, hput.short.first, hput.short.size, hput.short.attr]
  refine Or.inr ⟨place, d', _, ⟨before.map view ++ (name.key, ⟨first, size, attr⟩) :: behind.map view, s.file,
    (fs.freeClusters d').length⟩, hrun, ⟨⟨_, _, ?_, rfl⟩, rfl, ?_⟩, h.redirected howned hkept
      (hput.plain hcount hplain) ?_ rfl rfl⟩
  · rw [h.dir, hold, List.map_append]
  · have htaken := congrArg List.length hw.taken
    rw [List.length_append] at htaken
    have hle := hgrows.1
    rw [h.free]
    dsimp only
    omega
  · rw [hnew, List.map_append, List.map_cons, hview]

/-- The entry of a name is the only one with its key. -/
lemma entry_unique (hs : s.Valid) {q r : ℕ × Found} (hq : q ∈ fs.listing d (own none))
    (hr : r ∈ fs.listing d (own none)) (hkey : (view q).1 = (view r).1) : q = r := by
  have hpairs := hs.names
  rw [h.dir, List.pairwise_map] at hpairs
  have : Std.Symm fun q r : ℕ × Found => (view q).1 ≠ (view r).1 := ⟨fun _ _ => Ne.symm⟩
  by_contra hne
  exact hpairs.forall hq hr hne hkey

/-- A name that is looked up has an entry. -/
lemma exists_entry (hfound : s.lookup name ≠ none) : ∃ r,
    (fs.listing d (own none)).find? (fun q => nameMatches q.2.2 name.asBytes) = some r ∧
      s.lookup name = some (view r).2 ∧ r ∈ fs.listing d (own none) ∧ (view r).1 = name.key := by
  rw [lookup_listing h.dir] at hfound ⊢
  cases hr : (fs.listing d (own none)).find? fun q => nameMatches q.2.2 name.asBytes with
  | none =>
    rw [hr] at hfound
    exact absurd rfl hfound
  | some r =>
    have hmatch : nameMatches r.2.2 name.asBytes = true :=
      List.find?_some (p := fun q : ℕ × Found => nameMatches q.2.2 name.asBytes) hr
    exact ⟨r, rfl, rfl, List.mem_of_find?_eq_some hr, nameMatches_key.mp hmatch⟩

/-- **Changing the size of a file.**  The change is lost if the sector of its entry marks the end. -/
theorem resized (hs : s.Valid) (hfound : s.lookup name ≠ none) {size first : ℕ} (hsize : size < 2 ^ 32)
    (hfirst : first < 2 ^ 32) :
    ∃ d', fs.updateDirEntrySize d fs.rootCluster name size first = some (true, d') ∧
      (fs.Represents d' own s ∨ fs.Represents d' own (s.resize name size first)) := by
  obtain ⟨r, hr, -, hmem, hkey⟩ := h.exists_entry hfound
  have hdir := h.owned.directory
  obtain ⟨d', hrun, hmarked, hwritten⟩ := hdir.update_spec size first hr
  refine ⟨d', hrun, ?_⟩
  by_cases hend : EndMarked d (fs.slotSector (own none) r.1)
  · rw [hmarked hend]
    exact Or.inl h
  obtain ⟨-, hlisting, hbytes⟩ := hwritten hend
  have hchanged : ∀ x, d' x ≠ d x → ∃ p < fs.slotCount (own none),
      fs.slotAddr (own none) p ≤ x ∧ x < fs.slotAddr (own none) p + 32 := fun x hx => by
    obtain ⟨q, hq, -, hle, hlt⟩ := hbytes x hx
    exact ⟨q.1, (Directory.position_lt hq).1, by omega, by omega⟩
  obtain ⟨hentries, hkept⟩ := h.owned.slots_changed hchanged
  refine Or.inr (h.rearranged hentries hkept (hdir.plain_resized h.plain fun x hx => ?_) ?_ rfl rfl)
  · obtain ⟨q, hq, -, hrange⟩ := hbytes x hx
    exact ⟨q, hq, hrange⟩
  · rw [hlisting, Store.resize, h.dir, List.map_map, List.map_map]
    refine List.map_congr_left fun q hq => ?_
    rw [Function.comp_apply, Function.comp_apply]
    by_cases hqk : (view q).1 = name.key
    · obtain rfl := h.entry_unique hs hq hmem (hqk.trans hkey.symm)
      have hnew : view (q.1, q.2.1.resized size first, q.2.2) =
          ((view q).1, ⟨first, size, (view q).2.attr⟩) := by
        unfold view
        dsimp only
        rw [DirEntry.firstCluster_resized hfirst, DirEntry.fileSize_resized hsize,
          (DirEntry.resized_keeps ..).2.1]
      rw [if_pos hqk, if_pos ⟨nameMatches_key.mpr hqk, rfl⟩]
      exact hnew.symm
    · rw [if_neg hqk, if_neg fun hres => hqk (nameMatches_key.mp hres.1)]

/-- **Removing a name.** -/
theorem marked (hs : s.Valid) (hfound : s.lookup name ≠ none) :
    ∃ d', fs.deleteDirEntry d fs.rootCluster name = some (true, d') ∧
      fs.Represents d' own (s.remove name) := by
  obtain ⟨r, hr, -, hmem, hkey⟩ := h.exists_entry hfound
  have hdir := h.owned.directory
  obtain ⟨hlt, -⟩ := Directory.position_lt hmem
  obtain ⟨-, hlisting⟩ := hdir.listing_marked hmem
  have hchanged : ∀ x, d.set (fs.slotAddr (own none) r.1) slotDeleted x ≠ d x → ∃ p < fs.slotCount (own none),
      fs.slotAddr (own none) p ≤ x ∧ x < fs.slotAddr (own none) p + 32 := fun x hx => by
    refine ⟨r.1, hlt, ?_⟩
    by_contra hnot
    exact hx (Bytes.set_ne (by omega))
  obtain ⟨hentries, hkept⟩ := h.owned.slots_changed hchanged
  refine ⟨_, ?_, h.rearranged hentries hkept (hdir.plain_marked h.plain hmem) ?_ rfl rfl⟩
  · rw [hdir.delete_run, hr]
  · rw [hlisting, Store.remove, h.dir, List.filter_map]
    refine congrArg (List.map view) (List.filter_congr fun q hq => decide_eq_decide.mpr (not_congr ?_))
    constructor
    · exact fun hqk => congrArg Prod.fst (h.entry_unique hs hq hmem (Eq.trans hqk hkey.symm))
    · intro hpos
      obtain rfl := Directory.listing_inj hq hmem hpos
      exact hkey

end Represents

end Fat32Fs

end Fs

end NekOS
