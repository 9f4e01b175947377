import NekOS.Fat32.Keeping
import NekOS.Fat32.Server
import NekOS.Fat32.Updating
import Mathlib.Data.List.Find

/-!
# Deleting a file

`delete_dir_entry` marks the slot of the first entry with the name as deleted.  The slots of its long name
stay as they are, because the length of the buffer is reset before it is looked at.  `FS_DELETE` then frees
the chain of the entry.
-/

namespace NekOS

namespace Fs

/-! ### A slot that is deleted -/

/-- The entries of slots one of which has been deleted. -/
lemma entriesFrom_remove {k n m : ℕ} {lfn : Lfn} {g g' : ℕ → DirEntry}
    (hg : ∀ p, k ≤ p → p < k + n → p ≠ m → g' p = g p) (hdel : (g' m).byte 0 = slotDeleted)
    (hm : ∃ q ∈ entriesFrom k lfn ((List.range' k n).map g), q.1 = m) :
    entriesFrom k lfn ((List.range' k n).map g') =
      (entriesFrom k lfn ((List.range' k n).map g)).filter fun q => q.1 ≠ m := by
  induction n generalizing k lfn with
  | zero => rfl
  | succ n ih =>
    rw [List.range'_succ, List.map_cons, entriesFrom] at hm
    rw [List.range'_succ, List.map_cons, List.map_cons, entriesFrom, entriesFrom]
    have hg' : ∀ p, k + 1 ≤ p → p < k + 1 + n → p ≠ m → g' p = g p :=
      fun p hp hlt => hg p (by omega) (by omega)
    by_cases hk : k = m
    · subst hk
      -- Only the first slot has this position.
      have hlater : ∀ {lfn'}, ¬ ∃ q ∈ entriesFrom (k + 1) lfn' ((List.range' (k + 1) n).map g), q.1 = k := by
        rintro lfn' ⟨q, hq, hqk⟩
        have hle := (position_of_mem hq).1
        omega
      have hne : (g' k).byte 0 ≠ slotEnd := by
        rw [hdel]
        decide
      rw [if_neg hne, if_pos hdel]
      split_ifs at hm ⊢ with h₁ h₂ h₃
      · obtain ⟨q, hq, -⟩ := hm
        cases hq
      · exact absurd hm hlater
      · exact absurd hm hlater
      · rw [List.filter_cons_of_neg (by simp), List.filter_eq_self.mpr fun q hq => ?_]
        · refine congrArg _ (List.map_congr_left fun p hp => ?_)
          obtain ⟨hle, hlt⟩ := List.mem_range'_1.mp hp
          exact hg' p hle hlt (by omega)
        · exact decide_eq_true fun hqk => hlater ⟨q, hq, hqk⟩
    · rw [hg k le_rfl (by omega) hk]
      split_ifs at hm ⊢ with h₁ h₂ h₃
      · rfl
      · exact ih hg' hm
      · exact ih hg' hm
      · rw [List.filter_cons_of_pos (by simpa using hk)]
        refine congrArg _ (ih hg' ?_)
        obtain ⟨q, hq, hqm⟩ := hm
        rcases List.mem_cons.mp hq with rfl | hq
        · exact absurd hqm hk
        · exact ⟨q, hq, hqm⟩

namespace Fat32Fs

variable {fs : Fat32Fs} {d : Disk} {cluster : ℕ} {cs : List ℕ} {search : List UInt8}

/-! ### The loops over the slots -/

/-- The buffer for the long name has been reset, and only the slot itself is marked. -/
lemma markDeleted_reset (buf : Bytes) (sector i : ℕ) (st : DeleteState) :
    markDeleted buf sector i { st with lfn := st.lfn.reset } = buf.set (i * 32) slotDeleted := by
  rw [markDeleted, if_neg fun h => Nat.lt_irrefl _ h.1]

/-- Writing a sector back after a byte of it has been changed. -/
lemma blit_set {sector a : ℕ} (ha : a < blockSize) (c : UInt8) (d : Disk) :
    d.blit (sector * blockSize) ((sectorBytes d sector).set a c) 0 blockSize =
      d.set (sector * blockSize + a) c := by
  funext x
  rw [Bytes.blit]
  split_ifs with hx
  · rw [Nat.zero_add]
    by_cases hxa : x = sector * blockSize + a
    · rw [hxa, Nat.add_sub_cancel_left, Bytes.set_self, Bytes.set_self]
    · rw [Bytes.set_ne (by omega), Bytes.set_ne hxa, sectorBytes, Nat.add_sub_cancel' hx.1]
  · rw [Bytes.set_ne (by omega)]

/-- What a loop of `delete_dir_entry` does over some slots: it deletes the first entry with the name, or it
comes to the end of the directory, or it goes on. -/
def Deletes (d : Disk) (addr : ℕ → ℕ) (hit : Option ℕ) (lfn : Option Lfn)
    (run : Flow (Option (Bool × Disk)) DeleteState) : Prop :=
  run.Post (fun r => (∃ p, hit = some p ∧ r = some (true, d.set (addr p) slotDeleted)) ∨
    hit = none ∧ lfn = none ∧ r = some (false, d)) fun st => hit = none ∧ lfn = some st.lfn

/-- The slots of a sector in a deletion. -/
lemma deleteSlots_spec (d : Disk) (search : List UInt8) {sector : ℕ} (hon : sector < ramdiskSectors)
    (k a n : ℕ)
    (hn : a + n ≤ entriesPerSector) (st : DeleteState) :
    Deletes d (fun p => sector * blockSize + (p - k) * 32)
      (hits search (k + a) st.lfn (slotsIn (sectorBytes d sector) a n)).head?
      (carry st.lfn (slotsIn (sectorBytes d sector) a n))
      (Flow.forEach (deleteSlot d search sector (sectorBytes d sector)) (List.range' a n) st) := by
  induction n generalizing a st with
  | zero => exact ⟨rfl, rfl⟩
  | succ n ih =>
    have ih' := ih (a + 1) (by omega)
    rw [List.range'_succ, Flow.forEach, deleteSlot, slotsIn_succ, carry, hits_cons]
    dsimp only
    split_ifs with h₁ h₂ h₃ h₄ h₅
    · exact Or.inr ⟨rfl, rfl, rfl⟩
    · exact ih' _
    · exact ih' ⟨st.lfn.push _, sector, a⟩
    · exact ih' { st with lfn := st.lfn.push _ }
    · have hoff : a * 32 < blockSize := by
        unfold entriesPerSector blockSize at hn
        unfold blockSize
        omega
      rw [diskWrite_of_lt hon, markDeleted_reset, blit_set hoff]
      exact Or.inl ⟨k + a, rfl, by simp only [Nat.add_sub_cancel_left]⟩
    · exact ih' { st with lfn := st.lfn.reset }

/-- Only the address of the hit matters. -/
lemma Deletes.congr {addr addr' : ℕ → ℕ} {hit : Option ℕ} {lfn : Option Lfn}
    {run : Flow (Option (Bool × Disk)) DeleteState} (h : Deletes d addr hit lfn run)
    (haddr : ∀ p, hit = some p → addr' p = addr p) : Deletes d addr' hit lfn run := by
  refine Flow.Post.imp h (fun r hr => ?_) fun st => id
  rcases hr with ⟨p, hp, rfl⟩ | hr
  · exact Or.inl ⟨p, hp, by rw [haddr p hp]⟩
  · exact Or.inr hr

/-- The sectors of a directory in a deletion. -/
lemma deleteSectors_spec (d : Disk) (search : List UInt8) {sectors : List ℕ}
    (hon : ∀ sector ∈ sectors, sector < ramdiskSectors) (k : ℕ) (st : DeleteState) :
    Deletes d (fun p => sectors.getD ((p - k) / entriesPerSector) 0 * blockSize +
        (p - k) % entriesPerSector * 32)
      (hits search k st.lfn (slotsOf d sectors)).head? (carry st.lfn (slotsOf d sectors))
      (Flow.forEach (deleteSector d search) sectors st) := by
  induction sectors generalizing k st with
  | nil => exact ⟨rfl, rfl⟩
  | cons sector sectors ih =>
    obtain ⟨hsector, hsectors⟩ := List.forall_mem_cons.mp hon
    rw [slotsOf_cons, hits_append, carry_append, slotsIn_length, Flow.forEach, deleteSector,
      diskRead_of_lt hsector, List.range_eq_range']
    dsimp only
    rw [show (fun i => d (sector * blockSize + i)) = sectorBytes d sector from rfl]
    have hfirst := deleteSlots_spec d search hsector k 0 entriesPerSector (by omega) st
    rw [Nat.add_zero] at hfirst
    cases hrun : Flow.forEach (deleteSlot d search sector (sectorBytes d sector))
        (List.range' 0 entriesPerSector) st with
    | ret r =>
      rw [hrun] at hfirst
      rcases hfirst with ⟨p, hp, rfl⟩ | ⟨hnone, hcarry, rfl⟩
      · refine Or.inl ⟨p, by rw [List.head?_append, hp, Option.some_or], ?_⟩
        obtain ⟨q, hq, -, rfl⟩ := mem_hits.mp (List.mem_of_head? hp)
        obtain ⟨-, hget⟩ := position_of_mem hq
        have hlt := (List.getElem?_eq_some_iff.mp hget).1
        rw [slotsIn_length] at hlt
        dsimp only
        rw [Nat.div_eq_of_lt hlt, Nat.mod_eq_of_lt hlt, List.getD_cons_zero]
      · rw [hcarry, Option.map_none, Option.getD_none, List.append_nil]
        exact Or.inr ⟨hnone, rfl, rfl⟩
    | next st' =>
      rw [hrun] at hfirst
      obtain ⟨hnone, hcarry⟩ := hfirst
      rw [hcarry, Option.map_some, Option.getD_some, Option.bind_some,
        List.head?_eq_none_iff.mp hnone, List.nil_append]
      refine (ih hsectors (k + entriesPerSector) st').congr fun p hp => ?_
      obtain ⟨q, hq, -, rfl⟩ := mem_hits.mp (List.mem_of_head? hp)
      have hle := (position_of_mem hq).1
      obtain ⟨i, hi⟩ := Nat.exists_eq_add_of_le hle
      have hper : 0 < entriesPerSector := by decide
      rw [hi, Nat.add_sub_cancel_left, Nat.add_assoc, Nat.add_sub_cancel_left, Nat.add_div_left _ hper,
        Nat.add_mod_left, List.getD_cons_succ]

namespace Directory

/-- The run of a deletion. -/
theorem delete_run (h : fs.Directory d cluster cs) (name : Str) :
    fs.deleteDirEntry d cluster name =
      match (fs.listing d cs).find? fun q => nameMatches q.2.2 name.asBytes with
      | some q => some (true, d.set (fs.slotAddr cs q.1) slotDeleted)
      | none => some (false, d) := by
  have hhits : (hits name.asBytes 0 Lfn.init (slotsOf d (fs.dirSectors cs))).head? =
      ((fs.listing d cs).find? fun q => nameMatches q.2.2 name.asBytes).map Prod.fst := by
    rw [hits, List.head?_map, List.head?_filter, listing]
  have hspec := deleteSectors_spec d name.asBytes
    (fun x (hx : x ∈ fs.dirSectors cs) => h.sector_lt hx) 0 ⟨Lfn.init, 0, 0⟩
  refine (h.forSectors_eq (σ := DeleteState) (J := fun _ => True) (fun _ _ => rfl)
    (fun _ _ st _ => ?_) trivial).trans ?_
  · cases deleteSector d name.asBytes _ st <;> trivial
  rw [hhits] at hspec
  cases hrun : Flow.forEach (deleteSector d name.asBytes) (fs.dirSectors cs) ⟨Lfn.init, 0, 0⟩ with
  | ret r =>
    rw [hrun] at hspec
    rcases hspec with ⟨p, hp, rfl⟩ | ⟨hnone, -, rfl⟩
    · obtain ⟨q, hq, rfl⟩ := Option.map_eq_some_iff.mp hp
      rw [hq]
      rfl
    · rw [Option.map_eq_none_iff.mp hnone]
  | next st =>
    rw [hrun] at hspec
    rw [Option.map_eq_none_iff.mp hspec.1]

/-- The directory after a slot of it has been marked as deleted. -/
lemma listing_marked (h : fs.Directory d cluster cs) {q : ℕ × Found} (hq : q ∈ fs.listing d cs) :
    fs.Directory (d.set (fs.slotAddr cs q.1) slotDeleted) cluster cs ∧
      fs.listing (d.set (fs.slotAddr cs q.1) slotDeleted) cs =
        (fs.listing d cs).filter fun r => r.1 ≠ q.1 := by
  have hlt := (position_lt hq).1
  refine ⟨h.congr fun x hx => Bytes.set_ne ?_, ?_⟩
  · have hle : fs.dataStart * blockSize ≤ fs.slotAddr cs q.1 := le_slotAddr hlt
    omega
  rw [listing, listing, dirSlots_eq, dirSlots_eq]
  refine entriesFrom_remove (fun p _ hp hne => funext fun j => Bytes.set_ne ?_) ?_
    ⟨q, by rwa [listing, dirSlots_eq] at hq, rfl⟩
  rotate_left
  · rw [DirEntry.byte_read (by omega), Nat.add_zero, Bytes.set_self]
  have hj := j.isLt
  have hapart := h.slotAddr_apart (by omega) hlt hne
  omega

end Directory

/-! ### The file that is deleted -/

/-- What has become of the disk after the entry at a position of a directory has been deleted and the
clusters of its file have been freed. -/
structure FileDeleted (fs : Fat32Fs) (d d' : Disk) (cluster : ℕ) (cs fc : List ℕ) (p : ℕ) : Prop where
  directory : fs.Directory d' cluster cs
  listing : fs.listing d' cs = (fs.listing d cs).filter fun r => r.1 ≠ p
  entries : ∀ c, fs.IsCluster c → fs.fatEntry d' c = if c ∈ fc then fat32Free else fs.fatEntry d c
  bytes : ∀ x, (∀ c ∈ fc, x < fs.fatAddr c ∨ fs.fatAddr c + 4 ≤ x) →
    d' x = if x = fs.slotAddr cs p then slotDeleted else d x
  kept : ∀ l : List ℕ, (∀ c ∈ l, fs.IsCluster c) → l.Disjoint cs → l.Disjoint fc → fs.Kept d d' l

/-- The number of a first cluster has 32 bits. -/
lemma firstCluster_lt (e : DirEntry) : e.firstCluster < 2 ^ 32 := by
  have hhalf : ∀ i, e.half i < 2 ^ 16 := fun i => by
    have h₁ := (e.byte i).toNat_lt
    have h₂ := (e.byte (i + 1)).toNat_lt
    unfold DirEntry.half
    omega
  have h₁ := hhalf 26
  have h₂ := hhalf 20
  unfold DirEntry.firstCluster
  omega

/-- Freeing a chain of the volume. -/
lemma freeChain_chain (hs : fs.Sound) {first : ℕ} {fc : List ℕ} (hchain : Chain (fs.link d) first fc)
    (hclusters : ∀ c ∈ fc, fs.IsCluster c) : ∃ count, fs.freeChain d first = some (count, fs.freed d fc) := by
  obtain ⟨t, ht⟩ := hchain.eq_cons
  have hfirst : fs.IsCluster first := hclusters first (ht ▸ List.mem_cons_self ..)
  have hle := hs.clusters_le
  have hsmall : ramdiskSectors < 2 ^ 14 := by decide
  obtain ⟨count, d', l, hrun, rfl, -, hcount⟩ := freeChain_spec hs.fat_lt (by have := hfirst.2; omega) hfirst.1 d
  have hall : fc.filter fs.EntryOnDisk = fc :=
    List.filter_eq_self.mpr fun c hc => decide_eq_true (hs.entryOnDisk (hclusters c hc))
  exact ⟨count, by rw [hrun, (hcount fc hchain).1, hall]⟩

/-- Freeing the clusters of a file. -/
lemma freeChain_file (hs : fs.Sound) {first : ℕ} {fc : List ℕ} (hf : fs.FileChain d first fc) :
    (if 2 ≤ first then (fs.freeChain d first).map fun r => (Reply.plain fsOk, r.2)
      else some (Reply.plain fsOk, d)) = some (.plain fsOk, fs.freed d fc) := by
  unfold FileChain at hf
  split_ifs at hf ⊢ with hge
  · obtain ⟨count, hrun⟩ := freeChain_chain hs hf.1 hf.2
    rw [hrun, Option.map_some]
  · refine congrArg some (congrArg _ (funext fun x => (if_neg ?_).symm))
    rw [hf]
    rintro ⟨c, hc, -⟩
    cases hc

/-- The clusters of a file are clusters of the volume. -/
lemma FileChain.clusters {first : ℕ} {fc : List ℕ} (hf : fs.FileChain d first fc) :
    ∀ c ∈ fc, fs.IsCluster c := by
  unfold FileChain at hf
  split_ifs at hf
  · exact hf.2
  · rw [hf]
    exact nofun

namespace Directory

/-- **Deleting.**  A slot is marked and the clusters of the file are freed. -/
theorem file_deleted (h : fs.Directory d cluster cs) {q : ℕ × Found} (hq : q ∈ fs.listing d cs)
    {fc : List ℕ} (hclusters : ∀ c ∈ fc, fs.IsCluster c) (hapart : fc.Disjoint cs) :
    fs.FileDeleted d (fs.freed (d.set (fs.slotAddr cs q.1) slotDeleted) fc) cluster cs fc q.1 := by
  have hlt := (position_lt hq).1
  obtain ⟨hdir, hlisting⟩ := h.listing_marked hq
  have hslot : fs.dataStart * blockSize ≤ fs.slotAddr cs q.1 := le_slotAddr hlt
  -- The table lies before the slots.
  have hentry : ∀ c, fs.IsCluster c →
      fs.fatEntry (d.set (fs.slotAddr cs q.1) slotDeleted) c = fs.fatEntry d c := fun c hc => by
    have hle := h.sound.fatAddr_le hc
    exact fatEntry_congr fun x _ hx => Bytes.set_ne (by omega)
  have hfreed : ∀ (m : Disk) (x : ℕ), fs.dataStart * blockSize ≤ x → fs.freed m fc x = m x :=
    fun m x hx => if_neg <| by
      rintro ⟨c, hc, -, hxc⟩
      have hle := h.sound.fatAddr_le (hclusters c hc)
      omega
  have hentries : ∀ c, fs.IsCluster c →
      fs.fatEntry (fs.freed (d.set (fs.slotAddr cs q.1) slotDeleted) fc) c =
        if c ∈ fc then fat32Free else fs.fatEntry d c := fun c hc => by
    split_ifs with hmem
    · exact freed_entry_mem hmem
    · rw [freed_entry hmem, hentry c hc]
  have hkept : fs.Kept (d.set (fs.slotAddr cs q.1) slotDeleted)
      (fs.freed (d.set (fs.slotAddr cs q.1) slotDeleted) fc) cs := fun c hc =>
    ⟨freed_entry fun hmem => hapart hmem hc, fun j _ => hfreed _ _ (le_clusterAddr.trans (Nat.le_add_right ..))⟩
  obtain ⟨hdir', hlisting'⟩ := hdir.kept hkept
  refine ⟨hdir', hlisting'.trans hlisting, hentries, fun x hx => ?_, fun l hl hlcs hlfc c hc => ⟨?_, fun j hj => ?_⟩⟩
  · rw [freed, if_neg (by rintro ⟨c, hc, hx'⟩; have := hx c hc; omega), Bytes.set, Function.update_apply]
  · rw [hentries c (hl c hc), if_neg (hlfc hc)]
  · have hle : fs.dataStart * blockSize ≤ fs.clusterAddr c := le_clusterAddr
    rw [hfreed _ _ (by omega), Bytes.set_ne]
    obtain ⟨c', hc', i, haddr, hi⟩ := h.slotAddr_cluster hlt
    have hne : c ≠ c' := fun heq => hlcs hc (heq ▸ hc')
    have hapart' := h.sound.clusterAddr_apart (hl c hc) (h.clusters c' hc') hne
    omega

end Directory

/-- What `FS_DELETE` does with a path whose directory is found.  It fails if and only if the directory has no
entry with the name, and the disk stays as it is then.  Otherwise the first entry with the name is deleted and
the clusters of its file are free, entries with other names are found as before, and the name is found again
only if there is another entry with it. -/
def DeletesFile (fs : Fat32Fs) (d : Disk) (path : Str) (cluster : ℕ) (cs : List ℕ) (name : Str) : Prop :=
  (fs.findEntry d cluster name = some none → fs.serveDelete d path = some (.plain fsErr, d)) ∧
  ∀ e found, fs.findEntry d cluster name = some (some (e, found)) →
    ∀ fc, fs.FileChain d e.firstCluster fc → fc.Disjoint cs →
      ∃ p < fs.slotCount cs, ∃ d', fs.serveDelete d path = some (.plain fsOk, d') ∧
        DirEntry.read d (fs.slotAddr cs p) = e ∧ fs.FileDeleted d d' cluster cs fc p ∧
        (∀ other : Str, nameMatches found other.asBytes = false →
          fs.findEntry d' cluster other = fs.findEntry d cluster other) ∧
        ((∀ q ∈ fs.listing d cs, nameMatches q.2.2 name.asBytes → q.1 = p) →
          fs.findEntry d' cluster name = some none)

/-- The handlers go on with the directory of a path. -/
lemma inParent_eq {path before name : Str} (hpath : path.rsplitSlash = some (before, name)) {parent : Found}
    (hparent : fs.resolvePath d (if before = [] then ['/'] else before) = some (some parent))
    (go : ℕ → Str → Option (Reply × Disk)) :
    fs.inParent d path go = go parent.1.firstCluster name := by
  rw [inParent, hpath]
  dsimp only
  rw [hparent]

end Fat32Fs

end Fs

end NekOS
