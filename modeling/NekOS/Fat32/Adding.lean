import NekOS.Fat32.Creating
import NekOS.Fat32.Tidy

/-!
# What is found after an entry has been created

An entry that `create_dir_entry` adds to a tidy directory is found, and the others are found as before, unless
the directory ends in a sector before it.
-/

namespace NekOS

namespace Fs

namespace Fat32Fs

variable {fs : Fat32Fs} {d d' : Disk} {cluster : ℕ} {cs : List ℕ} {longName : Str} {shortName : List UInt8}
  {attr : UInt8} {firstCluster fileSize sector start : ℕ}

/-! ### The slots of the sector -/

/-- The slots in two parts of a sector. -/
lemma slotsIn_append (buf : Bytes) (a n k : ℕ) :
    slotsIn buf a (n + k) = slotsIn buf a n ++ slotsIn buf (a + n) k := by
  rw [slotsIn, slotsIn, slotsIn, ← List.map_append, List.range'_append_1]

/-- The slots of a sector after an entry has been written to it. -/
lemma read_placed {j : ℕ} (hj : j < entriesPerSector) (d : Disk) :
    DirEntry.read (sectorBytes (placed d longName shortName attr firstCluster fileSize sector start) sector)
      (j * 32) = DirEntry.read
        (putEntry longName shortName attr firstCluster fileSize start (sectorBytes d sector)) (j * 32) := by
  funext i
  have hi := i.isLt
  unfold entriesPerSector blockSize at hj
  rw [DirEntry.read, DirEntry.read, sectorBytes, placed, Bytes.blit_inside (by unfold blockSize; omega),
    Nat.zero_add]

/-- The other sectors stay. -/
lemma sectorBytes_placed {sector' : ℕ} (hne : sector' ≠ sector) (d : Disk) {j : ℕ} (hj : j < blockSize) :
    sectorBytes (placed d longName shortName attr firstCluster fileSize sector start) sector' j =
      sectorBytes d sector' j := by
  rw [sectorBytes, placed, Bytes.blit_outside]
  · rfl
  · unfold blockSize at *
    omega

/-- The slots of other sectors stay. -/
lemma slotsOf_placed {sectors : List ℕ} (hnot : sector ∉ sectors) (d : Disk) :
    slotsOf (placed d longName shortName attr firstCluster fileSize sector start) sectors =
      slotsOf d sectors := by
  refine List.flatMap_congr fun x hx => List.map_congr_left fun j hj => funext fun i => ?_
  have hj := (List.mem_range'_1.mp hj).2
  have hi := i.isLt
  have hne : x ≠ sector := fun heq => hnot (heq ▸ hx)
  refine sectorBytes_placed hne d ?_
  unfold entriesPerSector blockSize at hj
  unfold blockSize
  omega

/-- The new slots are one entry. -/
lemma item_placed (sector : ℕ) (hroom : start + (lfnCount longName + 1) ≤ entriesPerSector) (hshort : shortName.length = 11)
    (hfirst : firstCluster < 2 ^ 32) (hsize : fileSize < 2 ^ 32) (hattr : attr ≠ attrLfn)
    (hused : shortName.getD 0 0 ≠ slotEnd ∧ shortName.getD 0 0 ≠ slotDeleted) (d : Disk) :
    ∃ e name, Item (slotsIn (sectorBytes
        (placed d longName shortName attr firstCluster fileSize sector start) sector) start
        (lfnCount longName + 1)) e name ∧ ShortSlot e shortName attr firstCluster fileSize ∧
      (lfnCount longName = 0 → name = e.shortName) ∧ (LongAscii longName → name = longName.asBytes) := by
  have hcount : lfnCount longName < 16 := by
    unfold entriesPerSector blockSize at hroom
    omega
  obtain ⟨hentry, hparts, -⟩ := read_putEntry longName attr start (sectorBytes d sector) hshort hfirst hsize (by omega)
  have hslots : LfnSlots longName (lfnCount longName) (slotsIn (sectorBytes
      (placed d longName shortName attr firstCluster fileSize sector start) sector) start
      (lfnCount longName)) := by
    refine List.forall₂_iff_get.mpr ⟨by rw [slotsIn_length, List.length_reverse, List.length_range],
      fun i h₁ h₂ => ?_⟩
    rw [slotsIn_length] at h₁
    simp only [List.get_eq_getElem, List.getElem_reverse, List.getElem_range, List.length_range, slotsIn,
      List.getElem_map, List.getElem_range', Nat.one_mul]
    have hoff : lfnOffset longName start (lfnCount longName - 1 - i) = (start + i) * 32 := by
      unfold lfnOffset
      omega
    have hpart := hparts (lfnCount longName - 1 - i) (by omega)
    rw [hoff] at hpart
    rwa [read_placed (by omega)]
  have hlast : slotsIn (sectorBytes
      (placed d longName shortName attr firstCluster fileSize sector start) sector)
      (start + lfnCount longName) 1 = [DirEntry.read
        (putEntry longName shortName attr firstCluster fileSize start (sectorBytes d sector))
        ((start + lfnCount longName) * 32)] := by
    rw [slotsIn, List.range'_one, List.map_singleton, read_placed (by omega)]
  have hfree : ¬ (DirEntry.read
      (putEntry longName shortName attr firstCluster fileSize start (sectorBytes d sector))
      ((start + lfnCount longName) * 32)).Free := by
    obtain ⟨-, -, -, hbyte⟩ := short_bytes (DirEntry.read
      (putEntry longName shortName attr firstCluster fileSize start (sectorBytes d sector))
      ((start + lfnCount longName) * 32))
    rw [hentry.short] at hbyte
    rw [DirEntry.Free, hbyte]
    exact not_or.mpr hused
  obtain ⟨name, hitem, hname⟩ := item_written hslots (by omega) hfree (by rw [hentry.attr]; exact hattr)
  rw [slotsIn_append, hlast]
  exact ⟨_, name, hitem, hentry, hname⟩

/-! ### The directory with the entry -/

/-- Some free slots before the end of a list have become the slots of an entry. -/
structure EntryPut (longName : Str) (shortName : List UInt8) (attr : UInt8) (firstCluster fileSize : ℕ)
    (e : DirEntry) (name : List UInt8) (es es' : List DirEntry) : Prop where
  short : ShortSlot e shortName attr firstCluster fileSize
  named : (lfnCount longName = 0 → name = e.shortName) ∧ (LongAscii longName → name = longName.asBytes)
  placed : ∃ before old behind new, es = before ++ (old ++ behind) ∧ es' = before ++ (new ++ behind) ∧
    (∀ x ∈ before, x.byte 0 ≠ slotEnd) ∧ (∀ x ∈ old, x.Free) ∧ Item new e name ∧
    new.length = old.length ∧ old.length = lfnCount longName + 1

/-- The entry is added to the entries of a tidy list. -/
lemma EntryPut.insert {e : DirEntry} {name : List UInt8} {es es' : List DirEntry}
    (h : EntryPut longName shortName attr firstCluster fileSize e name es es') (htidy : Tidy none es) :
    Tidy none es' ∧ ∃ before behind p, entriesFrom 0 Lfn.init es = before ++ behind ∧
      entriesFrom 0 Lfn.init es' = before ++ (p, e, name) :: behind := by
  obtain ⟨before, old, behind, new, rfl, rfl, hend, hfree, hitem, hlen, hpos⟩ := h.placed
  obtain ⟨es₁, es₂, p, hold, hnew, htidy'⟩ := htidy.insert hend hfree hitem hlen
    (List.ne_nil_of_length_pos (by omega))
  exact ⟨htidy', es₁, es₂, p, hold, hnew⟩

/-- The slots of a directory are tidy. -/
def TidyDir (fs : Fat32Fs) (d : Disk) (cs : List ℕ) : Prop := Tidy none (slotsOf d (fs.dirSectors cs))

/-- Behind the end of a tidy directory the slots of its sector mark the end. -/
lemma sector_tail {buf : Bytes} {before behind : List DirEntry} {j : ℕ}
    (h : Tidy none (before ++ (slotsIn buf 0 entriesPerSector ++ behind)))
    (hend : buf (j * 32) = slotEnd) : ∀ i, j ≤ i → i < entriesPerSector → buf (i * 32) = slotEnd := by
  intro i hle hi
  rcases Nat.lt_or_eq_of_le hle with hlt | rfl
  · have hsplit : slotsIn buf 0 entriesPerSector = slotsIn buf 0 j ++
        (DirEntry.read buf (j * 32) :: slotsIn buf (j + 1) (entriesPerSector - (j + 1))) := by
      rw [← slotsIn_succ, show entriesPerSector - (j + 1) + 1 = entriesPerSector - j by omega]
      have hparts := slotsIn_append buf 0 j (entriesPerSector - j)
      rwa [Nat.zero_add, Nat.add_sub_cancel' (by omega)] at hparts
    rw [hsplit, List.append_assoc, ← List.append_assoc, List.cons_append] at h
    refine h.tail_end hend (DirEntry.read buf (i * 32)) (List.mem_append_left _ ?_)
    exact List.mem_map.mpr ⟨i, List.mem_range'_1.mpr ⟨hlt, by omega⟩, rfl⟩
  · exact hend

/-- The end is marked in some sectors if a slot of them does. -/
lemma exists_endMarked {sectors : List ℕ} :
    (∃ x ∈ sectors, EndMarked d x) ↔ ∃ e ∈ slotsOf d sectors, e.byte 0 = slotEnd := by
  constructor
  · rintro ⟨x, hx, j, hj, hmark⟩
    refine ⟨DirEntry.read (sectorBytes d x) (j * 32), List.mem_flatMap.mpr ⟨x, hx, ?_⟩, hmark⟩
    exact List.mem_map.mpr ⟨j, List.mem_range'_1.mpr ⟨Nat.zero_le j, by omega⟩, rfl⟩
  · rintro ⟨e, he, hmark⟩
    obtain ⟨x, hx, he⟩ := List.mem_flatMap.mp he
    obtain ⟨j, hj, rfl⟩ := List.mem_map.mp he
    exact ⟨x, hx, j, by have := (List.mem_range'_1.mp hj).2; omega, hmark⟩

/-- No slot before the place for an entry marks the end, if no sector before it does. -/
lemma end_before {pre suf : List ℕ} {total : ℕ}
    (htidy : Tidy none (slotsOf d (pre ++ sector :: suf)))
    (hfit : FirstFit (sectorBytes d sector) total start) (hend : ¬ ∃ e ∈ slotsOf d pre, e.byte 0 = slotEnd) :
    ∀ x ∈ slotsOf d pre ++ slotsIn (sectorBytes d sector) 0 start, x.byte 0 ≠ slotEnd := by
  rw [slotsOf, List.flatMap_append, ← slotsOf, ← slotsOf, slotsOf_cons] at htidy
  intro x hx hmark
  rcases List.mem_append.mp hx with hx | hx
  · exact hend ⟨x, hx, hmark⟩
  · obtain ⟨j, hj, rfl⟩ := List.mem_map.mp hx
    have hj := (List.mem_range'_1.mp hj).2
    obtain ⟨hroom, -⟩ := hfit.1
    have hmark' : sectorBytes d sector (j * 32) = slotEnd := hmark
    have htail := sector_tail htidy hmark'
    exact hfit.2 j (by omega) ⟨by omega, fun i hi => Or.inl (htail (j + i) (by omega) (by omega))⟩

/-- **The slots of a directory with a new entry.**  Free slots before the end of the directory have become one
entry, if no sector before its place marks the end. -/
lemma slots_placed (h : fs.Directory d cluster cs) (htidy : fs.TidyDir d cs) {pre suf : List ℕ}
    (hsplit : fs.dirSectors cs = pre ++ sector :: suf)
    (hfit : FirstFit (sectorBytes d sector) (lfnCount longName + 1) start)
    (hshort : shortName.length = 11) (hfirst : firstCluster < 2 ^ 32) (hsize : fileSize < 2 ^ 32)
    (hattr : attr ≠ attrLfn)
    (hused : shortName.getD 0 0 ≠ slotEnd ∧ shortName.getD 0 0 ≠ slotDeleted)
    (hend : ¬ ∃ e ∈ slotsOf d pre, e.byte 0 = slotEnd) :
    ∃ e name, EntryPut longName shortName attr firstCluster fileSize e name
      (slotsOf d (fs.dirSectors cs))
      (slotsOf (placed d longName shortName attr firstCluster fileSize sector start) (fs.dirSectors cs)) := by
  have hroom := hfit.1.1
  obtain ⟨e, name, hitem, hentry, hname⟩ := item_placed sector hroom hshort hfirst hsize hattr hused d
  have hnodup := h.sectors_nodup
  rw [hsplit] at hnodup
  have hpre : sector ∉ pre := fun hmem => (List.nodup_append.mp hnodup).2.2 sector hmem sector
    (List.mem_cons_self ..) rfl
  have hsuf : sector ∉ suf := (List.nodup_cons.mp (List.nodup_append.mp hnodup).2.1).1
  -- The slots of the sector before the place, at the place and behind it.
  have hparts : ∀ buf : Bytes, slotsIn buf 0 entriesPerSector = slotsIn buf 0 start ++
      (slotsIn buf start (lfnCount longName + 1) ++ slotsIn buf (start + (lfnCount longName + 1))
        (entriesPerSector - (start + (lfnCount longName + 1)))) := fun buf => by
    rw [← slotsIn_append]
    have hall := slotsIn_append buf 0 start
      (lfnCount longName + 1 + (entriesPerSector - (start + (lfnCount longName + 1))))
    rwa [Nat.zero_add, show start + (lfnCount longName + 1 +
      (entriesPerSector - (start + (lfnCount longName + 1)))) = entriesPerSector by omega] at hall
  have hslots : ∀ m : Disk, slotsOf m (fs.dirSectors cs) =
      (slotsOf m pre ++ slotsIn (sectorBytes m sector) 0 start) ++
        (slotsIn (sectorBytes m sector) start (lfnCount longName + 1) ++
          (slotsIn (sectorBytes m sector) (start + (lfnCount longName + 1))
            (entriesPerSector - (start + (lfnCount longName + 1))) ++ slotsOf m suf)) := fun m => by
    rw [hsplit, slotsOf, List.flatMap_append, ← slotsOf, ← slotsOf, slotsOf_cons, hparts]
    simp only [List.append_assoc]
  obtain ⟨-, -, hothers⟩ := read_putEntry longName attr start (sectorBytes d sector) hshort hfirst hsize
    (by unfold entriesPerSector blockSize at hroom; omega)
  have hsame : ∀ a n, a + n ≤ start ∨ start + lfnCount longName < a → a + n ≤ entriesPerSector →
      slotsIn (sectorBytes (placed d longName shortName attr firstCluster fileSize sector start) sector) a n =
        slotsIn (sectorBytes d sector) a n := fun a n hout hle => by
    refine List.map_congr_left fun j hj => ?_
    obtain ⟨hj, hj'⟩ := List.mem_range'_1.mp hj
    rw [read_placed (by omega)]
    exact hothers j (by omega)
  rw [TidyDir, hslots] at htidy
  have htidy' : Tidy none (slotsOf d (pre ++ sector :: suf)) := by
    rw [← hsplit, hslots]
    exact htidy
  have hbefore := end_before htidy' hfit hend
  refine ⟨e, name, ⟨hentry, hname, _, _, _, _, hslots d, ?_, hbefore, fun x hx => ?_, hitem, ?_, ?_⟩⟩
  · rw [hslots, slotsOf_placed hpre, slotsOf_placed hsuf, hsame 0 start (by omega) (by omega),
      hsame (start + (lfnCount longName + 1)) _ (Or.inr (by omega)) (by omega)]
  · obtain ⟨j, hj, rfl⟩ := List.mem_map.mp hx
    obtain ⟨hj, hj'⟩ := List.mem_range'_1.mp hj
    have hslot := hfit.1.2 (j - start) (by omega)
    rwa [show start + (j - start) = j by omega] at hslot
  · rw [slotsIn_length, slotsIn_length]
  · rw [slotsIn_length]

/-- What lies behind the end of a directory is not visited. -/
lemma listing_hidden {pre suf suf' : List ℕ} {cs' : List ℕ} (hsplit : fs.dirSectors cs = pre ++ suf)
    (hsplit' : fs.dirSectors cs' = pre ++ suf') (hslots : slotsOf d' pre = slotsOf d pre)
    (hend : ∃ e ∈ slotsOf d pre, e.byte 0 = slotEnd) : fs.listing d' cs' = fs.listing d cs := by
  have hlisting : ∀ (m : Disk) (l l' : List ℕ), fs.dirSectors l = pre ++ l' → slotsOf m pre = slotsOf d pre →
      fs.listing m l = entriesFrom 0 Lfn.init (slotsOf d pre) := fun m l l' hl hm => by
    rw [listing, hl, slotsOf, List.flatMap_append, ← slotsOf, hm, entriesFrom_append,
      carry_eq_none.mpr hend, Option.map_none, Option.getD_none, List.append_nil]
  rw [hlisting d' cs' suf' hsplit' hslots, hlisting d cs suf hsplit rfl]

/-! ### A directory that grows -/

/-- A directory after a cluster has been linked to it: its entries are the same, and the slots of the new
cluster mark the end. -/
lemma grown_directory (h : fs.Directory d cluster cs) (hused : ∀ c ∈ cs, fs.fatEntry d c ≠ fat32Free)
    {init rest : List ℕ} {last new : ℕ} (hsplit : cs = init ++ [last])
    (hfree : fs.freeClusters d = new :: rest) :
    fs.Directory (fs.grown d last new) cluster (cs ++ [new]) ∧
      (∀ c ∈ cs ++ [new], fs.fatEntry (fs.grown d last new) c ≠ fat32Free) ∧
      fs.freeClusters (fs.grown d last new) = rest ∧
      slotsOf (fs.grown d last new) (fs.dirSectors cs) = slotsOf d (fs.dirSectors cs) ∧
      ∀ x ∈ slotsOf (fs.grown d last new) (fs.dirSectors [new]), x.byte 0 = slotEnd := by
  have hs := h.sound
  obtain ⟨h₁, h₂, hnew⟩ := mem_freeClusters.mp (hfree ▸ List.mem_cons_self (a := new) (l := rest))
  have hnew' : fs.IsCluster new := ⟨h₁, by omega⟩
  have hlast : fs.IsCluster last := h.clusters last (by simp [hsplit])
  have hwritten := (Written.refl h.chain hused).grow hs h.clusters
    (by rw [List.append_nil, hsplit]) hfree fun p hp => by
      rw [List.append_nil] at hp
      exact if_neg (Nat.not_lt_of_le hp)
  rw [List.nil_append] at hwritten
  refine ⟨⟨hs, hwritten.chain, fun c hc => ?_⟩, hwritten.used,
    hs.freeClusters_grown hfree (hused last (by simp [hsplit])), ?_, fun x hx => ?_⟩
  · rcases List.mem_append.mp hc with hc | hc
    · exact h.clusters c hc
    · rwa [List.mem_singleton.mp hc]
  · rw [dirSlots_eq, dirSlots_eq]
    refine List.map_congr_left fun p hp => funext fun i => ?_
    obtain ⟨c, hc, j, haddr, hj⟩ := h.slotAddr_cluster (p := p)
      (by simpa only [Nat.zero_add] using (List.mem_range'_1.mp hp).2)
    have hi := i.isLt
    have hne : c ≠ new := fun heq => hused c hc (heq ▸ hnew)
    rw [DirEntry.read, DirEntry.read, haddr, Nat.add_assoc,
      grown_byte hs hlast hnew' (h.clusters c hc) (by omega), if_neg hne]
  · obtain ⟨sector, hsector, hx⟩ := List.mem_flatMap.mp hx
    obtain ⟨j, hj, rfl⟩ := List.mem_map.mp hx
    rw [dirSectors, List.flatMap_singleton] at hsector
    obtain ⟨i, hi, rfl⟩ := List.mem_map.mp hsector
    have hj := (List.mem_range'_1.mp hj).2
    have hle : (i + 1) * blockSize ≤ fs.spc * blockSize := Nat.mul_le_mul_right _ (List.mem_range.mp hi)
    have hin : i * blockSize + j * 32 < fs.clusterSize := by
      rw [hs.size_eq]
      unfold entriesPerSector blockSize at *
      omega
    rw [DirEntry.byte_read (by omega), Nat.add_zero, sectorBytes,
      show fs.sectorOf new i * blockSize + j * 32 = fs.clusterAddr new + (i * blockSize + j * 32) by
        rw [clusterAddr, sectorOf, Nat.add_mul _ i, Nat.add_assoc],
      grown_byte hs hlast hnew' hnew' hin, if_pos rfl]
    rfl

/-! ### What `create_dir_entry` does -/

/-- The search for a place goes on behind the end of the directory: a sector in which the end is marked has
too little room. -/
def PastEnd (d : Disk) (total : ℕ) (sectors : List ℕ) : Prop :=
  ∃ pre x suf, sectors = pre ++ x :: suf ∧ (∀ y ∈ pre ++ [x], SectorFull d total y) ∧ EndMarked d x

/-- For one slot there is room in a sector in which the end is marked. -/
lemma not_pastEnd {sectors : List ℕ} : ¬ PastEnd d 1 sectors := by
  rintro ⟨pre, x, suf, -, hfull, j, hj, hend⟩
  refine hfull x (by simp) j ⟨hj, fun i hi => Or.inl ?_⟩
  rwa [Nat.lt_one_iff.mp hi]

/-- Full sectors one of which marks the end. -/
lemma pastEnd_of {sectors pre suf : List ℕ} {total : ℕ} (hsplit : sectors = pre ++ suf)
    (hfull : ∀ x ∈ pre, SectorFull d total x) (hend : ∃ x ∈ pre, EndMarked d x) :
    PastEnd d total sectors := by
  obtain ⟨x, hx, hend⟩ := hend
  obtain ⟨pre₁, pre₂, rfl⟩ := List.append_of_mem hx
  refine ⟨pre₁, x, pre₂ ++ suf, by rw [hsplit, List.append_assoc, List.cons_append], fun y hy => hfull y ?_,
    hend⟩
  rcases List.mem_append.mp hy with hy | hy
  · exact List.mem_append_left _ hy
  · rw [List.mem_singleton.mp hy]
    exact List.mem_append_right _ (List.mem_cons_self ..)

/-- The end is marked before the first sector that has room. -/
lemma PastEnd.before {sectors pre suf : List ℕ} {total : ℕ} (h : PastEnd d total sectors)
    (hsplit : sectors = pre ++ sector :: suf) (hroom : ¬ SectorFull d total sector) :
    ∃ x ∈ pre, EndMarked d x := by
  obtain ⟨pre', x, suf', hsplit', hfull, hend⟩ := h
  rw [hsplit] at hsplit'
  rcases List.append_eq_append_iff.mp hsplit' with ⟨as, hpre, hsuf⟩ | ⟨bs, hpre, hsuf⟩
  · refine absurd (hfull sector ?_) hroom
    cases as with
    | nil =>
      obtain ⟨rfl, -⟩ := List.cons.inj hsuf
      simp
    | cons a as =>
      obtain ⟨rfl, -⟩ := List.cons.inj hsuf
      simp [hpre]
  · cases bs with
    | nil =>
      obtain ⟨rfl, -⟩ := List.cons.inj hsuf
      exact absurd (hfull x (by simp)) hroom
    | cons b bs =>
      obtain ⟨rfl, -⟩ := List.cons.inj hsuf
      exact ⟨x, by simp [hpre], hend⟩

/-- An entry has been added to a directory: its chain has been written, and has grown if no sector had room. -/
structure EntryAdded (fs : Fat32Fs) (d : Disk) (cluster : ℕ) (cs : List ℕ) (longName : Str)
    (shortName : List UInt8) (attr : UInt8) (firstCluster fileSize : ℕ) (d' : Disk) (news : List ℕ) :
    Prop where
  written : ∃ f, fs.Written d cluster cs d' news f
  grows : news.length ≤ 1 ∧ (news ≠ [] → ∀ x ∈ fs.dirSectors cs, SectorFull d (lfnCount longName + 1) x)
  hidden : PastEnd d (lfnCount longName + 1) (fs.dirSectors cs) →
    fs.listing d' (cs ++ news) = fs.listing d cs
  shown : ¬ PastEnd d (lfnCount longName + 1) (fs.dirSectors cs) → ∃ e name es,
    EntryPut longName shortName attr firstCluster fileSize e name es
      (slotsOf d' (fs.dirSectors (cs ++ news))) ∧
    ∃ ends, es = slotsOf d (fs.dirSectors cs) ++ ends ∧ ∀ x ∈ ends, x.byte 0 = slotEnd

/-- A sector of a directory is a sector of one of its clusters. -/
lemma exists_sector_of (hmem : sector ∈ fs.dirSectors cs) : ∃ pre c suf, cs = pre ++ c :: suf ∧
    ∃ i < fs.spc, sector = fs.sectorOf c i ∧ sector * blockSize = fs.clusterAddr c + i * blockSize := by
  obtain ⟨c, hc, hsector⟩ := List.mem_flatMap.mp hmem
  obtain ⟨i, hi, rfl⟩ := List.mem_map.mp hsector
  obtain ⟨pre, suf, hsplit⟩ := List.append_of_mem hc
  refine ⟨pre, c, suf, hsplit, i, List.mem_range.mp hi, rfl, ?_⟩
  rw [clusterAddr, sectorOf, Nat.add_mul _ i]

/-- An entry is written to a sector of the chain. -/
lemma Written.place (hs : fs.Sound) (hcs : ∀ c ∈ cs, fs.IsCluster c) {news : List ℕ} {f : ℕ → UInt8}
    (hw : fs.Written d cluster cs d' news f) (hmem : sector ∈ fs.dirSectors (cs ++ news)) :
    ∃ f, fs.Written d cluster cs (placed d' longName shortName attr firstCluster fileSize sector start)
      news f := by
  obtain ⟨pre, c, suf, hsplit, i, hi, -, haddr⟩ := exists_sector_of hmem
  have hwritten := hw.write (b := putEntry longName shortName attr firstCluster fileSize start
    (sectorBytes d' sector)) hs hcs hsplit hi
  rw [← haddr] at hwritten
  exact ⟨_, hwritten⟩

/-- **The result of `create_dir_entry`.**  It fails if and only if no sector of the directory has room for the
entry and no cluster is free.  Otherwise the entry is added. -/
theorem create_spec (h : fs.Directory d cluster cs) (hused : ∀ c ∈ cs, fs.fatEntry d c ≠ fat32Free)
    (htidy : fs.TidyDir d cs) (hshort : fs.makeShortName d longName cluster = some shortName)
    (hlen : shortName.length = 11)
    (hbyte : shortName.getD 0 0 ≠ slotEnd ∧ shortName.getD 0 0 ≠ slotDeleted)
    (hsmall : lfnCount longName + 1 ≤ entriesPerSector) (hfirst : firstCluster < 2 ^ 32)
    (hsize : fileSize < 2 ^ 32) (hattr : attr ≠ attrLfn) :
    ((∀ x ∈ fs.dirSectors cs, SectorFull d (lfnCount longName + 1) x) ∧ fs.freeClusters d = [] ∧
      fs.createDirEntry d cluster longName attr firstCluster fileSize = some (none, d)) ∨
    ∃ place d' news, fs.createDirEntry d cluster longName attr firstCluster fileSize =
        some (some place, d') ∧
      fs.EntryAdded d cluster cs longName shortName attr firstCluster fileSize d' news := by
  have hs := h.sound
  obtain ⟨place, hplace, hrun⟩ := h.create_run hshort hsmall attr firstCluster fileSize
  have hw := Written.refl h.chain hused
  rw [hrun]
  cases hplace with
  | full hfull hfree => exact Or.inl ⟨hfull, hfree, rfl⟩
  | @inside pre suf sector start hsplit hpre hfit =>
    have hnodup := h.sectors_nodup
    rw [hsplit] at hnodup
    have hnot : sector ∉ pre := fun hmem => (List.nodup_append.mp hnodup).2.2 sector hmem sector
      (List.mem_cons_self ..) rfl
    refine Or.inr ⟨_, _, [], rfl, hw.place hs h.clusters (by rw [List.append_nil, hsplit]; simp),
      ⟨Nat.zero_le 1, fun hne => absurd rfl hne⟩, fun hpast => ?_, fun hpast => ?_⟩
    · rw [List.append_nil]
      refine listing_hidden hsplit hsplit (slotsOf_placed hnot d) (exists_endMarked.mp ?_)
      exact hpast.before hsplit fun hfull => hfull start hfit.1
    · rw [List.append_nil]
      obtain ⟨e, name, hput⟩ := slots_placed h htidy hsplit hfit hlen hfirst hsize hattr hbyte fun hend =>
        hpast (pastEnd_of hsplit hpre (exists_endMarked.mpr hend))
      exact ⟨e, name, _, hput, [], (List.append_nil _).symm, nofun⟩
  | @behind init rest last new hfull hsplit hfree =>
    obtain ⟨hdir, hused', -, hsame, hnew⟩ := grown_directory h hused hsplit hfree
    obtain ⟨m, hm⟩ : ∃ m, fs.spc = m + 1 := ⟨fs.spc - 1, by have := hs.spc_pos; omega⟩
    have hsectors : fs.dirSectors (cs ++ [new]) = fs.dirSectors cs ++ fs.sectorOf new 0 ::
        ((List.range m).map Nat.succ).map (fs.sectorOf new) := by
      rw [dirSectors_append, dirSectors_cons fs new, show fs.dirSectors [] = [] from rfl, List.append_nil, hm,
        List.range_succ_eq_map, List.map_cons]
    have hslots : ∀ t : Disk, slotsOf t (fs.dirSectors (cs ++ [new])) =
        slotsOf t (fs.dirSectors cs) ++ slotsOf t (fs.dirSectors [new]) := fun t => by
      rw [dirSectors_append, slotsOf, List.flatMap_append, ← slotsOf, ← slotsOf]
    have hnodup := hdir.sectors_nodup
    rw [hsectors] at hnodup
    have hnot : fs.sectorOf new 0 ∉ fs.dirSectors cs := fun hmem => (List.nodup_append.mp hnodup).2.2 _ hmem _
      (List.mem_cons_self ..) rfl
    obtain ⟨h₁, h₂, -⟩ := mem_freeClusters.mp (hfree ▸ List.mem_cons_self (a := new) (l := rest))
    have hfit : FirstFit (sectorBytes (fs.grown d last new) (fs.sectorOf new 0)) (lfnCount longName + 1) 0 :=
      (grown_firstFit hs (h.clusters last (by simp [hsplit])) ⟨h₁, by omega⟩ hsmall).mpr rfl
    refine Or.inr ⟨_, _, [new], rfl, ?_, ⟨le_rfl, fun _ => hfull⟩, fun hpast => ?_, fun hpast => ?_⟩
    · have hgrown := hw.grow hs h.clusters (by rw [List.append_nil, hsplit]) hfree
        fun p hp => by
          rw [List.append_nil] at hp
          exact if_neg (Nat.not_lt_of_le hp)
      exact hgrown.place hs h.clusters (by rw [List.nil_append, hsectors]; simp)
    · refine listing_hidden (List.append_nil _).symm hsectors ((slotsOf_placed hnot _).trans hsame) ?_
      obtain ⟨pre, x, suf, heq, -, hend⟩ := hpast
      exact exists_endMarked.mp ⟨x, by simp [heq], hend⟩
    · have htidy' : fs.TidyDir (fs.grown d last new) (cs ++ [new]) := by
        rw [TidyDir, hslots, hsame]
        exact htidy.append_end hnew
      obtain ⟨e, name, hput⟩ := slots_placed hdir htidy' hsectors hfit hlen hfirst hsize hattr hbyte fun hend =>
        hpast (pastEnd_of (List.append_nil _).symm hfull (exists_endMarked.mpr (hsame ▸ hend)))
      exact ⟨e, name, _, hput, slotsOf (fs.grown d last new) (fs.dirSectors [new]), by rw [hslots, hsame], hnew⟩

/-! ### The short name -/

/-- The start of a part of a short name neither marks the end nor a deleted slot. -/
lemma padded_usable {l : List UInt8} (h : ∀ c ∈ l, shortChar c = true) (n : ℕ) :
    (padded (n + 1) (l.map toAsciiUppercase)).getD 0 0 ≠ slotEnd ∧
      (padded (n + 1) (l.map toAsciiUppercase)).getD 0 0 ≠ slotDeleted := by
  cases l with
  | nil =>
    have hspace : (padded (n + 1) (([] : List UInt8).map toAsciiUppercase)).getD 0 0 = 0x20 := rfl
    rw [hspace]
    decide
  | cons c l =>
    have hfirst : (padded (n + 1) ((c :: l).map toAsciiUppercase)).getD 0 0 = toAsciiUppercase c := rfl
    rw [hfirst]
    exact (shortChar_spec (h c (List.mem_cons_self ..))).2.2

namespace Directory

/-- A name has a short name that can stand in a slot. -/
lemma shortName_usable (h : fs.Directory d cluster cs) (longName : Str) :
    ∃ shortName, fs.makeShortName d longName cluster = some shortName ∧ shortName.length = 11 ∧
      (shortName.getD 0 0 ≠ slotEnd ∧ shortName.getD 0 0 ≠ slotDeleted) ∧
      (isValid83 longName = true →
        shortName = padded 8 ((splitDot longName.asBytes).1.map toAsciiUppercase) ++
          padded 3 ((splitDot longName.asBytes).2.map toAsciiUppercase)) := by
  cases hvalid : isValid83 longName with
  | true =>
    have hlen := padded_length 8 ((splitDot longName.asBytes).1.map toAsciiUppercase)
    refine ⟨_, makeShortName_valid hvalid, ?_, ?_, fun _ => rfl⟩
    · rw [List.length_append, hlen, padded_length]
    · rw [List.getD_append _ _ _ _ (by omega)]
      exact padded_usable (isValid83_spec hvalid).2.2.2.1 7
  | false =>
    obtain ⟨k, -, -, hshort, -⟩ := makeShortName_spec h.visited_eq hvalid
    have hbase : (baseName longName).length = 8 ∧ ((baseName longName).getD 0 0 ≠ slotEnd ∧
        (baseName longName).getD 0 0 ≠ slotDeleted) := by
      have heq : baseName longName = ((padded 8 ((((splitDot longName.asBytes).1.filter shortChar).take
          6).map toAsciiUppercase)).set 6 0x7E).set 7 0x31 := if_neg (by rw [hvalid]; decide)
      have hfirst : (baseName longName).getD 0 0 = (padded 8 ((((splitDot longName.asBytes).1.filter
          shortChar).take 6).map toAsciiUppercase)).getD 0 0 := by
        rw [heq, List.getD_eq_getElem?_getD, List.getElem?_set_ne (by decide),
          List.getElem?_set_ne (by decide), List.getD_eq_getElem?_getD]
      refine ⟨by rw [heq, List.length_set, List.length_set, padded_length], ?_⟩
      rw [hfirst]
      exact padded_usable (fun c hc => (List.mem_filter.mp (List.mem_of_mem_take hc)).2) 7
    have hnumbered : (numbered longName k).length = 8 := by rw [numbered, List.length_set, hbase.1]
    refine ⟨_, hshort, ?_, ?_, nofun⟩
    · rw [List.length_append, hnumbered, baseExt, padded_length]
    · rw [List.getD_append _ _ _ _ (by omega), numbered, List.getD_eq_getElem?_getD,
        List.getElem?_set_ne (by decide), ← List.getD_eq_getElem?_getD]
      exact hbase.2

end Directory

/-! ### The entry as it is seen by name -/

/-- What `create_dir_entry` does.  It fails if and only if no sector of the directory has room for the entry
and no cluster is free.  Otherwise the other files and directories are kept.  The entry is found by its name
if the name was not found before, and the others are found as before; but if the end of the directory is
marked in a sector that has too little room, the entry lies behind the end, and nothing is found that was not
found before. -/
def CreatesEntry (fs : Fat32Fs) (d : Disk) (cluster : ℕ) (cs : List ℕ) (longName : Str) (attr : UInt8)
    (firstCluster fileSize : ℕ) : Prop :=
  ((∀ x ∈ fs.dirSectors cs, SectorFull d (lfnCount longName + 1) x) ∧ fs.freeClusters d = [] ∧
    fs.createDirEntry d cluster longName attr firstCluster fileSize = some (none, d)) ∨
  ∃ place d' news, fs.createDirEntry d cluster longName attr firstCluster fileSize =
      some (some place, d') ∧ news.length ≤ 1 ∧ fs.Directory d' cluster (cs ++ news) ∧
    (∀ l : List ℕ, (∀ c ∈ l, fs.IsCluster c) → l.Disjoint (cs ++ news) → fs.Kept d d' l) ∧
    (PastEnd d (lfnCount longName + 1) (fs.dirSectors cs) →
      ∀ other, fs.findEntry d' cluster other = fs.findEntry d cluster other) ∧
    (¬ PastEnd d (lfnCount longName + 1) (fs.dirSectors cs) → fs.TidyDir d' (cs ++ news) ∧
      ∃ e name, e.attr = attr ∧ e.firstCluster = firstCluster ∧ e.fileSize = fileSize ∧
        (Proper83 longName ∨ LongAscii longName → nameMatches name longName.asBytes = true) ∧
        ∀ other : Str,
          (nameMatches name other.asBytes = false →
            fs.findEntry d' cluster other = fs.findEntry d cluster other) ∧
          (nameMatches name other.asBytes = true → fs.findEntry d cluster other = some none →
            fs.findEntry d' cluster other = some (some (e, name))))

/-- The name of an entry for a name that can be read back. -/
lemma EntryPut.name_matches {e : DirEntry} {name : List UInt8} {es es' : List DirEntry}
    (h : EntryPut longName shortName attr firstCluster fileSize e name es es')
    (hvalid : isValid83 longName = true →
      shortName = padded 8 ((splitDot longName.asBytes).1.map toAsciiUppercase) ++
        padded 3 ((splitDot longName.asBytes).2.map toAsciiUppercase))
    (hname : Proper83 longName ∨ LongAscii longName) : nameMatches name longName.asBytes = true := by
  rcases hname with hname | hname
  · rw [h.named.1 (lfnCount_valid hname.1)]
    exact (hname.read (h.short.short.trans (hvalid hname.1))).1
  · rw [h.named.2 hname]
    exact nameMatches_iff.mpr rfl

end Fat32Fs

end Fs

end NekOS
