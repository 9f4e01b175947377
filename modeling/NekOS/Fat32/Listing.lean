import NekOS.Fat32.Endings

/-!
# Directories as lists of slots

A directory is the list of the slots in the sectors of its chain.  What a walk visits is a function of
this list, the listing, and so is the position of every entry.  The loops over the sectors of a chain are
loops over a list of sectors.
-/

namespace NekOS

namespace Fs

/-! ### Lists of slots -/

/-- The buffer for a long name behind a list of slots.  Without a value the end of the directory is among
them. -/
def carry : Lfn → List DirEntry → Option Lfn
  | lfn, [] => some lfn
  | lfn, e :: es =>
    if e.byte 0 = slotEnd then none
    else if e.byte 0 = slotDeleted then carry lfn.reset es
    else if e.attr = attrLfn then carry (lfn.push e) es
    else carry lfn.reset es

/-- The entries in a list of slots, with their positions and their names.  The first slot has the position
`k`. -/
def entriesFrom : ℕ → Lfn → List DirEntry → List (ℕ × Found)
  | _, _, [] => []
  | k, lfn, e :: es =>
    if e.byte 0 = slotEnd then []
    else if e.byte 0 = slotDeleted then entriesFrom (k + 1) lfn.reset es
    else if e.attr = attrLfn then entriesFrom (k + 1) (lfn.push e) es
    else (k, e, lfn.entryName e) :: entriesFrom (k + 1) lfn.reset es

section Slots

variable {k : ℕ} {lfn : Lfn} {es : List DirEntry}

/-- The buffer behind two lists. -/
lemma carry_append (lfn : Lfn) (es es' : List DirEntry) :
    carry lfn (es ++ es') = (carry lfn es).bind fun lfn => carry lfn es' := by
  induction es generalizing lfn with
  | nil => rfl
  | cons e es ih =>
    rw [List.cons_append, carry, carry]
    split_ifs
    · rfl
    · exact ih _
    · exact ih _
    · exact ih _

/-- The entries of two lists. -/
lemma entriesFrom_append (k : ℕ) (lfn : Lfn) (es es' : List DirEntry) :
    entriesFrom k lfn (es ++ es') = entriesFrom k lfn es ++
      ((carry lfn es).map fun lfn => entriesFrom (k + es.length) lfn es').getD [] := by
  induction es generalizing k lfn with
  | nil => rfl
  | cons e es ih =>
    rw [List.cons_append, entriesFrom, entriesFrom, carry, List.length_cons,
      show k + (es.length + 1) = k + 1 + es.length by omega]
    split_ifs
    · rfl
    · exact ih _ _
    · exact ih _ _
    · rw [ih, List.cons_append]

/-- The positions are those of the slots. -/
lemma position_of_mem {p : ℕ × Found} (h : p ∈ entriesFrom k lfn es) :
    k ≤ p.1 ∧ es[p.1 - k]? = some p.2.1 := by
  induction es generalizing k lfn with
  | nil => cases h
  | cons e es ih =>
    have hlater : ∀ {lfn'}, p ∈ entriesFrom (k + 1) lfn' es →
        k ≤ p.1 ∧ (e :: es)[p.1 - k]? = some p.2.1 := fun h => by
      obtain ⟨hle, hget⟩ := ih h
      refine ⟨by omega, ?_⟩
      rwa [show p.1 - k = p.1 - (k + 1) + 1 by omega, List.getElem?_cons_succ]
    rw [entriesFrom] at h
    split_ifs at h
    · cases h
    · exact hlater h
    · exact hlater h
    · rcases List.mem_cons.mp h with rfl | h
      · exact ⟨le_rfl, by rw [Nat.sub_self, List.getElem?_cons_zero]⟩
      · exact hlater h

/-- The positions increase. -/
lemma positions_sorted (k : ℕ) (lfn : Lfn) (es : List DirEntry) :
    (entriesFrom k lfn es).Pairwise fun p q => p.1 < q.1 := by
  induction es generalizing k lfn with
  | nil => exact .nil
  | cons e es ih =>
    rw [entriesFrom]
    split_ifs
    · exact .nil
    · exact ih _ _
    · exact ih _ _
    · exact List.pairwise_cons.mpr ⟨fun q hq => (position_of_mem hq).1, ih _ _⟩

/-- The entries of slots of which some entries have been changed, but neither their names nor what they
are. -/
lemma entriesFrom_alter {M : ℕ → Prop} [DecidablePred M] {f : DirEntry → DirEntry}
    (hf : ∀ e, (f e).byte 0 = e.byte 0 ∧ (f e).attr = e.attr ∧ (f e).shortName = e.shortName)
    {g g' : ℕ → DirEntry} {n : ℕ} (hg : ∀ p, k ≤ p → p < k + n → g' p = if M p then f (g p) else g p)
    (hM : ∀ p, k ≤ p → p < k + n → M p → ∃ q ∈ entriesFrom k lfn ((List.range' k n).map g), q.1 = p) :
    entriesFrom k lfn ((List.range' k n).map g') =
      (entriesFrom k lfn ((List.range' k n).map g)).map fun q =>
        if M q.1 then (q.1, f q.2.1, q.2.2) else q := by
  induction n generalizing k lfn with
  | zero => rfl
  | succ n ih =>
    rw [List.range'_succ, List.map_cons, entriesFrom] at hM
    rw [List.range'_succ, List.map_cons, List.map_cons, entriesFrom, entriesFrom]
    have hg' : ∀ p, k + 1 ≤ p → p < k + 1 + n → g' p = if M p then f (g p) else g p :=
      fun p hp hlt => hg p (by omega) (by omega)
    have hfirst := hg k le_rfl (by omega)
    have hkeep : (g' k).byte 0 = (g k).byte 0 ∧ (g' k).attr = (g k).attr ∧
        (g' k).shortName = (g k).shortName := by
      rw [hfirst]
      split_ifs
      · exact hf _
      · exact ⟨rfl, rfl, rfl⟩
    have hname : lfn.entryName (g' k) = lfn.entryName (g k) := by
      rw [Lfn.entryName, hkeep.2.2, Lfn.entryName]
    rw [hkeep.1, hkeep.2.1, hname]
    split_ifs at hM ⊢ with h₁ h₂ h₃
    · rfl
    · exact ih hg' fun p hp hlt => hM p (by omega) (by omega)
    · have hk : ¬ M k := fun hMk => by
        obtain ⟨q, hq, hqk⟩ := hM k le_rfl (by omega) hMk
        have hle := (position_of_mem hq).1
        omega
      rw [hfirst, if_neg hk]
      exact ih hg' fun p hp hlt => hM p (by omega) (by omega)
    · rw [List.map_cons, hfirst, ih hg' fun p hp hlt hMp => ?_]
      · split_ifs <;> rfl
      · obtain ⟨q, hq, rfl⟩ := hM p (by omega) (by omega) hMp
        rcases List.mem_cons.mp hq with rfl | hq
        · omega
        · exact ⟨q, hq, rfl⟩

end Slots

/-! ### Walking over a sector -/

/-- The slots of a sector. -/
def slotsIn (buf : Bytes) (a n : ℕ) : List DirEntry :=
  (List.range' a n).map fun i => DirEntry.read buf (i * 32)

/-- The first slot and the others. -/
lemma slotsIn_succ (buf : Bytes) (a n : ℕ) :
    slotsIn buf a (n + 1) = DirEntry.read buf (a * 32) :: slotsIn buf (a + 1) n := by
  rw [slotsIn, List.range'_succ, List.map_cons, slotsIn]

/-- The number of slots. -/
lemma slotsIn_length (buf : Bytes) (a n : ℕ) : (slotsIn buf a n).length = n := by
  rw [slotsIn, List.length_map, List.length_range']

namespace Fat32Fs

/-- The callback that collects what is visited. -/
abbrev collect (e : DirEntry) (name : List UInt8) (es : List Found) : List Found := es ++ [(e, name)]

/-- A walk over slots of a sector. -/
lemma walkSlots_eq (buf : Bytes) (a n k : ℕ) (lfn : Lfn) (es : List Found) :
    Flow.forEach (walkSlot collect buf) (List.range' a n) (lfn, es) =
      match carry lfn (slotsIn buf a n) with
      | none => .ret (some (true, es ++ (entriesFrom k lfn (slotsIn buf a n)).map Prod.snd))
      | some lfn' => .next (lfn', es ++ (entriesFrom k lfn (slotsIn buf a n)).map Prod.snd) := by
  induction n generalizing a k lfn es with
  | zero =>
    rw [slotsIn, List.range'_zero, List.map_nil, carry, entriesFrom, List.map_nil, List.append_nil]
    rfl
  | succ n ih =>
    rw [List.range'_succ, Flow.forEach, walkSlot, slotsIn_succ, carry, entriesFrom]
    dsimp only
    split_ifs
    · rw [List.map_nil, List.append_nil]
      rfl
    · exact ih _ _ _ _
    · exact ih _ _ _ _
    · refine (ih (a + 1) (k + 1) _ _).trans ?_
      rw [List.map_cons, List.append_assoc, List.singleton_append]

/-! ### The sectors of a directory -/

/-- The sectors of a chain of clusters, in order. -/
def dirSectors (fs : Fat32Fs) (cs : List ℕ) : List ℕ :=
  cs.flatMap fun c => (List.range fs.spc).map (fs.sectorOf c)

/-- The bytes of a sector. -/
def sectorBytes (d : Disk) (sector : ℕ) : Bytes := fun j => d (sector * blockSize + j)

/-- The slots in some sectors. -/
def slotsOf (d : Disk) (sectors : List ℕ) : List DirEntry :=
  sectors.flatMap fun sector => slotsIn (sectorBytes d sector) 0 entriesPerSector

/-- **The listing of a directory**: its entries, with their positions and their names. -/
def listing (fs : Fat32Fs) (d : Disk) (cs : List ℕ) : List (ℕ × Found) :=
  entriesFrom 0 Lfn.init (slotsOf d (fs.dirSectors cs))

/-- A directory of a mounted volume: the chain of its clusters. -/
structure Directory (fs : Fat32Fs) (d : Disk) (cluster : ℕ) (cs : List ℕ) : Prop where
  sound : fs.Sound
  chain : Chain (fs.link d) cluster cs
  clusters : ∀ c ∈ cs, fs.IsCluster c

variable {fs : Fat32Fs} {d : Disk} {cluster : ℕ} {cs : List ℕ} {ρ σ : Type*}

/-- The number of slots in some sectors. -/
lemma slotsOf_length (d : Disk) (sectors : List ℕ) :
    (slotsOf d sectors).length = sectors.length * entriesPerSector := by
  induction sectors with
  | nil => exact (Nat.zero_mul _).symm
  | cons sector sectors ih =>
    rw [slotsOf, List.flatMap_cons, List.length_append, slotsIn_length, List.length_cons, Nat.add_mul,
      Nat.one_mul, Nat.add_comm]
    exact congrArg (· + _) ih

/-- The sectors of the first cluster and of the others. -/
lemma dirSectors_cons (fs : Fat32Fs) (c : ℕ) (cs : List ℕ) :
    fs.dirSectors (c :: cs) = (List.range fs.spc).map (fs.sectorOf c) ++ fs.dirSectors cs := by
  rw [dirSectors, List.flatMap_cons, dirSectors]

/-- The loop over the sectors of a cluster. -/
lemma forEach_sectors (hdata : fs.DataOnDisk) {c : ℕ} (hc : fs.IsCluster c) (body : ℕ → σ → Flow ρ σ)
    (s : σ) : Flow.forEach (fun i => body (wrap (fs.clusterToSector c + i))) (List.range fs.spc) s =
      Flow.forEach body ((List.range fs.spc).map (fs.sectorOf c)) s := by
  have hmap : ∀ (is : List ℕ) (s : σ), Flow.forEach body (is.map (fs.sectorOf c)) s =
      Flow.forEach (fun i => body (fs.sectorOf c i)) is s := fun is => by
    induction is with
    | nil => exact fun _ => rfl
    | cons i is ih =>
      intro s
      rw [List.map_cons, Flow.forEach, Flow.forEach]
      exact congrArg _ (funext ih)
  rw [hmap]
  refine Flow.forEach_congr (fun i hi s => ?_) s
  rw [clusterToSector_eq hdata hc (List.mem_range.mp hi), sectorOf]

namespace Directory

/-- The clusters are 32-bit numbers. -/
lemma lt (h : fs.Directory d cluster cs) {c : ℕ} (hc : c ∈ cs) : 2 ≤ c ∧ c < 2 ^ 32 := by
  have hle := h.sound.clusters_le
  have hsmall : ramdiskSectors < 2 ^ 14 := by decide
  obtain ⟨h₁, h₂⟩ := h.clusters c hc
  omega

/-- The sectors of a directory lie on the disk. -/
lemma sector_lt (h : fs.Directory d cluster cs) {sector : ℕ} (hs : sector ∈ fs.dirSectors cs) :
    sector < ramdiskSectors := by
  obtain ⟨c, hc, hs⟩ := List.mem_flatMap.mp hs
  obtain ⟨i, hi, rfl⟩ := List.mem_map.mp hs
  exact cluster_sectors h.sound.data (h.clusters c hc) (List.mem_range.mp hi)

/-- The sectors of a directory lie in the data area. -/
lemma le_sector {sector : ℕ} (hs : sector ∈ fs.dirSectors cs) : fs.dataStart ≤ sector := by
  obtain ⟨c, -, hs⟩ := List.mem_flatMap.mp hs
  obtain ⟨i, -, rfl⟩ := List.mem_map.mp hs
  unfold sectorOf
  omega

/-- **Loops over a directory.**  The loop over the sectors of a chain is a loop over a list of sectors,
as long as it does not change the chain. -/
lemma forSectors_eq (h : fs.Directory d cluster cs) {body : ℕ → σ → Flow (Option ρ) σ}
    {disk : σ → Disk} {result : σ → ρ} {J : σ → Prop} (hdisk : ∀ s, J s → disk s = d)
    (hkeep : ∀ sector < ramdiskSectors, ∀ s, J s → (body sector s).Post (fun _ => True) J) {s : σ}
    (hs : J s) : (fs.forSectors body (fs.followLink disk result) cluster s).join =
      match Flow.forEach body (fs.dirSectors cs) s with
      | .ret r => r
      | .next t => some (result t) := by
  have hlen : cs.length ≤ loopRounds :=
    (length_le_of_lt h.chain.nodup fun c hc => (h.lt hc).2).trans (by decide)
  have hlt : ∀ c ∈ cs, c < 2 ^ 32 := fun c hc => (h.lt hc).2
  obtain ⟨hsound, hchain, hclusters⟩ := h
  have hround : ∀ c, fs.IsCluster c → ∀ s, J s →
      (Flow.forEach body ((List.range fs.spc).map (fs.sectorOf c)) s).Post (fun _ => True) J := by
    intro c hc s hs
    refine (Flow.forEach_post (Q := fun _ => True)
      (I := fun sectors t => (∀ sector ∈ sectors, sector < ramdiskSectors) ∧ J t)
      (fun sector sectors t ht => ?_) ⟨fun sector hsector => ?_, hs⟩).imp (fun _ => id) fun t ht => ht.2
    · obtain ⟨hsector, hsectors⟩ := List.forall_mem_cons.mp ht.1
      exact (hkeep sector hsector t ht.2).imp (fun _ => id) fun u hu => ⟨hsectors, hu⟩
    · obtain ⟨i, hi, rfl⟩ := List.mem_map.mp hsector
      exact cluster_sectors hsound.data hc (List.mem_range.mp hi)
  unfold forSectors
  generalize loopRounds = n at hlen
  induction hchain generalizing s n with
  | @last c hnone =>
    obtain ⟨m, rfl⟩ : ∃ m, n = m + 1 := ⟨n - 1, by simp only [List.length_singleton] at hlen; omega⟩
    have hc := List.forall_mem_singleton.mp hclusters
    rw [Flow.loop, forEach_sectors hsound.data hc, dirSectors_cons, show fs.dirSectors [] = [] from rfl,
      List.append_nil]
    have hpost := hround c hc s hs
    cases hrun : Flow.forEach body ((List.range fs.spc).map (fs.sectorOf c)) s with
    | ret r => simp only [Flow.andThen, Option.join_some]
    | next t =>
      rw [hrun] at hpost
      simp only [Flow.andThen]
      rw [followLink_post disk result hsound.toOpened (hlt c (List.mem_singleton_self c))
        (hdisk t hpost), hnone]
      simp only [Option.join_some]
  | @link c c' cs hsome hchain ih =>
    obtain ⟨m, rfl⟩ : ∃ m, n = m + 1 := ⟨n - 1, by simp only [List.length_cons] at hlen; omega⟩
    obtain ⟨hc, hcs⟩ := List.forall_mem_cons.mp hclusters
    obtain ⟨hclt, hcslt⟩ := List.forall_mem_cons.mp hlt
    rw [Flow.loop, forEach_sectors hsound.data hc, dirSectors_cons, Flow.forEach_append]
    have hpost := hround c hc s hs
    cases hrun : Flow.forEach body ((List.range fs.spc).map (fs.sectorOf c)) s with
    | ret r => simp only [Flow.andThen, Option.join_some]
    | next t =>
      rw [hrun] at hpost
      simp only [Flow.andThen]
      rw [followLink_post disk result hsound.toOpened hclt (hdisk t hpost), hsome]
      exact ih hpost hcslt hcs m (by simp only [List.length_cons] at hlen; omega)

end Directory

/-! ### Where the slots lie -/

/-- The address of a slot of a directory. -/
def slotAddr (fs : Fat32Fs) (cs : List ℕ) (p : ℕ) : ℕ :=
  (fs.dirSectors cs).getD (p / entriesPerSector) 0 * blockSize + p % entriesPerSector * 32

/-- The number of slots of a directory. -/
def slotCount (fs : Fat32Fs) (cs : List ℕ) : ℕ := (fs.dirSectors cs).length * entriesPerSector

/-- The slots of a list of sectors one by one. -/
lemma slotsOf_eq (d : Disk) (sectors : List ℕ) : slotsOf d sectors =
    (List.range' 0 (sectors.length * entriesPerSector)).map fun p => DirEntry.read d
      (sectors.getD (p / entriesPerSector) 0 * blockSize + p % entriesPerSector * 32) := by
  have hper : entriesPerSector = 16 := rfl
  induction sectors with
  | nil => rfl
  | cons sector sectors ih =>
    have hsplit : List.range' 0 ((sectors.length + 1) * entriesPerSector) =
        List.range' 0 entriesPerSector ++
          (List.range' 0 (sectors.length * entriesPerSector)).map (entriesPerSector + ·) := by
      rw [List.map_add_range', Nat.add_zero, Nat.add_mul, Nat.one_mul, Nat.add_comm]
      exact (List.range'_append_1 ..).symm
    rw [slotsOf, List.flatMap_cons, List.length_cons, hsplit, List.map_append, List.map_map]
    refine congrArg₂ (· ++ ·) ?_ ?_
    · refine List.map_congr_left fun i hi => ?_
      obtain ⟨-, hlt⟩ := List.mem_range'_1.mp hi
      rw [Nat.zero_add] at hlt
      rw [Nat.div_eq_of_lt hlt, Nat.mod_eq_of_lt hlt, List.getD_cons_zero]
      exact funext fun j => congrArg d (Nat.add_assoc ..).symm
    · refine ih.trans (List.map_congr_left fun p _ => ?_)
      have hdiv : (entriesPerSector + p) / entriesPerSector = p / entriesPerSector + 1 := by
        rw [hper]
        omega
      rw [Function.comp_apply, hdiv, Nat.add_mod_left, List.getD_cons_succ]

/-- The slots of a directory one by one. -/
lemma dirSlots_eq (fs : Fat32Fs) (d : Disk) (cs : List ℕ) : slotsOf d (fs.dirSectors cs) =
    (List.range' 0 (fs.slotCount cs)).map fun p => DirEntry.read d (fs.slotAddr cs p) :=
  slotsOf_eq d _

namespace Directory

/-- The sectors of a directory are different. -/
lemma sectors_nodup (h : fs.Directory d cluster cs) : (fs.dirSectors cs).Nodup := by
  refine List.nodup_flatMap.mpr ⟨fun c hc => ?_, ?_⟩
  · exact List.nodup_range.map fun i j hij => by
      unfold sectorOf at hij
      omega
  · refine h.chain.nodup.imp_of_mem fun {c c'} hc hc' hne => ?_
    rw [Function.onFun, List.disjoint_left]
    intro sector hs hs'
    obtain ⟨i, hi, rfl⟩ := List.mem_map.mp hs
    obtain ⟨j, hj, heq⟩ := List.mem_map.mp hs'
    rw [List.mem_range] at hi hj
    have h₁ := (h.clusters c hc).1
    have h₂ := (h.clusters c' hc').1
    unfold sectorOf at heq
    rcases Nat.lt_or_gt_of_ne hne with hlt | hlt
    · have hle : (c - 2 + 1) * fs.spc ≤ (c' - 2) * fs.spc := Nat.mul_le_mul_right _ (by omega)
      rw [Nat.add_mul, Nat.one_mul] at hle
      omega
    · have hle : (c' - 2 + 1) * fs.spc ≤ (c - 2) * fs.spc := Nat.mul_le_mul_right _ (by omega)
      rw [Nat.add_mul, Nat.one_mul] at hle
      omega

/-- The sector of a slot. -/
lemma sector_mem {p : ℕ} (hp : p < fs.slotCount cs) :
    (fs.dirSectors cs).getD (p / entriesPerSector) 0 ∈ fs.dirSectors cs := by
  have hlt : p / entriesPerSector < (fs.dirSectors cs).length := by
    refine Nat.div_lt_of_lt_mul ?_
    rwa [Nat.mul_comm]
  rw [List.getD_eq_getElem _ _ hlt]
  exact List.getElem_mem hlt

/-- Different slots have different bytes. -/
lemma slotAddr_apart (h : fs.Directory d cluster cs) {p q : ℕ} (hp : p < fs.slotCount cs)
    (hq : q < fs.slotCount cs) (hne : p ≠ q) :
    fs.slotAddr cs p + 32 ≤ fs.slotAddr cs q ∨ fs.slotAddr cs q + 32 ≤ fs.slotAddr cs p := by
  have hsectors : p / entriesPerSector ≠ q / entriesPerSector →
      (fs.dirSectors cs).getD (p / entriesPerSector) 0 ≠
        (fs.dirSectors cs).getD (q / entriesPerSector) 0 := fun hne heq => by
    have hlt : ∀ {r}, r < fs.slotCount cs → r / entriesPerSector < (fs.dirSectors cs).length :=
      fun hr => Nat.div_lt_of_lt_mul (by rwa [Nat.mul_comm])
    rw [List.getD_eq_getElem _ _ (hlt hp), List.getD_eq_getElem _ _ (hlt hq)] at heq
    exact hne (h.sectors_nodup.getElem_inj_iff.mp heq)
  unfold slotAddr blockSize
  by_cases hsame : p / entriesPerSector = q / entriesPerSector
  · rw [hsame]
    unfold entriesPerSector blockSize at hsame ⊢
    omega
  · have hapart := hsectors hsame
    have hp' : p % entriesPerSector < 16 := Nat.mod_lt _ (by decide)
    have hq' : q % entriesPerSector < 16 := Nat.mod_lt _ (by decide)
    omega

/-- The slots lie in the data area. -/
lemma le_slotAddr {p : ℕ} (hp : p < fs.slotCount cs) :
    fs.dataStart * blockSize ≤ fs.slotAddr cs p :=
  (Nat.mul_le_mul_right _ (le_sector (sector_mem hp))).trans (Nat.le_add_right _ _)

/-- Writing to the data area does not change the chain. -/
lemma congr (h : fs.Directory d cluster cs) {d' : Disk}
    (hsame : ∀ x < fs.dataStart * blockSize, d' x = d x) : fs.Directory d' cluster cs := by
  refine ⟨h.sound, h.chain.congr fun c hc => ?_, h.clusters⟩
  have hle := h.sound.fatAddr_le (h.clusters c hc)
  rw [h.sound.link_eq (h.clusters c hc), h.sound.link_eq (h.clusters c hc),
    fatEntry_congr (d := d) fun x hx hlt => hsame x (by omega)]

end Directory

/-! ### Walking over a directory -/

/-- A walk over a list of sectors. -/
lemma walkSectors_eq {sectors : List ℕ} (hon : ∀ sector ∈ sectors, sector < ramdiskSectors) (k : ℕ)
    (lfn : Lfn) (es : List Found) :
    Flow.forEach (walkSector d collect) sectors (lfn, es) =
      match carry lfn (slotsOf d sectors) with
      | none => .ret (some (true, es ++ (entriesFrom k lfn (slotsOf d sectors)).map Prod.snd))
      | some lfn' => .next (lfn', es ++ (entriesFrom k lfn (slotsOf d sectors)).map Prod.snd) := by
  induction sectors generalizing k lfn es with
  | nil =>
    rw [slotsOf, List.flatMap_nil, carry, entriesFrom, List.map_nil, List.append_nil]
    rfl
  | cons sector sectors ih =>
    obtain ⟨hsector, hsectors⟩ := List.forall_mem_cons.mp hon
    have hslots : slotsOf d (sector :: sectors) =
        slotsIn (sectorBytes d sector) 0 entriesPerSector ++ slotsOf d sectors := by
      rw [slotsOf, List.flatMap_cons, slotsOf]
    rw [Flow.forEach, walkSector, diskRead_of_lt hsector, hslots, carry_append, entriesFrom_append,
      List.range_eq_range']
    dsimp only
    rw [show (fun i => d (sector * blockSize + i)) = sectorBytes d sector from rfl,
      walkSlots_eq (sectorBytes d sector) 0 entriesPerSector k lfn es]
    cases carry lfn (slotsIn (sectorBytes d sector) 0 entriesPerSector) with
    | none =>
      simp only [Option.bind_none, Option.map_none, Option.getD_none, List.append_nil]
      rfl
    | some lfn' =>
      simp only [Option.bind_some, Option.map_some, Option.getD_some, Flow.andThen]
      rw [ih hsectors (k + entriesPerSector), slotsIn_length, List.map_append, List.append_assoc]

namespace Directory

/-- **Walking a directory** visits its listing. -/
theorem visited_eq (h : fs.Directory d cluster cs) :
    fs.visited d cluster = some (true, (fs.listing d cs).map Prod.snd) := by
  rw [visited, walkDir_eq, h.forSectors_eq (J := fun _ => True) (fun _ _ => rfl) (fun _ _ _ _ => ?_) trivial,
    walkSectors_eq (fun _ => h.sector_lt) 0]
  · rw [listing]
    cases carry Lfn.init (slotsOf d (fs.dirSectors cs)) with
    | none => simp only [List.nil_append]
    | some lfn => simp only [List.nil_append]
  · cases walkSector d collect _ _ <;> trivial

/-- The callback of `find_entry` keeps the first entry with the name. -/
lemma foldEntries_find (search : List UInt8) (es : List Found) (o : Option Found) :
    foldEntries (findCallback search) o es =
      o.or (es.find? fun e => nameMatches e.2 search) := by
  induction es generalizing o with
  | nil => rw [foldEntries, List.foldl_nil, List.find?_nil, Option.or_none]
  | cons e es ih =>
    rw [foldEntries, List.foldl_cons]
    refine (ih _).trans ?_
    cases o with
    | some r => rfl
    | none =>
      rw [findCallback, List.find?_cons]
      cases nameMatches e.2 search <;> rfl

/-- `find_entry` finds the first entry of the listing with the name. -/
theorem findEntry_eq (h : fs.Directory d cluster cs) (name : Str) : fs.findEntry d cluster name =
    some (((fs.listing d cs).find? fun p => nameMatches p.2.2 name.asBytes).map Prod.snd) := by
  rw [findEntry, walkDir_eq_visited, h.visited_eq, Option.map_some, Option.map_some, foldEntries_find,
    Option.none_or, List.find?_map]
  rfl

end Directory

end Fat32Fs

end Fs

end NekOS
