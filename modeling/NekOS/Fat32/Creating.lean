import NekOS.Fat32.Keeping
import NekOS.Fat32.Extending
import NekOS.Fat32.Updating

/-!
# Creating an entry

`create_dir_entry` looks in one sector after the other for as many free slots in a row as the entry needs, and
links a new cluster to the directory if no sector has them.
-/

namespace NekOS

namespace Fs

namespace Fat32Fs

/-! ### Free slots in a sector -/

/-- A slot of a sector can be taken. -/
def SlotFree (buf : Bytes) (i : ℕ) : Prop := buf (i * 32) = slotEnd ∨ buf (i * 32) = slotDeleted

instance (buf : Bytes) (i : ℕ) : Decidable (SlotFree buf i) := inferInstanceAs (Decidable (_ ∨ _))

/-- From a slot on so many slots can be taken. -/
def Fits (buf : Bytes) (total start : ℕ) : Prop :=
  start + total ≤ entriesPerSector ∧ ∀ j < total, SlotFree buf (start + j)

/-- The first place with so many slots that can be taken. -/
def FirstFit (buf : Bytes) (total start : ℕ) : Prop :=
  Fits buf total start ∧ ∀ s < start, ¬ Fits buf total s

/-- The search for free slots in a sector finds the first place. -/
lemma scanFree_post (buf : Bytes) {total : ℕ} (htotal : 0 < total) :
    (Flow.forEach (scanFree buf total) (List.range entriesPerSector) (none, 0)).Post
      (fun start => FirstFit buf total start) fun _ => ∀ s, ¬ Fits buf total s := by
  refine (Flow.forRange_post (I := fun i run => run.1.getD i + run.2 = i ∧ run.2 < total ∧
    (run.1 = none → run.2 = 0) ∧ (∀ j, run.1.getD i ≤ j → j < i → SlotFree buf j) ∧
    ∀ s < run.1.getD i, ∃ j < total, s + j < i ∧ ¬ SlotFree buf (s + j)) (fun i hi run hrun => ?_)
    ⟨rfl, htotal, fun _ => rfl, fun _ _ hj => absurd hj (Nat.not_lt_zero _),
      fun _ hs => absurd hs (Nat.not_lt_zero _)⟩).imp (fun _ => id) fun run hrun s hfits => ?_
  · obtain ⟨start, n⟩ := run
    obtain ⟨hlen, hlt, hnone, hfree, hbefore⟩ := hrun
    dsimp only at hlen hlt hnone hfree hbefore
    unfold scanFree
    dsimp only
    split_ifs with hslot hroom
    · refine ⟨⟨by omega, fun j hj => ?_⟩, fun s hs hfits => ?_⟩
      · by_cases hji : start.getD i + j < i
        · exact hfree _ (by omega) hji
        · rwa [show start.getD i + j = i by omega]
      · obtain ⟨j, hj, -, hnot⟩ := hbefore s hs
        exact hnot (hfits.2 j hj)
    · refine ⟨?_, Nat.lt_of_not_le hroom, nofun, fun j hle hj => ?_, fun s hs => ?_⟩
      · dsimp only [Option.getD_some]
        omega
      · rcases Nat.lt_succ_iff_lt_or_eq.mp hj with hj | rfl
        · exact hfree j hle hj
        · exact hslot
      · obtain ⟨j, hj, hji, hnot⟩ := hbefore s hs
        exact ⟨j, hj, by omega, hnot⟩
    · refine ⟨rfl, htotal, fun _ => rfl, fun j hle hj => ?_, fun s hs => ?_⟩
      · dsimp only [Option.getD_none] at hle
        omega
      · dsimp only [Option.getD_none] at hs
        by_cases hbef : s < start.getD i
        · obtain ⟨j, hj, hji, hnot⟩ := hbefore s hbef
          exact ⟨j, hj, by omega, hnot⟩
        · exact ⟨i - s, by omega, by omega, by rwa [show s + (i - s) = i by omega]⟩
  · obtain ⟨start, n⟩ := run
    obtain ⟨hlen, hlt, -, -, hbefore⟩ := hrun
    obtain ⟨hroom, hslots⟩ := hfits
    obtain ⟨j, hj, -, hnot⟩ := hbefore s (by dsimp only at hlen hlt ⊢; omega)
    exact hnot (hslots j hj)

/-! ### The search over a directory -/

variable {fs : Fat32Fs} {d : Disk} {cluster : ℕ} {cs : List ℕ} {longName : Str} {shortName : List UInt8}
  {attr : UInt8} {firstCluster fileSize : ℕ}

/-- A sector has no place for the entry. -/
def SectorFull (d : Disk) (total sector : ℕ) : Prop := ∀ s, ¬ Fits (sectorBytes d sector) total s

/-- The disk after an entry has been written to some slots of a sector. -/
def placed (d : Disk) (longName : Str) (shortName : List UInt8) (attr : UInt8) (firstCluster fileSize : ℕ)
    (sector start : ℕ) : Disk :=
  d.blit (sector * blockSize)
    (putEntry longName shortName attr firstCluster fileSize start (sectorBytes d sector)) 0 blockSize

/-- What `create_dir_entry` returns for an entry at some slots of a sector. -/
def createdAt (d : Disk) (longName : Str) (shortName : List UInt8) (attr : UInt8)
    (firstCluster fileSize : ℕ) (sector start : ℕ) : Option (Option (ℕ × ℕ) × Disk) :=
  some (some (sector, (start + lfnCount longName) * 32),
    placed d longName shortName attr firstCluster fileSize sector start)

/-- What `create_dir_entry` does with a place for the entry, if there is one. -/
def createdFrom (d : Disk) (longName : Str) (shortName : List UInt8) (attr : UInt8)
    (firstCluster fileSize : ℕ) : Option (Disk × ℕ × ℕ) → Option (Option (ℕ × ℕ) × Disk)
  | none => some (none, d)
  | some (d', sector, start) => createdAt d' longName shortName attr firstCluster fileSize sector start

/-- The search in a sector. -/
lemma createSector_fit {sector : ℕ} (hon : sector < ramdiskSectors) (longName : Str)
    (shortName : List UInt8) (attr : UInt8) (firstCluster fileSize : ℕ) (d : Disk) :
    (createSector longName shortName attr firstCluster fileSize sector d).Post
      (fun r => ∃ start, FirstFit (sectorBytes d sector) (lfnCount longName + 1) start ∧
        r = createdAt d longName shortName attr firstCluster fileSize sector start)
      fun d' => d' = d ∧ SectorFull d (lfnCount longName + 1) sector := by
  rw [createSector, diskRead_of_lt hon]
  dsimp only
  rw [show (fun i => d (sector * blockSize + i)) = sectorBytes d sector from rfl]
  have hscan := scanFree_post (sectorBytes d sector) (Nat.succ_pos (lfnCount longName))
  cases hrun : Flow.forEach (scanFree (sectorBytes d sector) (lfnCount longName + 1))
      (List.range entriesPerSector) (none, 0) with
  | ret start =>
    rw [hrun] at hscan
    dsimp only
    rw [diskWrite_of_lt hon]
    exact ⟨start, hscan, rfl⟩
  | next run =>
    rw [hrun] at hscan
    exact ⟨rfl, hscan⟩

/-- The search in some sectors: the first place in the first sector that has one. -/
lemma createSectors_fit {sectors : List ℕ} (hon : ∀ sector ∈ sectors, sector < ramdiskSectors) :
    (Flow.forEach (createSector longName shortName attr firstCluster fileSize) sectors d).Post
      (fun r => ∃ pre sector suf start, sectors = pre ++ sector :: suf ∧
        (∀ x ∈ pre, SectorFull d (lfnCount longName + 1) x) ∧
        FirstFit (sectorBytes d sector) (lfnCount longName + 1) start ∧
        r = createdAt d longName shortName attr firstCluster fileSize sector start)
      fun d' => d' = d ∧ ∀ x ∈ sectors, SectorFull d (lfnCount longName + 1) x := by
  induction sectors with
  | nil => exact ⟨rfl, nofun⟩
  | cons sector sectors ih =>
    obtain ⟨hsector, hsectors⟩ := List.forall_mem_cons.mp hon
    refine Flow.Post.andThen (P := fun d' => d' = d ∧ SectorFull d (lfnCount longName + 1) sector)
      ((createSector_fit hsector ..).imp (fun r ⟨start, hfit, hr⟩ =>
        ⟨[], sector, sectors, start, rfl, nofun, hfit, hr⟩) fun d' => id) ?_
    rintro d' ⟨rfl, hfull⟩
    refine (ih hsectors).imp (fun r ⟨pre, x, suf, start, hsplit, hpre, hfit, hr⟩ => ?_)
      fun d'' ⟨heq, hall⟩ => ⟨heq, List.forall_mem_cons.mpr ⟨hfull, hall⟩⟩
    exact ⟨sector :: pre, x, suf, start, by rw [hsplit, List.cons_append],
      List.forall_mem_cons.mpr ⟨hfull, hpre⟩, hfit, hr⟩

/-- The bytes of the clusters after a chain has grown. -/
lemma grown_byte (hs : fs.Sound) {c c' new j : ℕ} (hc : fs.IsCluster c) (hnew : fs.IsCluster new)
    (hc' : fs.IsCluster c') (hj : j < fs.clusterSize) : fs.grown d c new (fs.clusterAddr c' + j) =
      if c' = new then 0 else d (fs.clusterAddr c' + j) := by
  have hbehind : fs.dataStart * blockSize ≤ fs.clusterAddr c' := le_clusterAddr
  have hentry := hs.fatAddr_le hc
  have hentry' := hs.fatAddr_le hnew
  rw [grown, setEntry_apply (by omega), allocated]
  split_ifs with heq
  · rw [heq, Bytes.blit_inside hj, Bytes.zero]
  · have hapart := hs.clusterAddr_apart hc' hnew heq
    rw [Bytes.blit_outside (by omega), setEntry_apply (by omega)]

/-- The first sector of a new cluster is free. -/
lemma grown_firstFit (hs : fs.Sound) {c new total : ℕ} (hc : fs.IsCluster c) (hnew : fs.IsCluster new)
    (htotal : total ≤ entriesPerSector) {start : ℕ} :
    FirstFit (sectorBytes (fs.grown d c new) (fs.sectorOf new 0)) total start ↔ start = 0 := by
  have hzero : Fits (sectorBytes (fs.grown d c new) (fs.sectorOf new 0)) total 0 := by
    refine ⟨by omega, fun j hj => Or.inl ?_⟩
    have hblock : blockSize ≤ fs.clusterSize := by
      rw [hs.size_eq]
      exact Nat.le_mul_of_pos_left _ hs.spc_pos
    have haddr : fs.sectorOf new 0 * blockSize = fs.clusterAddr new := rfl
    unfold entriesPerSector at htotal
    rw [sectorBytes, haddr, grown_byte hs hc hnew hnew (by omega), if_pos rfl]
    rfl
  constructor
  · intro h
    by_contra hne
    exact h.2 0 (Nat.pos_of_ne_zero hne) hzero
  · rintro rfl
    exact ⟨hzero, fun k hk => absurd hk (Nat.not_lt_zero k)⟩

/-- Where `create_dir_entry` puts an entry: to the first place in the first sector of the directory that has
one, else to the start of a new cluster, if one is free. -/
inductive Created (fs : Fat32Fs) (d : Disk) (cs : List ℕ) (total : ℕ) : Option (Disk × ℕ × ℕ) → Prop
  | inside {pre suf : List ℕ} {sector start : ℕ} : fs.dirSectors cs = pre ++ sector :: suf →
      (∀ x ∈ pre, SectorFull d total x) → FirstFit (sectorBytes d sector) total start →
      Created fs d cs total (some (d, sector, start))
  | behind {init rest : List ℕ} {last new : ℕ} : (∀ x ∈ fs.dirSectors cs, SectorFull d total x) →
      cs = init ++ [last] → fs.freeClusters d = new :: rest →
      Created fs d cs total (some (fs.grown d last new, fs.sectorOf new 0, 0))
  | full : (∀ x ∈ fs.dirSectors cs, SectorFull d total x) → fs.freeClusters d = [] →
      Created fs d cs total none

/-- The sectors of a chain with one more cluster. -/
lemma dirSectors_append (fs : Fat32Fs) (cs cs' : List ℕ) :
    fs.dirSectors (cs ++ cs') = fs.dirSectors cs ++ fs.dirSectors cs' := List.flatMap_append

namespace Directory

/-- What the search does at the end of a cluster that has no place. -/
lemma nextCluster_eq (h : fs.Directory d cluster cs) {pre suf : List ℕ} {c : ℕ}
    (hsplit : cs = pre ++ c :: suf) : fs.nextCluster c d =
      match suf with
      | next :: _ => .next (next, d)
      | [] =>
        match fs.freeClusters d with
        | [] => .ret (some (none, d))
        | new :: _ => .next (new, fs.grown d c new) := by
  have hc : fs.IsCluster c := h.clusters c (by simp [hsplit])
  have hchain := h.chain
  rw [hsplit] at hchain
  replace hchain := hchain.suffix
  rw [nextCluster, nextOrNew, h.sound.fatNext_eq hc]
  dsimp only
  rw [← h.sound.link_eq hc]
  cases hchain with
  | last hnone =>
    rw [hnone]
    dsimp only
    cases hfree : fs.freeClusters d with
    | nil => rw [h.sound.allocCluster_nil hfree]
    | cons new rest =>
      rw [h.sound.allocCluster_cons hfree]
      dsimp only
      rw [h.sound.fatSet_eq hc, Option.map_some, grown]
  | link hsome htail =>
    obtain ⟨t, rfl⟩ := htail.eq_cons
    rw [hsome]

/-- **The run of `create_dir_entry`.** -/
theorem create_run (h : fs.Directory d cluster cs)
    (hshort : fs.makeShortName d longName cluster = some shortName)
    (hsmall : lfnCount longName + 1 ≤ entriesPerSector) (attr : UInt8) (firstCluster fileSize : ℕ) :
    ∃ place, fs.Created d cs (lfnCount longName + 1) place ∧
      fs.createDirEntry d cluster longName attr firstCluster fileSize =
        createdFrom d longName shortName attr firstCluster fileSize place := by
  have hs := h.sound
  have hlen : cs.length < loopRounds := by
    have hle := length_le_of_lt h.chain.nodup fun c hc => (h.lt hc).2
    unfold loopRounds
    omega
  rw [createDirEntry_eq d cluster longName attr firstCluster fileSize hshort]
  suffices hloop : ∃ r, Flow.loop (fun (c : ℕ × Disk) =>
      (Flow.forEach (fun i => createSector longName shortName attr firstCluster fileSize
        (wrap (fs.clusterToSector c.1 + i))) (List.range fs.spc) c.2).andThen
        (fs.nextCluster c.1)) loopRounds (cluster, d) = some r ∧
      ∃ place, fs.Created d cs (lfnCount longName + 1) place ∧
        r = createdFrom d longName shortName attr firstCluster fileSize place by
    obtain ⟨r, hr, place, hplace, rfl⟩ := hloop
    exact ⟨place, hplace, by rw [forSectors, hr]; rfl⟩
  have hsectors : ∀ c, fs.IsCluster c → ∀ x ∈ (List.range fs.spc).map (fs.sectorOf c),
      x < ramdiskSectors := fun c hc x hx => by
    obtain ⟨i, hi, rfl⟩ := List.mem_map.mp hx
    exact cluster_sectors hs.data hc (List.mem_range.mp hi)
  refine Flow.loop_spec (I := fun k s =>
    (∃ pre suf, cs = pre ++ s.1 :: suf ∧ k = suf.length + 1 ∧ s.2 = d ∧
      ∀ x ∈ fs.dirSectors pre, SectorFull d (lfnCount longName + 1) x) ∨
    ∃ init last rest, cs = init ++ [last] ∧ k = 0 ∧ fs.freeClusters d = s.1 :: rest ∧
      s.2 = fs.grown d last s.1 ∧ ∀ x ∈ fs.dirSectors cs, SectorFull d (lfnCount longName + 1) x)
    ?_ hlen ?_
  · rintro k ⟨c, t⟩ (⟨pre, suf, hsplit, rfl, rfl, hfull⟩ | ⟨init, last, rest, hsplit, rfl, hfree, ht, hfull⟩)
    · -- A cluster of the directory.
      have hc : fs.IsCluster c := h.clusters c (by simp [hsplit])
      dsimp only
      rw [forEach_sectors hs.data hc]
      refine Flow.Post.andThen (P := fun d' => d' = t ∧ ∀ x ∈ fs.dirSectors (pre ++ [c]),
        SectorFull t (lfnCount longName + 1) x) ((createSectors_fit (hsectors c hc)).imp ?_ ?_) ?_
      · rintro r ⟨pre', sector, suf', start, heq, hpre', hfit, rfl⟩
        refine ⟨_, .inside (?_ : _ = (fs.dirSectors pre ++ pre') ++ sector :: (suf' ++ fs.dirSectors suf))
          ?_ hfit, rfl⟩
        · rw [hsplit, dirSectors_append, dirSectors_cons, heq, List.append_assoc, List.append_assoc,
            List.cons_append]
        · intro x hx
          rcases List.mem_append.mp hx with hx | hx
          · exact hfull x hx
          · exact hpre' x hx
      · rintro d' ⟨rfl, hall⟩
        refine ⟨rfl, fun x hx => ?_⟩
        rw [dirSectors_append, dirSectors_cons, List.mem_append] at hx
        rcases hx with hx | hx
        · exact hfull x hx
        · rw [show fs.dirSectors [] = [] from rfl, List.append_nil] at hx
          exact hall x hx
      · rintro d' ⟨rfl, hall⟩
        rw [h.nextCluster_eq hsplit]
        cases suf with
        | cons next suf =>
          exact ⟨suf.length + 1, Nat.lt_succ_self _, Or.inl ⟨pre ++ [c], suf, by
            rw [hsplit, List.append_assoc, List.singleton_append], rfl, rfl, hall⟩⟩
        | nil =>
          rw [← hsplit] at hall
          cases hfree : fs.freeClusters d' with
          | nil => exact ⟨none, .full hall hfree, rfl⟩
          | cons new rest => exact ⟨0, Nat.succ_pos _, Or.inr ⟨pre, c, rest, hsplit, rfl, rfl, rfl, hall⟩⟩
    · -- The new cluster.
      dsimp only at hfree ht
      subst ht
      obtain ⟨h₁, h₂, -⟩ := mem_freeClusters.mp (hfree ▸ List.mem_cons_self (a := c) (l := rest))
      have hc : fs.IsCluster c := ⟨h₁, by omega⟩
      have hlast : fs.IsCluster last := h.clusters last (by simp [hsplit])
      have hfit : ∀ {start}, FirstFit (sectorBytes (fs.grown d last c) (fs.sectorOf c 0))
          (lfnCount longName + 1) start ↔ start = 0 := grown_firstFit hs hlast hc hsmall
      obtain ⟨m, hm⟩ : ∃ m, fs.spc = m + 1 := ⟨fs.spc - 1, by have := hs.spc_pos; omega⟩
      have hfirst : fs.sectorOf c 0 < ramdiskSectors := cluster_sectors hs.data hc hs.spc_pos
      dsimp only
      rw [forEach_sectors hs.data hc, hm, List.range_succ_eq_map, List.map_cons, Flow.forEach]
      cases hrun : createSector longName shortName attr firstCluster fileSize (fs.sectorOf c 0)
          (fs.grown d last c) with
      | ret r =>
        have hpost := createSector_fit hfirst longName shortName attr firstCluster fileSize
          (fs.grown d last c)
        rw [hrun] at hpost
        obtain ⟨start, hstart, rfl⟩ := hpost
        rw [hfit.mp hstart]
        exact ⟨_, .behind hfull hsplit hfree, rfl⟩
      | next d' =>
        have hpost := createSector_fit hfirst longName shortName attr firstCluster fileSize
          (fs.grown d last c)
        rw [hrun] at hpost
        exact absurd (hfit.mpr rfl).1 (hpost.2 0)
  · obtain ⟨t, ht⟩ := h.chain.eq_cons
    refine Or.inl ⟨[], t, ht, by rw [ht, List.length_cons], rfl, fun x hx => absurd hx List.not_mem_nil⟩

end Directory

end Fat32Fs

end Fs

end NekOS
