import NekOS.Fat32.Freeing
import NekOS.Fat32.Walking

/-!
# Which walks end

The loops over a directory follow the links of its chain without looking whether they have been at a cluster
before.  They end if and only if the chain leads to a cluster that stops them.
-/

namespace NekOS

namespace Fs

namespace Fat32Fs

/-- The number of a sector of a cluster. -/
def sectorOf (fs : Fat32Fs) (c i : ℕ) : ℕ := fs.dataStart + (c - 2) * fs.spc + i

/-- A sector does not lie on the disk. -/
def SectorMissing (sector : ℕ) : Prop := ramdiskSectors ≤ sector

/-- A slot of a sector marks the end of the directory. -/
def EndMarked (d : Disk) (sector : ℕ) : Prop :=
  ∃ j < entriesPerSector, d (sector * blockSize + j * 32) = slotEnd

/-- A walk does not come past a sector. -/
def StopsWalk (d : Disk) (sector : ℕ) : Prop := SectorMissing sector ∨ EndMarked d sector

variable {fs : Fat32Fs} {d : Disk} {c start i : ℕ} {ρ σ : Type*}

/-! ### Loops over the sectors of a chain -/

/-- `cluster_to_sector` of a 32-bit number from 2 on does not overflow. -/
lemma clusterToSector_wide (ho : fs.Opened) (hge : 2 ≤ c) (hlt : c < 2 ^ 32) (hi : i < fs.spc) :
    wrap (fs.clusterToSector c + i) = fs.sectorOf c i ∧ fs.sectorOf c i < 2 ^ 54 := by
  have hspc := ho.spc_lt
  have hdata := ho.data_lt
  have hmul : (c - 2) * fs.spc ≤ 2 ^ 32 * 2 ^ 8 := Nat.mul_le_mul (by omega) (by omega)
  have hsub : wrap (2 ^ 64 + c - 2) = c - 2 := by
    unfold wrap
    omega
  unfold sectorOf
  rw [clusterToSector, hsub, wrap_of_lt (x := (c - 2) * fs.spc) (by omega),
    wrap_of_lt (x := fs.dataStart + (c - 2) * fs.spc) (by omega), wrap_of_lt (by omega)]
  exact ⟨rfl, by omega⟩

/-- Reading a sector of a cluster: it is there or not. -/
lemma diskRead_sectorOf (ho : fs.Opened) (hge : 2 ≤ c) (hlt : c < 2 ^ 32) (hi : i < fs.spc) (d : Disk) :
    diskRead d (wrap (fs.clusterToSector c + i)) =
      if fs.sectorOf c i < ramdiskSectors then
        some (some fun j => d (fs.sectorOf c i * blockSize + j)) else some none := by
  obtain ⟨hsector, hsmall⟩ := clusterToSector_wide ho hge hlt hi
  rw [hsector]
  split_ifs with hon
  · exact diskRead_of_lt hon
  · exact diskRead_of_le (Nat.le_of_not_lt hon) hsmall

/-- What can be reached from a cluster is a 32-bit number from 2 on. -/
lemma LinksTo.range (h : fs.LinksTo d start c) (hge : 2 ≤ start) (hlt : start < 2 ^ 32) :
    2 ≤ c ∧ c < 2 ^ 32 := by
  refine ⟨?_, h.lt hlt⟩
  cases h with
  | refl => exact hge
  | tail _ hlink =>
    obtain ⟨o, -, ho⟩ := Option.bind_eq_some_iff.mp hlink
    cases o with
    | none => cases ho
    | some next =>
      rw [validLink] at ho
      split_ifs at ho with hvalid
      cases ho
      exact hvalid.1

/-- There are not more than `2 ^ 32` different 32-bit numbers. -/
lemma length_le_of_lt {cs : List ℕ} (hnodup : cs.Nodup) (hlt : ∀ c ∈ cs, c < 2 ^ 32) :
    cs.length ≤ 2 ^ 32 := by
  have hsub : cs.toFinset ⊆ Finset.range (2 ^ 32) := fun c hc =>
    Finset.mem_range.mpr (hlt c (List.mem_toFinset.mp hc))
  have hcard := Finset.card_le_card hsub
  rwa [List.toFinset_card_of_nodup hnodup, Finset.card_range] at hcard

/-- A chain of clusters up to one that stops a loop has at most so many. -/
lemma length_chain {stops : ℕ → Prop} [DecidablePred stops] {cs : List ℕ} (hlt : start < 2 ^ 32)
    (h : Chain (fun x => if stops x then none else fs.link d x) start cs) : cs.length ≤ 2 ^ 32 :=
  length_le_of_lt h.nodup (h.forall_mem (p := fun c => c < 2 ^ 32) hlt fun x y hxy => by
    split_ifs at hxy
    exact link_lt hxy)

/-- The loop over a chain that leads to its end or to a cluster at which the body returns. -/
lemma forSectors_ends {stops : ℕ → Prop} [DecidablePred stops] {J : σ → Prop}
    {body : ℕ → σ → Flow (Option ρ) σ} {next : ℕ → σ → Flow (Option ρ) (ℕ × σ)}
    (hcluster : ∀ c, 2 ≤ c → c < 2 ^ 32 → ∀ s, J s →
      (Flow.forEach (fun i => body (wrap (fs.clusterToSector c + i))) (List.range fs.spc) s).Post
        (· ≠ none) fun t => ¬ stops c ∧ J t)
    (hnext : ∀ c, 2 ≤ c → c < 2 ^ 32 → ∀ s, J s →
      (next c s).Post (· ≠ none) fun t => fs.link d c = some t.1 ∧ J t.2)
    (hge : 2 ≤ start) (hlt : start < 2 ^ 32)
    (hreach : ∃ b, fs.LinksTo d start b ∧ (stops b ∨ fs.link d b = none)) {s : σ} (hs : J s) :
    (fs.forSectors body next start s).join ≠ none := by
  obtain ⟨b, hb, hstop⟩ := hreach
  obtain ⟨cs, hcs, -⟩ := Chain.exists_of_reach hb hstop
  have hlen : cs.length ≤ loopRounds := (length_chain hlt hcs).trans (by decide)
  have hrun : ∃ r, Flow.loop (fun (c : ℕ × σ) =>
      (Flow.forEach (fun i => body (wrap (fs.clusterToSector c.1 + i))) (List.range fs.spc) c.2).andThen
        (next c.1)) loopRounds (start, s) = some r ∧ r ≠ none := by
    refine hcs.loop_spec (I := fun c s => 2 ≤ c ∧ c < 2 ^ 32 ∧ J s) (fun c s ⟨hge, hlt, hs⟩ => ?_)
      ⟨hge, hlt, hs⟩ hlen
    refine (hcluster c hge hlt s hs).andThen fun t ⟨hgo, ht⟩ => (hnext c hge hlt t ht).imp
      (fun _ => id) fun u ⟨hlink, hu⟩ => ?_
    have hlinks : fs.LinksTo d c u.1 := .single hlink
    have hrange := hlinks.range hge hlt
    exact ⟨(if_neg hgo).trans hlink, hrange.1, hrange.2, hu⟩
  obtain ⟨r, hr, hne⟩ := hrun
  rw [forSectors, hr]
  exact hne

/-- The loop over a chain that does not end. -/
lemma forSectors_none {P : ℕ → σ → Prop} {body : ℕ → σ → Flow (Option ρ) σ}
    {next : ℕ → σ → Flow (Option ρ) (ℕ × σ)}
    (hround : ∀ c s, P c s → ((Flow.forEach (fun i => body (wrap (fs.clusterToSector c + i)))
      (List.range fs.spc) s).andThen (next c)).Post (fun _ => False) fun t => P t.1 t.2)
    {s : σ} (hs : P start s) : fs.forSectors body next start s = none := by
  refine Flow.loop_none (P := fun t => P t.1 t.2) (fun t ht => ?_) loopRounds hs
  have hpost := hround t.1 t.2 ht
  revert hpost
  generalize (Flow.forEach (fun i => body (wrap (fs.clusterToSector t.1 + i)))
    (List.range fs.spc) t.2).andThen (next t.1) = r
  cases r with
  | ret r => exact False.elim
  | next u => exact fun hu => ⟨u, rfl, hu⟩

/-- Following a link. -/
lemma followLink_post (disk : σ → Disk) (result : σ → ρ) (ho : fs.Opened) (hlt : c < 2 ^ 32) {s : σ}
    (hdisk : disk s = d) : fs.followLink disk result c s =
      match fs.link d c with
      | some next => .next (next, s)
      | none => .ret (some (result s)) := by
  obtain ⟨o, hnext, hlink⟩ := fatNext_total ho.fat_lt hlt d
  unfold followLink
  cases hvalid : validLink o with
  | none => simp only [hdisk, hnext, hlink, hvalid]
  | some next => simp only [hdisk, hnext, hlink, hvalid]

/-- The sectors of a cluster one after the other. -/
lemma sectors_post {S : ℕ → Prop} {Q : ρ → Prop} {J : σ → Prop} {body : ℕ → σ → Flow ρ σ}
    (hsector : ∀ i < fs.spc, ∀ s, J s → (body (wrap (fs.clusterToSector c + i)) s).Post Q
      fun t => ¬ S (fs.sectorOf c i) ∧ J t) {s : σ} (hs : J s) :
    (Flow.forEach (fun i => body (wrap (fs.clusterToSector c + i))) (List.range fs.spc) s).Post Q
      fun t => (¬ ∃ i < fs.spc, S (fs.sectorOf c i)) ∧ J t := by
  refine (Flow.forRange_post (I := fun i t => (∀ j < i, ¬ S (fs.sectorOf c j)) ∧ J t)
    (fun i hi t ht => ?_) ⟨nofun, hs⟩).imp (fun _ => id) fun t ht => ⟨?_, ht.2⟩
  · refine (hsector i hi t ht.2).imp (fun _ => id) fun u hu => ⟨fun j hj => ?_, hu.2⟩
    rcases Nat.lt_succ_iff_lt_or_eq.mp hj with hlt | rfl
    · exact ht.1 j hlt
    · exact hu.1
  · rintro ⟨i, hi, hstop⟩
    exact ht.1 i hi hstop

/-! ### Walking -/

/-- The slots of a sector in a walk. -/
lemma walkSlots_post (f : DirEntry → List UInt8 → σ → σ) (buf : Bytes) (s : Lfn × σ) :
    (Flow.forEach (walkSlot f buf) (List.range entriesPerSector) s).Post
      (fun r => r ≠ none ∧ ∃ j < entriesPerSector, buf (j * 32) = slotEnd)
      fun _ => ¬ ∃ j < entriesPerSector, buf (j * 32) = slotEnd := by
  refine (Flow.forRange_post (I := fun i _ => ∀ j < i, buf (j * 32) ≠ slotEnd) (fun i hi t ht => ?_)
    nofun).imp (fun _ => id) fun t ht ⟨j, hj, hend⟩ => ht j hj hend
  have hnext : buf (i * 32) ≠ slotEnd → ∀ j < i + 1, buf (j * 32) ≠ slotEnd := fun hne j hj => by
    rcases Nat.lt_succ_iff_lt_or_eq.mp hj with hlt | rfl
    · exact ht j hlt
    · exact hne
  have hfirst : (DirEntry.read buf (i * 32)).byte 0 = buf (i * 32) := rfl
  unfold walkSlot
  dsimp only
  rw [hfirst]
  split_ifs with hend
  · exact ⟨nofun, i, hi, hend⟩
  all_goals exact hnext hend

/-- A sector in a walk. -/
lemma walkSector_post (ho : fs.Opened) (hge : 2 ≤ c) (hlt : c < 2 ^ 32) (hi : i < fs.spc) (d : Disk)
    (f : DirEntry → List UInt8 → σ → σ) (s : Lfn × σ) :
    (walkSector d f (wrap (fs.clusterToSector c + i)) s).Post
      (fun r => r ≠ none ∧ StopsWalk d (fs.sectorOf c i)) fun _ => ¬ StopsWalk d (fs.sectorOf c i) := by
  rw [walkSector, diskRead_sectorOf ho hge hlt hi]
  split_ifs with hon
  · exact (walkSlots_post f _ s).imp (fun r hr => ⟨hr.1, Or.inr hr.2⟩) fun t ht =>
      not_or.mpr ⟨Nat.not_le_of_lt hon, ht⟩
  · exact ⟨Option.some_ne_none _, Or.inl (Nat.le_of_not_lt hon)⟩

/-- A walk ends if the chain leads to its end or to a sector that stops it. -/
lemma walkDir_ends (ho : fs.Opened) (hge : 2 ≤ start) (hlt : start < 2 ^ 32)
    (hreach : ∃ b, fs.LinksTo d start b ∧
      ((∃ i < fs.spc, StopsWalk d (fs.sectorOf b i)) ∨ fs.link d b = none))
    (f : DirEntry → List UInt8 → σ → σ) (s : σ) : fs.walkDir d start f s ≠ none := by
  classical
  rw [walkDir_eq]
  refine forSectors_ends (J := fun _ => True) (fun c hge hlt s _ => ?_) (fun c _ hlt s _ => ?_) hge hlt
    hreach trivial
  · exact sectors_post (fun i hi t _ => (walkSector_post ho hge hlt hi d f t).imp (fun r hr => hr.1)
      fun u hu => ⟨hu, trivial⟩) trivial
  · rw [followLink_post _ _ ho hlt rfl]
    cases hlink : fs.link d c with
    | none => exact Option.some_ne_none _
    | some next => exact ⟨rfl, trivial⟩

/-- Otherwise it does not end. -/
lemma walkDir_none (ho : fs.Opened) (hge : 2 ≤ start) (hlt : start < 2 ^ 32)
    (hreach : ¬ ∃ b, fs.LinksTo d start b ∧
      ((∃ i < fs.spc, StopsWalk d (fs.sectorOf b i)) ∨ fs.link d b = none))
    (f : DirEntry → List UInt8 → σ → σ) (s : σ) : fs.walkDir d start f s = none := by
  rw [walkDir_eq, forSectors_none (P := fun c _ => fs.LinksTo d start c) (fun c s hc => ?_) .refl]
  · rfl
  · obtain ⟨hge, hlt⟩ := hc.range hge hlt
    refine (sectors_post (J := fun _ => True) (Q := fun _ => False) (S := StopsWalk d)
      (fun i hi t _ => (walkSector_post ho hge hlt hi d f t).imp
        (fun r hr => hreach ⟨c, hc, Or.inl ⟨i, hi, hr.2⟩⟩) fun u hu => ⟨hu, trivial⟩) trivial).andThen
      fun t _ => ?_
    rw [followLink_post _ _ ho hlt rfl]
    cases hlink : fs.link d c with
    | none => exact hreach ⟨c, hc, Or.inr hlink⟩
    | some next => exact hc.tail hlink

/-! ### Updating and deleting -/

/-- Writing the size and the first cluster of an entry leaves the first bytes of all slots. -/
lemma putSize_first (newSize newCluster i j : ℕ) (buf : Bytes) :
    putSize newSize newCluster (i * 32) buf (j * 32) = buf (j * 32) := by
  unfold putSize
  rw [Bytes.store_apply (by omega), Bytes.store_apply (by omega), Bytes.store_apply (by omega)]

/-- The slots of a sector in an update. -/
lemma updateSlots_post (search : List UInt8) (newSize newCluster : ℕ) (lfn : Lfn) (buf : Bytes) :
    (Flow.forEach (updateSlot search newSize newCluster) (List.range entriesPerSector)
      ⟨lfn, false, buf, false⟩).Post (fun _ => True) fun st =>
        (¬ ∃ j < entriesPerSector, buf (j * 32) = slotEnd) ∧ st.found = st.modified := by
  refine (Flow.forRange_post (I := fun i st => (∀ j < i, buf (j * 32) ≠ slotEnd) ∧
    (∀ j, st.buf (j * 32) = buf (j * 32)) ∧ st.found = st.modified) (fun i hi st ht => ?_)
    ⟨nofun, fun _ => rfl, rfl⟩).imp (fun _ => id) fun st ht => ⟨fun ⟨j, hj, hend⟩ => ht.1 j hj hend, ht.2.2⟩
  obtain ⟨hbefore, hbuf, hfound⟩ := ht
  have hnext : buf (i * 32) ≠ slotEnd → ∀ j < i + 1, buf (j * 32) ≠ slotEnd := fun hne j hj => by
    rcases Nat.lt_succ_iff_lt_or_eq.mp hj with hlt | rfl
    · exact hbefore j hlt
    · exact hne
  have hfirst : (DirEntry.read st.buf (i * 32)).byte 0 = buf (i * 32) := hbuf i
  unfold updateSlot
  dsimp only
  rw [hfirst]
  split_ifs with hend
  · trivial
  · exact ⟨hnext hend, hbuf, hfound⟩
  · exact ⟨hnext hend, hbuf, hfound⟩
  · exact ⟨hnext hend, fun j => (putSize_first ..).trans (hbuf j), rfl⟩
  · exact ⟨hnext hend, hbuf, hfound⟩

/-- A sector in an update. -/
lemma updateSector_post (ho : fs.Opened) (hge : 2 ≤ c) (hlt : c < 2 ^ 32) (hi : i < fs.spc)
    (search : List UInt8) (newSize newCluster : ℕ) {s : Lfn × Bool × Disk} (hs : s.2 = (false, d)) :
    (updateSector search newSize newCluster (wrap (fs.clusterToSector c + i)) s).Post (· ≠ none)
      fun t => ¬ StopsWalk d (fs.sectorOf c i) ∧ t.2 = (false, d) := by
  obtain ⟨lfn, found, d'⟩ := s
  cases hs
  unfold updateSector
  dsimp only
  rw [diskRead_sectorOf ho hge hlt hi]
  split_ifs with hon
  · have hslots := updateSlots_post search newSize newCluster lfn
      fun j => d (fs.sectorOf c i * blockSize + j)
    dsimp only
    cases hrun : Flow.forEach (updateSlot search newSize newCluster) (List.range entriesPerSector)
      ⟨lfn, false, fun j => d (fs.sectorOf c i * blockSize + j), false⟩ with
    | ret found => exact Option.some_ne_none _
    | next st =>
      rw [hrun] at hslots
      obtain ⟨hnoend, hfound⟩ := hslots
      dsimp only
      cases hmodified : st.modified with
      | true =>
        rw [if_pos rfl, (clusterToSector_wide ho hge hlt hi).1, diskWrite_of_lt hon]
        dsimp only
        rw [hfound, hmodified, if_pos rfl]
        exact Option.some_ne_none _
      | false =>
        rw [if_neg Bool.false_ne_true]
        dsimp only
        rw [hfound, hmodified, if_neg Bool.false_ne_true]
        exact ⟨not_or.mpr ⟨Nat.not_le_of_lt hon, hnoend⟩, rfl⟩
  · exact Option.some_ne_none _

/-- An update ends where a walk does. -/
lemma updateDirEntrySize_ends (ho : fs.Opened) (hge : 2 ≤ start) (hlt : start < 2 ^ 32)
    (hreach : ∃ b, fs.LinksTo d start b ∧
      ((∃ i < fs.spc, StopsWalk d (fs.sectorOf b i)) ∨ fs.link d b = none))
    (name : Str) (newSize newCluster : ℕ) :
    fs.updateDirEntrySize d start name newSize newCluster ≠ none := by
  classical
  refine forSectors_ends (J := fun s : Lfn × Bool × Disk => s.2 = (false, d)) (fun c hge hlt s hs => ?_)
    (fun c _ hlt s hs => ?_) hge hlt hreach rfl
  · exact sectors_post (fun i hi t ht => updateSector_post ho hge hlt hi _ _ _ ht) hs
  · have hdisk : s.2.2 = d := by rw [hs]
    have hnext := followLink_post (fun s : Lfn × Bool × Disk => s.2.2) (fun s => s.2) ho hlt hdisk
    refine (congrArg (Flow.Post _ _) hnext).mpr ?_
    cases hlink : fs.link d c with
    | none => exact Option.some_ne_none _
    | some next => exact ⟨rfl, hs⟩

/-- The slots of a sector in a deletion. -/
lemma deleteSlots_post {sector : ℕ} (hon : sector < ramdiskSectors) (search : List UInt8) (buf : Bytes)
    (st : DeleteState) :
    (Flow.forEach (deleteSlot d search sector buf) (List.range entriesPerSector) st).Post (· ≠ none)
      fun _ => ¬ ∃ j < entriesPerSector, buf (j * 32) = slotEnd := by
  refine (Flow.forRange_post (I := fun i _ => ∀ j < i, buf (j * 32) ≠ slotEnd) (fun i hi st ht => ?_)
    nofun).imp (fun _ => id) fun t ht ⟨j, hj, hend⟩ => ht j hj hend
  have hnext : buf (i * 32) ≠ slotEnd → ∀ j < i + 1, buf (j * 32) ≠ slotEnd := fun hne j hj => by
    rcases Nat.lt_succ_iff_lt_or_eq.mp hj with hlt | rfl
    · exact ht j hlt
    · exact hne
  have hfirst : (DirEntry.read buf (i * 32)).byte 0 = buf (i * 32) := rfl
  unfold deleteSlot
  dsimp only
  rw [hfirst, diskWrite_of_lt hon]
  split_ifs with hend
  · exact Option.some_ne_none _
  · exact hnext hend
  · exact hnext hend
  · exact hnext hend
  · exact Option.some_ne_none _
  · exact hnext hend

/-- A deletion ends where a walk does. -/
lemma deleteDirEntry_ends (ho : fs.Opened) (hge : 2 ≤ start) (hlt : start < 2 ^ 32)
    (hreach : ∃ b, fs.LinksTo d start b ∧
      ((∃ i < fs.spc, StopsWalk d (fs.sectorOf b i)) ∨ fs.link d b = none)) (name : Str) :
    fs.deleteDirEntry d start name ≠ none := by
  classical
  refine forSectors_ends (J := fun _ => True) (fun c hge hlt s _ => ?_) (fun c _ hlt s _ => ?_) hge hlt
    hreach trivial
  · refine sectors_post (S := StopsWalk d) (fun i hi t _ => ?_) trivial
    rw [deleteSector, diskRead_sectorOf ho hge hlt hi]
    split_ifs with hon
    · rw [(clusterToSector_wide ho hge hlt hi).1]
      exact (deleteSlots_post hon _ _ t).imp (fun _ => id) fun u hu =>
        ⟨not_or.mpr ⟨Nat.not_le_of_lt hon, hu⟩, trivial⟩
    · exact Option.some_ne_none _
  · have hnext := followLink_post (c := c) (s := s) (fun _ : DeleteState => d) (fun _ => (false, d))
      ho hlt rfl
    refine (congrArg (Flow.Post _ _) hnext).mpr ?_
    cases hlink : fs.link d c with
    | none => exact Option.some_ne_none _
    | some next => exact ⟨rfl, trivial⟩

end Fat32Fs

end Fs

end NekOS
