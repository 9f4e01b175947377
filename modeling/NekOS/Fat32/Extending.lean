import NekOS.Fat32.Endings
import NekOS.Fat32.ShortNames

/-!
# Extending a directory

Where the search of `create_dir_entry` for free slots comes to the end of the chain, it goes on in a new
cluster.  What the allocator does is stated here for every volume that `open` accepts, also if a part of it
does not lie on the disk.
-/

namespace NekOS

namespace Fs

namespace Fat32Fs

/-- The free clusters that the allocator can find: their entries lie on the disk. -/
def usable (fs : Fat32Fs) (d : Disk) : List ℕ := (fs.freeClusters d).filter fs.EntryOnDisk

/-- The disks agree before the data area. -/
def AgreeBefore (fs : Fat32Fs) (d d' : Disk) : Prop := ∀ x < fs.dataStart * blockSize, d' x = d x

variable {fs : Fat32Fs} {d d' : Disk} {c new start i : ℕ} {rest : List ℕ}

/-! ### Allocating -/

/-- A volume has less than `2 ^ 32` clusters. -/
lemma totalClusters_lt {sector : Bytes} (hopen : openFs sector = some (some fs)) :
    fs.totalClusters < 2 ^ 32 := by
  unfold openFs at hopen
  dsimp only at hopen
  split_ifs at hopen
  · cases hopen
  · cases hopen
  · cases hopen
  · cases hopen
    exact Nat.mod_lt _ (Nat.two_pow_pos 32)

/-- A cluster that the allocator can find. -/
lemma mem_usable : c ∈ fs.usable d ↔
    (2 ≤ c ∧ c < fs.totalClusters ∧ fs.fatEntry d c = fat32Free) ∧ fs.EntryOnDisk c := by
  rw [usable, List.mem_filter, mem_freeClusters, decide_eq_true_iff]

/-- Entries on the disk belong to small numbers. -/
lemma EntryOnDisk.lt (h : fs.EntryOnDisk c) : c < 2 ^ 20 := by
  have hsize : ramdiskSize = 4 * 2 ^ 20 := by decide
  unfold EntryOnDisk fatAddr at h
  omega

/-- `find_free_cluster` finds the first of them. -/
lemma findFreeCluster_usable (ho : fs.Opened) (htotal : fs.totalClusters < 2 ^ 32) (d : Disk) :
    fs.findFreeCluster d = some (fs.usable d).head? := by
  rw [findFreeCluster, Flow.forEach_find (p := fun c => fs.fatEntry d c = fat32Free ∧ fs.EntryOnDisk c)
    (f := fun c => some (some c)) fun c hc => ?_, usable, freeClusters, List.filter_filter, List.head?_filter]
  · have hcongr : (fun c => decide (fs.EntryOnDisk c) && decide (fs.fatEntry d c = fat32Free)) =
        fun c => decide (fs.fatEntry d c = fat32Free ∧ fs.EntryOnDisk c) := by
      funext c
      rw [Bool.and_comm, Bool.decide_and]
    rw [hcongr]
    cases List.find? _ _ with
    | none => rfl
    | some c => rfl
  · rw [List.mem_range'_1] at hc
    by_cases hon : fs.EntryOnDisk c
    · rw [fatNext_onDisk hon]
      simp only [decide_eq_true_eq, hon, and_true]
    · rw [fatNext_offDisk hon ho.fat_lt (by omega)]
      simp only [decide_eq_true_eq, hon, and_false, if_false]

/-- Clearing a cluster does not change what lies before the data area. -/
lemma clearCluster_spec (ho : fs.Opened) (hge : 2 ≤ c) (hlt : c < 2 ^ 32) (d : Disk) :
    ∃ d', fs.clearCluster d c = some d' ∧ fs.AgreeBefore d d' := by
  rw [clearCluster]
  generalize hrun : Flow.forEach _ (List.range fs.spc) d = r
  have hsectors : r.Post (fun _ => False) (fs.AgreeBefore d) := by
    rw [← hrun]
    refine Flow.forRange_post (I := fun _ => fs.AgreeBefore d) (fun i hi d' hd' => ?_) fun _ _ => rfl
    obtain ⟨hsector, hsmall⟩ := clusterToSector_wide ho hge hlt hi
    rw [hsector]
    by_cases hon : fs.sectorOf c i < ramdiskSectors
    · rw [diskWrite_of_lt hon]
      intro x hx
      have hle : fs.dataStart * blockSize ≤ fs.sectorOf c i * blockSize :=
        Nat.mul_le_mul_right _ (by unfold sectorOf; omega)
      exact (Bytes.blit_outside (Or.inl (hx.trans_le hle))).trans (hd' x hx)
    · rw [diskWrite_of_le (Nat.le_of_not_lt hon) hsmall]
      exact hd'
  cases r with
  | ret r => exact hsectors.elim
  | next d' => exact ⟨d', rfl, hsectors⟩

/-- `alloc_cluster` takes the first cluster that can be found. -/
lemma allocCluster_usable (ho : fs.Opened) (htotal : fs.totalClusters < 2 ^ 32)
    (h : fs.usable d = new :: rest) :
    ∃ d', fs.allocCluster d = some (some new, d') ∧ fs.AgreeBefore (fs.setEntry d new fat32Eoc) d' := by
  obtain ⟨⟨h₁, h₂, -⟩, hon⟩ := mem_usable.mp (h ▸ List.mem_cons_self (a := new) (l := rest))
  obtain ⟨d', hclear, hd'⟩ := clearCluster_spec ho h₁ (by omega) (fs.setEntry d new fat32Eoc)
  refine ⟨d', ?_, hd'⟩
  rw [allocCluster, findFreeCluster_usable ho htotal, h, List.head?_cons]
  dsimp only
  rw [fatSet_onDisk hon]
  dsimp only
  rw [hclear, Option.map_some]

/-- Without such a cluster it fails. -/
lemma allocCluster_unusable (ho : fs.Opened) (htotal : fs.totalClusters < 2 ^ 32) (h : fs.usable d = []) :
    fs.allocCluster d = some (none, d) := by
  rw [allocCluster, findFreeCluster_usable ho htotal, h]
  rfl

/-- Setting an entry that lies on the disk or does not. -/
lemma fatSet_total (ho : fs.Opened) (hlt : c < 2 ^ 32) (d : Disk) (v : ℕ) :
    ∃ b, fs.fatSet d c v = some (b, if fs.EntryOnDisk c then fs.setEntry d c v else d) := by
  by_cases hon : fs.EntryOnDisk c
  · exact ⟨true, by rw [fatSet_onDisk hon, if_pos hon]⟩
  · have hle := Nat.le_of_not_lt fun h => hon ((fat_sector fs c).1.mpr h)
    have hfat := ho.fat_lt
    refine ⟨false, ?_⟩
    unfold fatSet
    dsimp only
    rw [diskRead_of_le hle (by unfold blockSize; omega), if_neg hon]

/-! ### The next cluster -/

/-- The next cluster of the chain. -/
lemma nextOrNew_link (ho : fs.Opened) (hlt : c < 2 ^ 32) (h : fs.link d c = some new) :
    fs.nextOrNew d c = some (some new, d) := by
  obtain ⟨o, hnext, hlink⟩ := fatNext_total ho.fat_lt hlt d
  unfold nextOrNew
  rw [hnext]
  dsimp only
  rw [← hlink, h]

/-- At the end of the chain a new cluster is linked, if there is one. -/
lemma nextOrNew_end (ho : fs.Opened) (htotal : fs.totalClusters < 2 ^ 32) (hlt : c < 2 ^ 32)
    (h : fs.link d c = none) (hfree : fs.usable d = new :: rest) :
    ∃ d₁, fs.nextOrNew d c =
        some (some new, if fs.EntryOnDisk c then fs.setEntry d₁ c new else d₁) ∧
      fs.AgreeBefore (fs.setEntry d new fat32Eoc) d₁ := by
  obtain ⟨o, hnext, hlink⟩ := fatNext_total ho.fat_lt hlt d
  obtain ⟨d₁, halloc, hd₁⟩ := allocCluster_usable ho htotal hfree
  obtain ⟨b, hset⟩ := fatSet_total ho hlt d₁ new
  refine ⟨d₁, ?_, hd₁⟩
  unfold nextOrNew
  rw [hnext]
  dsimp only
  rw [← hlink, h]
  dsimp only
  rw [halloc]
  dsimp only
  rw [hset, Option.map_some]

/-- At the end of the chain, without a cluster that can be found. -/
lemma nextOrNew_full (ho : fs.Opened) (htotal : fs.totalClusters < 2 ^ 32) (hlt : c < 2 ^ 32)
    (h : fs.link d c = none) (hfree : fs.usable d = []) : fs.nextOrNew d c = some (none, d) := by
  obtain ⟨o, hnext, hlink⟩ := fatNext_total ho.fat_lt hlt d
  unfold nextOrNew
  rw [hnext]
  dsimp only
  rw [← hlink, h]
  dsimp only
  rw [allocCluster_unusable ho htotal hfree]

/-! ### The search for free slots -/

/-- A sector in the search: it is not there, or there is room, or the search goes on. -/
lemma createSector_post (ho : fs.Opened) (hge : 2 ≤ c) (hlt : c < 2 ^ 32) (hi : i < fs.spc)
    (longName : Str) (shortName : List UInt8) (attr : UInt8) (firstCluster fileSize : ℕ) (d : Disk) :
    (createSector longName shortName attr firstCluster fileSize (wrap (fs.clusterToSector c + i)) d).Post
      (· ≠ none) fun d' => ¬ SectorMissing (fs.sectorOf c i) ∧ d' = d := by
  rw [createSector, diskRead_sectorOf ho hge hlt hi]
  split_ifs with hon
  · dsimp only
    cases Flow.forEach (scanFree (fun j => d (fs.sectorOf c i * blockSize + j)) (lfnCount longName + 1))
      (List.range entriesPerSector) (none, 0) with
    | ret start =>
      dsimp only
      rw [(clusterToSector_wide ho hge hlt hi).1, diskWrite_of_lt hon]
      exact Option.some_ne_none _
    | next run => exact ⟨Nat.not_le_of_lt hon, rfl⟩
  · exact Option.some_ne_none _

/-- A name that needs more slots than a sector has does not find room. -/
lemma scanFree_long (buf : Bytes) {total : ℕ} (htotal : entriesPerSector < total) :
    (Flow.forEach (scanFree buf total) (List.range entriesPerSector) (none, 0)).Post (fun _ => False)
      fun _ => True := by
  refine (Flow.forRange_post (I := fun i run => run.2 ≤ i) (fun i hi run hrun => ?_) le_rfl).imp
    (fun _ => id) fun _ _ => trivial
  unfold scanFree
  dsimp only
  split_ifs with hfree hroom
  · omega
  · exact Nat.succ_le_succ hrun
  · exact Nat.zero_le _

/-- A sector in the search for such a name. -/
lemma createSector_long (ho : fs.Opened) (hge : 2 ≤ c) (hlt : c < 2 ^ 32) (hi : i < fs.spc)
    {longName : Str} (hlong : entriesPerSector < lfnCount longName + 1) (shortName : List UInt8)
    (attr : UInt8) (firstCluster fileSize : ℕ) (d : Disk) :
    (createSector longName shortName attr firstCluster fileSize (wrap (fs.clusterToSector c + i)) d).Post
      (fun _ => SectorMissing (fs.sectorOf c i)) fun d' => d' = d := by
  rw [createSector, diskRead_sectorOf ho hge hlt hi]
  split_ifs with hon
  · have hscan := scanFree_long (fun j => d (fs.sectorOf c i * blockSize + j)) hlong
    dsimp only
    revert hscan
    generalize Flow.forEach (scanFree _ (lfnCount longName + 1)) (List.range entriesPerSector) (none, 0) = r
    cases r with
    | ret start => exact False.elim
    | next run => exact fun _ => rfl
  · exact Nat.le_of_not_lt hon

/-- What the search does at the end of a cluster. -/
def nextCluster (fs : Fat32Fs) (cluster : ℕ) (d : Disk) :
    Flow (Option (Option (ℕ × ℕ) × Disk)) (ℕ × Disk) :=
  match fs.nextOrNew d cluster with
  | none => .ret none
  | some (none, d) => .ret (some (none, d))
  | some (some next, d) => .next (next, d)

/-- `create_dir_entry` in terms of `nextCluster`. -/
lemma createDirEntry_eq (d : Disk) (dirCluster : ℕ) (longName : Str) (attr : UInt8)
    (firstCluster fileSize : ℕ) {shortName : List UInt8}
    (h : fs.makeShortName d longName dirCluster = some shortName) :
    fs.createDirEntry d dirCluster longName attr firstCluster fileSize =
      (fs.forSectors (createSector longName shortName attr firstCluster fileSize) fs.nextCluster dirCluster
        d).join := by
  rw [createDirEntry, h]
  rfl

/-! ### The table while the directory grows -/

/-- The disk after a cluster has got a new one. -/
def extended (fs : Fat32Fs) (d₁ : Disk) (c new : ℕ) : Disk :=
  if fs.EntryOnDisk c then fs.setEntry d₁ c new else d₁

/-- The entries of the volume afterwards. -/
lemma fatEntry_extended (hcovers : fs.TableCovers) {v : ℕ} (hv : v < fs.totalClusters + 2)
    (hnew : new < 2 ^ 28) {d₁ : Disk} (hagree : fs.AgreeBefore (fs.setEntry d new fat32Eoc) d₁) :
    fs.fatEntry (fs.extended d₁ c new) v =
      if v = c ∧ fs.EntryOnDisk c then new else if v = new then fat32Eoc else fs.fatEntry d v := by
  have hbefore : fs.fatAddr v + 4 ≤ fs.dataStart * blockSize := by
    refine le_trans ?_ hcovers
    unfold fatAddr
    omega
  have hentry : fs.fatEntry d₁ v = if v = new then fat32Eoc else fs.fatEntry d v := by
    rw [fatEntry_congr (d := fs.setEntry d new fat32Eoc) fun x hx hlt => hagree x (by omega)]
    split_ifs with h
    · rw [h, fatEntry_set (by decide)]
    · exact fatEntry_set_ne (Ne.symm h)
  unfold extended
  by_cases hon : fs.EntryOnDisk c
  · rw [if_pos hon]
    by_cases hvc : v = c
    · rw [if_pos ⟨hvc, hon⟩, hvc, fatEntry_set hnew]
    · rw [if_neg fun h => hvc h.1, fatEntry_set_ne (Ne.symm hvc), hentry]
  · rw [if_neg hon, if_neg fun h => hon h.2, hentry]

/-- A cluster less can be found afterwards. -/
lemma usable_extended (hcovers : fs.TableCovers) {d₁ : Disk} (hfree : fs.usable d = new :: rest)
    (hagree : fs.AgreeBefore (fs.setEntry d new fat32Eoc) d₁) :
    fs.usable (fs.extended d₁ c new) ⊆ rest := by
  have hnew := mem_usable.mp (hfree ▸ List.mem_cons_self (a := new) (l := rest))
  have hsmall := hnew.2.lt
  intro v hv
  obtain ⟨⟨h₁, h₂, hzero⟩, hon⟩ := mem_usable.mp hv
  rw [fatEntry_extended hcovers (by omega) (by omega) hagree] at hzero
  have hge := hnew.1.1
  unfold fat32Free fat32Eoc at hzero
  split_ifs at hzero with hc hvnew
  · omega
  · have hmem : v ∈ fs.usable d := mem_usable.mpr ⟨⟨h₁, h₂, hzero⟩, hon⟩
    rw [hfree] at hmem
    exact (List.mem_cons.mp hmem).resolve_left hvnew

/-- The new cluster ends the chain. -/
lemma link_extended (hcovers : fs.TableCovers) {d₁ : Disk} (hfree : fs.usable d = new :: rest)
    (hagree : fs.AgreeBefore (fs.setEntry d new fat32Eoc) d₁) (hne : new ≠ c) :
    fs.link (fs.extended d₁ c new) new = none := by
  obtain ⟨⟨h₁, h₂, -⟩, hon⟩ := mem_usable.mp (hfree ▸ List.mem_cons_self (a := new) (l := rest))
  have hsmall := hon.lt
  rw [link_onDisk hon, fatEntry_extended hcovers (by omega) (by omega) hagree, if_neg fun h => hne h.1,
    if_pos rfl]
  rfl

/-- The clusters that can be found are different. -/
lemma usable_nodup (fs : Fat32Fs) (d : Disk) : (fs.usable d).Nodup :=
  (freeClusters_nodup fs d).filter _

/-- A cluster at which the search for free slots ends: a sector of it is missing, or it ends the chain and is
not the next one to be allocated. -/
def StopsSearch (fs : Fat32Fs) (d : Disk) (c : ℕ) : Prop :=
  (∃ i < fs.spc, SectorMissing (fs.sectorOf c i)) ∨
    fs.link d c = none ∧ fs.findFreeCluster d ≠ some (some c)

/-- The search for free slots ends if the chain leads to such a cluster. -/
lemma searchSlots_ends (ho : fs.Opened) (htotal : fs.totalClusters < 2 ^ 32) (hcovers : fs.TableCovers)
    (hge : 2 ≤ start) (hlt : start < 2 ^ 32) (hreach : ∃ b, fs.LinksTo d start b ∧ fs.StopsSearch d b)
    (longName : Str) (shortName : List UInt8) (attr : UInt8) (firstCluster fileSize : ℕ) :
    (fs.forSectors (createSector longName shortName attr firstCluster fileSize) fs.nextCluster start
      d).join ≠ none := by
  classical
  obtain ⟨b, hb, hstop⟩ := hreach
  obtain ⟨l, hl, hmem⟩ := Chain.exists_of_reach hb (Or.inl hstop)
  have hlen := length_chain hlt hl
  have hfree : (fs.usable d).length ≤ fs.totalClusters :=
    (List.length_filter_le _ _).trans (freeClusters_length fs d)
  have hrun : ∃ r, Flow.loop (fun (c : ℕ × Disk) =>
      (Flow.forEach (fun i => createSector longName shortName attr firstCluster fileSize
        (wrap (fs.clusterToSector c.1 + i))) (List.range fs.spc) c.2).andThen
        (fs.nextCluster c.1)) loopRounds (start, d) = some r ∧ r ≠ none := by
    refine Flow.loop_spec (I := fun k s => ∃ l, k = l.length + (fs.usable s.2).length ∧
      Chain (fun x => if fs.StopsSearch s.2 x then none else fs.link s.2 x) s.1 l ∧
      (∃ x ∈ l, fs.StopsSearch s.2 x) ∧ 2 ≤ s.1 ∧ s.1 < 2 ^ 32) ?_
      (show l.length + (fs.usable d).length < loopRounds by unfold loopRounds; omega)
      ⟨l, rfl, hl, hmem hstop, hge, hlt⟩
    rintro k ⟨c, d⟩ ⟨l, rfl, hl, hstop, hge, hlt⟩
    refine (sectors_post (J := fun t => t = d) (S := SectorMissing) (fun i hi t ht => ?_) rfl).andThen ?_
    · subst ht
      exact createSector_post ho hge hlt hi longName shortName attr firstCluster fileSize t
    rintro t ⟨hthere, rfl⟩
    rw [nextCluster]
    cases hlink : fs.link t c with
    | some next =>
      rw [nextOrNew_link ho hlt hlink]
      have hgo : ¬ fs.StopsSearch t c := not_or.mpr ⟨hthere, fun h => by rw [hlink] at h; cases h.1⟩
      cases hl with
      | last hnone =>
        rw [if_neg hgo, hlink] at hnone
        cases hnone
      | @link _ next' l hsome hl =>
        rw [if_neg hgo, hlink] at hsome
        obtain rfl : next = next' := Option.some.inj hsome
        have hlinks : fs.LinksTo t c next := .single hlink
        obtain ⟨hge', hlt'⟩ := hlinks.range hge hlt
        refine ⟨l.length + (fs.usable t).length, Nat.add_lt_add_right (Nat.lt_succ_self _) _, l, rfl, hl, ?_,
          hge', hlt'⟩
        obtain ⟨x, hx, hstop⟩ := hstop
        rcases List.mem_cons.mp hx with rfl | hx
        · exact absurd hstop hgo
        · exact ⟨x, hx, hstop⟩
    | none =>
      have hpos := hl.length_pos
      cases hfree : fs.usable t with
      | nil =>
        rw [nextOrNew_full ho htotal hlt hlink hfree]
        exact Option.some_ne_none _
      | cons new rest =>
        obtain ⟨d₁, hnew, hagree⟩ := nextOrNew_end ho htotal hlt hlink hfree
        have hne : new ≠ c := by
          rintro rfl
          obtain ⟨x, hx, hstop⟩ := hstop
          cases hl with
          | last =>
            rw [List.mem_singleton.mp hx] at hstop
            refine (hstop.resolve_left hthere).2 ?_
            rw [findFreeCluster_usable ho htotal, hfree, List.head?_cons]
          | link hsome =>
            rw [hlink, ite_self] at hsome
            cases hsome
        have hsub := usable_extended (c := c) hcovers hfree hagree
        have hlen := ((usable_nodup fs (fs.extended d₁ c new)).subperm hsub).length_le
        have hlast := link_extended hcovers hfree hagree hne
        obtain ⟨⟨h₁, h₂, -⟩, -⟩ := mem_usable.mp (hfree ▸ List.mem_cons_self (a := new) (l := rest))
        rw [hnew]
        refine ⟨1 + (fs.usable (fs.extended d₁ c new)).length, ?_, [new], rfl, .last ?_,
          ⟨new, List.mem_singleton_self new, Or.inr ⟨hlast, ?_⟩⟩, h₁, by omega⟩
        · rw [List.length_cons]
          omega
        · exact (ite_eq_left_iff.mpr fun _ => hlast)
        · intro hhead
          rw [findFreeCluster_usable ho htotal] at hhead
          have hnodup := usable_nodup fs t
          rw [hfree, List.nodup_cons] at hnodup
          exact hnodup.1 (hsub (List.mem_of_mem_head? (Option.some.inj hhead)))
  obtain ⟨r, hr, hne⟩ := hrun
  rw [forSectors, hr]
  exact hne

/-- A name that needs 21 slots. -/
def longestName : Str := List.replicate 255 'a'

/-- Otherwise the search for so many slots does not end. -/
lemma searchSlots_none (ho : fs.Opened) (htotal : fs.totalClusters < 2 ^ 32) (hge : 2 ≤ start)
    (hlt : start < 2 ^ 32) (hreach : ¬ ∃ b, fs.LinksTo d start b ∧ fs.StopsSearch d b) {longName : Str}
    (hlong : entriesPerSector < lfnCount longName + 1) (shortName : List UInt8) (attr : UInt8)
    (firstCluster fileSize : ℕ) :
    fs.forSectors (createSector longName shortName attr firstCluster fileSize) fs.nextCluster start d =
      none := by
  refine forSectors_none (P := fun c d' => 2 ≤ c ∧ c < 2 ^ 32 ∧
    (¬ ∃ i < fs.spc, SectorMissing (fs.sectorOf c i)) ∧
    (d' = d ∧ fs.LinksTo d start c ∨ fs.link d' c = some c)) (fun c d' ⟨hge, hlt, hthere, hc⟩ => ?_)
    ⟨hge, hlt, fun h => hreach ⟨start, .refl, Or.inl h⟩, Or.inl ⟨rfl, .refl⟩⟩
  refine (sectors_post (Q := fun _ => False) (J := fun t => t = d') (S := SectorMissing)
    (fun i hi t ht => ?_) rfl).andThen ?_
  · subst ht
    have hmissing : ¬ SectorMissing (fs.sectorOf c i) := fun h => hthere ⟨i, hi, h⟩
    exact (createSector_long ho hge hlt hi hlong shortName attr firstCluster fileSize t).imp
      (fun _ h => hmissing h) fun u hu => ⟨hmissing, hu⟩
  rintro t ⟨-, rfl⟩
  rw [nextCluster]
  cases hlink : fs.link t c with
  | some next =>
    rw [nextOrNew_link ho hlt hlink]
    have hlinks : fs.LinksTo t c next := .single hlink
    obtain ⟨hge', hlt'⟩ := hlinks.range hge hlt
    rcases hc with ⟨rfl, hc⟩ | hself
    · have hnext := hc.tail hlink
      exact ⟨hge', hlt', fun h => hreach ⟨next, hnext, Or.inl h⟩, Or.inl ⟨rfl, hnext⟩⟩
    · obtain rfl : next = c := Option.some.inj (hlink.symm.trans hself)
      exact ⟨hge, hlt, hthere, Or.inr hself⟩
  | none =>
    rcases hc with ⟨rfl, hc⟩ | hself
    · -- The last cluster is free and is allocated itself.
      have hfirst : fs.findFreeCluster t = some (some c) := by
        by_contra hne
        exact hreach ⟨c, hc, Or.inr ⟨hlink, hne⟩⟩
      rw [findFreeCluster_usable ho htotal] at hfirst
      obtain ⟨rest, hfree⟩ := List.head?_eq_some_iff.mp (Option.some.inj hfirst)
      obtain ⟨-, hon⟩ := mem_usable.mp (hfree ▸ List.mem_cons_self (a := c) (l := rest))
      obtain ⟨d₁, hnew, -⟩ := nextOrNew_end ho htotal hlt hlink hfree
      have hsmall := hon.lt
      rw [hnew, if_pos hon]
      refine ⟨hge, hlt, hthere, Or.inr ?_⟩
      rw [link_onDisk hon, fatEntry_set (by omega), validLink, if_pos ⟨hge, by unfold fat32Eoc; omega⟩]
    · rw [hlink] at hself
      cases hself

/-! ### Which walks end -/

/-- `walk_dir`, `update_dir_entry_size` and `delete_dir_entry` end, whatever their other arguments are. -/
def WalksEnd (fs : Fat32Fs) (d : Disk) (start : ℕ) : Prop :=
  (∀ (σ : Type) (f : DirEntry → List UInt8 → σ → σ) (s : σ), fs.walkDir d start f s ≠ none) ∧
    (∀ name newSize newCluster, fs.updateDirEntrySize d start name newSize newCluster ≠ none) ∧
    ∀ name, fs.deleteDirEntry d start name ≠ none

/-- `create_dir_entry` ends, whatever its other arguments are. -/
def SearchEnds (fs : Fat32Fs) (d : Disk) (start : ℕ) : Prop :=
  ∀ longName attr firstCluster fileSize,
    fs.createDirEntry d start longName attr firstCluster fileSize ≠ none

/-- Short names are found if walks end. -/
lemma makeShortName_ne_none (h : fs.visited d start ≠ none) (longName : Str) :
    ∃ shortName, fs.makeShortName d longName start = some shortName := by
  by_cases hvalid : isValid83 longName = true
  · exact ⟨_, by rw [makeShortName, if_pos hvalid]⟩
  · obtain ⟨⟨b, es⟩, hvisited⟩ := Option.ne_none_iff_exists'.mp h
    obtain ⟨k, -, -, hshort, -⟩ := makeShortName_spec hvisited (by simpa using hvalid)
    exact ⟨_, hshort⟩

/-- A disk with a directory whose only cluster is linked to itself and has deleted slots alone. -/
def cyclicDisk : Disk := fun x => if 1024 ≤ x then slotDeleted else Bytes.zero.store 520 2 4 x

end Fat32Fs

end Fs

end NekOS
