import NekOS.Fat32.Clusters

/-!
# The file allocation table

What the operations on the table and the allocator do on a volume whose table has an entry for every
cluster and ends before the data area.
-/

namespace NekOS

namespace Fs

namespace Fat32Fs

/-- The table has an entry for every cluster, and it ends before the data area. -/
def TableCovers (fs : Fat32Fs) : Prop :=
  fs.fatStart * blockSize + 4 * (fs.totalClusters + 2) ≤ fs.dataStart * blockSize

/-- What holds of a mounted volume. -/
structure Opened (fs : Fat32Fs) : Prop where
  spc_pos : 0 < fs.spc
  spc_lt : fs.spc < 256
  fat_lt : fs.fatStart < 2 ^ 16
  before : fs.fatStart < fs.dataStart
  data_lt : fs.dataStart < 2 ^ 48

/-- What holds if the data area lies on the disk, too. -/
structure Placed (fs : Fat32Fs) : Prop extends fs.Opened where
  data : fs.DataOnDisk

/-- What holds if the table and the data area do not overlap, too. -/
structure Sound (fs : Fat32Fs) : Prop extends fs.Placed where
  covers : fs.TableCovers

/-- The entry of a cluster. -/
def fatEntry (fs : Fat32Fs) (d : Disk) (c : ℕ) : ℕ := d.load (fs.fatAddr c) 4 % 2 ^ 28

/-- The entry of a cluster is changed. -/
def setEntry (fs : Fat32Fs) (d : Disk) (c v : ℕ) : Disk := d.store (fs.fatAddr c) v 4

/-- The entry of a cluster lies on the disk. -/
def EntryOnDisk (fs : Fat32Fs) (c : ℕ) : Prop := fs.fatAddr c < ramdiskSize

instance (fs : Fat32Fs) : DecidablePred fs.EntryOnDisk :=
  fun c => inferInstanceAs (Decidable (fs.fatAddr c < ramdiskSize))

/-- The free clusters that `find_free_cluster` can find: it does not look at the last two clusters. -/
def freeClusters (fs : Fat32Fs) (d : Disk) : List ℕ :=
  (List.range' 2 (fs.totalClusters - 2)).filter fun c => fs.fatEntry d c = fat32Free

/-- The free clusters of the volume. -/
def allFree (fs : Fat32Fs) (d : Disk) : List ℕ :=
  (List.range' 2 fs.totalClusters).filter fun c => fs.fatEntry d c = fat32Free

/-- The disk after a cluster has been allocated: its entry ends a chain, and its bytes are zero. -/
def allocated (fs : Fat32Fs) (d : Disk) (c : ℕ) : Disk :=
  (fs.setEntry d c fat32Eoc).blit (fs.clusterAddr c) Bytes.zero 0 fs.clusterSize

/-- The disk after a chain that ends with a cluster has got a new one. -/
def grown (fs : Fat32Fs) (d : Disk) (c new : ℕ) : Disk := fs.setEntry (fs.allocated d new) c new

variable {fs : Fat32Fs} {d d' : Disk} {c c' v x : ℕ}

/-- A cluster that the allocator can find. -/
lemma mem_freeClusters :
    c ∈ fs.freeClusters d ↔ 2 ≤ c ∧ c < fs.totalClusters ∧ fs.fatEntry d c = fat32Free := by
  rw [freeClusters, List.mem_filter, List.mem_range'_1, decide_eq_true_iff]
  omega

/-- A free cluster. -/
lemma mem_allFree : c ∈ fs.allFree d ↔ fs.IsCluster c ∧ fs.fatEntry d c = fat32Free := by
  rw [allFree, List.mem_filter, List.mem_range'_1, decide_eq_true_iff, IsCluster]
  omega

/-- The clusters that the allocator can find are different. -/
lemma freeClusters_nodup (fs : Fat32Fs) (d : Disk) : (fs.freeClusters d).Nodup :=
  List.Nodup.filter _ (List.nodup_range' ..)

/-- They are not more than the clusters of the volume. -/
lemma freeClusters_length (fs : Fat32Fs) (d : Disk) : (fs.freeClusters d).length ≤ fs.totalClusters := by
  have hle := List.length_filter_le (fun c => decide (fs.fatEntry d c = fat32Free))
    (List.range' 2 (fs.totalClusters - 2))
  rw [List.length_range'] at hle
  exact hle.trans (Nat.sub_le _ _)

/-- Where the disks agree on an entry. -/
lemma fatEntry_congr (h : Bytes.Agree d d' (fs.fatAddr c) 4) : fs.fatEntry d' c = fs.fatEntry d c := by
  rw [fatEntry, fatEntry, h.load_eq]

/-- Only the entries matter for what is free. -/
lemma freeClusters_congr (h : ∀ c, fs.IsCluster c → fs.fatEntry d' c = fs.fatEntry d c) :
    fs.freeClusters d' = fs.freeClusters d := by
  refine List.filter_congr fun c hc => ?_
  rw [List.mem_range'_1] at hc
  rw [h c ⟨by omega, by omega⟩]

/-- Reading an entry that has been changed. -/
lemma fatEntry_set (hv : v < 2 ^ 28) : fs.fatEntry (fs.setEntry d c v) c = v := by
  rw [fatEntry, setEntry, Bytes.load_store_of_lt (by omega), Nat.mod_eq_of_lt hv]

/-- Reading another entry. -/
lemma fatEntry_set_ne (h : c ≠ c') : fs.fatEntry (fs.setEntry d c v) c' = fs.fatEntry d c' := by
  refine fatEntry_congr (Bytes.agree_store ?_)
  unfold fatAddr
  omega

/-- Changing an entry writes to the entry alone. -/
lemma setEntry_apply (hx : x < fs.fatAddr c ∨ fs.fatAddr c + 4 ≤ x) : fs.setEntry d c v x = d x :=
  Bytes.store_apply hx

/-- The sector of an entry, and the place of the entry in it. -/
lemma fat_sector (fs : Fat32Fs) (c : ℕ) : (fs.EntryOnDisk c ↔ fs.fatStart + c * 4 / blockSize < ramdiskSectors) ∧
    c * 4 % blockSize + 4 ≤ blockSize ∧
    (fs.fatStart + c * 4 / blockSize) * blockSize + c * 4 % blockSize = fs.fatAddr c := by
  unfold EntryOnDisk fatAddr ramdiskSectors ramdiskSize blockSize
  omega

/-- `fat_next` reads an entry that lies on the disk. -/
lemma fatNext_onDisk (hc : fs.EntryOnDisk c) (d : Disk) :
    fs.fatNext d c = some (some (fs.fatEntry d c)) := by
  obtain ⟨hlt, -, heq⟩ := fat_sector fs c
  unfold fatNext
  dsimp only
  rw [diskRead_of_lt (hlt.mp hc)]
  dsimp only
  rw [Bytes.load_shift, heq, fatEntry]

/-- `fat_set` changes an entry that lies on the disk. -/
lemma fatSet_onDisk (hc : fs.EntryOnDisk c) (d : Disk) (v : ℕ) :
    fs.fatSet d c v = some (true, fs.setEntry d c v) := by
  obtain ⟨hlt, hfits, heq⟩ := fat_sector fs c
  unfold fatSet
  dsimp only
  rw [diskRead_of_lt (hlt.mp hc)]
  dsimp only
  rw [diskWrite_of_lt (hlt.mp hc)]
  dsimp only
  rw [Bytes.blit_store hfits, heq, setEntry]

/-- Behind the end of the disk there are no entries. -/
lemma fatNext_offDisk (hc : ¬ fs.EntryOnDisk c) (hfat : fs.fatStart < 2 ^ 16) (hlt : c < 2 ^ 32)
    (d : Disk) : fs.fatNext d c = some none := by
  have hle := Nat.le_of_not_lt fun h => hc ((fat_sector fs c).1.mpr h)
  unfold fatNext
  dsimp only
  rw [diskRead_of_le hle (by unfold blockSize; omega)]

/-- Clusters lie in the data area. -/
lemma le_clusterAddr : fs.dataStart * blockSize ≤ fs.clusterAddr c :=
  Nat.mul_le_mul_right _ (Nat.le_add_right _ _)

namespace Opened

/-- A volume that `open` has accepted. -/
lemma of_open {sector : Bytes} (hopen : openFs sector = some (some fs)) : fs.Opened := by
  obtain ⟨hspc, hspc', hfat, hbefore, hlt⟩ := open_spec hopen
  exact ⟨hspc, hspc', hfat, hbefore, hlt⟩

end Opened

namespace Placed

/-- A volume that `open` has accepted. -/
lemma of_open {sector : Bytes} (hopen : openFs sector = some (some fs)) (hdata : fs.DataOnDisk) :
    fs.Placed :=
  ⟨.of_open hopen, hdata⟩

variable (hs : fs.Placed)

include hs

/-- The size of a cluster in bytes. -/
lemma size_eq : fs.clusterSize = fs.spc * blockSize := clusterSize_eq hs.spc_lt

/-- A cluster has bytes. -/
lemma clusterSize_pos : 0 < fs.clusterSize := by
  rw [hs.size_eq]
  exact Nat.mul_pos hs.spc_pos (by decide)

/-- There are not more clusters than sectors. -/
lemma clusters_le : fs.dataStart + fs.totalClusters ≤ ramdiskSectors := by
  have hle : fs.totalClusters * 1 ≤ fs.totalClusters * fs.spc := Nat.mul_le_mul_left _ hs.spc_pos
  have hdata := hs.data
  unfold DataOnDisk at hdata
  omega

/-- Different clusters have different bytes. -/
lemma clusterAddr_apart (hc : fs.IsCluster c) (hc' : fs.IsCluster c') (hne : c ≠ c') :
    fs.clusterAddr c + fs.clusterSize ≤ fs.clusterAddr c' ∨
      fs.clusterAddr c' + fs.clusterSize ≤ fs.clusterAddr c := by
  have hbefore : ∀ a b : ℕ, a < b → (fs.dataStart + a * fs.spc) * blockSize + fs.clusterSize ≤
      (fs.dataStart + b * fs.spc) * blockSize := fun a b hab => by
    have hle : (a + 1) * fs.spc ≤ b * fs.spc := Nat.mul_le_mul_right _ hab
    rw [hs.size_eq, ← Nat.add_mul]
    exact Nat.mul_le_mul_right _ (by rw [Nat.add_mul, Nat.one_mul] at hle; omega)
  have h₁ := hc.1
  have h₂ := hc'.1
  rcases Nat.lt_or_gt_of_ne hne with hlt | hlt
  · exact Or.inl (hbefore _ _ (by omega))
  · exact Or.inr (hbefore _ _ (by omega))

/-- The entries of the clusters of the volume lie on the disk. -/
lemma entryOnDisk (hc : fs.IsCluster c) : fs.EntryOnDisk c := by
  have hdata := hs.clusters_le
  have hbefore := hs.before
  obtain ⟨h₁, h₂⟩ := hc
  unfold EntryOnDisk fatAddr blockSize ramdiskSize
  unfold ramdiskSectors ramdiskSize blockSize at hdata
  omega

/-- `fat_next` reads an entry. -/
lemma fatNext_eq (hc : fs.IsCluster c) (d : Disk) :
    fs.fatNext d c = some (some (fs.fatEntry d c)) :=
  fatNext_onDisk (hs.entryOnDisk hc) d

/-- `fat_set` changes an entry. -/
lemma fatSet_eq (hc : fs.IsCluster c) (d : Disk) (v : ℕ) :
    fs.fatSet d c v = some (true, fs.setEntry d c v) :=
  fatSet_onDisk (hs.entryOnDisk hc) d v

/-- The cluster after one. -/
lemma link_eq (hc : fs.IsCluster c) (d : Disk) :
    fs.link d c = validLink (some (fs.fatEntry d c)) := by
  rw [link, hs.fatNext_eq hc, Option.bind_some]

/-- `find_free_cluster` finds the first of the clusters it looks at. -/
lemma findFreeCluster_eq (d : Disk) : fs.findFreeCluster d = some (fs.freeClusters d).head? := by
  rw [findFreeCluster, Flow.forEach_find (p := fun c => fs.fatEntry d c = fat32Free)
    (f := fun c => some (some c)) fun c hc => ?_, freeClusters, List.head?_filter]
  · cases List.find? _ _ with
    | none => rfl
    | some c => rfl
  · rw [List.mem_range'_1] at hc
    rw [hs.fatNext_eq ⟨by omega, by omega⟩]
    simp only [decide_eq_true_eq]

/-- Clearing the sectors of a cluster. -/
lemma clearCluster_eq (hc : fs.IsCluster c) (d : Disk) :
    fs.clearCluster d c = some (d.blit (fs.clusterAddr c) Bytes.zero 0 fs.clusterSize) := by
  rw [clearCluster, hs.size_eq]
  generalize hrun : Flow.forEach _ (List.range fs.spc) d = r
  have hsectors : r.Post (fun _ => False)
      (fun d' => d' = d.blit (fs.clusterAddr c) Bytes.zero 0 (fs.spc * blockSize)) := by
    rw [← hrun]
    refine Flow.forRange_post (I := fun i d' => d' = d.blit (fs.clusterAddr c) Bytes.zero 0 (i * blockSize))
      ?_ ?_
    · rintro i hi d' rfl
      rw [clusterToSector_eq hs.data hc hi, diskWrite_of_lt (cluster_sectors hs.data hc hi)]
      funext x
      have haddr : (fs.dataStart + (c - 2) * fs.spc + i) * blockSize =
          fs.clusterAddr c + i * blockSize := by rw [Nat.add_mul, clusterAddr]
      have hnext : (i + 1) * blockSize = i * blockSize + blockSize := by
        rw [Nat.add_mul, Nat.one_mul]
      rw [haddr, hnext]
      simp only [Bytes.blit, Bytes.zero]
      split_ifs <;> first | rfl | omega
    · funext x
      rw [Nat.zero_mul, Bytes.blit_outside (by omega)]
  cases r with
  | ret r => exact hsectors.elim
  | next d' => exact congrArg some hsectors

/-- `alloc_cluster` without a cluster to be found. -/
lemma allocCluster_nil (h : fs.freeClusters d = []) : fs.allocCluster d = some (none, d) := by
  rw [allocCluster, hs.findFreeCluster_eq, h]
  rfl

/-- `alloc_cluster` takes the first cluster that can be found. -/
lemma allocCluster_cons {rest : List ℕ} (h : fs.freeClusters d = c :: rest) :
    fs.allocCluster d = some (some c, fs.allocated d c) := by
  obtain ⟨h₁, h₂, -⟩ := mem_freeClusters.mp (h ▸ List.mem_cons_self (a := c) (l := rest))
  have hc : fs.IsCluster c := ⟨h₁, by omega⟩
  rw [allocCluster, hs.findFreeCluster_eq, h, List.head?_cons]
  dsimp only
  rw [hs.fatSet_eq hc]
  dsimp only
  rw [hs.clearCluster_eq hc, Option.map_some, allocated]

end Placed

namespace Sound

variable (hs : fs.Sound)

include hs

/-- The entries of the table lie before the data area. -/
lemma fatAddr_le (hc : fs.IsCluster c) : fs.fatAddr c + 4 ≤ fs.dataStart * blockSize := by
  have hlt := hc.2
  have hle : 4 * c + 4 ≤ 4 * (fs.totalClusters + 2) := by omega
  rw [fatAddr, Nat.add_assoc]
  exact (Nat.add_le_add_left hle _).trans hs.covers

/-- Writing to a cluster does not change the table. -/
lemma fatEntry_blit {b : Bytes} {a n : ℕ} (hc : fs.IsCluster c) (ha : fs.dataStart * blockSize ≤ a) :
    fs.fatEntry (d.blit a b 0 n) c = fs.fatEntry d c := by
  have hle := hs.fatAddr_le hc
  exact fatEntry_congr fun x hx hlt => Bytes.blit_outside (by omega)

/-- The entries after an allocation. -/
lemma fatEntry_allocated (hc : fs.IsCluster c) :
    fs.fatEntry (fs.allocated d c') c = if c = c' then fat32Eoc else fs.fatEntry d c := by
  rw [allocated, hs.fatEntry_blit hc le_clusterAddr]
  split_ifs with h
  · rw [h, fatEntry_set (by decide)]
  · exact fatEntry_set_ne (Ne.symm h)

/-- The entries after a chain has grown. -/
lemma fatEntry_grown {new : ℕ} (hc : fs.IsCluster c) (hnew : new < 2 ^ 28) :
    fs.fatEntry (fs.grown d c' new) c =
      if c = c' then new else if c = new then fat32Eoc else fs.fatEntry d c := by
  rw [grown]
  split_ifs with h h'
  · rw [h, fatEntry_set hnew]
  · rw [fatEntry_set_ne (Ne.symm h), hs.fatEntry_allocated hc, if_pos h']
  · rw [fatEntry_set_ne (Ne.symm h), hs.fatEntry_allocated hc, if_neg h']

/-- What is free after a cluster has been allocated and linked. -/
lemma freeClusters_grown {new : ℕ} {rest : List ℕ} (h : fs.freeClusters d = new :: rest)
    (hused : fs.fatEntry d c' ≠ fat32Free) : fs.freeClusters (fs.grown d c' new) = rest := by
  obtain ⟨h₁, h₂, hfree⟩ := mem_freeClusters.mp (h ▸ List.mem_cons_self (a := new) (l := rest))
  have hnodup := freeClusters_nodup fs d
  rw [h, List.nodup_cons] at hnodup
  have hsmall : ramdiskSectors < 2 ^ 14 := by decide
  have hle := hs.clusters_le
  have hrest : fs.freeClusters (fs.grown d c' new) =
      (fs.freeClusters d).filter fun c => c ≠ new := by
    rw [freeClusters, freeClusters, List.filter_filter]
    refine List.filter_congr fun c hc => ?_
    rw [List.mem_range'_1] at hc
    rw [hs.fatEntry_grown ⟨by omega, by omega⟩ (by omega)]
    by_cases hcc' : c = c'
    · subst hcc'
      rw [if_pos rfl]
      simp only [hused, decide_false, Bool.and_false, decide_eq_false_iff_not]
      unfold fat32Free
      omega
    · rw [if_neg hcc']
      by_cases hnew : c = new
      · rw [if_pos hnew]
        simp [hnew, fat32Eoc, fat32Free]
      · rw [if_neg hnew]
        simp [hnew]
  rw [hrest, h, List.filter_cons_of_neg (by simp)]
  exact List.filter_eq_self.mpr fun c hc => by
    have hne : c ≠ new := fun heq => hnodup.1 (heq ▸ hc)
    simpa using hne

end Sound

end Fat32Fs

end Fs

end NekOS
