import NekOS.Fat32.Files
import NekOS.Foundation.Chains
import Mathlib.Order.Interval.Finset.Nat

/-!
# Clusters and their bytes

Where the clusters of a mounted volume and the entries of its file allocation table lie on the disk, and
the bytes of a chain of clusters.
-/

namespace NekOS

namespace Fs

namespace Fat32Fs

/-! ### The geometry -/

/-- The clusters of the volume: the data area has `total_clusters` of them, and they are numbered from 2
on. -/
def IsCluster (fs : Fat32Fs) (c : ℕ) : Prop := 2 ≤ c ∧ c < fs.totalClusters + 2

/-- The data area lies on the disk. -/
def DataOnDisk (fs : Fat32Fs) : Prop :=
  fs.dataStart + fs.totalClusters * fs.spc ≤ ramdiskSectors

/-- The address of the first byte of a cluster. -/
def clusterAddr (fs : Fat32Fs) (c : ℕ) : ℕ := (fs.dataStart + (c - 2) * fs.spc) * blockSize

/-- The address of the entry of a cluster in the file allocation table. -/
def fatAddr (fs : Fat32Fs) (c : ℕ) : ℕ := fs.fatStart * blockSize + 4 * c

/-- The cluster that follows in a chain. -/
def link (fs : Fat32Fs) (d : Disk) (c : ℕ) : Option ℕ := (fs.fatNext d c).bind validLink

/-- A byte of a chain of clusters. -/
def chainByte (fs : Fat32Fs) (d : Disk) (cs : List ℕ) (k : ℕ) : UInt8 :=
  d (fs.clusterAddr (cs.getD (k / fs.clusterSize) 0) + k % fs.clusterSize)

/-- The number of bytes of a chain of clusters. -/
def chainLength (fs : Fat32Fs) (cs : List ℕ) : ℕ := cs.length * fs.clusterSize

section Geometry

variable {fs : Fat32Fs} {sector : Bytes} {d : Disk} {c s : ℕ}

/-- What `open` has computed. -/
lemma open_spec (h : openFs sector = some (some fs)) :
    0 < fs.spc ∧ fs.spc < 256 ∧ fs.fatStart < 2 ^ 16 ∧ fs.fatStart < fs.dataStart ∧
      fs.dataStart < 2 ^ 48 := by
  unfold openFs at h
  dsimp only at h
  split at h
  · cases h
  split at h
  · cases h
  split at h
  · cases h
  next hsizes =>
    split at h
    · cases h
    next hspc =>
      cases h
      have hlt₁ := Bytes.load_lt sector 13 1
      have hlt₂ := Bytes.load_lt sector 14 2
      have hlt₃ := Bytes.load_lt sector 16 1
      have hlt₄ := Bytes.load_lt sector 36 4
      obtain ⟨hfats, hsize⟩ := not_or.mp hsizes
      have hpos := Nat.mul_pos (Nat.pos_of_ne_zero hfats) (Nat.pos_of_ne_zero hsize)
      have hle : sector.load 16 1 * sector.load 36 4 ≤ 2 ^ 8 * 2 ^ 32 :=
        Nat.mul_le_mul hlt₃.le hlt₄.le
      simp only [Fat32Bpb.read] at hpos ⊢
      exact ⟨Nat.pos_of_ne_zero hspc, hlt₁, hlt₂, by omega, by omega⟩

/-- The size of a cluster in bytes. -/
lemma clusterSize_eq (hspc : fs.spc < 256) : fs.clusterSize = fs.spc * blockSize := by
  exact wrap32_of_lt (by unfold blockSize; omega)

/-- The sectors of a cluster lie on the disk. -/
lemma cluster_sectors (hdata : fs.DataOnDisk) (hc : fs.IsCluster c) (hs : s < fs.spc) :
    fs.dataStart + (c - 2) * fs.spc + s < ramdiskSectors := by
  have hle : (c - 2 + 1) * fs.spc ≤ fs.totalClusters * fs.spc :=
    Nat.mul_le_mul_right _ (by have := hc.1; have := hc.2; omega)
  rw [Nat.add_mul, Nat.one_mul] at hle
  unfold DataOnDisk at hdata
  omega

/-- `cluster_to_sector` of a cluster. -/
lemma clusterToSector_eq (hdata : fs.DataOnDisk) (hc : fs.IsCluster c) (hs : s < fs.spc) :
    wrap (fs.clusterToSector c + s) = fs.dataStart + (c - 2) * fs.spc + s := by
  have hlt := cluster_sectors hdata hc hs
  have hsmall : ramdiskSectors < 2 ^ 14 := by decide
  have hclusters : fs.totalClusters ≤ ramdiskSectors := by
    have hle : fs.totalClusters * 1 ≤ fs.totalClusters * fs.spc :=
      Nat.mul_le_mul_left _ (by omega)
    unfold DataOnDisk at hdata
    omega
  have hsub : wrap (2 ^ 64 + c - 2) = c - 2 := by
    obtain ⟨h₁, h₂⟩ := hc
    unfold wrap
    omega
  rw [clusterToSector, hsub, wrap_of_lt (x := (c - 2) * fs.spc) (by omega),
    wrap_of_lt (x := fs.dataStart + (c - 2) * fs.spc) (by omega), wrap_of_lt (by omega)]

/-- Reading a sector of a cluster. -/
lemma diskRead_cluster (hdata : fs.DataOnDisk) (hc : fs.IsCluster c) (hs : s < fs.spc) :
    diskRead d (wrap (fs.clusterToSector c + s)) =
      some (some fun i => d (fs.clusterAddr c + s * blockSize + i)) := by
  rw [clusterToSector_eq hdata hc hs, diskRead_of_lt (cluster_sectors hdata hc hs), clusterAddr,
    Nat.add_mul]

/-- Reading the file allocation table does not panic. -/
lemma fatNext_total (hfat : fs.fatStart < 2 ^ 16) (hc : c < 2 ^ 32) (d : Disk) :
    ∃ next, fs.fatNext d c = some next ∧ fs.link d c = validLink next := by
  have hread : ∃ o, diskRead d (fs.fatStart + c * 4 / blockSize) = some o := by
    by_cases hlt : fs.fatStart + c * 4 / blockSize < ramdiskSectors
    · exact ⟨_, diskRead_of_lt hlt⟩
    · refine ⟨_, diskRead_of_le (Nat.le_of_not_lt hlt) ?_⟩
      unfold blockSize
      omega
  obtain ⟨o, ho⟩ := hread
  unfold link fatNext
  dsimp only
  rw [ho]
  cases o with
  | none => exact ⟨none, rfl, rfl⟩
  | some buf => exact ⟨_, rfl, rfl⟩

end Geometry

section Chains

variable {fs : Fat32Fs} {d : Disk} {cs pre suf : List ℕ} {c s j : ℕ}

/-- Different clusters of the volume have at most the bytes of the disk. -/
lemma chainLength_le (hspc : fs.spc < 256) (hdata : fs.DataOnDisk) (hcs : ∀ c ∈ cs, fs.IsCluster c)
    (hnodup : cs.Nodup) : fs.chainLength cs ≤ ramdiskSize := by
  have hsub : cs.toFinset ⊆ Finset.Ico 2 (fs.totalClusters + 2) := fun c hc => by
    obtain ⟨h₁, h₂⟩ := hcs c (List.mem_toFinset.mp hc)
    exact Finset.mem_Ico.mpr ⟨h₁, h₂⟩
  have hcard := Finset.card_le_card hsub
  rw [List.toFinset_card_of_nodup hnodup, Nat.card_Ico, Nat.add_sub_cancel] at hcard
  have hmul : cs.length * fs.spc ≤ fs.totalClusters * fs.spc := Nat.mul_le_mul_right _ hcard
  have hsize : ramdiskSize = ramdiskSectors * blockSize := by decide
  unfold DataOnDisk at hdata
  rw [chainLength, clusterSize_eq hspc, ← Nat.mul_assoc, hsize]
  exact Nat.mul_le_mul_right _ (by omega)

/-- The length of a chain in two parts. -/
lemma chainLength_append : fs.chainLength (pre ++ suf) = fs.chainLength pre + fs.chainLength suf := by
  rw [chainLength, List.length_append, Nat.add_mul, chainLength, chainLength]

/-- The length of a chain after its first cluster. -/
lemma chainLength_cons : fs.chainLength (c :: cs) = fs.clusterSize + fs.chainLength cs := by
  rw [chainLength, List.length_cons, Nat.add_mul, Nat.one_mul, Nat.add_comm, chainLength]

/-- The length of no chain. -/
lemma chainLength_nil : fs.chainLength [] = 0 := Nat.zero_mul _

/-- The length of one cluster. -/
lemma chainLength_singleton : fs.chainLength [c] = fs.clusterSize := Nat.one_mul _

/-- The bytes of one sector of a chain. -/
lemma chainByte_sector (hspc : fs.spc < 256) (hs : s < fs.spc) (hj : j < blockSize) :
    fs.chainByte d (pre ++ c :: suf) (fs.chainLength pre + s * blockSize + j) =
      d (fs.clusterAddr c + s * blockSize + j) := by
  have hin : s * blockSize + j < fs.clusterSize := by
    have hle : (s + 1) * blockSize ≤ fs.spc * blockSize := Nat.mul_le_mul_right _ hs
    rw [clusterSize_eq hspc]
    rw [Nat.add_mul, Nat.one_mul] at hle
    omega
  have hpos : fs.chainLength pre + s * blockSize + j =
      s * blockSize + j + pre.length * fs.clusterSize := by
    rw [chainLength]
    omega
  have hdiv : (s * blockSize + j + pre.length * fs.clusterSize) / fs.clusterSize = pre.length := by
    rw [Nat.add_mul_div_right _ _ (by omega), Nat.div_eq_of_lt hin, Nat.zero_add]
  have hmod : (s * blockSize + j + pre.length * fs.clusterSize) % fs.clusterSize =
      s * blockSize + j := by
    rw [Nat.add_mul_mod_self_right, Nat.mod_eq_of_lt hin]
  have hget : (pre ++ c :: suf).getD pre.length 0 = c := by
    rw [List.getD_append_right _ _ _ _ le_rfl, Nat.sub_self, List.getD_cons_zero]
  rw [chainByte, hpos, hdiv, hmod, hget, Nat.add_assoc]

end Chains

end Fat32Fs

end Fs

end NekOS
