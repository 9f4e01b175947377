import NekOS.Fat32.Reading
import NekOS.Fat32.Table

/-!
# The cluster allocator

`alloc_cluster` takes the first free cluster that `find_free_cluster` looks at.  The scan ends at the number
of clusters, so that the last two clusters, which have the highest numbers, are never found.
-/

namespace NekOS

namespace Fs

namespace Fat32Fs

variable {fs : Fat32Fs} {d : Disk} {c c' x : ℕ}

/-- A byte of the disk after a cluster has been allocated. -/
lemma allocated_apply (x : ℕ) : fs.allocated d c x =
    if fs.clusterAddr c ≤ x ∧ x < fs.clusterAddr c + fs.clusterSize then 0
    else fs.setEntry d c fat32Eoc x := rfl

/-- A free entry has zeros in its first byte. -/
lemma free_byte (h : fs.fatEntry d c = fat32Free) : d (fs.fatAddr c) = 0 := by
  have hload : d.load (fs.fatAddr c) 4 = (d (fs.fatAddr c)).toNat +
      256 * d.load (fs.fatAddr c + 1) 3 := rfl
  have hlt := (d (fs.fatAddr c)).toNat_lt
  rw [fatEntry, hload, fat32Free] at h
  exact UInt8.toNat_inj.mp (by simp only [UInt8.toNat_zero]; omega)

/-- The first byte of an entry that ends a chain. -/
lemma setEntry_eoc : fs.setEntry d c fat32Eoc (fs.fatAddr c) = 0xF8 := by
  rw [setEntry, Bytes.store, Bytes.store_apply (Or.inl (Nat.lt_succ_self _)), Function.update_self]
  rfl

/-- A volume of `open` has entries at multiples of four and clusters at multiples of 512. -/
lemma addr_mod (fs : Fat32Fs) (c : ℕ) :
    fs.fatAddr c % 4 = 0 ∧ fs.clusterAddr c % 512 = 0 ∧ fs.dataStart * blockSize % 512 = 0 :=
  ⟨by unfold fatAddr blockSize; omega, by unfold clusterAddr blockSize; omega, by unfold blockSize; omega⟩

/-- What `alloc_cluster` is for: it takes a free cluster, ends a chain in its entry, clears its sectors and
changes nothing else; it fails only if no cluster is free. -/
def AllocatesCluster (fs : Fat32Fs) (d : Disk) : Prop :=
  ∃ r d', fs.allocCluster d = some (r, d') ∧
    (r = none → d' = d ∧ fs.allFree d = []) ∧
    ∀ c, r = some c → c ∈ fs.allFree d ∧ fs.fatEntry d' c = fat32Eoc ∧
      (∀ j < fs.clusterSize, d' (fs.clusterAddr c + j) = 0) ∧
      (∀ c', fs.IsCluster c' → c' ≠ c → Bytes.Agree d d' (fs.fatAddr c') 4) ∧
      ∀ x, d' x ≠ d x →
        (fs.fatAddr c ≤ x ∧ x < fs.fatAddr c + 4 ∧ x < fs.dataStart * blockSize) ∨
        (fs.clusterAddr c ≤ x ∧ x < fs.clusterAddr c + fs.clusterSize)

/-- The entry of a cluster lies before the data area, and the sectors of the cluster do not hold entries of
other clusters that are not zero. -/
def EntryApart (fs : Fat32Fs) (d : Disk) (c : ℕ) : Prop :=
  fs.fatAddr c < fs.dataStart * blockSize ∧
    ∀ c', fs.IsCluster c' → c' ≠ c →
      fs.clusterAddr c ≤ fs.fatAddr c' → fs.fatAddr c' < fs.clusterAddr c + fs.clusterSize →
      ∀ j < 4, d (fs.fatAddr c' + j) = 0

/-- The size of a cluster is a multiple of 512. -/
lemma Placed.size_mod (hs : fs.Placed) : fs.clusterSize % 512 = 0 := by
  rw [hs.size_eq, blockSize, Nat.mul_mod_left]

/-- Taking a cluster is right if and only if its entry lies apart. -/
lemma allocated_iff (hs : fs.Placed) (hfree : fs.fatEntry d c = fat32Free) :
    (fs.fatEntry (fs.allocated d c) c = fat32Eoc ∧
      (∀ j < fs.clusterSize, fs.allocated d c (fs.clusterAddr c + j) = 0) ∧
      (∀ c', fs.IsCluster c' → c' ≠ c → Bytes.Agree d (fs.allocated d c) (fs.fatAddr c') 4) ∧
      ∀ x, fs.allocated d c x ≠ d x →
        (fs.fatAddr c ≤ x ∧ x < fs.fatAddr c + 4 ∧ x < fs.dataStart * blockSize) ∨
        (fs.clusterAddr c ≤ x ∧ x < fs.clusterAddr c + fs.clusterSize)) ↔
    fs.EntryApart d c := by
  obtain ⟨hmod₁, hmod₂, hmod₃⟩ := addr_mod fs c
  have hsize := hs.size_mod
  have hpos := hs.clusterSize_pos
  constructor
  · rintro ⟨hentry, -, hothers, hframe⟩
    have hlt : fs.fatAddr c < fs.dataStart * blockSize := by
      by_contra hge
      by_cases hin : fs.clusterAddr c ≤ fs.fatAddr c ∧ fs.fatAddr c < fs.clusterAddr c + fs.clusterSize
      · have hzero : Bytes.Agree Bytes.zero (fs.allocated d c) (fs.fatAddr c) 4 := fun x hx hxlt => by
          rw [allocated_apply, if_pos (by omega)]
          rfl
        have hload : Bytes.zero.load (fs.fatAddr c) 4 = 0 := rfl
        rw [fatEntry, hzero.load_eq, hload] at hentry
        exact absurd hentry (by decide)
      · have hchanged : fs.allocated d c (fs.fatAddr c) ≠ d (fs.fatAddr c) := by
          rw [allocated_apply, if_neg hin, setEntry_eoc, free_byte hfree]
          decide
        have := hframe _ hchanged
        omega
    refine ⟨hlt, fun c' hc' hne hle hltc j hj => ?_⟩
    obtain ⟨hmod', -, -⟩ := addr_mod fs c'
    have hsame := hothers c' hc' hne (fs.fatAddr c' + j) (by omega) (by omega)
    rw [allocated_apply, if_pos (by omega)] at hsame
    exact hsame.symm
  · rintro ⟨hlt, hothers⟩
    have hbehind : fs.dataStart * blockSize ≤ fs.clusterAddr c := le_clusterAddr
    have hkept : Bytes.Agree (fs.setEntry d c fat32Eoc) (fs.allocated d c) (fs.fatAddr c) 4 :=
      fun x hx hxlt => by
        rw [allocated_apply, if_neg (by omega)]
    refine ⟨?_, fun j hj => ?_, fun c' hc' hne x hx hxlt => ?_, fun x hx => ?_⟩
    · rw [fatEntry_congr hkept, fatEntry_set (by decide)]
    · rw [allocated_apply, if_pos (by omega)]
    · obtain ⟨hmod', -, -⟩ := addr_mod fs c'
      have hapart : fs.fatAddr c' ≠ fs.fatAddr c := fun heq => by
        unfold fatAddr at heq
        omega
      rw [allocated_apply]
      by_cases hin : fs.clusterAddr c ≤ x ∧ x < fs.clusterAddr c + fs.clusterSize
      · have hzero := hothers c' hc' hne (by omega) (by omega) (x - fs.fatAddr c') (by omega)
        rw [Nat.add_sub_cancel' hx] at hzero
        rw [if_pos hin, hzero]
      · rw [if_neg hin, setEntry_apply (by omega)]
    · by_contra hnone
      refine hx ?_
      rw [allocated_apply, if_neg (by omega), setEntry_apply (by omega)]

/-- **Allocating a cluster.**  `alloc_cluster` is sound and complete if and only if the cluster that it finds
has its entry apart from its data, and, if it finds none, the last two clusters are not free. -/
theorem alloc_exact {sector : Bytes} (hopen : openFs sector = some (some fs)) (hdata : fs.DataOnDisk)
    (d : Disk) :
    fs.AllocatesCluster d ↔
      (fs.freeClusters d = [] → fs.allFree d = []) ∧
      ∀ c, (fs.freeClusters d).head? = some c → fs.EntryApart d c := by
  have hs := Placed.of_open hopen hdata
  cases hfree : fs.freeClusters d with
  | nil =>
    have hrun := hs.allocCluster_nil hfree
    constructor
    · rintro ⟨r, d', hrun', hnone, -⟩
      rw [hrun] at hrun'
      cases hrun'
      exact ⟨fun _ => (hnone rfl).2, fun c hc => by cases hc⟩
    · rintro ⟨hall, -⟩
      exact ⟨none, d, hrun, fun _ => ⟨rfl, hall rfl⟩, nofun⟩
  | cons c rest =>
    have hrun := hs.allocCluster_cons hfree
    obtain ⟨h₁, h₂, hzero⟩ := mem_freeClusters.mp (hfree ▸ List.mem_cons_self (a := c) (l := rest))
    have hmem : c ∈ fs.allFree d := mem_allFree.mpr ⟨⟨h₁, by omega⟩, hzero⟩
    rw [List.head?_cons]
    constructor
    · rintro ⟨r, d', hrun', -, hsome⟩
      rw [hrun] at hrun'
      cases hrun'
      refine ⟨nofun, fun c' hc' => ?_⟩
      cases hc'
      exact (allocated_iff hs hzero).mp (hsome c rfl).2
    · rintro ⟨-, hapart⟩
      refine ⟨some c, fs.allocated d c, hrun, nofun, fun c' hc' => ?_⟩
      cases hc'
      exact ⟨hmem, (allocated_iff hs hzero).mpr (hapart c rfl)⟩

/-- The theorem for the disk with one file. -/
theorem alloc_exact_sample : pairedFs.AllocatesCluster pairedDisk := by
  have hhead : (pairedFs.freeClusters pairedDisk).head? = some 3 := by decide +kernel
  refine (alloc_exact pairedBoot_open pairedFs_onDisk pairedDisk).mpr ⟨fun hnil => ?_, fun c hc => ?_⟩
  · rw [hnil] at hhead
    cases hhead
  · rw [hhead] at hc
    cases hc
    have haddr : pairedFs.clusterAddr 3 = 2048 := by decide
    refine ⟨by decide, fun c' hc' _ hle _ => ?_⟩
    have hlt : c' < 128 := hc'.2
    have hfat : pairedFs.fatAddr c' = 512 + 4 * c' := rfl
    rw [haddr, hfat] at hle
    omega

/-- The boot sector of a volume with two clusters. -/
def tinyBoot : Bytes := pairedBoot.store 32 6 4

/-- The volume. -/
def tinyFs : Fat32Fs :=
  ⟨⟨512, 2, 1, 1, 0, 0, 6, 1, 0⟩, 1, 2, 2, 0⟩

/-- Both clusters are free on an empty disk, but the allocator does not find them. -/
theorem alloc_misses : openFs tinyBoot = some (some tinyFs) ∧ tinyFs.DataOnDisk ∧
    ¬ tinyFs.AllocatesCluster Bytes.zero := by
  have hdata : tinyFs.DataOnDisk := by
    unfold DataOnDisk
    decide
  refine ⟨by decide +kernel, hdata, ?_⟩
  rintro ⟨r, d', hrun, hnone, -⟩
  have hmissed : (tinyFs.allocCluster Bytes.zero).map Prod.fst = some none := by decide +kernel
  have hfree : tinyFs.fatEntry Bytes.zero 2 = fat32Free := by decide +kernel
  rw [hrun] at hmissed
  obtain rfl : r = none := Option.some.inj hmissed
  have hmem : 2 ∈ tinyFs.allFree Bytes.zero := mem_allFree.mpr ⟨⟨by decide, by decide⟩, hfree⟩
  rw [(hnone rfl).2] at hmem
  cases hmem

end Fat32Fs

end Fs

end NekOS
