import NekOS.Fat32.Listing
import NekOS.Fat32.Growing

/-!
# Directories and files that are kept

A change of the disk that leaves the entries and the bytes of the clusters of a chain leaves the directory or
the file in this chain.
-/

namespace NekOS

namespace Fs

namespace Fat32Fs

/-- The clusters have the same entries and the same bytes on two disks. -/
def Kept (fs : Fat32Fs) (d d' : Disk) (cs : List ℕ) : Prop :=
  ∀ c ∈ cs, fs.fatEntry d' c = fs.fatEntry d c ∧
    ∀ j < fs.clusterSize, d' (fs.clusterAddr c + j) = d (fs.clusterAddr c + j)

/-- The clusters of a file: none if its entry has no cluster, else a chain of clusters of the volume. -/
def FileChain (fs : Fat32Fs) (d : Disk) (first : ℕ) (fc : List ℕ) : Prop :=
  if 2 ≤ first then Chain (fs.link d) first fc ∧ ∀ c ∈ fc, fs.IsCluster c else fc = []

variable {fs : Fat32Fs} {d d' d'' : Disk} {cluster first p : ℕ} {cs fc : List ℕ}

/-- Nothing is changed. -/
lemma Kept.refl (fs : Fat32Fs) (d : Disk) (cs : List ℕ) : fs.Kept d d cs := fun _ _ => ⟨rfl, fun _ _ => rfl⟩

/-- Two changes. -/
lemma Kept.trans (h : fs.Kept d d' cs) (h' : fs.Kept d' d'' cs) : fs.Kept d d'' cs := fun c hc =>
  ⟨(h' c hc).1.trans (h c hc).1, fun j hj => ((h' c hc).2 j hj).trans ((h c hc).2 j hj)⟩

/-- A chain that is kept. -/
lemma Kept.chain (h : fs.Kept d d' cs) (hs : fs.Sound) (hclusters : ∀ c ∈ cs, fs.IsCluster c)
    (hchain : Chain (fs.link d) first cs) : Chain (fs.link d') first cs :=
  hchain.congr fun c hc => by
    rw [hs.link_eq (hclusters c hc), hs.link_eq (hclusters c hc), (h c hc).1]

/-- A file that is kept. -/
lemma Kept.file (h : fs.Kept d d' fc) (hs : fs.Sound) (hf : fs.FileChain d first fc) :
    fs.FileChain d' first fc ∧ ∀ k < fs.chainLength fc, fs.chainByte d' fc k = fs.chainByte d fc k := by
  refine ⟨?_, fun k hk => ?_⟩
  · unfold FileChain at hf ⊢
    split_ifs at hf ⊢ with hge
    · exact ⟨h.chain hs hf.2 hf.1, hf.2⟩
    · exact hf
  · obtain ⟨hlt, hbyte⟩ := chainByte_place (d := d) hk
    obtain ⟨_, hbyte'⟩ := chainByte_place (d := d') hk
    rw [hbyte, hbyte']
    exact (h _ (List.getElem_mem hlt)).2 _ (Nat.mod_lt _ hs.clusterSize_pos)

/-- A change of a chain keeps the chains of other clusters. -/
lemma Written.kept {news : List ℕ} {f : ℕ → UInt8} (hw : fs.Written d cluster cs d' news f) (hs : fs.Sound)
    (hcs : ∀ c ∈ cs, fs.IsCluster c) {l : List ℕ} (hl : ∀ c ∈ l, fs.IsCluster c)
    (hapart : l.Disjoint (cs ++ news)) : fs.Kept d d' l := by
  have hclusters := hw.clusters hcs
  have hrelinked : ∀ c, Relinked cs news c → c ∈ cs ++ news := by
    rintro c (hc | ⟨-, hc⟩)
    · exact List.mem_append_right _ hc
    · exact List.mem_append_left _ (List.mem_of_getLast? hc)
  intro c hc
  have hentry := hs.fatAddr_le (hl c hc)
  have hdata : fs.dataStart * blockSize ≤ fs.clusterAddr c := le_clusterAddr
  refine ⟨fatEntry_congr fun x hle hlt => ?_, fun j hj => ?_⟩
  · by_contra hne
    rcases hw.frame x hne with ⟨c', hc', hle', -⟩ | ⟨c', hc', hle', hlt'⟩
    · have hdata' : fs.dataStart * blockSize ≤ fs.clusterAddr c' := le_clusterAddr
      omega
    · have hcc' : c ≠ c' := fun heq => hapart hc (heq ▸ hrelinked c' hc')
      unfold fatAddr at *
      omega
  · by_contra hne
    rcases hw.frame _ hne with ⟨c', hc', hle', hlt'⟩ | ⟨c', hc', hle', hlt'⟩
    · have hcc' : c ≠ c' := fun heq => hapart hc (heq ▸ hc')
      have hapart' := hs.clusterAddr_apart (hl c hc) (hclusters c' hc') hcc'
      omega
    · have hentry' := hs.fatAddr_le (hclusters c' (hrelinked c' hc'))
      omega

namespace Directory

/-- A slot lies in a cluster. -/
lemma slotAddr_cluster (h : fs.Directory d cluster cs) (hp : p < fs.slotCount cs) :
    ∃ c ∈ cs, ∃ j, fs.slotAddr cs p = fs.clusterAddr c + j ∧ j + 32 ≤ fs.clusterSize := by
  obtain ⟨c, hc, hsector⟩ := List.mem_flatMap.mp (sector_mem hp)
  obtain ⟨i, hi, heq⟩ := List.mem_map.mp hsector
  have hi := List.mem_range.mp hi
  have hmod : p % entriesPerSector < 16 := Nat.mod_lt _ (by decide)
  have hle : (i + 1) * blockSize ≤ fs.spc * blockSize := Nat.mul_le_mul_right _ hi
  refine ⟨c, hc, i * blockSize + p % entriesPerSector * 32, ?_, ?_⟩
  · rw [slotAddr, ← heq, clusterAddr, sectorOf, Nat.add_mul _ i, Nat.add_assoc]
  · rw [h.sound.size_eq]
    unfold blockSize at hle ⊢
    omega

/-- The slots of a directory that is kept. -/
lemma slots_kept (h : fs.Directory d cluster cs) (hkept : fs.Kept d d' cs) :
    slotsOf d' (fs.dirSectors cs) = slotsOf d (fs.dirSectors cs) := by
  rw [dirSlots_eq, dirSlots_eq]
  refine List.map_congr_left fun p hp => funext fun i => ?_
  obtain ⟨c, hc, j, haddr, hj⟩ := h.slotAddr_cluster (p := p)
    (by simpa only [Nat.zero_add] using (List.mem_range'_1.mp hp).2)
  have hi := i.isLt
  rw [DirEntry.read, DirEntry.read, haddr, Nat.add_assoc]
  exact (hkept c hc).2 _ (by omega)

/-- A directory that is kept. -/
lemma kept (h : fs.Directory d cluster cs) (hkept : fs.Kept d d' cs) :
    fs.Directory d' cluster cs ∧ fs.listing d' cs = fs.listing d cs :=
  ⟨⟨h.sound, hkept.chain h.sound h.clusters h.chain, h.clusters⟩, by
    rw [listing, listing, h.slots_kept hkept]⟩

end Directory

end Fat32Fs

end Fs

end NekOS
