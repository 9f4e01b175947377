import NekOS.Fat32.Reading
import NekOS.Fat32.Table

/-!
# Mounting

`open` checks some of the fields of the boot sector.  It does not check that a cluster has sectors, that the
volume is larger than its tables, and that the tables have an entry for every cluster.
-/

namespace NekOS

namespace Fs

namespace Fat32Bpb

variable (bpb : Fat32Bpb)

/-- `open` returns without a volume. -/
def Rejected : Prop :=
  bpb.bytesPerSector ≠ blockSize ∨ bpb.rootEntryCount ≠ 0 ∨ bpb.fatSize16 ≠ 0 ∨ bpb.numFats = 0 ∨
    bpb.fatSize32 = 0

/-- The number of sectors of the tables. -/
def tableSectors : ℕ := bpb.numFats * bpb.fatSize32

/-- The number of sectors before the data area. -/
def headSectors : ℕ := bpb.reservedSectorCount + bpb.tableSectors

/-- The fields fit together: clusters have sectors, the volume has a data area, and the tables have an entry
for every cluster of it and for the root directory. -/
def Consistent : Prop :=
  bpb.sectorsPerCluster ≠ 0 ∧ bpb.headSectors ≤ bpb.totalSectors32 ∧
    4 * ((bpb.totalSectors32 - bpb.headSectors) / bpb.sectorsPerCluster + 2) ≤
      bpb.tableSectors * blockSize ∧
    4 * (bpb.rootCluster + 1) ≤ bpb.tableSectors * blockSize

end Fat32Bpb

namespace Fat32Fs

/-- What mounting is for: `open` does not panic, and the geometry of a volume that it accepts is
consistent. -/
def MountsSafely (sector : Bytes) : Prop :=
  openFs sector ≠ none ∧ ∀ fs, openFs sector = some (some fs) →
    0 < fs.spc ∧ fs.dataStart ≤ fs.bpb.totalSectors32 ∧
    fs.dataStart + fs.totalClusters * fs.spc ≤ fs.bpb.totalSectors32 ∧ fs.TableCovers ∧
    fs.fatStart * blockSize + 4 * (fs.rootCluster + 1) ≤ fs.dataStart * blockSize

/-- What `open` does with a boot sector that it does not reject. -/
lemma openFs_eq {sector : Bytes} {bpb : Fat32Bpb} (hread : Fat32Bpb.read sector = bpb)
    (h : ¬ bpb.Rejected) : openFs sector =
      if bpb.sectorsPerCluster = 0 then none
      else some (some ⟨bpb, bpb.reservedSectorCount, bpb.headSectors,
        wrap32 (wrapSub bpb.totalSectors32 bpb.headSectors / bpb.sectorsPerCluster),
        bpb.rootCluster⟩) := by
  unfold Fat32Bpb.Rejected at h
  push Not at h
  obtain ⟨h₁, h₂, h₃, h₄, h₅⟩ := h
  unfold openFs
  dsimp only
  rw [hread, if_neg (not_not_intro h₁), if_neg (by simp [h₂, h₃]), if_neg (by simp [h₄, h₅])]
  rfl

/-- A boot sector that is rejected. -/
lemma openFs_rejected {sector : Bytes} (h : (Fat32Bpb.read sector).Rejected) :
    openFs sector = some none := by
  unfold Fat32Bpb.Rejected at h
  unfold openFs
  dsimp only
  split_ifs with h₁ h₂ h₃
  · rfl
  · rfl
  · rfl
  all_goals
    exfalso
    omega

/-- **Mounting.**  `open` is safe if and only if it rejects the boot sector or its fields fit together. -/
theorem mount_exact (sector : Bytes) :
    MountsSafely sector ↔
      (Fat32Bpb.read sector).Rejected ∨ (Fat32Bpb.read sector).Consistent := by
  by_cases hrej : (Fat32Bpb.read sector).Rejected
  · have hopen := openFs_rejected hrej
    refine ⟨fun _ => Or.inl hrej, fun _ => ⟨?_, fun fs hfs => ?_⟩⟩
    · rw [hopen]
      exact nofun
    · rw [hopen] at hfs
      cases hfs
  have hopen := openFs_eq rfl hrej
  have hts : (Fat32Bpb.read sector).totalSectors32 < 2 ^ 32 := Bytes.load_lt sector 32 4
  generalize Fat32Bpb.read sector = bpb at hrej hopen hts ⊢
  rw [or_iff_right hrej]
  by_cases hspc : bpb.sectorsPerCluster = 0
  · rw [if_pos hspc] at hopen
    exact ⟨fun h => absurd hopen h.1, fun h => absurd hspc h.1⟩
  rw [if_neg hspc] at hopen
  have hregion : bpb.headSectors * blockSize =
      bpb.reservedSectorCount * blockSize + bpb.tableSectors * blockSize := Nat.add_mul ..
  have hclusters : bpb.headSectors ≤ bpb.totalSectors32 →
      wrap32 (wrapSub bpb.totalSectors32 bpb.headSectors / bpb.sectorsPerCluster) =
        (bpb.totalSectors32 - bpb.headSectors) / bpb.sectorsPerCluster := fun hle => by
    have hdiv := Nat.div_le_self (bpb.totalSectors32 - bpb.headSectors) bpb.sectorsPerCluster
    rw [wrapSub_of_le hle (by omega)]
    exact wrap32_of_lt (by omega)
  constructor
  · rintro ⟨-, h⟩
    obtain ⟨-, hle, -, hcovers, hroot⟩ := h _ hopen
    unfold TableCovers at hcovers
    dsimp only at hle hcovers hroot
    rw [hclusters hle, hregion] at hcovers
    rw [hregion] at hroot
    exact ⟨hspc, hle, Nat.le_of_add_le_add_left hcovers, Nat.le_of_add_le_add_left hroot⟩
  · rintro ⟨-, hle, hcovers, hroot⟩
    refine ⟨by rw [hopen]; exact nofun, fun fs hfs => ?_⟩
    rw [hopen] at hfs
    cases hfs
    have hmul := Nat.div_mul_le_self (bpb.totalSectors32 - bpb.headSectors) bpb.sectorsPerCluster
    unfold TableCovers spc
    dsimp only
    rw [hclusters hle, hregion]
    exact ⟨Nat.pos_of_ne_zero hspc, hle, by omega, Nat.add_le_add_left hcovers _,
      Nat.add_le_add_left hroot _⟩

/-- A boot sector with clusters without sectors makes `open` divide by zero. -/
theorem mount_divides_by_zero : ¬ MountsSafely (pairedBoot.store 13 0 1) := by
  rintro ⟨hopen, -⟩
  have hpanic : openFs (pairedBoot.store 13 0 1) = none := by decide +kernel
  exact hopen hpanic

end Fat32Fs

end Fs

end NekOS
