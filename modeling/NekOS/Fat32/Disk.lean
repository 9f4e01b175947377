import NekOS.Foundation.Bytes
import NekOS.Kernel.Arch

/-!
# The RAM disk

The block device of the file server: an array of bytes that is read and written in sectors.  The server is
built in release mode, where sums and products of machine integers wrap around.
-/

namespace NekOS

namespace Fs

/-- `BLOCK_SIZE`. -/
abbrev blockSize : ℕ := 512

/-- `RAMDISK_SIZE`. -/
def ramdiskSize : ℕ := 4 * 1024 * 1024

/-- `RAMDISK_SECTORS`. -/
def ramdiskSectors : ℕ := ramdiskSize / blockSize

/-- A value as a `u32`. -/
def wrap32 (x : ℕ) : ℕ := x % 2 ^ 32

/-- A value in the 32-bit range is not changed. -/
lemma wrap32_of_lt {x : ℕ} (h : x < 2 ^ 32) : wrap32 x = x := Nat.mod_eq_of_lt h

/-- The contents of `RAMDISK`. -/
abbrev Disk := Bytes

/-- `disk_read` of one sector.  Without a value the slice panics; the value `none` is `false`. -/
def diskRead (d : Disk) (sector : ℕ) : Option (Option Bytes) :=
  let offset := wrap (sector * blockSize)
  let stop := wrap (blockSize + offset)
  if ramdiskSize < stop then some none
  else if stop < offset then none
  else some (some fun i => d (offset + i))

/-- `disk_write` of one sector. -/
def diskWrite (d : Disk) (sector : ℕ) (buf : Bytes) : Option (Option Disk) :=
  let offset := wrap (sector * blockSize)
  let stop := wrap (blockSize + offset)
  if ramdiskSize < stop then some none
  else if stop < offset then none
  else some (some (d.blit offset buf 0 blockSize))

section Sectors

variable {d : Disk} {sector : ℕ} {buf : Bytes}

/-- Where a sector of the disk lies. -/
lemma sector_offset (h : sector < ramdiskSectors) :
    wrap (sector * blockSize) = sector * blockSize ∧
      wrap (blockSize + sector * blockSize) = blockSize + sector * blockSize ∧
      blockSize + sector * blockSize ≤ ramdiskSize := by
  simp only [ramdiskSectors, ramdiskSize, blockSize] at *
  exact ⟨wrap_of_lt (by omega), wrap_of_lt (by omega), by omega⟩

/-- Reading a sector of the disk. -/
lemma diskRead_of_lt (h : sector < ramdiskSectors) :
    diskRead d sector = some (some fun i => d (sector * blockSize + i)) := by
  obtain ⟨h₁, h₂, h₃⟩ := sector_offset h
  rw [diskRead, h₁, h₂]
  rw [if_neg (by omega), if_neg (by omega)]

/-- Writing a sector of the disk. -/
lemma diskWrite_of_lt (h : sector < ramdiskSectors) :
    diskWrite d sector buf = some (some (d.blit (sector * blockSize) buf 0 blockSize)) := by
  obtain ⟨h₁, h₂, h₃⟩ := sector_offset h
  rw [diskWrite, h₁, h₂]
  rw [if_neg (by omega), if_neg (by omega)]

/-- There is no sector behind the end of the disk. -/
lemma diskRead_of_le (h : ramdiskSectors ≤ sector) (hlt : sector < 2 ^ 54) :
    diskRead d sector = some none := by
  simp only [ramdiskSectors, ramdiskSize, blockSize] at h
  have h₁ : wrap (sector * 512) = sector * 512 := wrap_of_lt (by omega)
  have h₂ : wrap (512 + sector * 512) = 512 + sector * 512 := wrap_of_lt (by omega)
  rw [diskRead, blockSize, h₁, h₂, ramdiskSize]
  exact if_pos (by omega)

/-- Nothing is written there. -/
lemma diskWrite_of_le (h : ramdiskSectors ≤ sector) (hlt : sector < 2 ^ 54) :
    diskWrite d sector buf = some none := by
  simp only [ramdiskSectors, ramdiskSize, blockSize] at h
  have h₁ : wrap (sector * 512) = sector * 512 := wrap_of_lt (by omega)
  have h₂ : wrap (512 + sector * 512) = 512 + sector * 512 := wrap_of_lt (by omega)
  rw [diskWrite, blockSize, h₁, h₂, ramdiskSize]
  exact if_pos (by omega)

end Sectors

end Fs

end NekOS
