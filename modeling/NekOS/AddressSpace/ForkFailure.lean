import NekOS.AddressSpace.Retention
import NekOS.AddressSpace.Startup

/-!
# Failing forks

`fork` takes its pages one after the other and gives none of them back when it fails, and it looks
for a free slot last, after the pid has been taken.  So a failing `fork` leaves everything as it
was only when it fails before its first allocation.
-/

namespace NekOS

namespace Kernel

open TaskManager

/-- Everything that a failing `fork` should leave alone. -/
structure ForkUnchanged (k k' : Kernel) : Prop where
  /-- The allocated pages. -/
  pages : ∀ p, k'.phys.page.Allocated p ↔ k.phys.page.Allocated p
  /-- The task table, with the saved frame of the parent. -/
  tasks : k'.tm.tasks = k.tm.tasks
  nextPid : k'.tm.nextPid = k.tm.nextPid
  runnableCount : k'.tm.runnableCount = k.tm.runnableCount
  /-- The address space of the parent: what it maps, and the bytes there. -/
  space : ∀ t, k.tm.current = some t → ∀ va,
    PageTable.findPte k'.phys t.pagetable va = PageTable.findPte k.phys t.pagetable va ∧
    ∀ pa, PageTable.virtToPhys k.phys t.pagetable va = some pa →
      k'.phys.mem.byteAt pa = k.phys.mem.byteAt pa

/-- Nothing has changed. -/
lemma ForkUnchanged.refl (k : Kernel) : ForkUnchanged k k where
  pages _ := Iff.rfl
  tasks := rfl
  nextPid := rfl
  runnableCount := rfl
  space _ _ _ := ⟨rfl, fun _ _ => rfl⟩

/-! ### A program that cannot be forked -/

/-- A program with a page below the registers of the UART and one above. -/
def spanningProgram : List UInt8 := sampleElf [0x10000, 0x20000000]

/-- The pages of the program. -/
lemma spanningProgram_pages : (Elf64Ehdr.read spanningProgram).ePhnum = 2 ∧
    Exec.imagePages spanningProgram (Elf64Ehdr.read spanningProgram) 2 = [0x10, 0x20000] ∧
    Exec.imageRange spanningProgram = (0x10000, 0x1fff1000) := by decide +kernel

/-- The program can be started. -/
lemma spanningProgram_startable : Exec.Startable true spanningProgram := by
  obtain ⟨hnum, hpages, hrange⟩ := spanningProgram_pages
  refine ⟨by decide +kernel, ⟨?_, ?_, ?_, ?_⟩, ?_, ?_, ?_⟩
  · rw [hnum]
    decide +kernel
  · rw [hnum, hpages]
    decide
  · rw [hnum, hpages]
    decide
  · rw [hnum]
    decide +kernel
  · rw [Exec.ElfOk, hnum]
    decide +kernel
  · rw [hrange]
    decide
  · rw [hrange]
    decide

/-- The sample machine with this program as its shell. -/
def spanningConfig : Config :=
  { sampleConfig [] with
    files := [("console", sampleProgram), ("fs-server", sampleProgram), ("shell", spanningProgram)] }

/-- The machine boots. -/
lemma spanningConfig_boots : ∃ s r, spanningConfig.boot = some s ∧
    Config.Booted true spanningConfig sampleProgram sampleProgram spanningProgram s r := by
  have hstart := sampleProgram_startable
  refine Config.boot_of_bootable ⟨rfl, ?_, ?_, hstart, hstart, spanningProgram_startable, ?_⟩
  · simp [Kernel.findFile, Config.powerOn, spanningConfig]
  · simp [Kernel.findFile, Config.powerOn, spanningConfig]
  · obtain ⟨hnum, hpages, -⟩ := spanningProgram_pages
    rw [sampleProgram_cost, Exec.cost, hnum, hpages]
    change 150 ≤ (sampleConfig []).powerOn.phys.page.freePages
    decide

end Kernel

end NekOS
