import NekOS.AddressSpace.Isolation
import NekOS.AddressSpace.Packing
import NekOS.AddressSpace.Rejection

/-!
# An image that covers the window of the kernel

`create_user_image` rejects an image that ends above the limit of the heap, and releases every page
between the ends of the image.  When the kernel's window lies between them, its pages are released as
well: the page tables, kernel stacks and programs of all tasks.
-/

namespace NekOS

open PageTable

variable {strict : Bool} {own : ℕ → Role}

/-- A program whose image is rejected because it ends above the limit of the heap, and covers all the
pages that its page table maps. -/
structure Exec.Overreaching (data : List UInt8) : Prop where
  header : headerOk data = true
  loadable : Loadable data (Elf64Ehdr.read data)
  sum_lt : (imageRange data).1 + (imageRange data).2 < 2 ^ 64
  limit_lt : TaskManager.heapLimit < (imageRange data).1 + (imageRange data).2
  covers : ∀ n, KernelPage n ∨
    n ∈ imagePages data (Elf64Ehdr.read data) (Elf64Ehdr.read data).ePhnum ∨ n = stackPage →
      n ∈ spacePages (imageRange data).1 (imageRange data).2
        ((imageRange data).1 + (imageRange data).2) ((imageRange data).1 + (imageRange data).2)

namespace Kernel

variable {k : Kernel}

/-- Starting such a program fails, and no page in the window of the kernel is allocated afterwards.  All
page tables map what they did. -/
lemma spawn_overreaching {name : String} {data : List UInt8}
    (h : NekOS.Housed strict k.tm k.phys own) (hfile : k.findFile name = some data)
    (hdata : Exec.Overreaching data) (helf : Exec.ElfOk strict data (Elf64Ehdr.read data))
    (hpages : Exec.cost data ≤ k.phys.page.freePages) :
    ∃ ph', spawn name k = some (none, { k with phys := ph' }) ∧
      (∀ n, KernelPage n → ¬ ph'.page.Allocated (n * pageSize)) ∧
      ∀ s, own s = .root → ∀ n, lookup ph' s n = lookup k.phys s n := by
  rw [Exec.cost] at hpages
  obtain ⟨o, ph₁, own₁, hload, hfail, hdone⟩ := loadFile_spec h.spaces helf
  rcases o with _ | image
  · obtain ⟨-, hwhy⟩ := hfail rfl
    rcases hwhy with hheader | hloadable | hfew
    · simp [hdata.header] at hheader
    · exact absurd hdata.loadable hloadable
    · omega
  obtain ⟨hfree, hB, hL, -, hrange, -⟩ := hdone image rfl
  have hbase : image.imageBase = (Exec.imageRange data).1 := congrArg Prod.fst hrange
  have hsize : image.imageSize = (Exec.imageRange data).2 := congrArg Prod.snd hrange
  have hcovers := hdata.covers
  rw [← hbase, ← hsize] at hcovers
  have halign : image.userStack % pageSize = 0 := hB.tables.page_aligned (by rw [hL.stack]; simp)
  have hleaf : ∀ n < 2 ^ 27, n ∉ spacePages image.imageBase image.imageSize
      (image.imageBase + image.imageSize) (image.imageBase + image.imageSize) → ∀ e,
        lookup ph₁ image.pagetable n = some e → isLeaf e = true := by
    intro n hn hnot e he
    have hsome : (lookup ph₁ image.pagetable n).isSome = true := by
      rw [he]
      rfl
    exact absurd (hcovers n ((hL.mapped n hn).mp hsome)) hnot
  obtain ⟨ph', hrelease, hreclaimed, -, hlookups⟩ :=
    freeUserSpace_raw hB.tables hB.root halign hleaf
  refine ⟨ph', ?_, fun n hn hallocated => ?_, fun s hs n => ?_⟩
  · have hrun : load name k = some (some image, { k with phys := ph₁ }) := by
      rw [load, Fallible.gets_bind, Fallible.ofOption_bind]
      simp only [id, hfile, Option.elim_some]
      exact onPhys_eq_some.mpr ⟨ph₁, hload, rfl⟩
    have hsum : checkedAdd image.imageBase image.imageSize =
        some (image.imageBase + image.imageSize) := by
      rw [checkedAdd_eq_some, hbase, hsize]
      exact ⟨hdata.sum_lt, rfl⟩
    have hlimit : TaskManager.heapLimit < image.imageBase + image.imageSize := by
      rw [hbase, hsize]
      exact hdata.limit_lt
    have hfreed : onPhys (freeUserSpace image.pagetable image.userStack image.imageBase
        image.imageSize (image.imageBase + image.imageSize) (image.imageBase + image.imageSize))
          { k with phys := ph₁ } = some (some (), { k with phys := ph' }) :=
      onPhys_eq_some.mpr ⟨ph', hrelease, rfl⟩
    rw [spawn, Fallible.bind_of_some hrun, createUserImage, hsum, Fallible.ofOption_bind,
      Option.elim_some, if_pos (Or.inl hlimit), Fallible.bind_of_some hfreed]
    rfl
  · obtain ⟨e, he, hleaf⟩ := hL.kernel n hn
    exact ((hreclaimed.allocated _).mp hallocated).2
      (Or.inl ⟨n, hcovers n (Or.inl hn), e, he, hleaf.pa⟩)
  · have hne : s ≠ image.pagetable := by
      rintro rfl
      simp [hs] at hfree
    have hroot : own₁ s = .root := by rw [hB.keep s (by rw [hs]; simp), hs]
    rw [hlookups s hroot hne n]
    exact hB.toLocal.lookup_eq h.spaces.tables hB.tables hs hne n

end Kernel

/-! ### The sample machine -/

/-- A program with a page below the window of the kernel and one above. -/
def overreachingProgram : List UInt8 := sampleElf [0x10000, 0x90000000]

/-- The pages of the program. -/
lemma overreachingProgram_pages : (Elf64Ehdr.read overreachingProgram).ePhnum = 2 ∧
    Exec.imagePages overreachingProgram (Elf64Ehdr.read overreachingProgram) 2 = [0x10, 0x90000] ∧
    Exec.imageRange overreachingProgram = (0x10000, 0x8fff1000) := by decide +kernel

/-- The pages that are visited when the program is rejected. -/
lemma mem_overreachingPages {n : ℕ} (h₁ : 0x10 ≤ n) (h₂ : n ≤ 0x90000) :
    n ∈ spacePages 0x10000 0x8fff1000 (0x10000 + 0x8fff1000) (0x10000 + 0x8fff1000) := by
  rw [spacePages, Finset.mem_union, mem_visited]
  have hfloor : pageFloor 0x10000 = 0x10 * pageSize := by decide
  have hsteps : pageSteps (pageFloor 0x10000) (pageCeil (wrap (0x10000 + 0x8fff1000))) = 0x8fff1 := by
    decide
  refine Or.inl ⟨n - 0x10, by rw [hsteps]; omega, ?_⟩
  rw [hfloor, ← Nat.add_mul, Nat.add_sub_cancel' h₁, pageNumber_of_lt]
  · exact Nat.mul_div_cancel _ (by decide)
  · simp only [pageSize]
    omega

/-- The program covers the window. -/
lemma overreachingProgram_overreaching : Exec.Overreaching overreachingProgram := by
  obtain ⟨hnum, hpages, hrange⟩ := overreachingProgram_pages
  refine ⟨by decide +kernel, ⟨?_, ?_, ?_, ?_⟩, ?_, ?_, fun n hn => ?_⟩
  · rw [hnum]
    decide +kernel
  · rw [hnum, hpages]
    decide
  · rw [hnum, hpages]
    decide
  · rw [hnum]
    decide +kernel
  · rw [hrange]
    decide
  · rw [hrange]
    decide
  · rw [hrange]
    refine mem_overreachingPages ?_ ?_
    all_goals
      rw [hnum, hpages, kernelPage_iff, List.mem_pair, stackPage] at hn
      simp only [userStackTop, pageSize] at hn
      omega

/-- No segment of the program wraps around the address space. -/
lemma overreachingProgram_elfOk :
    Exec.ElfOk true overreachingProgram (Elf64Ehdr.read overreachingProgram) := by
  rw [Exec.ElfOk, overreachingProgram_pages.1]
  decide +kernel

/-- The sample machine with the program in its ramdisk. -/
lemma Sample.exists_overreach : ∃ (x : Sample) (s : System) (own : ℕ → Role),
    (sampleConfig [("bad", overreachingProgram)]).boot = some x.start ∧
    nekos.run x.start [.spawn "bad"] = some s ∧ s.kernel.tm = x.start.kernel.tm ∧
    NekOS.Housed true x.start.kernel.tm x.phys own ∧
    (∃ e, lookup x.phys x.shell.pagetable stackPage = some e ∧
      UserLeaf own x.shell.pagetable stackPage e) ∧
    (∀ p, own p ≠ .free → ¬ s.kernel.phys.page.Allocated p) ∧
    ∀ r, own r = .root → ∀ n, lookup s.kernel.phys r n = lookup x.phys r n := by
  obtain ⟨x, hboot, hbooted⟩ := exists_start [("bad", overreachingProgram)]
  obtain ⟨own, hhoused⟩ := hbooted.housed
  have hfile : x.start.kernel.findFile "bad" = some overreachingProgram := by
    rw [Kernel.findFile, hbooted.files]
    simp [sampleConfig]
  have hpages : Exec.cost overreachingProgram ≤ x.start.kernel.phys.page.freePages := by
    have hfree := hbooted.pages
    rw [(sampleConfig_page _).2.2, sampleProgram_cost] at hfree
    have hcost : Exec.cost overreachingProgram = 35 := by
      obtain ⟨hnum, himage, -⟩ := overreachingProgram_pages
      rw [Exec.cost, hnum, himage]
      rfl
    omega
  obtain ⟨ph', hspawn, hfreed, hlookups⟩ := Kernel.spawn_overreaching hhoused hfile
    overreachingProgram_overreaching overreachingProgram_elfOk hpages
  have hshell : x.start.kernel.tm.tasks ⟨3, by decide⟩ =
      some { task 3 x.shell with state := .running } := rfl
  have hroot := (hhoused.home _ _ hshell).root
  have hleaf := (hhoused.spaces.space _ hroot).leaf stackPage (by decide) _ hbooted.placed.stack
  have huser := hleaf.resolve_left fun hkernel => absurd hkernel.page (by decide)
  refine ⟨x, ⟨{ x.start.kernel with phys := ph' }, x.start.hart⟩, own, hboot, ?_, rfl, hhoused,
    ⟨_, hbooted.placed.stack, huser⟩, fun p hp => ?_, hlookups⟩
  · refine Machine.run_cons_eq_some.mpr ⟨_, ?_, nekos.run_nil _⟩
    have hstep : nekos.step x.start (.spawn "bad") =
        (Kernel.spawn "bad" x.start.kernel).map fun r => { x.start with kernel := r.2 } := rfl
    rw [hstep, hspawn]
    rfl
  · have hT := hhoused.spaces.tables
    obtain ⟨hle, hlt⟩ := Sample.allocated_lt hboot hbooted (hT.allocated hp)
    have halign := hT.page_aligned hp
    simp only [pageSize] at halign
    have hkernel : KernelPage (p / pageSize) :=
      kernelPage_iff.mpr (Or.inl (by simp only [pageSize]; omega))
    have hpage : p / pageSize * pageSize = p := by
      simp only [pageSize]
      omega
    have hnot := hfreed _ hkernel
    rwa [hpage] at hnot

namespace System

end System

end NekOS
