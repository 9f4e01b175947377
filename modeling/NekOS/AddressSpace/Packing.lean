import NekOS.AddressSpace.Retention
import NekOS.AddressSpace.Startup

/-!
# Where the boot places its pages

A boot that goes through gives no page back, and `page::alloc` hands out the first page that is
free.  So the pages of a booted machine are the first ones of the managed range, one after another.
-/

namespace NekOS

namespace PageAllocator

/-- The pages handed out are the first ones of the managed range. -/
def Packed (a : PageAllocator) : Prop := ∃ k ≤ a.totalPages, a.Prefix k

/-- A new allocator is packed. -/
lemma packed_new (start total : ℕ) : (new start total).Packed :=
  ⟨0, Nat.zero_le _, prefix_new start total⟩

/-- Allocating keeps the allocator packed. -/
lemma Packed.alloc {a a' : PageAllocator} {p : ℕ} (h : a.Packed) (halloc : a.alloc = some (p, a')) :
    a'.Packed := by
  obtain ⟨k, hk, hleading⟩ := h
  obtain ⟨-, -, -, htotal, hcount⟩ := alloc_eq_some halloc
  have hlt : k < a.totalPages := by
    have hfree := hleading.free
    omega
  obtain ⟨b, hb, hleading'⟩ := hleading.alloc hlt
  obtain rfl : b = a' := congrArg Prod.snd (Option.some.inj (hb.symm.trans halloc))
  exact ⟨k + 1, by omega, hleading'⟩

/-- The pages of a packed allocator lie within the number of pages that are taken. -/
lemma Packed.allocated_lt {a : PageAllocator} {p : ℕ} (h : a.Packed) (hp : a.Allocated p) :
    p < a.startAddr + (a.totalPages - a.freePages) * pageSize := by
  obtain ⟨k, hk, hleading⟩ := h
  obtain ⟨i, hi, rfl, hused⟩ := hp
  have hik : i < k := by
    rw [hleading.used i hi] at hused
    exact of_decide_eq_true hused
  have htaken : a.totalPages - a.freePages = k := by
    have hfree := hleading.free
    omega
  rw [htaken]
  simp only [pageSize]
  omega

end PageAllocator

/-! ### The boot only takes pages -/

namespace Allocates

/-- One iteration of `set_flags`. -/
lemma setFlagsPage (pt va flags : ℕ) : Allocates (PageTable.setFlagsPage pt va flags) :=
  bind (walk _ _ _) fun _ => bind (gets _) fun _ => ite fail (modify fun _ => rfl)

/-- `set_flags`. -/
lemma setFlags (pt va size flags : ℕ) : Allocates (PageTable.setFlags pt va size flags) :=
  ite fail (forRange fun _ => setFlagsPage _ _ _)

/-- `vm::init`. -/
lemma vmInit : Allocates Vm.init :=
  bind create fun _ => bind (mapKernel _) fun _ => pure _

end Allocates

/-- What `page::alloc` and writing to memory keep. -/
structure AllocInvariant (I : Phys → Prop) : Prop where
  mem : ∀ ph ph', ph'.page = ph.page → I ph → I ph'
  alloc : Fallible.Keeps I allocPage

namespace AllocInvariant

open Kernel

variable {I : Phys → Prop} {k k' : Kernel}

/-- A program that only takes pages keeps it. -/
lemma keep (hI : AllocInvariant I) {α : Type} {f : Fallible Phys α} (hf : Allocates f) :
    Fallible.Keeps I f := hf I hI.mem hI.alloc

/-- The idle task is created without giving a page back. -/
lemma createIdle (hI : AllocInvariant I) {entry pid : ℕ} (h : I k.phys)
    (hrun : createIdle entry k = some (some pid, k')) : I k'.phys := by
  rw [Kernel.createIdle, readTm_bind] at hrun
  rcases Fallible.guard_cases hrun with ⟨-, hnone, -⟩ | ⟨-, hrun⟩
  · simp at hnone
  rcases Fallible.ofOption_bind_cases hrun with ⟨-, hnone, -⟩ | ⟨slot, -, hrun⟩
  · simp at hnone
  obtain ⟨⟨kernelStack, pagetable⟩, k₁, hspace, hset⟩ := Fallible.bind_eq_some.mp hrun
  obtain ⟨ph, hph, rfl⟩ := onPhys_eq_some.mp hspace
  have hk' : k'.phys = ph := by
    dsimp only at hset
    rw [onTm_bind, Fallible.pure_apply, Option.some.injEq, Prod.mk.injEq] at hset
    rw [← hset.2]
  rw [hk']
  rw [idleSpace] at hph
  obtain ⟨p, ph₁, halloc, hph⟩ := Fallible.bind_eq_some.mp hph
  rw [Fallible.attempt_bind] at hph
  obtain ⟨⟨o, ph₂⟩, hcreate, hph⟩ := Option.bind_eq_some_iff.mp hph
  have h₂ := (hI.keep Allocates.create).of_run (hI.alloc.of_run h halloc) hcreate
  rcases o with _ | r
  · obtain ⟨_, _, -, hfail⟩ := Fallible.bind_eq_some.mp hph
    simp at hfail
  dsimp only at hph
  rw [Fallible.attempt_bind] at hph
  obtain ⟨⟨o, ph₃⟩, hkernel, hph⟩ := Option.bind_eq_some_iff.mp hph
  have h₃ := (hI.keep (Allocates.mapKernel r)).of_run h₂ hkernel
  rcases o with _ | u
  · obtain ⟨_, _, -, hfail⟩ := Fallible.bind_eq_some.mp hph
    obtain ⟨_, _, -, hfail⟩ := Fallible.bind_eq_some.mp hfail
    simp at hfail
  · obtain ⟨-, rfl⟩ := by simpa using hph
    exact h₃

/-- A spawn that goes through gives no page back. -/
lemma spawn (hI : AllocInvariant I) {name : String} {pid : ℕ} (h : I k.phys)
    (hrun : spawn name k = some (some pid, k')) : I k'.phys := by
  rcases spawn_cases hrun with ⟨hnone, -⟩ | ⟨image, ph, hload, hcreate⟩
  · simp at hnone
  have hph : I ph := by
    rcases load_cases hload with ⟨hnone, -, -⟩ | ⟨data, ph', -, hfile, hk⟩
    · simp at hnone
    · obtain rfl : ph = ph' := congrArg Kernel.phys hk
      exact (hI.keep (Allocates.loadFile data)).of_run h hfile
  rcases createUserImage_cases hcreate with ⟨hnone, -⟩ | ⟨-, -, -, slot, q, ph', -, halloc, rfl⟩
  · simp at hnone
  · exact hI.alloc.of_run hph halloc

/-- Granting the UART takes pages at most. -/
lemma grantUart (hI : AllocInvariant I) {pid : ℕ} (h : I k.phys)
    (hrun : grantUart pid k = some (some (), k')) : I k'.phys := by
  rw [Kernel.grantUart, readTm_bind] at hrun
  rcases Fallible.guard_cases hrun with ⟨-, hnone, -⟩ | ⟨-, hrun⟩
  · simp at hnone
  rcases Fallible.ofOption_bind_cases hrun with ⟨-, hnone, -⟩ | ⟨t, -, hrun⟩
  · simp at hnone
  obtain ⟨_, k₁, hset, howner⟩ := Fallible.bind_eq_some.mp hrun
  obtain ⟨ph, hph, rfl⟩ := onPhys_eq_some.mp hset
  rw [onTm_apply, Option.some.injEq, Prod.mk.injEq] at howner
  rw [← howner.2]
  exact (hI.keep (Allocates.setFlags _ _ _ _)).of_run h hph

/-- Registering an endpoint does not touch memory. -/
lemma registerEndpoint {endpoint owner : ℕ} (h : I k.phys)
    (hrun : registerEndpoint endpoint owner k = some (some (), k')) : I k'.phys := by
  rw [Kernel.registerEndpoint, readTm_bind] at hrun
  by_cases hlt : endpoint < maxEndpoints
  · rw [dif_pos hlt] at hrun
    rcases Fallible.guard_cases hrun with ⟨-, hnone, -⟩ | ⟨-, hrun⟩
    · simp at hnone
    rcases Fallible.guard_cases hrun with ⟨-, hnone, -⟩ | ⟨-, hrun⟩
    · simp at hnone
    rw [onTm_apply, Option.some.injEq, Prod.mk.injEq] at hrun
    rwa [← hrun.2]
  · rw [dif_neg hlt] at hrun
    simp at hrun

end AllocInvariant

namespace Config

open Kernel

/-- **A boot only takes pages**: it keeps what taking pages and writing to memory keep. -/
theorem boot_keeps {I : Phys → Prop} {c : Config} {s : System} (hI : AllocInvariant I)
    (hstart : I c.powerOn.phys) (h : c.boot = some s) : I s.kernel.phys := by
  obtain ⟨⟨_ | hart, k⟩, hmain, h⟩ := Option.bind_eq_some_iff.mp h
  · simp at h
  obtain rfl : (⟨k, hart⟩ : System) = s := by simpa using h
  unfold kernelMain at hmain
  obtain ⟨_, k₁, hinit, hmain⟩ := Fallible.bind_eq_some.mp hmain
  obtain ⟨_, k₂, hidle, hmain⟩ := Fallible.bind_eq_some.mp hmain
  obtain ⟨console, k₃, hconsole, hmain⟩ := Fallible.bind_eq_some.mp hmain
  obtain ⟨_, k₄, hgrant, hmain⟩ := Fallible.bind_eq_some.mp hmain
  obtain ⟨_, k₅, hregister, hmain⟩ := Fallible.bind_eq_some.mp hmain
  obtain ⟨fs, k₆, hfs, hmain⟩ := Fallible.bind_eq_some.mp hmain
  obtain ⟨_, k₇, hregister', hmain⟩ := Fallible.bind_eq_some.mp hmain
  obtain ⟨shell, k₈, hshell, henter⟩ := Fallible.bind_eq_some.mp hmain
  obtain ⟨_, -, hinit⟩ := Fallible.expect_eq_some.mp hinit
  obtain ⟨_, -, hidle⟩ := Fallible.expect_eq_some.mp hidle
  obtain ⟨_, -, hconsole⟩ := Fallible.expect_eq_some.mp hconsole
  obtain ⟨_, -, hgrant⟩ := Fallible.expect_eq_some.mp hgrant
  obtain ⟨_, -, hregister⟩ := Fallible.expect_eq_some.mp hregister
  obtain ⟨_, -, hfs⟩ := Fallible.expect_eq_some.mp hfs
  obtain ⟨_, -, hregister'⟩ := Fallible.expect_eq_some.mp hregister'
  obtain ⟨_, -, hshell⟩ := Fallible.expect_eq_some.mp hshell
  obtain ⟨ph, hph, rfl⟩ := onPhys_eq_some.mp hinit
  have h₁ : I ph := (hI.keep Allocates.vmInit).of_run hstart hph
  have h₂ := hI.createIdle (k := { c.powerOn with phys := ph }) h₁ hidle
  have h₃ := hI.spawn h₂ hconsole
  have h₄ := hI.grantUart h₃ hgrant
  have h₅ := AllocInvariant.registerEndpoint h₄ hregister
  have h₆ := hI.spawn h₅ hfs
  have h₇ := AllocInvariant.registerEndpoint h₆ hregister'
  have h₈ := hI.spawn h₇ hshell
  rw [enterTask, readTm_bind] at henter
  obtain ⟨i, hi, hret⟩ := Fallible.unwrap_bind_cases henter
  obtain ⟨-, rfl⟩ : i = hart ∧ { k₈ with tm := k₈.tm.runSlot i } = k := by simpa using hret
  exact h₈

/-- What `page::alloc` keeps is an invariant of the machine's memory when it reads the allocator
alone. -/
lemma allocInvariant {J : PageAllocator → Prop}
    (hJ : ∀ a p a', J a → a.alloc = some (p, a') → J a') :
    AllocInvariant fun ph => J ph.page where
  mem ph ph' hpage h := by rwa [hpage]
  alloc := by
    intro ph h ph'
    unfold NekOS.allocPage
    rcases halloc : ph.page.alloc with _ | ⟨p, a⟩
    · simp only [Option.some.injEq, Prod.mk.injEq, reduceCtorEq, false_and, false_implies,
        implies_true, true_and]
      rintro rfl
      exact h
    · simp only [Option.some.injEq, Prod.mk.injEq, reduceCtorEq, false_and, false_implies, and_true]
      rintro p ⟨rfl, rfl⟩
      exact hJ _ _ _ h halloc

/-- **The pages of a booted machine are packed**, in the managed range that it started with. -/
theorem packed_boot {c : Config} {s : System} (h : c.boot = some s) :
    s.kernel.phys.page.Packed ∧ s.kernel.phys.page.startAddr = c.alignedEnd ∧
      s.kernel.phys.page.totalPages = c.powerOn.phys.page.totalPages := by
  let J (a : PageAllocator) : Prop := a.Packed ∧ a.startAddr = c.alignedEnd ∧
    a.totalPages = c.powerOn.phys.page.totalPages
  refine boot_keeps (allocInvariant (J := J) ?_) ?_ h
  · rintro a p a' ⟨hpacked, hstart, htotal⟩ halloc
    obtain ⟨-, -, hstart', htotal', -⟩ := PageAllocator.alloc_eq_some halloc
    exact ⟨hpacked.alloc halloc, hstart'.trans hstart, htotal'.trans htotal⟩
  · exact ⟨PageAllocator.packed_new _ _, rfl, rfl⟩

end Config

/-- The allocator of the sample machine at power-on. -/
lemma sampleConfig_page (files : List (String × List UInt8)) :
    (sampleConfig files).alignedEnd = 0x80240000 ∧
      (sampleConfig files).powerOn.phys.page.totalPages = 4096 ∧
      (sampleConfig files).powerOn.phys.page.freePages = 4096 := by
  have hpage : (sampleConfig files).powerOn.phys.page = (sampleConfig []).powerOn.phys.page := rfl
  have hend : (sampleConfig files).alignedEnd = (sampleConfig []).alignedEnd := rfl
  rw [hpage, hend]
  decide

/-- The pages of the sample machine lie in the first megabyte after the kernel. -/
lemma Sample.allocated_lt {x : Sample} {files : List (String × List UInt8)} {p : ℕ}
    (hboot : (sampleConfig files).boot = some x.start)
    (hbooted : Config.Booted true (sampleConfig files) sampleProgram sampleProgram sampleProgram
      x.start x.shell) (hp : x.phys.page.Allocated p) : 0x80240000 ≤ p ∧ p < 0x802d3000 := by
  obtain ⟨hend, htotal, hfree⟩ := sampleConfig_page files
  obtain ⟨hpacked, hstart', htotal'⟩ := Config.packed_boot hboot
  have hpages := hbooted.pages
  rw [sampleProgram_cost, hfree] at hpages
  have hlt := hpacked.allocated_lt hp
  have hle := hp.start_le
  have hphys : x.start.kernel.phys = x.phys := rfl
  rw [hphys] at hpages hstart' htotal' hlt
  rw [hstart', hend, htotal', htotal] at hlt
  rw [hstart', hend] at hle
  simp only [pageSize] at hlt
  omega

end NekOS
