import NekOS.AddressSpace.Housing
import NekOS.Kernel.Effect
import NekOS.Paging.Window
import Mathlib.Tactic.FinCases

/-!
# The start of the machine

Each step of `kernel_main` houses the task that it creates, and goes through as long as enough pages
and a slot are left.  `Config.Bootable` collects what a boot needs, and `boot_of_bootable` describes
the state in which the first program starts.
-/

namespace NekOS

open PageTable

/-! ### The memory at power-on -/

/-- Without tasks nothing is mapped. -/
lemma Config.housed_powerOn (c : Config) (strict : Bool) :
    Housed strict c.powerOn.tm c.powerOn.phys fun _ => .free := by
  obtain ⟨haligned, hle, hlt⟩ := c.alignedEnd_bounds
  have hstart := c.start_le
  have hend := c.end_le
  have hnew : ∀ p, ¬ c.powerOn.phys.page.Allocated p := by
    rintro p ⟨i, hi, -, hused⟩
    have hunused : c.powerOn.phys.page.isUsed i = decide (i < 0) :=
      (PageAllocator.prefix_new _ _).used i hi
    simp [hunused] at hused
  have hT : Tables c.powerOn.phys fun _ => .free := by
    refine Tables.of_no_table haligned ?_ (PageAllocator.counted_new _ _) (fun p => ?_) fun _ => rfl
    · have htotal : c.powerOn.phys.page.totalPages ≤ maxPages := Nat.min_le_right ..
      have hpage : c.powerOn.phys.page.startAddr = c.alignedEnd := rfl
      simp only [maxPages, bitmapSize, pageSize] at *
      omega
    · simp [hnew p]
  refine ⟨⟨hT, hstart.trans hle, by simp, by simp⟩, ?_, ?_, by simp, by simp⟩
  · rintro i t ⟨⟩
  · rintro i j t u ⟨⟩

/-! ### The kernel page table and the idle task -/

variable {strict : Bool} {m : TaskManager} {ph : Phys} {own : ℕ → Role}

/-- `vm::init` makes a tree in which no task lives. -/
lemma Housed.vmInit (h : Housed strict m ph own) : ∃ o ph' own', Vm.init ph = some (o, ph') ∧
    Housed strict m ph' own' ∧
    (o.isSome = true → ph.page.freePages ≤ ph'.page.freePages + 25) ∧
    (o = none → ph.page.freePages < 25) := by
  rw [Vm.init]
  rcases create_mapKernel h.spaces.tables h.spaces.root with ⟨hcreate, hzero⟩ |
    ⟨r, ph₁, o, ph', own', hcreate, hkernel, hfree, hB, hclosed, -, -, hdone, hfail⟩
  · exact ⟨none, ph, own, Fallible.bind_of_none hcreate, h, by simp, fun _ => by omega⟩
  have h' := h.building hB hfree hclosed
  rw [Fallible.bind_of_some hcreate]
  rcases o with _ | u
  · exact ⟨none, ph', own', Fallible.bind_of_none hkernel, h', by simp, fun _ => hfail rfl⟩
  · exact ⟨some r, ph', own', Fallible.bind_of_some hkernel, h', fun _ => (hdone rfl).2, by simp⟩

/-- The space of the idle task, when one is made. -/
lemma Housed.idlePages (h : Housed strict m ph own) :
    (∃ kernelStack pagetable ph' own', Kernel.idleSpace ph = some (some (kernelStack, pagetable), ph') ∧
      Housed strict m ph' own' ∧ KernelMapped ph' pagetable ∧ own' pagetable = .root ∧
      own' kernelStack = .stack ∧ own kernelStack = .free ∧ own pagetable = .free ∧
      (∀ n < 2 ^ 27, ¬ KernelPage n → lookup ph' pagetable n = none) ∧
      ph.page.freePages ≤ ph'.page.freePages + 26) ∨
    ((∀ r ph', Kernel.idleSpace ph ≠ some (some r, ph')) ∧ ph.page.freePages < 26) := by
  rw [Kernel.idleSpace]
  rcases allocPage_cases h.spaces.tables with ⟨hnone, hzero⟩ | ⟨p, ph₁, hsome, -, -, -, -, -, hcount⟩
  · refine Or.inr ⟨fun r ph' => ?_, by omega⟩
    rw [Fallible.bind_of_none hnone]
    simp
  obtain ⟨hfree, -, h₁⟩ := h.takeStack hsome
  rw [Fallible.bind_of_some hsome, Fallible.attempt_bind]
  rcases create_mapKernel h₁.spaces.tables h₁.spaces.root with ⟨hcreate, hzero⟩ |
    ⟨r, ph₂, o, ph', own', hcreate, hkernel, hfree', hB, hclosed, -, hempty, hdone, hfail⟩
  · refine Or.inr ⟨fun r ph' => ?_, by omega⟩
    rw [hcreate, Option.bind_some]
    simp
  have h' := h₁.building hB hfree' hclosed
  have hne : r ≠ p := by
    rintro rfl
    simp at hfree'
  rw [Function.update_of_ne hne] at hfree'
  rw [hcreate, Option.bind_some]
  dsimp only
  rw [Fallible.attempt_bind, hkernel, Option.bind_some]
  rcases o with _ | u
  · refine Or.inr ⟨fun r ph' hrun => ?_, by have := hfail rfl; omega⟩
    obtain ⟨_, _, -, hrun⟩ := Fallible.bind_eq_some.mp hrun
    simp at hrun
  · obtain ⟨hmapped, hcost⟩ := hdone rfl
    refine Or.inl ⟨p, r, ph', own', rfl, h', hmapped, hB.root, ?_, hfree, hfree', hempty, by omega⟩
    rw [hB.keep p (by simp), Function.update_self]

namespace Kernel

open TaskManager

variable {k k' : Kernel}

/-- The idle task at home in its space. -/
lemma home_idle {entry kernelStack pagetable : ℕ} (hmapped : KernelMapped ph pagetable)
    (hroot : own pagetable = .root) (hstack : own kernelStack = .stack)
    (hempty : ∀ n < 2 ^ 27, ¬ KernelPage n → lookup ph pagetable n = none) :
    Home strict ph own (idleTask entry kernelStack pagetable) := by
  refine ⟨hroot, hstack, hmapped, ⟨rfl, rfl, rfl, le_rfl, Nat.zero_le _⟩, Or.inl rfl, fun n h₁ h₂ => ?_,
    fun n hn e he => ?_⟩
  · have hnone : ¬ 0 / pageSize < (0 + (pageSize - 1)) / pageSize := by decide
    exact absurd (h₁.trans_lt h₂) hnone
  · by_contra hnot
    have hk : ¬ KernelPage n := fun hk => hnot (Or.inl hk)
    have hnone := hempty n hn hk
    dsimp only [idleTask] at he
    simp [hnone] at he

/-- The idle task is created as long as 26 pages and a slot are left. -/
lemma createIdle_run (entry : ℕ) {slot : Fin maxTasks} (h : NekOS.Housed strict k.tm k.phys own)
    (hidle : k.tm.findPid idlePid = none) (hslot : k.tm.tasks.firstFree = some slot) :
    (∃ kernelStack pagetable ph' own', createIdle entry k = some (some idlePid,
        { k with
          tm := k.tm.setTask slot (some (idleTask entry kernelStack pagetable))
          phys := ph' }) ∧
      NekOS.Housed strict (k.tm.setTask slot (some (idleTask entry kernelStack pagetable))) ph' own' ∧
      k.phys.page.freePages ≤ ph'.page.freePages + 26) ∨
    ((∀ pid k', createIdle entry k ≠ some (some pid, k')) ∧ k.phys.page.freePages < 26) := by
  have hstart : createIdle entry k = (onPhys idleSpace >>= fun r => do
      onTm (setTask slot (some (idleTask entry r.1 r.2)))
      return idlePid) k := by
    rw [createIdle, readTm_bind, if_neg (by simp [hidle]), Fallible.ofOption_bind, hslot]
    rfl
  rw [hstart]
  rcases h.idlePages with ⟨kernelStack, pagetable, ph', own', hrun, h', hmapped, hroot, hstack,
    hfree, hfree', hempty, hcost⟩ | ⟨hfail, hfew⟩
  · have hpages : onPhys idleSpace k = some (some (kernelStack, pagetable), { k with phys := ph' }) :=
      onPhys_eq_some.mpr ⟨ph', hrun, rfl⟩
    refine Or.inl ⟨kernelStack, pagetable, ph', own', ?_, ?_, hcost⟩
    · rw [Fallible.bind_of_some hpages]
      rfl
    · refine h'.insert (Slots.firstFree_eq_some hslot) (home_idle hmapped hroot hstack hempty)
        fun j u hu => ?_
      have hu' := h.home j u hu
      constructor
      · rintro heq
        have := hu'.root
        rw [← heq] at this
        simp [idleTask, hfree'] at this
      · rintro heq
        have := hu'.kernelStack
        rw [← heq] at this
        simp [idleTask, hfree] at this
  · refine Or.inr ⟨fun pid k' hrun => ?_, hfew⟩
    obtain ⟨r, k₁, hpages, -⟩ := Fallible.bind_eq_some.mp hrun
    obtain ⟨ph', hph, -⟩ := onPhys_eq_some.mp hpages
    exact hfail r ph' hph

/-- The UART is granted when it has no owner yet. -/
lemma grantUart_run {pid : ℕ} {i : Fin maxTasks} (h : NekOS.Housed strict k.tm k.phys own)
    (hnone : k.tm.uartOwner = none) (hpid : k.tm.findPid pid = some i) :
    ∃ ph', grantUart pid k = some (some (),
        { k with
          tm := { k.tm with uartOwner := some pid }
          phys := ph' }) ∧
      NekOS.Housed strict { k.tm with uartOwner := some pid } ph' own ∧ ph'.page = k.phys.page := by
  obtain ⟨t, ht, rfl⟩ := findPid_eq_some hpid
  have hhome := h.home i t ht
  have hnumber : pageNumber uartBase = uartPage := by decide
  obtain ⟨e, he, hleaf⟩ := hhome.kernel uartPage (by decide)
  have hflags : pteR ||| pteW ||| pteU < 1024 := by decide
  obtain ⟨o, ph', hrun, hT', hext, hpage, hset⟩ :=
    setFlagsPage_spec h.spaces.tables hhome.root uartBase hflags
  rw [hnumber] at hset
  obtain ⟨rfl, hlookups⟩ : o = some () ∧ ∀ m < 2 ^ 27, lookup ph' t.pagetable m =
      if m = uartPage then some (paToPte (pteToPa e) (pteR ||| pteW ||| pteU ||| pteV))
        else lookup k.phys t.pagetable m := by
    rcases hset with ⟨-, -, habsent⟩ | ⟨ho, e', he', hlookups⟩
    · simp [he] at habsent
    · obtain rfl := Option.some.inj (he.symm.trans he')
      exact ⟨ho, hlookups⟩
  have hopen : KernelLeaf uartPage (paToPte (pteToPa e) (pteR ||| pteW ||| pteU ||| pteV)) := by
    have hpa : pteToPa (paToPte (pteToPa e) (pteR ||| pteW ||| pteU ||| pteV)) =
        uartPage * pageSize := by
      rw [hleaf.pa]
      decide
    refine ⟨hleaf.page, hpa, ?_, fun _ => rfl⟩
    rw [hleaf.pa]
    decide
  have hlookup : ∀ n < 2 ^ 27, ∀ e', lookup ph' t.pagetable n = some e' →
      n = uartPage ∧ KernelLeaf n e' ∨ lookup k.phys t.pagetable n = some e' := fun n hn e' he' => by
    rw [hlookups n hn] at he'
    split at he'
    · rename_i hnu
      subst hnu
      obtain rfl := Option.some.inj he'
      exact Or.inl ⟨rfl, hopen⟩
    · exact Or.inr he'
  have hspace : Space ph' own t.pagetable := by
    have hS := h.spaces.space _ hhome.root
    refine ⟨fun n hn e' he' => ?_, fun p n hp => ?_⟩
    · rcases hlookup n hn e' he' with ⟨-, hk⟩ | hold
      · exact Or.inl hk
      · exact hS.leaf n hn e' hold
    · obtain ⟨hn, e', he', hpa⟩ := hS.data p n hp
      refine ⟨hn, e', ?_, hpa⟩
      rw [hlookups n hn, if_neg]
      · exact he'
      · rintro rfl
        obtain rfl := Option.some.inj (he.symm.trans he')
        have hp' : own (pteToPa e) ≠ .free := by rw [hpa, hp]; simp
        obtain ⟨j, -, hj, -⟩ := h.spaces.tables.allocated hp'
        have hstart := h.spaces.start_le
        rw [hleaf.pa] at hj
        have huart : uartPage * pageSize < kernelStart := by decide
        omega
  have hbeside : Beside t.pagetable k.phys own ph' own := by
    refine ⟨hext.toLocal, h.spaces.of_local hext.toLocal hT' (by rw [hpage]) (fun _ => hspace)
      fun p n hp => h.spaces.root p _ n hp, fun _ hp => hp⟩
  refine ⟨ph', ?_, h.grant hnone ht hbeside ?_, hpage⟩
  · have hset : setFlags t.pagetable uartBase pageSize (pteR ||| pteW ||| pteU) k.phys =
        some (some (), ph') := hrun
    rw [grantUart, readTm_bind, if_neg (by simp [hnone]), hpid, Option.bind_some, ht]
    dsimp only
    rw [Fallible.ofOption_bind, Option.elim_some]
    exact Fallible.bind_of_some (onPhys_eq_some.mpr ⟨ph', hset, rfl⟩)
  · refine ⟨hhome.root, hhome.kernelStack, fun n hn => ?_, hhome.layout, hhome.stack,
      fun n h₁ h₂ => ?_, fun n hn e' he' => ?_⟩
    · rw [hlookups n hn.lt]
      split
      · rename_i hnu
        subst hnu
        exact ⟨_, rfl, hopen⟩
      · exact hhome.kernel n hn
    · obtain ⟨hk, hsome⟩ := hhome.heap n h₁ h₂
      obtain ⟨e', he'⟩ := Option.isSome_iff_exists.mp hsome
      refine ⟨hk, ?_⟩
      obtain ⟨-, -, htop⟩ := hhome.layout.ordered
      have hn : n < 2 ^ 27 := h₂.trans (htop.trans (by decide))
      rw [hlookups n hn, if_neg]
      · exact hsome
      · rintro rfl
        exact hk (by decide)
    · rcases hlookup n hn e' he' with ⟨-, hk⟩ | hold
      · exact Or.inl hk.page
      · exact hhome.within n hn e' hold

end Kernel

/-! ### Programs -/

/-- The pages that a program takes. -/
def Exec.cost (data : List UInt8) : ℕ :=
  29 + 3 * (imagePages data (Elf64Ehdr.read data) (Elf64Ehdr.read data).ePhnum).length

/-- A program that can be started when memory and a slot are left. -/
structure Exec.Startable (strict : Bool) (data : List UInt8) : Prop where
  header : headerOk data = true
  loadable : Loadable data (Elf64Ehdr.read data)
  elf : ElfOk strict data (Elf64Ehdr.read data)
  heap_le : (imageRange data).1 + (imageRange data).2 ≤ TaskManager.heapLimit
  heap_mod : ((imageRange data).1 + (imageRange data).2) % pageSize = 0

/-- The pages that a task is given when it is created. -/
structure Placement where
  pagetable : ℕ
  userStack : ℕ
  kernelStack : ℕ

/-- The task that `spawn` registers for a file. -/
def Kernel.fileTask (m : TaskManager) (data : List UInt8) (p : Placement) : Task :=
  imageTask m p.pagetable p.userStack (Elf64Ehdr.read data).eEntry (Exec.imageRange data).1
    (Exec.imageRange data).2 ((Exec.imageRange data).1 + (Exec.imageRange data).2) p.kernelStack

/-- A program that has been started: its pages are mapped. -/
structure Placed (data : List UInt8) (ph : Phys) (p : Placement) : Prop where
  stack : lookup ph p.pagetable stackPage =
    some (paToPte p.userStack (pteR ||| pteW ||| pteU ||| pteV))
  mapped : ∀ n < 2 ^ 27, (lookup ph p.pagetable n).isSome = true ↔ KernelPage n ∨
    n ∈ Exec.imagePages data (Elf64Ehdr.read data) (Elf64Ehdr.read data).ePhnum ∨ n = stackPage

namespace Kernel

open TaskManager

variable {k : Kernel}

/-- `spawn` starts a program as long as pages and a slot are left. -/
lemma spawn_run {name : String} {data : List UInt8} {slot : Fin maxTasks}
    (h : NekOS.Housed strict k.tm k.phys own) (hfile : k.findFile name = some data)
    (hdata : Exec.Startable strict data) (hslot : k.tm.tasks.firstFree = some slot)
    (hpages : Exec.cost data ≤ k.phys.page.freePages) :
    ∃ p ph' own', spawn name k = some (some k.tm.nextPid,
        { k with
          tm := k.tm.bumpPid.incRunnable.setTask slot (some (fileTask k.tm data p))
          phys := ph' }) ∧
      NekOS.Housed strict (k.tm.bumpPid.incRunnable.setTask slot (some (fileTask k.tm data p))) ph'
        own' ∧
      Placed data ph' p ∧ own' p.userStack = .data p.pagetable stackPage ∧
      k.phys.page.freePages ≤ ph'.page.freePages + Exec.cost data := by
  have hlimit := hdata.heap_le
  rw [Exec.cost] at hpages ⊢
  obtain ⟨o, ph₁, own₁, hload, hfail, hdone⟩ := loadFile_spec h.spaces hdata.elf
  rcases o with _ | image
  · obtain ⟨-, hwhy⟩ := hfail rfl
    rcases hwhy with hheader | hloadable | hfew
    · simp [hdata.header] at hheader
    · exact absurd hdata.loadable hloadable
    · omega
  obtain ⟨hfree, hB, hL, hentry, hrange, hcost, -⟩ := hdone image rfl
  have hbase : image.imageBase = (Exec.imageRange data).1 := congrArg Prod.fst hrange
  have hsize : image.imageSize = (Exec.imageRange data).2 := congrArg Prod.snd hrange
  have h₁ := h.building hB hfree hL.closed
  rcases allocPage_cases h₁.spaces.tables with ⟨-, hzero⟩ | ⟨q, ph', halloc, -, -, -, -, -, hcount⟩
  · omega
  obtain ⟨hfree', hmem, h₂⟩ := h₁.takeStack halloc
  have hroot₂ : Function.update own₁ q .stack image.pagetable = .root := by
    rw [Function.update_of_ne (by rintro rfl; simp [hB.root] at hfree'), hB.root]
  have hL₂ : Loaded strict _ ph' (Function.update own₁ q .stack) image :=
    hL.of_mem hmem (Function.update_of_ne (by rintro heq; simp [← heq, hL.stack] at hfree') ..)
  refine ⟨⟨image.pagetable, image.userStack, q⟩, ph', _, ?_, ?_, ⟨hL₂.stackLeaf, hL₂.mapped⟩,
    hL₂.stack, by omega⟩
  · have hrun : load name k = some (some image, { k with phys := ph₁ }) := by
      rw [load, Fallible.gets_bind, Fallible.ofOption_bind]
      simp only [id, hfile, Option.elim_some]
      exact onPhys_eq_some.mpr ⟨ph₁, hload, rfl⟩
    have hsum : checkedAdd image.imageBase image.imageSize =
        some ((Exec.imageRange data).1 + (Exec.imageRange data).2) := by
      rw [hbase, hsize, checkedAdd_eq_some]
      refine ⟨?_, rfl⟩
      simp only [heapLimit, userStackTop, pageSize] at hlimit
      omega
    have hstack : onPhys allocPage { k with phys := ph₁ } = some (some q, { k with phys := ph' }) :=
      onPhys_eq_some.mpr ⟨ph', halloc, rfl⟩
    rw [spawn, Fallible.bind_of_some hrun, createUserImage, hsum, Fallible.ofOption_bind,
      Option.elim_some, if_neg (by simp [hdata.heap_mod, hlimit]), readTm_bind]
    simp only [hslot]
    rw [Fallible.attempt_bind, hstack, Option.bind_some, hbase, hsize, hentry]
    rfl
  · have hhome : Home strict ph' (Function.update own₁ q .stack)
        (fileTask k.tm data ⟨image.pagetable, image.userStack, q⟩) := by
      refine hL₂.home h₂.spaces.tables hroot₂ rfl rfl hbase.symm hsize.symm ?_ ?_
        (Function.update_self ..) ?_
      · rw [hbase, hsize]
        rfl
      · rw [hbase, hsize]
        rfl
      · rw [hbase, hsize]
        exact hlimit
    have h₃ : NekOS.Housed strict k.tm.bumpPid.incRunnable ph' (Function.update own₁ q .stack) :=
      h₂.of_sameHomes (SameHomes.of_eq rfl rfl)
    refine h₃.insert (Slots.firstFree_eq_some hslot) hhome fun j u hu => ?_
    constructor
    · rintro heq
      have hroot := (h.home j u hu).root
      rw [← heq] at hroot
      simp [fileTask, imageTask, hfree] at hroot
    · rintro heq
      have hstack := (h₁.home j u hu).kernelStack
      rw [← heq] at hstack
      simp [fileTask, imageTask, hfree'] at hstack

/-- `spawn` leaves the files. -/
lemma spawn_files {k' : Kernel} {name : String} {o : Option ℕ} (hrun : spawn name k = some (o, k')) :
    k'.files = k.files := by
  rcases spawn_cases hrun with ⟨-, hload⟩ | ⟨image, ph, -, hcreate⟩
  · rcases load_cases hload with ⟨-, rfl, -⟩ | ⟨data, ph, -, -, rfl⟩
    · rfl
    · rfl
  · rcases createUserImage_cases hcreate with ⟨-, ph', rfl, -⟩ | ⟨-, -, -, slot, q, ph', -, -, rfl⟩
    · rfl
    · rfl

/-- Granting the UART keeps all tasks housed and leaves the files. -/
lemma Housed.grantUart {k' : Kernel} {pid : ℕ} (h : k.Housed strict)
    (hrun : grantUart pid k = some (some (), k')) : k'.Housed strict ∧ k'.files = k.files := by
  obtain ⟨own, h⟩ := h
  have hnone : k.tm.uartOwner = none := by
    by_contra hsome
    rw [Kernel.grantUart, readTm_bind, if_pos (Option.isSome_iff_ne_none.mpr hsome)] at hrun
    simp at hrun
  obtain ⟨i, hi⟩ : ∃ i, k.tm.findPid pid = some i := by
    by_contra hnot
    have hfind : k.tm.findPid pid = none := by
      simpa [← Option.ne_none_iff_exists', not_not] using hnot
    rw [Kernel.grantUart, readTm_bind, if_neg (by simp [hnone]), hfind] at hrun
    simp at hrun
  obtain ⟨ph', hrun', h', -⟩ := grantUart_run h hnone hi
  obtain rfl : _ = k' := by simpa using hrun'.symm.trans hrun
  exact ⟨⟨own, h'⟩, rfl⟩

/-- Registering an endpoint keeps all tasks housed and leaves the files. -/
lemma Housed.registerEndpoint {k' : Kernel} {endpoint owner : ℕ} {o : Option Unit}
    (h : k.Housed strict) (hrun : registerEndpoint endpoint owner k = some (o, k')) :
    k'.Housed strict ∧ k'.files = k.files := by
  rw [Kernel.registerEndpoint, readTm_bind] at hrun
  by_cases hlt : endpoint < maxEndpoints
  · rw [dif_pos hlt] at hrun
    rcases Fallible.guard_cases hrun with ⟨-, -, rfl⟩ | ⟨-, hrun⟩
    · exact ⟨h, rfl⟩
    rcases Fallible.guard_cases hrun with ⟨-, -, rfl⟩ | ⟨-, hrun⟩
    · exact ⟨h, rfl⟩
    obtain ⟨-, rfl⟩ := by simpa [onTm] using hrun
    exact ⟨h.sameHomes (SameHomes.of_eq rfl rfl) rfl, rfl⟩
  · rw [dif_neg hlt] at hrun
    obtain ⟨-, rfl⟩ := by simpa using hrun
    exact ⟨h, rfl⟩

end Kernel

/-! ### Boot -/

namespace Config

open Kernel

/-- **The boot houses all tasks.** -/
theorem housed_boot {c : Config} {s : System} (h : c.boot = some s)
    (hfiles : ∀ file ∈ c.files, Exec.ElfOk strict file.2 (Elf64Ehdr.read file.2)) :
    s.kernel.Housed strict ∧ s.kernel.files = c.files := by
  obtain ⟨⟨_ | hart, k⟩, hmain, h⟩ := Option.bind_eq_some_iff.mp h
  · simp at h
  obtain rfl : (⟨k, hart⟩ : System) = s := by simpa using h
  unfold kernelMain at hmain
  obtain ⟨_, k₁, hinit, hmain⟩ := Fallible.bind_eq_some.mp hmain
  obtain ⟨_, k₂, hidle, hmain⟩ := Fallible.bind_eq_some.mp hmain
  obtain ⟨console, k₃, hconsole, hmain⟩ := Fallible.bind_eq_some.mp hmain
  obtain ⟨_, k₄, hgrant, hmain⟩ := Fallible.bind_eq_some.mp hmain
  obtain ⟨_, k₅, hregister, hmain⟩ := Fallible.bind_eq_some.mp hmain
  obtain ⟨fs, k₆, hfs, hmain⟩ := Fallible.bind_eq_some.mp hmain
  obtain ⟨_, k₇, hregister', hmain⟩ := Fallible.bind_eq_some.mp hmain
  obtain ⟨shell, k₈, hshell, henter⟩ := Fallible.bind_eq_some.mp hmain
  obtain ⟨_, -, hinit⟩ := Fallible.expect_eq_some.mp hinit
  obtain ⟨_, -, hidle⟩ := Fallible.expect_eq_some.mp hidle
  obtain ⟨_, -, hconsole⟩ := Fallible.expect_eq_some.mp hconsole
  obtain ⟨_, -, hgrant⟩ := Fallible.expect_eq_some.mp hgrant
  obtain ⟨_, -, hregister⟩ := Fallible.expect_eq_some.mp hregister
  obtain ⟨_, -, hfs⟩ := Fallible.expect_eq_some.mp hfs
  obtain ⟨_, -, hregister'⟩ := Fallible.expect_eq_some.mp hregister'
  obtain ⟨_, -, hshell⟩ := Fallible.expect_eq_some.mp hshell
  have hspawn : ∀ {k k' : Kernel} {name pid}, k.Housed strict ∧ k.files = c.files →
      spawn name k = some (some pid, k') → k'.Housed strict ∧ k'.files = c.files :=
    fun {k k' name pid} hk hrun => by
      refine ⟨hk.1.spawn ?_ (by simp) hrun, (spawn_files hrun).trans hk.2⟩
      rw [FilesOk, hk.2]
      exact hfiles
  obtain ⟨ph, hph, rfl⟩ := onPhys_eq_some.mp hinit
  obtain ⟨o, ph', own', hvm, h₁, -⟩ := (c.housed_powerOn strict).vmInit
  obtain rfl : ph' = ph := by
    have := hvm.symm.trans hph
    simpa using congrArg (fun r => r.map Prod.snd) this
  have hidle' : k₂.Housed strict ∧ k₂.files = c.files := by
    have hslot : c.powerOn.tm.tasks.firstFree = some System.idleSlot := rfl
    rcases createIdle_run c.idleEntry (k := { c.powerOn with phys := ph' }) h₁ rfl hslot with ⟨kernelStack, pagetable, ph₂, own₂, hrun, h₂, -⟩ | ⟨hfail, -⟩
    · rw [hrun] at hidle
      obtain rfl : _ = k₂ := (Prod.mk.inj (Option.some.inj hidle)).2
      exact ⟨⟨own₂, h₂⟩, rfl⟩
    · exact absurd hidle (hfail _ _)
  have h₃ := hspawn hidle' hconsole
  obtain ⟨h₄, hf₄⟩ := h₃.1.grantUart hgrant
  obtain ⟨h₅, hf₅⟩ := h₄.registerEndpoint hregister
  have h₆ := hspawn ⟨h₅, hf₅.trans (hf₄.trans h₃.2)⟩ hfs
  obtain ⟨h₇, hf₇⟩ := h₆.1.registerEndpoint hregister'
  have h₈ := hspawn ⟨h₇, hf₇.trans h₆.2⟩ hshell
  rw [enterTask, readTm_bind] at henter
  obtain ⟨i, hi, hret⟩ := Fallible.unwrap_bind_cases henter
  obtain ⟨-, rfl⟩ : i = hart ∧ { k₈ with tm := k₈.tm.runSlot i } = k := by simpa using hret
  exact ⟨h₈.1.sameHomes (TaskManager.SameHomes.runSlot i) rfl, h₈.2⟩

/-- What a boot needs: three programs and the memory for them. -/
structure Bootable (strict : Bool) (c : Config) (console fs shell : List UInt8) : Prop where
  console_found : c.powerOn.findFile "console" = some console
  fs_found : c.powerOn.findFile "fs-server" = some fs
  shell_found : c.powerOn.findFile "shell" = some shell
  console_ok : Exec.Startable strict console
  fs_ok : Exec.Startable strict fs
  shell_ok : Exec.Startable strict shell
  enough : 51 + Exec.cost console + Exec.cost fs + Exec.cost shell ≤ c.powerOn.phys.page.freePages

/-- A task manager with four tasks and two endpoints. -/
def fourTasks (currentPid : ℕ) (idle console fs shell : Task) (runnableCount : ℕ)
    (consoleEnd fsEnd : Endpoint) : TaskManager where
  currentPid := some currentPid
  tasks i :=
    match i.val with
    | 0 => some idle
    | 1 => some console
    | 2 => some fs
    | 3 => some shell
    | _ => none
  nextPid := 4
  runnableCount := runnableCount
  endpoints e :=
    match e.val with
    | 1 => some consoleEnd
    | 2 => some fsEnd
    | _ => none
  uartOwner := some 1

/-- A task manager is known by its parts. -/
lemma eq_fourTasks {m : TaskManager} {currentPid runnableCount : ℕ}
    {idle console fs shell : Task} {consoleEnd fsEnd : Endpoint}
    (hrest : m.currentPid = some currentPid ∧ m.nextPid = 4 ∧ m.runnableCount = runnableCount ∧
      m.uartOwner = some 1)
    (htasks : ∀ i, m.tasks i =
      (fourTasks currentPid idle console fs shell runnableCount consoleEnd fsEnd).tasks i)
    (hends : ∀ e, m.endpoints e =
      (fourTasks currentPid idle console fs shell runnableCount consoleEnd fsEnd).endpoints e) :
    m = fourTasks currentPid idle console fs shell runnableCount consoleEnd fsEnd := by
  obtain ⟨hcur, hnext, hcount, huart⟩ := hrest
  cases m
  rw [fourTasks, TaskManager.mk.injEq]
  exact ⟨hcur, funext htasks, hnext, hcount, funext hends, huart⟩

/-- No task of four is a zombie. -/
lemma fourTasks_quiet {currentPid runnableCount : ℕ} {idle console fs shell : Task}
    {consoleEnd fsEnd : Endpoint} (hidle : idle.state ≠ .zombie) (hconsole : console.state ≠ .zombie)
    (hfs : fs.state ≠ .zombie) (hshell : shell.state ≠ .zombie) : ∀ i t,
    (fourTasks currentPid idle console fs shell runnableCount consoleEnd fsEnd).tasks i = some t →
      TaskManager.detached (some currentPid) t = false := by
  intro i t ht
  have hstate : t.state ≠ .zombie := by
    unfold fourTasks at ht
    dsimp only at ht
    split at ht
    · rwa [← Option.some.inj ht]
    · rwa [← Option.some.inj ht]
    · rwa [← Option.some.inj ht]
    · rwa [← Option.some.inj ht]
    · simp at ht
  simp [TaskManager.detached, hstate]

/-- The task manager in which the first program starts, the shell. -/
def firstManager (idle console fs shell : Task) : TaskManager :=
  fourTasks 3 idle console fs { shell with state := .running } 3 (Endpoint.new 1) (Endpoint.new 2)

/-- A task manager that hands out a pid next. -/
def handing (pid : ℕ) : TaskManager := { TaskManager.new with nextPid := pid }

/-- The state after a boot of three programs. -/
structure Booted (strict : Bool) (c : Config) (console fs shell : List UInt8) (s : System)
    (r : Placement) : Prop where
  hart : s.hart = ⟨3, by decide⟩
  files : s.kernel.files = c.files
  accesses : s.kernel.accesses = []
  housed : s.kernel.Housed strict
  placed : Placed shell s.kernel.phys r
  pages : c.powerOn.phys.page.freePages ≤ s.kernel.phys.page.freePages +
    (51 + Exec.cost console + Exec.cost fs + Exec.cost shell)
  manager : ∃ kernelStack pagetable p q, s.kernel.tm = firstManager
    (idleTask c.idleEntry kernelStack pagetable) (fileTask (handing 1) console p)
    (fileTask (handing 2) fs q) (fileTask (handing 3) shell r)

/-- The kernel with a task manager and a memory. -/
def kernelWith (c : Config) (m : TaskManager) (ph : Phys) : Kernel :=
  { c.powerOn with tm := m, phys := ph }

/-- Registering an endpoint of a task that has none. -/
lemma registerEndpoint_run (c : Config) (m : TaskManager) (ph : Phys) (endpoint owner : ℕ)
    (hlt : endpoint < maxEndpoints) (hfree : m.endpoints ⟨endpoint, hlt⟩ = none)
    (howner : (m.findPid owner).isSome = true) :
    registerEndpoint endpoint owner (c.kernelWith m ph) = some (some (), c.kernelWith
      { m with endpoints := m.endpoints.set ⟨endpoint, hlt⟩ (some (Endpoint.new owner)) } ph) := by
  have hnone : (m.findPid owner).isNone = false := by
    rw [← Option.not_isSome, howner]
    rfl
  rw [registerEndpoint, readTm_bind, dif_pos hlt, if_neg, if_neg]
  · rfl
  · simp [kernelWith, hnone]
  · simp [kernelWith, hfree]

/-- **The boot goes through** when the three programs can be started and there is memory for
them. -/
theorem boot_of_bootable {c : Config} {console fs shell : List UInt8}
    (h : c.Bootable strict console fs shell) :
    ∃ s r, c.boot = some s ∧ Booted strict c console fs shell s r := by
  have henough := h.enough
  have hexpect : ∀ {σ α : Type} {f : Fallible σ α} {s t : σ} {a : α}, f s = some (some a, t) →
      Fallible.expect f s = some (some a, t) := fun hrun => Fallible.expect_eq_some.mpr ⟨_, rfl, hrun⟩
  obtain ⟨o, ph₁, own₁, hvm, h₁, hcost₁, hfail₁⟩ := (c.housed_powerOn strict).vmInit
  rcases o with _ | root
  · have := hfail₁ rfl
    omega
  have hcost₁ := hcost₁ rfl
  have hinit : onPhys Vm.init c.powerOn = some (some root, c.kernelWith TaskManager.new ph₁) :=
    onPhys_eq_some.mpr ⟨ph₁, hvm, rfl⟩
  -- The idle task.
  have hslot₀ : TaskManager.new.tasks.firstFree = some System.idleSlot := rfl
  rcases createIdle_run c.idleEntry (k := c.kernelWith TaskManager.new ph₁) h₁ rfl hslot₀ with
    ⟨kernelStack, pagetable, ph₂, own₂, hidle, h₂, hcost₂⟩ | ⟨-, hfew⟩
  swap
  · dsimp only [kernelWith] at hfew
    omega
  dsimp only [kernelWith] at hcost₂
  let m₁ := TaskManager.new.setTask System.idleSlot
    (some (idleTask c.idleEntry kernelStack pagetable))
  -- The console, which owns the UART and the first endpoint.
  have hslot₁ : m₁.tasks.firstFree = some ⟨1, by decide⟩ := rfl
  obtain ⟨p, ph₃, own₃, hconsole, h₃, -, -, hcost₃⟩ := spawn_run (k := c.kernelWith m₁ ph₂) h₂
    h.console_found h.console_ok hslot₁ (by dsimp only [kernelWith]; omega)
  dsimp only [kernelWith] at hcost₃
  let m₂ := m₁.bumpPid.incRunnable.setTask ⟨1, by decide⟩ (some (fileTask m₁ console p))
  have hfind₂ : m₂.findPid 1 = some ⟨1, by decide⟩ := rfl
  obtain ⟨ph₄, hgrant, h₄, hpage₄⟩ := grantUart_run (k := c.kernelWith m₂ ph₃) h₃ rfl hfind₂
  dsimp only [kernelWith] at hpage₄
  let m₃ : TaskManager := { m₂ with uartOwner := some 1 }
  have hregister := c.registerEndpoint_run m₃ ph₄ consoleEndpoint 1 (by decide) rfl rfl
  let m₄ : TaskManager := { m₃ with
    endpoints := m₃.endpoints.set ⟨consoleEndpoint, by decide⟩ (some (Endpoint.new 1)) }
  have h₄' : NekOS.Housed strict m₄ ph₄ own₃ :=
    h₄.of_sameHomes (TaskManager.SameHomes.of_eq rfl rfl)
  -- The file server, which owns the second endpoint.
  have hslot₄ : m₄.tasks.firstFree = some ⟨2, by decide⟩ := rfl
  obtain ⟨q, ph₅, own₅, hfs, h₅, -, -, hcost₅⟩ := spawn_run (k := c.kernelWith m₄ ph₄) h₄' h.fs_found
    h.fs_ok hslot₄ (by dsimp only [kernelWith]; rw [hpage₄]; omega)
  dsimp only [kernelWith] at hcost₅
  let m₅ := m₄.bumpPid.incRunnable.setTask ⟨2, by decide⟩ (some (fileTask m₄ fs q))
  have hregister' := c.registerEndpoint_run m₅ ph₅ fsEndpoint 2 (by decide) rfl rfl
  let m₆ : TaskManager := { m₅ with
    endpoints := m₅.endpoints.set ⟨fsEndpoint, by decide⟩ (some (Endpoint.new 2)) }
  have h₅' : NekOS.Housed strict m₆ ph₅ own₅ :=
    h₅.of_sameHomes (TaskManager.SameHomes.of_eq rfl rfl)
  -- The shell, which runs first.
  have hslot₆ : m₆.tasks.firstFree = some ⟨3, by decide⟩ := rfl
  obtain ⟨r, ph₇, own₇, hshell, h₇, hplaced, -, hcost₇⟩ := spawn_run (k := c.kernelWith m₆ ph₅) h₅'
    h.shell_found h.shell_ok hslot₆ (by dsimp only [kernelWith]; rw [hpage₄] at hcost₅; omega)
  dsimp only [kernelWith] at hcost₇
  let m₇ := m₆.bumpPid.incRunnable.setTask ⟨3, by decide⟩ (some (fileTask m₆ shell r))
  refine ⟨⟨c.kernelWith (m₇.runSlot ⟨3, by decide⟩) ph₇, ⟨3, by decide⟩⟩, r, ?_, rfl, rfl, rfl,
    ⟨own₇, ?_⟩, hplaced, ?_, kernelStack, pagetable, p, q, ?_⟩
  · have hidle' : createIdle c.idleEntry (c.kernelWith TaskManager.new ph₁) =
        some (some TaskManager.idlePid, c.kernelWith m₁ ph₂) := hidle
    have hconsole' : spawn "console" (c.kernelWith m₁ ph₂) =
        some (some 1, c.kernelWith m₂ ph₃) := hconsole
    have hgrant' : grantUart 1 (c.kernelWith m₂ ph₃) = some (some (), c.kernelWith m₃ ph₄) := hgrant
    have hregister₁ : registerEndpoint consoleEndpoint 1 (c.kernelWith m₃ ph₄) =
        some (some (), c.kernelWith m₄ ph₄) := hregister
    have hfs' : spawn "fs-server" (c.kernelWith m₄ ph₄) = some (some 2, c.kernelWith m₅ ph₅) := hfs
    have hregister₂ : registerEndpoint fsEndpoint 2 (c.kernelWith m₅ ph₅) =
        some (some (), c.kernelWith m₆ ph₅) := hregister'
    have hshell' : spawn "shell" (c.kernelWith m₆ ph₅) = some (some 3, c.kernelWith m₇ ph₇) := hshell
    have hmain : c.kernelMain c.powerOn = some (some ⟨3, by decide⟩,
        c.kernelWith (m₇.runSlot ⟨3, by decide⟩) ph₇) := by
      rw [kernelMain, Fallible.bind_of_some (hexpect hinit), Fallible.bind_of_some (hexpect hidle'),
        Fallible.bind_of_some (hexpect hconsole'), Fallible.bind_of_some (hexpect hgrant'),
        Fallible.bind_of_some (hexpect hregister₁), Fallible.bind_of_some (hexpect hfs'),
        Fallible.bind_of_some (hexpect hregister₂), Fallible.bind_of_some (hexpect hshell')]
      rfl
    rw [boot, hmain]
    rfl
  · exact h₇.of_sameHomes (TaskManager.SameHomes.runSlot _)
  · rw [hpage₄] at hcost₅
    dsimp only [kernelWith]
    omega
  · have htasks : ∀ i, (m₇.runSlot ⟨3, by decide⟩).tasks i = (firstManager
        (idleTask c.idleEntry kernelStack pagetable) (fileTask (handing 1) console p)
        (fileTask (handing 2) fs q) (fileTask (handing 3) shell r)).tasks i := fun i => by
      fin_cases i <;> rfl
    have hendpoints : ∀ e, (m₇.runSlot ⟨3, by decide⟩).endpoints e = (firstManager
        (idleTask c.idleEntry kernelStack pagetable) (fileTask (handing 1) console p)
        (fileTask (handing 2) fs q) (fileTask (handing 3) shell r)).endpoints e := fun e => by
      fin_cases e <;> rfl
    rw [firstManager, fourTasks, TaskManager.mk.injEq]
    exact ⟨rfl, funext htasks, rfl, rfl, funext hendpoints, rfl⟩

end Config

/-! ### A sample machine -/

/-- A number in `n` bytes, little-endian. -/
def leBytes (x : ℕ) : ℕ → List UInt8
  | 0 => []
  | n + 1 => UInt8.ofNat x :: leBytes (x / 256) n

/-- The program header of a segment of one empty page. -/
def samplePhdr (va : ℕ) : List UInt8 :=
  leBytes ptLoad 4 ++ leBytes (pfR ||| pfW ||| pfX) 4 ++ leBytes 0 8 ++ leBytes va 8 ++ leBytes va 8 ++
    leBytes 0 8 ++ leBytes pageSize 8 ++ leBytes pageSize 8

/-- A program with segments of one empty page each. -/
def sampleElf (vas : List ℕ) : List UInt8 :=
  Exec.elfMagic ++ List.replicate 12 0 ++ leBytes etExec 2 ++ leBytes emRiscv 2 ++ leBytes 1 4 ++
    leBytes 0x10000 8 ++ leBytes ehdrSize 8 ++ List.replicate 14 0 ++ leBytes phdrSize 2 ++
    leBytes vas.length 2 ++ List.replicate 6 0 ++ vas.flatMap samplePhdr

/-- The console, the file server and the shell of the sample machine. -/
def sampleProgram : List UInt8 := sampleElf [0x10000]

/-- The sample program has one page. -/
lemma sampleProgram_pages : (Elf64Ehdr.read sampleProgram).ePhnum = 1 ∧
    Exec.imagePages sampleProgram (Elf64Ehdr.read sampleProgram) 1 = [0x10] ∧
    Exec.imageRange sampleProgram = (0x10000, 0x1000) := by decide

/-- The sample program can be started. -/
lemma sampleProgram_startable : Exec.Startable true sampleProgram := by
  obtain ⟨hnum, hpages, hrange⟩ := sampleProgram_pages
  refine ⟨by decide +kernel, ⟨?_, ?_, ?_, ?_⟩, ?_, ?_, ?_⟩
  · rw [hnum]
    decide +kernel
  · rw [hnum, hpages]
    decide
  · rw [hnum, hpages]
    decide
  · rw [hnum]
    decide +kernel
  · rw [Exec.ElfOk, hnum]
    decide +kernel
  · rw [hrange]
    decide
  · rw [hrange]
    decide

/-- The sample program takes at most 32 pages. -/
lemma sampleProgram_cost : Exec.cost sampleProgram = 32 := by
  obtain ⟨hnum, hpages, -⟩ := sampleProgram_pages
  rw [Exec.cost, hnum, hpages]
  rfl

/-- A machine with a kernel image of 256 kB, three programs and other files. -/
def sampleConfig (files : List (String × List UInt8)) : Config where
  kernelEnd := 0x80240000
  idleEntry := 0x80200100
  files := [("console", sampleProgram), ("fs-server", sampleProgram), ("shell", sampleProgram)] ++ files
  mem _ := 0
  start_le := by decide
  end_le := by decide

/-- The programs of the sample machine have no segment that wraps around the address space. -/
lemma sampleConfig_filesOk :
    ∀ file ∈ (sampleConfig []).files, Exec.ElfOk strict file.2 (Elf64Ehdr.read file.2) := by
  intro file hfile
  have hdata : file.2 = sampleProgram := by
    simp only [sampleConfig, List.append_nil, List.mem_cons, List.not_mem_nil, or_false] at hfile
    rcases hfile with rfl | rfl | rfl
    · rfl
    · rfl
    · rfl
  rw [hdata]
  intro i hi hloaded hwraps
  have hstrict := (sampleProgram_startable.elf i hi hloaded hwraps).1
  exact absurd hstrict (by decide)

/-- The sample machine boots. -/
lemma sampleConfig_boots (files : List (String × List UInt8)) : ∃ s r,
    (sampleConfig files).boot = some s ∧
      Config.Booted true (sampleConfig files) sampleProgram sampleProgram sampleProgram s r := by
  have hstart := sampleProgram_startable
  refine Config.boot_of_bootable ⟨rfl, ?_, ?_, hstart, hstart, hstart, ?_⟩
  · simp [Kernel.findFile, Config.powerOn, sampleConfig]
  · simp [Kernel.findFile, Config.powerOn, sampleConfig]
  · rw [sampleProgram_cost]
    change 147 ≤ (sampleConfig []).powerOn.phys.page.freePages
    decide

/-! ### The first call of the sample machine -/

/-- What the boot of the sample machine decides: where the tasks are placed. -/
structure Sample where
  kernelStack : ℕ
  pagetable : ℕ
  console : Placement
  fs : Placement
  shell : Placement
  phys : Phys
  files : List (String × List UInt8)

namespace Sample

/-- The idle task. -/
def idleTask (x : Sample) : Task := Kernel.idleTask 0x80200100 x.kernelStack x.pagetable

/-- The task that is started with a pid. -/
def task (pid : ℕ) (p : Placement) : Task := Kernel.fileTask (Config.handing pid) sampleProgram p

/-- The image of a task starts at page 16. -/
lemma task_imagePage (pid : ℕ) (p : Placement) : (task pid p).imagePage = 0x10 := by
  have hbase : (task pid p).imageBase = 0x10000 := congrArg Prod.fst sampleProgram_pages.2.2
  rw [Task.imagePage, hbase]
  rfl

/-- The machine when the shell starts. -/
def start (x : Sample) : System :=
  ⟨⟨Config.firstManager x.idleTask (task 1 x.console) (task 2 x.fs) (task 3 x.shell), x.phys,
    x.files, []⟩, ⟨3, by decide⟩⟩

/-- The shell asleep in a call of the console. -/
def callingShell (x : Sample) (tf : TrapFrame) : Task :=
  { task 3 x.shell with
    state := .sleeping
    waitingFor := some (.ipcCall consoleEndpoint)
    trapFrame := Kernel.advanced tf }

/-- The task manager when the shell has gone to sleep in its call. -/
def calling (x : Sample) (tf : TrapFrame) (consoleEnd : Endpoint) : TaskManager :=
  Config.fourTasks 3 x.idleTask (task 1 x.console) (task 2 x.fs) (x.callingShell tf) 2 consoleEnd
    (Endpoint.new 2)

/-- The machine after that: the console runs. -/
def called (x : Sample) (tf : TrapFrame) (consoleEnd : Endpoint) (accesses : List Access) : System :=
  ⟨⟨Config.fourTasks 1 x.idleTask { task 1 x.console with state := .running } (task 2 x.fs)
    (x.callingShell tf) 2 consoleEnd (Endpoint.new 2), x.phys, x.files, accesses⟩, ⟨1, by decide⟩⟩

/-- The endpoint of the console with a message of the shell. -/
def consoleEnd (message : Message) (copyBuf : ℕ → UInt8) : Endpoint :=
  { Endpoint.new 1 with
    pending := MsgQueue.new.pushOk message
    copyBuf := copyBuf
    copyLen := message.bufLen
    hasBuffered := decide (0 < message.bufLen) }

variable (x : Sample) (tf : TrapFrame)

/-- The boot ends with the start of the shell. -/
lemma exists_start (files : List (String × List UInt8)) : ∃ x : Sample,
    (sampleConfig files).boot = some x.start ∧ Config.Booted true (sampleConfig files) sampleProgram
      sampleProgram sampleProgram x.start x.shell := by
  obtain ⟨⟨⟨m, ph, files', accesses⟩, hart⟩, r, hboot, hbooted⟩ := sampleConfig_boots files
  obtain ⟨hhart, hfiles, haccesses, -, -, -, kernelStack, pagetable, p, q, hm⟩ := id hbooted
  dsimp only at hhart hfiles haccesses hm
  subst hhart hfiles haccesses hm
  exact ⟨⟨kernelStack, pagetable, p, q, r, ph, _⟩, hboot, hbooted⟩

/-- The scheduler turns from the calling shell to the console. -/
lemma schedule_calling (ep : Endpoint) (accesses : List Access) :
    Kernel.schedule (Kernel.advanced tf) ⟨x.calling tf ep, x.phys, x.files, accesses⟩ =
      some (some (some ⟨1, by decide⟩), (x.called tf ep accesses).kernel) := by
  have hrun : ((x.calling tf ep).preempt (Kernel.advanced tf)).runSlot ⟨1, by decide⟩ =
      (x.called tf ep accesses).kernel.tm := by
    refine Config.eq_fourTasks ⟨rfl, rfl, rfl, rfl⟩ (fun i => ?_) fun e => ?_
    · fin_cases i <;> rfl
    · fin_cases e <;> rfl
  have horder : ((x.calling tf ep).preempt (Kernel.advanced tf)).visitOrder =
      Slots.cyclicFrom 4 := rfl
  have hquiet : ∀ i t, (x.calling tf ep).tasks i = some t →
      TaskManager.detached (x.calling tf ep).currentPid t = false :=
    Config.fourTasks_quiet (fun h => nomatch h) (fun h => nomatch h) (fun h => nomatch h)
      fun h => nomatch h
  rw [Kernel.schedule_quiet (j := ⟨1, by decide⟩) hquiet]
  · dsimp only
    rw [hrun]
    rfl
  · dsimp only
    rw [horder]
    rfl

/-- The shell is on the hart. -/
lemma start_user : x.start.hart ≠ System.idleSlot := by
  change (⟨3, by decide⟩ : Fin maxTasks) ≠ System.idleSlot
  decide

/-- The shell calls the console, which runs next with the message in its queue. -/
lemma start_call (h7 : tf.a7 = 10) (h0 : tf.a0 = consoleEndpoint) :
    nekos.step x.start (.ecall tf) =
      some (x.called tf (consoleEnd ⟨3, Kernel.argWords tf, 0⟩ fun _ => 0) []) := by
  have hsched := x.schedule_calling tf (consoleEnd ⟨3, Kernel.argWords tf, 0⟩ fun _ => 0) []
  have hm : (((System.storeFrame ⟨3, by decide⟩ tf x.start.kernel).tm.block ⟨3, by decide⟩
      (.ipcCall consoleEndpoint) (Kernel.advanced tf)).enqueue ⟨1, by decide⟩
        ⟨3, Kernel.argWords tf, 0⟩) =
      x.calling tf (consoleEnd ⟨3, Kernel.argWords tf, 0⟩ fun _ => 0) := by
    refine Config.eq_fourTasks ⟨rfl, rfl, rfl, rfl⟩ (fun i => ?_) fun e => ?_
    · fin_cases i <;> rfl
    · fin_cases e <;> rfl
  rw [← hm] at hsched
  have hcall : Kernel.ipcCall consoleEndpoint (Kernel.argWords tf) (Kernel.advanced tf)
      (System.storeFrame ⟨3, by decide⟩ tf x.start.kernel) =
      (Kernel.schedule (Kernel.advanced tf) >>= fun next => pure (IpcResult.blocked next))
        ⟨((System.storeFrame ⟨3, by decide⟩ tf x.start.kernel).tm.block ⟨3, by decide⟩
          (.ipcCall consoleEndpoint) (Kernel.advanced tf)).enqueue ⟨1, by decide⟩
            ⟨3, Kernel.argWords tf, 0⟩, x.phys, x.files, []⟩ := rfl
  rw [Fallible.bind_of_some hsched] at hcall
  have hhandle : Kernel.handle tf = Kernel.blocking (Kernel.advanced tf)
      (Kernel.ipcCall tf.a0 (Kernel.argWords tf) (Kernel.advanced tf)) := by
    have hdecode : Sysno.decode tf.a7 = some .ipcCall := by
      rw [h7]
      rfl
    rw [Kernel.handle, hdecode]
    rfl
  have hdone : Kernel.handle tf (System.storeFrame ⟨3, by decide⟩ tf x.start.kernel) =
      some (some (some ⟨1, by decide⟩, Kernel.advanced tf),
        (x.called tf (consoleEnd ⟨3, Kernel.argWords tf, 0⟩ fun _ => 0) []).kernel) := by
    rw [hhandle, h0, Kernel.blocking, Fallible.attempt_bind, hcall]
    rfl
  exact System.step_ecall (s := x.start) x.start_user hdone

end Sample

end NekOS
