import NekOS.AddressSpace.Upkeep
import NekOS.Kernel.SyscallSteps

/-!
# Keeping all tasks housed

Every operation of the kernel keeps all tasks housed: scheduling and IPC because they change no home,
reaping, `fork`, `spawn`, `exec` and `sbrk` because each changes the home of one task.
-/

namespace NekOS

open PageTable

namespace TaskManager

variable {m : TaskManager}

/-! ### Operations that change no home -/

namespace SameHomes

/-- Changing an endpoint. -/
lemma updateEndpoint (e : Fin maxEndpoints) (f : Endpoint → Endpoint) :
    SameHomes m (m.updateEndpoint e f) := of_eq rfl rfl

/-- Putting a task to sleep. -/
lemma block (i : Fin maxTasks) (channel : WaitChannel) (tf : TrapFrame) :
    SameHomes m (m.block i channel tf) :=
  (update m i (f := fun t =>
    { t with state := .sleeping, waitingFor := some channel, trapFrame := tf }) fun _ => rfl).trans
    (of_eq rfl rfl)

/-- Waking a task. -/
lemma wake (i : Fin maxTasks) (result : TrapFrame → TrapFrame) : SameHomes m (m.wake i result) :=
  (update m i (f := fun t => { t with
    state := .ready, waitingFor := none, trapFrame := result t.trapFrame }) fun _ => rfl).trans
    (of_eq rfl rfl)

/-- Running a task. -/
lemma runSlot (i : Fin maxTasks) : SameHomes m (m.runSlot i) :=
  (update m i (f := fun t => { t with state := .running }) fun _ => rfl).trans (of_eq rfl rfl)

/-- Running the chosen task. -/
lemma runChosen (next : FramePtr) : SameHomes m (m.runChosen next) := by
  cases next with
  | none => exact refl m
  | some i => exact runSlot i

/-- Saving the frame of the current task. -/
lemma preempt (tf : TrapFrame) : SameHomes m (m.preempt tf) := by
  rw [TaskManager.preempt]
  split
  · exact refl m
  · exact update m _ fun _ => rfl

/-- Turning a task into a zombie. -/
lemma bury (i : Fin maxTasks) (code : ℤ) : SameHomes m (m.bury i code) := by
  refine (update m i (f := fun t => { t with state := .zombie, exitCode := code }) fun _ => rfl).trans
    ⟨fun j => ?_, rfl⟩
  simp only [TaskManager.bury, decRunnable, Option.map_map]
  refine congrArg (fun g => Option.map g _) (funext fun t => ?_)
  simp only [Function.comp_apply]
  split <;> rfl

/-- Telling the parent. -/
lemma notifyParent (childPid parentPid : ℕ) (code : ℤ) :
    SameHomes m (m.notifyParent childPid parentPid code) := by
  rw [TaskManager.notifyParent]
  split
  · exact refl m
  · split
    · dsimp only
      split
      · exact wake _ _
      · exact (wake _ _).trans (update _ _ fun _ => rfl)
    · exact refl m

/-- Leaving. -/
lemma retire (code : ℤ) : SameHomes m (m.retire code) := by
  rw [TaskManager.retire]
  split
  · exact refl m
  · split
    · exact refl m
    · split
      · exact bury _ _
      · exact (bury _ _).trans (notifyParent _ _ _)

/-- Waking the owner of the UART. -/
lemma wakeUart : SameHomes m m.wakeUart := by
  rw [TaskManager.wakeUart]
  generalize List.finRange maxTasks = slots
  induction slots generalizing m with
  | nil => exact refl m
  | cons i slots ih =>
    refine SameHomes.trans ?_ ih
    rw [wakeUartSlot]
    split
    · exact wake _ _
    · exact refl m

end SameHomes

end TaskManager

namespace Kernel

open TaskManager

/-- All tasks are housed. -/
def Housed (strict : Bool) (k : Kernel) : Prop := ∃ own, NekOS.Housed strict k.tm k.phys own

/-- No file of the ramdisk has a segment that wraps around the address space, or (unless `strict`) at
least none without permissions. -/
def FilesOk (strict : Bool) (k : Kernel) : Prop :=
  ∀ file ∈ k.files, Exec.ElfOk strict file.2 (Elf64Ehdr.read file.2)

variable {strict : Bool} {k k' : Kernel}

/-- A change of the task table that changes no home. -/
lemma Housed.sameHomes (h : k.Housed strict) (hm : k.tm.SameHomes k'.tm) (hphys : k'.phys = k.phys) :
    k'.Housed strict := by
  obtain ⟨own, h⟩ := h
  exact ⟨own, by rw [hphys]; exact h.of_sameHomes hm⟩

/-! ### Scheduling -/

/-- Reaping one slot. -/
lemma Housed.reapSlot {i : Fin maxTasks} {o : Option Unit} (h : k.Housed strict)
    (hrun : reapSlot i k = some (o, k')) : k'.Housed strict := by
  obtain ⟨own, h⟩ := h
  rw [Kernel.reapSlot, readTm_bind] at hrun
  rcases ht : k.tm.tasks i with _ | t
  · rw [ht] at hrun
    obtain ⟨-, rfl⟩ : some () = o ∧ k = k' := by simpa using hrun
    exact ⟨own, h⟩
  rw [ht] at hrun
  dsimp only at hrun
  split at hrun
  · obtain ⟨ph', own', hfree, hv⟩ := (h.home i t ht).vacate h.spaces false
    rw [freeTaskWith_false] at hfree
    rw [onTm, Fallible.modify_bind] at hrun
    obtain ⟨ph, hph, rfl⟩ := onPhys_eq_some.mp hrun
    obtain ⟨-, rfl⟩ : some () = o ∧ ph' = ph := by simpa using hfree.symm.trans hph
    exact ⟨own', h.vacate ht hv⟩
  · obtain ⟨-, rfl⟩ : some () = o ∧ k = k' := by simpa using hrun
    exact ⟨own, h⟩

/-- Scheduling. -/
lemma Housed.schedule {tf : TrapFrame} {o : Option FramePtr} (h : k.Housed strict)
    (hrun : schedule tf k = some (o, k')) : k'.Housed strict := by
  obtain ⟨-, ph, hreap, rfl⟩ := schedule_cases hrun
  have hkeep : Fallible.Keeps (Housed strict) reapDetachedZombies :=
    Fallible.Spec.forEach fun i _ k hk k' =>
      ⟨fun _ => Housed.reapSlot hk, Housed.reapSlot hk⟩
  have h' : Housed strict { k with tm := k.tm.reaped, phys := ph } := hkeep.of_run h hreap
  exact h'.sameHomes ((SameHomes.preempt tf).trans (SameHomes.runChosen _)) rfl

/-! ### Leaving -/

/-- `free_task` for a task that is removed from the table. -/
lemma Housed.freeTask {i : Fin maxTasks} {t : Task} {ph : Phys} (h : k.Housed strict)
    (ht : k.tm.tasks i = some t) (hrun : freeTask t k.phys = some (some (), ph)) :
    Housed strict { k with tm := k.tm.setTask i none, phys := ph } := by
  obtain ⟨own, h⟩ := h
  obtain ⟨ph', own', hfree, hv⟩ := (h.home i t ht).vacate h.spaces false
  rw [freeTaskWith_false, hrun] at hfree
  obtain rfl : ph = ph' := by simpa using hfree
  exact ⟨own', h.vacate ht hv⟩

/-- `waitpid`. -/
lemma Housed.waitpid {pid : ℕ} {tf : TrapFrame} {o : Option WaitResult} (h : k.Housed strict)
    (hrun : waitpid pid tf k = some (o, k')) : k'.Housed strict := by
  rcases waitpid_cases hrun with ⟨-, rfl⟩ | ⟨-, -, c, child, -, hchild, -, -, h'⟩
  · exact h
  rcases h' with ⟨-, -, ph, hfree, rfl⟩ | ⟨-, i, next, -, -, hsched⟩
  · exact h.freeTask hchild hfree
  · have h₁ : Housed strict { k with tm := k.tm.block i (.child pid) tf } :=
      h.sameHomes (SameHomes.block ..) rfl
    exact h₁.schedule hsched

/-- `exit_current`. -/
lemma Housed.exitCurrent {code : ℤ} {o : Option FramePtr} (h : k.Housed strict)
    (hrun : exitCurrent code k = some (o, k')) : k'.Housed strict := by
  rcases exitCurrent_cases hrun with ⟨-, rfl, -⟩ | ⟨-, next, -, -, rfl⟩
  · exact h
  · refine h.sameHomes ((SameHomes.retire code).trans ?_) rfl
    exact (SameHomes.of_eq rfl rfl).trans (SameHomes.runSlot next)

/-- `wait_uart_irq`. -/
lemma Housed.waitUartIrq {tf : TrapFrame} {o : Option FramePtr} (h : k.Housed strict)
    (hrun : waitUartIrq tf k = some (o, k')) : k'.Housed strict := by
  rcases waitUartIrq_cases hrun with ⟨-, rfl⟩ | ⟨-, -, i, -, hsched⟩
  · exact h
  · have h₁ : Housed strict { k with tm := k.tm.block i .uartRx tf } :=
      h.sameHomes (SameHomes.block ..) rfl
    exact h₁.schedule hsched

/-! ### Arriving -/

/-- `fork`. -/
lemma Housed.fork {tf : TrapFrame} {o : Option ℕ} (h : k.Housed strict)
    (hrun : fork tf k = some (o, k')) : k'.Housed strict := by
  obtain ⟨own, h⟩ := h
  rcases fork_cases hrun with ⟨-, rfl, -⟩ | ⟨-, parent, child, ph, hparent, hspace, h'⟩
  · exact ⟨own, h⟩
  obtain ⟨i, -, hi⟩ := Option.bind_eq_some_iff.mp hparent
  have hhome := h.home i parent hi
  obtain ⟨o₁, ph₁, own₁, hrun₁, hfail, hdone⟩ := forkSpace_spec h.spaces.tables h.spaces.root
    hhome.root hhome.layout fun n hn e he =>
      ((h.spaces.space _ hhome.root).leaf n hn e he).symm.imp UserLeaf.user KernelLeaf.page
  obtain ⟨rfl, rfl⟩ : child = o₁ ∧ ph = ph₁ := by simpa using hspace.symm.trans hrun₁
  have hleft : NekOS.Housed strict k.tm ph own₁ := by
    rcases child with _ | child
    · exact h.abandoned (hfail rfl).1
    · obtain ⟨hfree, hB, hF, -⟩ := hdone child rfl
      exact h.building hB hfree hF.closed
  rcases h' with ⟨-, -, rfl⟩ | ⟨-, -, -, rfl⟩ | ⟨-, space, slot, rfl, hslot, rfl⟩
  · exact ⟨own₁, hleft⟩
  · exact ⟨own₁, hleft.of_sameHomes (SameHomes.of_eq rfl rfl)⟩
  obtain ⟨hfree, hB, hF, -⟩ := hdone space rfl
  have hnew : Home strict ph own₁ (childTask k.tm parent space tf) := by
    have hlayout : (childTask k.tm parent space tf).Layout :=
      ⟨hhome.layout.base_mod, hhome.layout.heap_eq, hhome.layout.heap_mod, hhome.layout.heap_le,
        hhome.layout.limit⟩
    refine ⟨hB.root, hF.kernelStack.2, hF.kernel, hlayout, Or.inr hF.stack.2, fun n hle hlt => ?_,
      fun n hn e he => ?_⟩
    · obtain ⟨e, -, hk, p, -, -, hlookup, -⟩ := hF.heap n hle hlt
      exact ⟨hk, by dsimp only [childTask]; rw [hlookup]; rfl⟩
    · by_cases hk : KernelPage n
      · exact Or.inl hk
      by_cases hs : n = stackPage
      · subst hs
        obtain rfl := Option.some.inj (hF.stackLeaf.symm.trans he)
        have hne : own₁ space.userStack ≠ .free := by simp [hF.stack.2]
        refine Or.inr (Or.inl ⟨rfl, pteToPa_paToPte (by decide) (hB.tables.page_aligned hne)
          (hB.tables.page_lt hne), ?_⟩)
        rw [isLeaf, hasFlag_paToPte (by decide) (by decide)]
        rfl
      · refine Or.inr (Or.inr (Or.inl ?_))
        by_contra hnot
        have hnone := hF.other n hn hk hs hnot
        simp only [childTask] at he
        simp [hnone] at he
  refine ⟨own₁, ?_⟩
  have hbump : NekOS.Housed strict k.tm.bumpPid ph own₁ :=
    hleft.of_sameHomes (SameHomes.of_eq rfl rfl)
  refine (hbump.insert (Slots.firstFree_eq_some hslot) hnew fun j u hu => ?_).of_sameHomes
    (SameHomes.of_eq rfl rfl)
  have hu' := h.home j u hu
  constructor
  · rintro heq
    have hroot := hu'.root
    rw [← heq] at hroot
    simp [childTask, hfree] at hroot
  · rintro heq
    have hstack := hu'.kernelStack
    rw [← heq] at hstack
    simp [childTask, hF.kernelStack.1] at hstack

/-- The file found under a name is one of the ramdisk. -/
lemma findFile_mem {name : String} {data : List UInt8} (h : k.findFile name = some data) :
    ∃ file ∈ k.files, file.2 = data := by
  obtain ⟨file, hfile, rfl⟩ := Option.map_eq_some_iff.mp h
  exact ⟨file, List.mem_of_find?_eq_some hfile, rfl⟩

/-- `load`: without an image the attempt is abandoned; an image is in a tree in which no task
lives. -/
lemma loaded_of_load {own : ℕ → Role} {name : String} {o : Option LoadedImage}
    (h : NekOS.Housed strict k.tm k.phys own) (hfiles : k.FilesOk strict)
    (hrun : load name k = some (o, k')) :
    k'.tm = k.tm ∧ ∃ own', NekOS.Housed strict k.tm k'.phys own' ∧
      ∀ image, o = some image → ∃ data pages, k.findFile name = some data ∧
        own' image.pagetable = .root ∧ Loaded strict pages k'.phys own' image ∧
        (image.imageBase, image.imageSize) = Exec.imageRange data ∧
        ∀ i t, k.tm.tasks i = some t → t.pagetable ≠ image.pagetable := by
  rcases load_cases hrun with ⟨rfl, rfl, -⟩ | ⟨data, ph, hdata, hload, rfl⟩
  · exact ⟨rfl, own, h, by simp⟩
  obtain ⟨file, hmem, rfl⟩ := findFile_mem hdata
  obtain ⟨o₁, ph₁, own₁, hrun₁, hfail, hdone⟩ := loadFile_spec h.spaces (hfiles file hmem)
  obtain ⟨rfl, rfl⟩ : o = o₁ ∧ ph = ph₁ := by simpa using hload.symm.trans hrun₁
  refine ⟨rfl, own₁, ?_, fun image ho => ?_⟩
  · rcases o with _ | image
    · exact h.abandoned (hfail rfl).1
    · obtain ⟨hfree, hB, hL, -⟩ := hdone image rfl
      exact h.building hB hfree hL.closed
  · obtain ⟨hfree, hB, hL, -, hrange, -⟩ := hdone image ho
    refine ⟨file.2, _, hdata, hB.root, hL, hrange, fun i t ht heq => ?_⟩
    have hroot := (h.home i t ht).root
    rw [heq, hfree] at hroot
    simp at hroot

/-- `spawn`.  A rejected image is released, which is harmless when it holds no page of the window. -/
lemma Housed.spawn {name : String} {o : Option ℕ} (h : k.Housed strict) (hfiles : k.FilesOk strict)
    (hclear : o = none → ∀ data, k.findFile name = some data → Exec.ClearOfWindow data)
    (hrun : spawn name k = some (o, k')) : k'.Housed strict := by
  obtain ⟨own, h⟩ := h
  rcases spawn_cases hrun with ⟨-, hload⟩ | ⟨image, ph, hload, hcreate⟩
  · obtain ⟨htm, own', h', -⟩ := loaded_of_load h hfiles hload
    exact ⟨own', by rw [htm]; exact h'⟩
  obtain ⟨-, own₁, h₁, himage⟩ := loaded_of_load h hfiles hload
  obtain ⟨data, pages, hdata, hroot, hL, hrange, hnew⟩ := himage image rfl
  have hbase : image.imageBase = (Exec.imageRange data).1 := congrArg Prod.fst hrange
  have hsize : image.imageSize = (Exec.imageRange data).2 := congrArg Prod.snd hrange
  rcases createUserImage_cases hcreate with ⟨rfl, ph', rfl, rfl | ⟨hlt, hfree⟩⟩ |
    ⟨-, hlimit, -, slot, kernelStack, ph', hslot, halloc, rfl⟩
  · exact ⟨own₁, h₁⟩
  · -- A rejected image.
    obtain ⟨ph₂, own₂, hrun₂, hrel⟩ := freeUserSpaceWith_spec h₁.spaces
      (hL.releasable h₁.spaces.tables hroot hlt (by
        rw [hbase, hsize]
        exact hclear rfl data hdata)) false (by simp)
    rw [freeUserSpaceWith_false] at hrun₂
    obtain rfl : ph' = ph₂ := by simpa using hfree.symm.trans hrun₂
    refine ⟨own₂, h₁.elsewhere ⟨hrel.toLocal, hrel.spaces h₁.spaces, fun p hp => ?_⟩ hnew fun hr => ?_⟩
    · rw [hrel.outside p (by rw [hp]; simp [Role.tree]), hp]
    · exact absurd (by rw [hr]; rfl) (hrel.gone image.pagetable)
  · obtain ⟨hfree, hmem, h₂⟩ := h₁.takeStack halloc
    have hroot₂ : Function.update own₁ kernelStack .stack image.pagetable = .root := by
      rw [Function.update_of_ne (by rintro rfl; simp [hroot] at hfree), hroot]
    have hL₂ : Loaded strict pages ph' (Function.update own₁ kernelStack .stack) image :=
      hL.of_mem hmem (Function.update_of_ne (by rintro heq; simp [← heq, hL.stack] at hfree) ..)
    have h₃ : NekOS.Housed strict k.tm.bumpPid.incRunnable ph'
        (Function.update own₁ kernelStack .stack) := h₂.of_sameHomes (SameHomes.of_eq rfl rfl)
    have hhome : Home strict ph' (Function.update own₁ kernelStack .stack)
        (imageTask k.tm image.pagetable image.userStack image.entry image.imageBase image.imageSize
          (image.imageBase + image.imageSize) kernelStack) :=
      hL₂.home h₂.spaces.tables hroot₂ rfl rfl rfl rfl rfl rfl (Function.update_self ..) hlimit
    refine ⟨_, h₃.insert (Slots.firstFree_eq_some hslot) hhome
      fun j u hu => ⟨fun heq => hnew j u hu heq.symm, ?_⟩⟩
    rintro heq
    have hstack := (h₁.home j u hu).kernelStack
    rw [← heq] at hstack
    simp [imageTask, hfree] at hstack

/-! ### Moving -/

/-- `replace_current`. -/
lemma Housed.exec {name : String} {tf : TrapFrame} {o : Option TrapFrame} (h : k.Housed strict)
    (hfiles : k.FilesOk strict) (hrun : exec name tf k = some (o, k')) : k'.Housed strict := by
  obtain ⟨own, h⟩ := h
  rcases exec_cases hrun with ⟨-, hload⟩ | ⟨image, ph, hload, hreplace⟩
  · obtain ⟨htm, own', h', -⟩ := loaded_of_load h hfiles hload
    exact ⟨own', by rw [htm]; exact h'⟩
  obtain ⟨-, own₁, h₁, himage⟩ := loaded_of_load h hfiles hload
  obtain ⟨data, pages, -, hroot, hL, -, hnew⟩ := himage image rfl
  rcases replaceCurrent_cases hreplace with ⟨-, rfl⟩ |
    ⟨-, hlimit, -, i, old, ph', -, hold, hfree, rfl⟩
  · exact ⟨own₁, h₁⟩
  have hhome := h₁.home i old hold
  obtain ⟨ph₂, own₂, hrun₂, hrel⟩ := hhome.release h₁.spaces false
  rw [freeUserSpaceWith_false] at hrun₂
  obtain rfl : ph' = ph₂ := by simpa using hfree.symm.trans hrun₂
  have hb : Beside old.pagetable ph own₁ ph' own₂ :=
    ⟨hrel.toLocal, hrel.spaces h₁.spaces, fun p hp => by
      rw [hrel.outside p (by rw [hp]; simp [Role.tree]), hp]⟩
  refine ⟨own₂, h₁.replace hold hb rfl rfl ?_ (Or.inr fun j u hu heq => hnew j u hu heq.symm)
    fun hr => absurd (by rw [hr]; rfl) (hrel.gone old.pagetable)⟩
  refine Home.beside ?_ h₁.spaces.tables hb fun heq => hnew i old hold heq.symm
  exact hL.home h₁.spaces.tables hroot rfl rfl rfl rfl rfl rfl hhome.kernelStack hlimit

/-- `sys_exec`. -/
lemma Housed.sysExec {va len : ℕ} {tf : TrapFrame} {o : Option TrapFrame} (h : k.Housed strict)
    (hfiles : k.FilesOk strict) (hrun : sysExec va len tf k = some (o, k')) : k'.Housed strict := by
  obtain ⟨-, -, log, -, -, -, ⟨-, rfl⟩ | ⟨-, name, hexec⟩⟩ := sysExec_cases hrun
  · exact h
  · have h₁ : Housed strict { k with accesses := log ++ k.accesses } := h
    exact h₁.exec hfiles hexec

/-- `sbrk`. -/
lemma Housed.sbrk {increment : ℤ} {o : Option ℕ} (h : k.Housed strict)
    (hrun : sbrk increment k = some (o, k')) : k'.Housed strict := by
  obtain ⟨own, h⟩ := h
  rcases sbrk_cases hrun with ⟨-, rfl⟩ |
    ⟨-, i, task, newEnd, oldMappedEnd, newMappedEnd, r, ph, -, ht, -, hbase, hlimit, hold, hnew,
      hresize, h'⟩
  · exact ⟨own, h⟩
  have hhome := h.home i task ht
  have hlayout : { task with heapEnd := newEnd }.Layout :=
    ⟨hhome.layout.base_mod, hhome.layout.heap_eq, hhome.layout.heap_mod, hbase, hlimit⟩
  obtain rfl := Option.some.inj (hold.symm.trans hhome.layout.heap_range.2.1)
  obtain rfl := Option.some.inj (hnew.symm.trans hlayout.heap_range.2.1)
  obtain ⟨o₁, ph₁, own₁, hrun₁, hb, hclosed, hdone, hfail⟩ :=
    hhome.resizeHeap h.spaces hbase hlimit
  obtain ⟨rfl, rfl⟩ : r = o₁ ∧ ph = ph₁ := by simpa using hresize.symm.trans hrun₁
  rcases h' with ⟨-, rfl, rfl⟩ | ⟨-, rfl, rfl⟩
  · have hrep := h.replace ht hb (f := id) rfl rfl (hfail rfl) (Or.inl rfl) fun _ => ⟨rfl, hclosed⟩
    exact ⟨own₁, hrep.of_sameHomes (SameHomes.update _ i fun _ => rfl).symm⟩
  · exact ⟨own₁, h.replace ht hb rfl rfl (hdone rfl) (Or.inl rfl) fun _ => ⟨rfl, hclosed⟩⟩

/-! ### Plain messages -/

/-- `ipc_call`. -/
lemma Housed.ipcCall {endpoint : ℕ} {words : Words} {tf : TrapFrame} {o : Option IpcResult}
    (h : k.Housed strict) (hrun : ipcCall endpoint words tf k = some (o, k')) : k'.Housed strict := by
  rcases ipcCall_cases hrun with ⟨-, rfl⟩ | ⟨sender, e, ep, i, next, -, -, -, -, -, -, h'⟩
  · exact h
  have hblock := SameHomes.block (m := k.tm) i (.ipcCall endpoint) tf
  rcases h' with ⟨-, hsched⟩ | ⟨-, r, -, hsched⟩
  · have h₁ : Housed strict { k with
        tm := (k.tm.block i (.ipcCall endpoint) tf).enqueue e ⟨sender, words, 0⟩ } :=
      h.sameHomes (hblock.trans (SameHomes.updateEndpoint ..)) rfl
    exact h₁.schedule hsched
  · have h₁ : Housed strict { k with
        tm := (k.tm.block i (.ipcCall endpoint) tf).deliver e r sender words } :=
      h.sameHomes (hblock.trans ((SameHomes.wake r _).trans (SameHomes.updateEndpoint ..))) rfl
    exact h₁.schedule hsched

/-- `ipc_recv`. -/
lemma Housed.ipcRecv {endpoint : ℕ} {tf : TrapFrame} {o : Option IpcResult}
    (h : k.Housed strict) (hrun : ipcRecv endpoint tf k = some (o, k')) : k'.Housed strict := by
  rcases ipcRecv_cases hrun with ⟨-, rfl, -⟩ | ⟨-, -, _, e, ep, -, -, -, -, rfl⟩ |
    ⟨receiver, e, ep, -, -, -, h'⟩
  · exact h
  · exact h.sameHomes (SameHomes.updateEndpoint ..) rfl
  rcases h' with ⟨message, pending, -, -, rfl⟩ | ⟨-, i, next, -, -, hsched⟩
  · exact h.sameHomes (SameHomes.updateEndpoint ..) rfl
  · have hmark := SameHomes.updateEndpoint (m := k.tm) e fun ep =>
      { ep with waitingReceiver := some receiver }
    have h₁ : Housed strict { k with
        tm := (k.tm.updateEndpoint e fun ep =>
          { ep with waitingReceiver := some receiver }).block i (.ipcRecv endpoint) tf } :=
      h.sameHomes (hmark.trans (SameHomes.block ..)) rfl
    exact h₁.schedule hsched

/-- `ipc_reply`. -/
lemma Housed.ipcReply {client : ℕ} {words : Words} {o : Option Unit} (h : k.Housed strict)
    (hrun : ipcReply client words k = some (o, k')) : k'.Housed strict := by
  rcases ipcReply_cases hrun with ⟨-, rfl⟩ | ⟨-, _, index, task, -, -, -, rfl⟩
  · exact h
  · exact h.sameHomes (SameHomes.wake ..) rfl

/-! ### Messages with a payload -/

/-- No byte of the buffer lies in a page of the kernel. -/
def Avoids (base len : ℕ) : Prop := ∀ i < len, ¬ KernelPage (pageNumber (wrap (base + i)))

section Buffers

variable {own : ℕ → Role}

/-- A translation keeps everything. -/
lemma translate_spec {P : Kernel → Prop} (root va : ℕ) : Fallible.Spec P (translate root va)
    (fun pa k => P k ∧ PageTable.virtToPhys k.phys root va = some pa) P := by
  intro k hk k'
  refine ⟨fun pa h => ?_, fun h => ?_⟩
  · obtain ⟨hpa, rfl⟩ := translate_cases h
    exact ⟨hk, hpa.symm⟩
  · obtain ⟨-, rfl⟩ := translate_cases h
    exact hk

/-- Writing a byte of a page changes no other page. -/
lemma byte_frame {m : Memory} (e va : ℕ) (b : UInt8) {w : ℕ} (hw : pageOfWord w ≠ pteToPa e) :
    m.setByte (pteToPa e + va % pageSize) b w = m w := by
  refine Memory.setByte_of_ne b ?_
  rintro rfl
  refine hw ((pageOfWord_eq (pteToPa_mod e)).mpr ?_)
  have hmod := pteToPa_mod e
  have hlt : va % pageSize < pageSize := Nat.mod_lt _ (by decide)
  simp only [pageSize] at hmod hlt ⊢
  omega

/-- A byte of a page of the program is written. -/
lemma writeAt_spec {root va pa : ℕ} (b : UInt8) (hroot : own root = .root)
    (hva : ¬ KernelPage (pageNumber va)) :
    Fallible.Spec (fun k : Kernel => NekOS.Housed strict k.tm k.phys own ∧
        PageTable.virtToPhys k.phys root va = some pa)
      (writeAt root va pa b) (fun _ k => NekOS.Housed strict k.tm k.phys own)
      (fun k => NekOS.Housed strict k.tm k.phys own) := by
  refine Fallible.Spec.modify fun k hk => ?_
  obtain ⟨h, hpa⟩ := hk
  rw [virtToPhys_eq, Option.map_eq_some_iff] at hpa
  obtain ⟨e, he, rfl⟩ := hpa
  have hleaf := ((h.spaces.space root hroot).leaf _ (pageNumber_lt va) e he).resolve_left
    fun hk => hva hk.page
  exact h.write (by rw [hleaf.owned]; rfl) rfl fun w hw => byte_frame e va b hw

/-- `mem_copy_to_user`. -/
lemma memCopyToUser_keeps {root userDst len : ℕ} (src : ℕ → UInt8) (hroot : own root = .root)
    (havoid : Avoids userDst len) :
    Fallible.Keeps (fun k : Kernel => NekOS.Housed strict k.tm k.phys own)
      (memCopyToUser root userDst src len) :=
  Fallible.Spec.forRange (I := fun _ (k : Kernel) => NekOS.Housed strict k.tm k.phys own)
    fun i hi => (translate_spec root _).bind fun _ => writeAt_spec _ hroot (havoid i hi)

/-- The copy loop of `ipc_reply_buf`. -/
lemma copyUserToUser_keeps {srcRoot userSrc dstRoot userDst len : ℕ} (hroot : own dstRoot = .root)
    (havoid : Avoids userDst len) :
    Fallible.Keeps (fun k : Kernel => NekOS.Housed strict k.tm k.phys own)
      (copyUserToUser srcRoot userSrc dstRoot userDst len) := by
  refine Fallible.Spec.forRange (I := fun _ (k : Kernel) => NekOS.Housed strict k.tm k.phys own)
    fun i hi => (translate_spec srcRoot _).bind fun srcPa => ?_
  refine Fallible.Spec.bind ((translate_spec dstRoot _).conseq (fun k hk => hk.1)
    (fun _ _ h => h) fun _ h => h) fun dstPa => ?_
  refine Fallible.Spec.bind (Q := fun _ (k : Kernel) => NekOS.Housed strict k.tm k.phys own ∧
    PageTable.virtToPhys k.phys dstRoot (wrap (userDst + i)) = some dstPa) ?_ fun b =>
      writeAt_spec b hroot (havoid i hi)
  intro k hk k'
  refine ⟨fun b h => ?_, fun h => ?_⟩
  · obtain ⟨-, rfl⟩ := readAt_cases h
    exact hk
  · obtain ⟨hnone, -⟩ := readAt_cases h
    simp at hnone

end Buffers

end Kernel

end NekOS
