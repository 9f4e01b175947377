import NekOS.AddressSpace.Isolation

/-!
# Operations that end

A program on physical memory that frees no tables always ends, whatever is in memory.  Freeing
tables ends for a task that is housed, so scheduling and reaping end as long as all tasks are.
-/

namespace NekOS

open Fallible

/-! ### Programs on memory -/

/-- Allocation ends. -/
lemma finishes_allocPage (ph : Phys) : Finishes allocPage ph := by
  cases h : ph.page.alloc with
  | none => exact ⟨_, by rw [allocPage, h]⟩
  | some r => exact ⟨_, by rw [allocPage, h]⟩

namespace PageTable

/-- A new table is made or not. -/
lemma finishes_create (ph : Phys) : Finishes create ph := by
  unfold create
  refine (finishes_allocPage ph).bind fun _ _ _ => ?_
  exact (Finishes.modify _).bind fun _ _ _ => Finishes.pure _

/-- One level of a walk ends. -/
lemma finishes_descend (alloc : Bool) (pt : ℕ) (idx : Fin 512) (ph : Phys) :
    Finishes (descend alloc pt idx) ph := by
  unfold descend
  refine (Finishes.gets _).bind fun pte t _ => Finishes.ite (fun _ => ?_) fun _ =>
    Finishes.ite (fun _ => Finishes.fail) fun _ => Finishes.pure _
  refine Finishes.ite (fun _ => ?_) fun _ => Finishes.fail
  refine (finishes_create t).bind fun _ _ _ => ?_
  exact (Finishes.modify _).bind fun _ _ _ => Finishes.pure _

/-- A walk ends. -/
lemma finishes_walk (pt va : ℕ) (alloc : Bool) (ph : Phys) : Finishes (walk pt va alloc) ph := by
  unfold walk
  refine (finishes_descend ..).bind fun _ _ _ => ?_
  exact (finishes_descend ..).bind fun _ _ _ => Finishes.pure _

/-- Mapping pages ends. -/
lemma finishes_map (pt va pa size flags : ℕ) (ph : Phys) :
    Finishes (map pt va pa size flags) ph := by
  unfold map
  refine Finishes.ite (fun _ => Finishes.fail) fun _ => Finishes.forRange fun i s => ?_
  unfold mapPage
  refine (finishes_walk ..).bind fun slot _ _ => (Finishes.gets _).bind fun _ _ _ => ?_
  exact Finishes.ite (fun _ => Finishes.fail) fun _ => Finishes.modify _

/-- Unmapping pages ends. -/
lemma finishes_unmap (pt va size : ℕ) (freePage : Bool) (ph : Phys) :
    Finishes (unmap pt va size freePage) ph := by
  unfold unmap
  refine Finishes.ite (fun _ => Finishes.fail) fun _ => Finishes.forRange fun i s => ?_
  unfold unmapPage
  refine (finishes_walk ..).bind fun slot _ _ => (Finishes.gets _).bind fun _ _ _ => ?_
  refine Finishes.ite (fun _ => Finishes.pure _) fun _ => Finishes.ite (fun _ => ?_) fun _ =>
    Finishes.modify _
  exact (Finishes.modify _).bind fun _ _ _ => Finishes.modify _

end PageTable

/-- The mappings of the kernel are made or not. -/
lemma finishes_mapKernel (pt : ℕ) (ph : Phys) : Finishes (Vm.mapKernel pt) ph := by
  unfold Vm.mapKernel
  refine (PageTable.finishes_map ..).bind fun _ _ _ => ?_
  refine (PageTable.finishes_map ..).bind fun _ _ _ => ?_
  unfold Vm.mapPlic
  exact Finishes.forEach (I := fun _ => True) (fun _ _ _ => PageTable.finishes_map ..)
    (fun _ _ _ _ => ⟨fun _ _ => trivial, fun _ => trivial⟩) trivial

namespace Kernel

open TaskManager

/-- Copying the pages of a range ends. -/
lemma finishes_forkRange (required : Bool) (parentPt childPt start stop : ℕ) (ph : Phys) :
    Finishes (forkRange required parentPt childPt start stop) ph := by
  unfold forkRange
  refine Finishes.forRange fun i s => (Finishes.gets _).bind fun pte t _ => ?_
  cases pte with
  | none => exact Finishes.ite (fun _ => Finishes.fail) fun _ => Finishes.pure _
  | some pte =>
    unfold forkPage
    exact (finishes_allocPage t).bind fun _ _ _ => (Finishes.modify _).bind fun _ _ _ =>
      PageTable.finishes_map ..

/-- Building the address space of a child ends. -/
lemma finishes_forkSpace (parent : Task) (ph : Phys) : Finishes (forkSpace parent) ph := by
  unfold forkSpace
  refine (finishes_allocPage _).bind fun _ _ _ => (finishes_allocPage _).bind fun _ _ _ => ?_
  refine (PageTable.finishes_create _).bind fun _ _ _ => ?_
  refine (finishes_mapKernel ..).bind fun _ _ _ => ?_
  refine (finishes_forkRange ..).bind fun _ _ _ => (Finishes.ofOption _).bind fun _ _ _ => ?_
  refine (finishes_forkRange ..).bind fun _ _ _ => (Finishes.modify _).bind fun _ _ _ => ?_
  exact (PageTable.finishes_map ..).bind fun _ _ _ => Finishes.pure _

/-- Undoing a growth of the heap ends. -/
lemma finishes_undoGrow (pagetable oldMappedEnd i : ℕ) (ph : Phys) :
    Finishes (undoGrow pagetable oldMappedEnd i) ph := by
  unfold undoGrow
  refine Finishes.ite (fun _ => ?_) fun _ => Finishes.fail
  exact (Finishes.attempt (PageTable.finishes_unmap ..)).bind fun _ _ _ => Finishes.fail

/-- Resizing the heap ends. -/
lemma finishes_resizeHeap (pagetable oldMappedEnd newMappedEnd : ℕ) (ph : Phys) :
    Finishes (resizeHeap pagetable oldMappedEnd newMappedEnd) ph := by
  unfold resizeHeap
  refine Finishes.ite (fun _ => Finishes.forRange fun i s => ?_) fun _ =>
    Finishes.ite (fun _ => PageTable.finishes_unmap ..) fun _ => Finishes.pure _
  unfold growPage
  refine (Finishes.attempt (finishes_allocPage s)).bind fun page t _ => ?_
  cases page with
  | none => exact finishes_undoGrow ..
  | some page =>
    refine (Finishes.modify _).bind fun _ _ _ => (Finishes.attempt (PageTable.finishes_map ..)).bind
      fun done _ _ => ?_
    cases done with
    | none => exact (Finishes.modify _).bind fun _ _ _ => finishes_undoGrow ..
    | some _ => exact Finishes.pure _

/-! ### Byte loops -/

/-- A translation ends. -/
lemma finishes_translate (root va : ℕ) (k : Kernel) : Finishes (translate root va) k :=
  ⟨_, translate_apply root va k⟩

/-- Staging bytes ends. -/
lemma finishes_memCopyFromUser (root : ℕ) (e : Fin maxEndpoints) (userSrc len : ℕ) (k : Kernel) :
    Finishes (memCopyFromUser root e userSrc len) k := by
  unfold memCopyFromUser
  refine Finishes.forRange fun i s => (finishes_translate ..).bind fun pa _ _ => ?_
  refine Finishes.bind ?_ fun _ _ _ => Finishes.modify _
  exact (Finishes.modify _).bind fun _ _ _ => Finishes.gets _

/-- Copying staged bytes ends. -/
lemma finishes_memCopyToUser (root userDst : ℕ) (src : ℕ → UInt8) (len : ℕ) (k : Kernel) :
    Finishes (memCopyToUser root userDst src len) k := by
  unfold memCopyToUser
  exact Finishes.forRange fun i s => (finishes_translate ..).bind fun pa _ _ => Finishes.modify _

/-- Copying bytes from one address space to another ends. -/
lemma finishes_copyUserToUser (srcRoot userSrc dstRoot userDst len : ℕ) (k : Kernel) :
    Finishes (copyUserToUser srcRoot userSrc dstRoot userDst len) k := by
  unfold copyUserToUser
  refine Finishes.forRange fun i s => (finishes_translate ..).bind fun _ _ _ =>
    (finishes_translate ..).bind fun _ _ _ => ?_
  refine Finishes.bind ?_ fun _ _ _ => Finishes.modify _
  exact (Finishes.modify _).bind fun _ _ _ => Finishes.gets _

/-! ### Reaping and scheduling -/

variable {strict : Bool} {k : Kernel}

/-- A program on memory ends in the kernel when it does on memory. -/
lemma finishes_onPhys {α : Type} {f : Fallible Phys α} (h : Finishes f k.phys) :
    Finishes (onPhys f) k :=
  Finishes.zoom h

/-- A task that is housed can be freed. -/
lemma Housed.finishes_freeTask (h : k.Housed strict) {i : Fin maxTasks} {t : Task}
    (ht : k.tm.tasks i = some t) : Finishes (Kernel.freeTask t) k.phys := by
  obtain ⟨own, h⟩ := h
  obtain ⟨ph, -, hfree, -⟩ := (h.home i t ht).vacate h.spaces false
  rw [freeTaskWith_false] at hfree
  exact ⟨_, hfree⟩

/-- Reaping a slot ends. -/
lemma Housed.finishes_reapSlot (h : k.Housed strict) (i : Fin maxTasks) :
    Finishes (Kernel.reapSlot i) k := by
  unfold Kernel.reapSlot
  rw [Finishes, readTm_bind]
  cases ht : k.tm.tasks i with
  | none => exact ⟨_, rfl⟩
  | some t =>
    refine Finishes.ite (fun _ => ?_) fun _ => Finishes.pure _
    rw [Finishes, onTm_bind]
    exact finishes_onPhys (k := { k with tm := k.tm.setTask i none }) (h.finishes_freeTask ht)

/-- Scheduling ends, without an error. -/
lemma Housed.schedule_returns (h : k.Housed strict) (tf : TrapFrame) :
    ∃ next k', Kernel.schedule tf k = some (some next, k') := by
  refine Finishes.returns ?_ noFail_schedule
  unfold Kernel.schedule reapDetachedZombies
  refine (Finishes.forEach (I := Housed strict) (fun i _ hk => hk.finishes_reapSlot i) ?_ h).bind ?_
  · exact fun i _ hk k' => ⟨fun _ => Housed.reapSlot hk, Housed.reapSlot hk⟩
  · exact fun _ _ _ => ⟨_, rfl⟩

/-- What follows scheduling, when all tasks are housed. -/
lemma Housed.finishes_schedule_bind {α : Type} (h : k.Housed strict) {tf : TrapFrame}
    {g : FramePtr → Fallible Kernel α} (hg : ∀ next k', Finishes (g next) k') :
    Finishes (Kernel.schedule tf >>= g) k := by
  obtain ⟨next, k', hrun⟩ := h.schedule_returns tf
  exact Finishes.bind ⟨_, hrun⟩ fun a t _ => hg a t

/-- What follows a look at the task manager. -/
lemma finishes_readTm_bind {α : Type} {g : TaskManager → Fallible Kernel α} :
    Finishes (readTm >>= g) k ↔ Finishes (g k.tm) k := Iff.rfl

/-- What follows a change of the task manager. -/
lemma finishes_onTm_bind {α : Type} {f : TaskManager → TaskManager} {g : Unit → Fallible Kernel α} :
    Finishes (onTm f >>= g) k ↔ Finishes (g ()) { k with tm := f k.tm } := Iff.rfl

end Kernel

end NekOS
