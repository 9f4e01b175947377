import NekOS.Kernel.Task

/-!
# What the task operations do

One lemma for each operation of the scheduler: how it can end and, in each case, the state it
leaves.  The task manager is described exactly; what happens to physical memory is described by
the program on physical memory that ran.
-/

namespace NekOS

namespace TaskManager

/-- The task table after the detached zombies in some slots have been removed. -/
def reapedAt (slots : List (Fin maxTasks)) (m : TaskManager) : TaskManager :=
  { m with tasks := fun i =>
      if i ∈ slots then (m.tasks i).filter fun t => !detached m.currentPid t else m.tasks i }

/-- The task manager after `reap_detached_zombies`. -/
def reaped (m : TaskManager) : TaskManager :=
  { m with tasks := fun i => (m.tasks i).filter fun t => !detached m.currentPid t }

/-- The slot that `schedule` chooses. -/
def scheduled (tf : TrapFrame) (m : TaskManager) : FramePtr :=
  (m.reaped.preempt tf).choose (m.reaped.preempt tf).visitOrder

/-- The task manager after `schedule`. -/
def resched (tf : TrapFrame) (m : TaskManager) : TaskManager :=
  (m.reaped.preempt tf).runChosen (m.scheduled tf)

/-- An update that changes no endpoint changes nothing. -/
lemma updateEndpoint_of_id {f : Endpoint → Endpoint} (e : Fin maxEndpoints) (m : TaskManager)
    (h : ∀ ep, f ep = ep) : m.updateEndpoint e f = m := by
  have hf : f = id := funext h
  simp [updateEndpoint, hf]

/-- Two updates of an endpoint. -/
@[simp] lemma updateEndpoint_updateEndpoint (e : Fin maxEndpoints) (f g : Endpoint → Endpoint)
    (m : TaskManager) :
    (m.updateEndpoint e f).updateEndpoint e g = m.updateEndpoint e fun ep => g (f ep) := by
  simp [updateEndpoint, Option.map_map, Function.comp_def]

/-- Visiting all slots removes all detached zombies. -/
lemma reapedAt_finRange (m : TaskManager) : m.reapedAt (List.finRange maxTasks) = m.reaped := by
  simp [reapedAt, reaped]

/-- Visiting no slot changes nothing. -/
lemma reapedAt_nil (m : TaskManager) : m.reapedAt [] = m := by
  simp [reapedAt]

/-- Visiting a slot and then others. -/
lemma reapedAt_cons (m : TaskManager) (i : Fin maxTasks) (slots : List (Fin maxTasks)) :
    m.reapedAt (i :: slots) = (m.reapedAt [i]).reapedAt slots := by
  have htasks : (m.reapedAt (i :: slots)).tasks = ((m.reapedAt [i]).reapedAt slots).tasks := by
    funext j
    by_cases hj : j = i <;> by_cases hmem : j ∈ slots <;>
      simp [reapedAt, hj, hmem, Option.filter_filter]
  exact congrArg (fun t => { m with tasks := t }) htasks

/-- A slot that holds no detached zombie is left alone. -/
lemma reapedAt_singleton_of_not {m : TaskManager} {i : Fin maxTasks}
    (h : ∀ t, m.tasks i = some t → detached m.currentPid t = false) : m.reapedAt [i] = m := by
  have htasks : (m.reapedAt [i]).tasks = m.tasks := by
    funext j
    by_cases hj : j = i
    · subst hj
      cases ht : m.tasks j with
      | none => simp [reapedAt, ht]
      | some t => simp [reapedAt, ht, h t ht]
    · simp [reapedAt, hj]
  exact congrArg (fun t => { m with tasks := t }) htasks

/-- A detached zombie is removed. -/
lemma reapedAt_singleton_of_detached {m : TaskManager} {i : Fin maxTasks} {t : Task}
    (ht : m.tasks i = some t) (h : detached m.currentPid t = true) :
    m.reapedAt [i] = m.setTask i none := by
  have htasks : (m.reapedAt [i]).tasks = (m.setTask i none).tasks := by
    funext j
    by_cases hj : j = i
    · subst hj
      simp [reapedAt, setTask, ht, h]
    · simp [reapedAt, setTask, hj, Slots.set_of_ne hj]
  exact congrArg (fun t => { m with tasks := t }) htasks

end TaskManager

namespace Kernel

open TaskManager

/-- Reading the task manager. -/
@[simp] lemma readTm_bind {α : Type} (g : TaskManager → Fallible Kernel α) (k : Kernel) :
    (readTm >>= g) k = g k.tm k := rfl

/-- Changing the task manager. -/
@[simp] lemma onTm_bind {α : Type} (f : TaskManager → TaskManager) (g : Unit → Fallible Kernel α)
    (k : Kernel) : (onTm f >>= g) k = g () { k with tm := f k.tm } := rfl

/-- Changing the task manager. -/
@[simp] lemma onTm_apply (f : TaskManager → TaskManager) (k : Kernel) :
    onTm f k = some (some (), { k with tm := f k.tm }) := rfl

/-- A program on physical memory changes nothing else. -/
lemma onPhys_eq_some {α : Type} {f : Fallible Phys α} {k k' : Kernel} {o : Option α} :
    onPhys f k = some (o, k') ↔ ∃ ph, f k.phys = some (o, ph) ∧ k' = { k with phys := ph } := by
  simp only [onPhys, Fallible.zoom_apply, Option.map_eq_some_iff, Prod.exists, Prod.mk.injEq]
  constructor
  · rintro ⟨_, ph, h, rfl, rfl⟩
    exact ⟨ph, h, rfl⟩
  · rintro ⟨ph, h, rfl⟩
    exact ⟨o, ph, h, rfl, rfl⟩

/-- What follows a program on physical memory. -/
lemma onPhys_bind {α β : Type} (f : Fallible Phys α) (g : α → Fallible Kernel β) (k : Kernel) :
    (onPhys f >>= g) k = match f k.phys with
      | some (some a, ph) => g a { k with phys := ph }
      | some (none, ph) => some (none, { k with phys := ph })
      | none => none := by
  rw [Fallible.bind_apply, onPhys, Fallible.zoom_apply]
  rcases f k.phys with _ | ⟨_ | a, ph⟩ <;> rfl

/-! ### Teardown -/

/-- Freeing a range of pages is no error. -/
lemma noFail_freeUserRange (pagetable start stop : ℕ) :
    Fallible.NoFail (freeUserRange pagetable start stop) :=
  Fallible.NoFail.forRange fun _ => Fallible.NoFail.modify _

/-- Freeing the tables below a table is no error. -/
lemma noFail_freeWalk (depth pt : ℕ) : Fallible.NoFail (PageTable.freeWalk depth pt) := by
  induction depth generalizing pt with
  | zero => exact Fallible.NoFail.halt
  | succ depth ih =>
    rw [PageTable.freeWalk]
    refine Fallible.NoFail.forEach fun i => ?_
    apply Fallible.NoFail.bind
    · exact Fallible.NoFail.gets _
    · intro pte
      exact Fallible.NoFail.ite (Fallible.NoFail.bind (ih _) fun _ => Fallible.NoFail.modify _)
        (Fallible.NoFail.pure _)

/-- `free_user_space` is no error. -/
lemma noFail_freeUserSpace (pagetable userStack imageBase imageSize heapBase heapEnd : ℕ) :
    Fallible.NoFail
      (freeUserSpace pagetable userStack imageBase imageSize heapBase heapEnd) := by
  have hfree : Fallible.NoFail (PageTable.free pagetable) :=
    Fallible.NoFail.bind (noFail_freeWalk _ _) fun _ => Fallible.NoFail.modify _
  refine Fallible.NoFail.bind (noFail_freeUserRange _ _ _) fun _ =>
    Fallible.NoFail.bind (noFail_freeUserRange _ _ _) fun _ => ?_
  split
  · exact Fallible.NoFail.bind (Fallible.NoFail.modify _) fun _ => hfree
  · exact hfree

/-- `free_task` is no error. -/
lemma noFail_freeTask (t : Task) : Fallible.NoFail (freeTask t) :=
  Fallible.NoFail.bind (noFail_freeUserSpace _ _ _ _ _ _) fun _ => Fallible.NoFail.modify _

/-! ### Scheduling -/

/-- One iteration of `reap_detached_zombies` either leaves everything alone or frees the detached
zombie in the slot. -/
lemma reapSlot_cases {i : Fin maxTasks} {k k' : Kernel} {o : Option Unit}
    (h : reapSlot i k = some (o, k')) :
    o = some () ∧ ∃ ph, k' = { k with tm := k.tm.reapedAt [i], phys := ph } ∧
      (ph = k.phys ∨ ∃ t, k.tm.tasks i = some t ∧ detached k.tm.currentPid t = true ∧
        freeTask t k.phys = some (some (), ph)) := by
  simp only [reapSlot, readTm_bind] at h
  cases ht : k.tm.tasks i with
  | none =>
    rw [ht] at h
    obtain ⟨rfl, rfl⟩ : some () = o ∧ k = k' := by simpa using h
    refine ⟨rfl, k.phys, ?_, Or.inl rfl⟩
    rw [reapedAt_singleton_of_not fun t e => by rw [ht] at e; simp at e]
  | some t =>
    rw [ht] at h
    by_cases hd : detached k.tm.currentPid t = true
    · simp only [hd, if_true, onTm_bind] at h
      obtain ⟨ph, hfree, rfl⟩ := onPhys_eq_some.mp h
      cases o with
      | none => exact absurd hfree (noFail_freeTask t _ _)
      | some u =>
        refine ⟨rfl, ph, ?_, Or.inr ⟨t, rfl, hd, hfree⟩⟩
        rw [reapedAt_singleton_of_detached ht hd]
    · simp only [hd] at h
      obtain ⟨rfl, rfl⟩ : some () = o ∧ k = k' := by simpa using h
      refine ⟨rfl, k.phys, ?_, Or.inl rfl⟩
      rw [reapedAt_singleton_of_not]
      intro u e
      rw [ht, Option.some.injEq] at e
      subst e
      simpa using hd

/-- The loop of `reap_detached_zombies` removes the detached zombies of the visited slots. -/
lemma reapSlots_cases {slots : List (Fin maxTasks)} {k k' : Kernel} {o : Option Unit}
    (h : Fallible.forEach slots reapSlot k = some (o, k')) :
    o = some () ∧
      ∃ ph, k' = { k with tm := k.tm.reapedAt slots, phys := ph } := by
  induction slots generalizing k with
  | nil =>
    obtain ⟨rfl, rfl⟩ : some () = o ∧ k = k' := by simpa using h
    exact ⟨rfl, k.phys, by rw [reapedAt_nil]⟩
  | cons i slots ih =>
    rw [Fallible.forEach_cons, Fallible.bind_eq_iff] at h
    rcases h with ⟨rfl, h⟩ | ⟨u, k₁, h₁, h₂⟩
    · have := (reapSlot_cases h).1
      simp at this
    · obtain ⟨-, ph₁, rfl, -⟩ := reapSlot_cases h₁
      obtain ⟨ho, ph₂, rfl⟩ := ih h₂
      exact ⟨ho, ph₂, by rw [reapedAt_cons k.tm i slots]⟩

/-- `reap_detached_zombies` removes the detached zombies from the task table. -/
lemma reapDetachedZombies_cases {k k' : Kernel} {o : Option Unit}
    (h : reapDetachedZombies k = some (o, k')) :
    o = some () ∧ ∃ ph, k' = { k with tm := k.tm.reaped, phys := ph } := by
  rw [← reapedAt_finRange]
  exact reapSlots_cases h

/-- `schedule` ends without an error, with the slot it has chosen. -/
lemma schedule_cases {tf : TrapFrame} {k k' : Kernel} {o : Option FramePtr}
    (h : schedule tf k = some (o, k')) :
    o = some (k.tm.scheduled tf) ∧ ∃ ph,
      reapDetachedZombies k =
        some (some (), { k with tm := k.tm.reaped, phys := ph }) ∧
      k' = { k with tm := k.tm.resched tf, phys := ph } := by
  rw [schedule, Fallible.bind_eq_iff] at h
  rcases h with ⟨rfl, h⟩ | ⟨u, k₁, h₁, h₂⟩
  · have := (reapDetachedZombies_cases h).1
    simp at this
  · obtain ⟨-, ph, rfl⟩ := reapDetachedZombies_cases h₁
    simp only [onTm_bind, readTm_bind, Fallible.pure_apply, Option.some.injEq, Prod.mk.injEq] at h₂
    obtain ⟨rfl, rfl⟩ := h₂
    exact ⟨rfl, ph, h₁, rfl⟩

/-- Without detached zombies there is nothing to reap. -/
lemma reapDetachedZombies_quiet {k : Kernel}
    (h : ∀ i t, k.tm.tasks i = some t → detached k.tm.currentPid t = false) :
    reapDetachedZombies k = some (some (), k) := by
  rw [reapDetachedZombies]
  generalize List.finRange maxTasks = slots
  induction slots with
  | nil => rfl
  | cons i slots ih =>
    rw [Fallible.forEach_cons, Fallible.bind_of_some (a := ()) ?_]
    · exact ih
    · rw [reapSlot, readTm_bind]
      cases ht : k.tm.tasks i with
      | none => rfl
      | some t =>
        dsimp only
        rw [h i t ht]
        rfl

/-- Without detached zombies `schedule` saves the frame and runs the chosen slot. -/
lemma schedule_quiet {tf : TrapFrame} {k : Kernel} {j : Fin maxTasks}
    (h : ∀ i t, k.tm.tasks i = some t → detached k.tm.currentPid t = false)
    (hj : (k.tm.preempt tf).choose (k.tm.preempt tf).visitOrder = some j) :
    schedule tf k = some (some (some j), { k with tm := (k.tm.preempt tf).runSlot j }) := by
  rw [schedule, Fallible.bind_of_some (reapDetachedZombies_quiet h), onTm_bind, readTm_bind]
  dsimp only
  rw [hj]
  rfl

/-- `schedule` is no error. -/
lemma noFail_schedule {tf : TrapFrame} : Fallible.NoFail (schedule tf) := fun _ _ h => by
  have := (schedule_cases h).1
  simp at this

/-! ### Creating tasks -/

/-- A program on physical memory that is no error, on the kernel. -/
lemma noFail_onPhys {α : Type} {f : Fallible Phys α} (h : Fallible.NoFail f) :
    Fallible.NoFail (onPhys f) := fun _ _ e => by
  obtain ⟨_, e, -⟩ := onPhys_eq_some.mp e
  exact h _ _ e

/-- `create_user_image` either fails and leaves the task manager alone, or registers a task in the
first free slot. -/
lemma createUserImage_cases {pagetable userStack entry imageBase imageSize : ℕ} {k k' : Kernel}
    {o : Option ℕ}
    (h : createUserImage pagetable userStack entry imageBase imageSize k = some (o, k')) :
    (o = none ∧ ∃ ph, k' = { k with phys := ph } ∧ (ph = k.phys ∨
      imageBase + imageSize < 2 ^ 64 ∧
      freeUserSpace pagetable userStack imageBase imageSize (imageBase + imageSize)
        (imageBase + imageSize) k.phys = some (some (), ph))) ∨
    (o = some k.tm.nextPid ∧ imageBase + imageSize ≤ heapLimit ∧
      (imageBase + imageSize) % pageSize = 0 ∧ ∃ slot kernelStack ph,
        k.tm.tasks.firstFree = some slot ∧ allocPage k.phys = some (some kernelStack, ph) ∧
        k' = { k with
          tm := k.tm.bumpPid.incRunnable.setTask slot
            (some (imageTask k.tm pagetable userStack entry imageBase imageSize
              (imageBase + imageSize) kernelStack))
          phys := ph }) := by
  rcases Fallible.ofOption_bind_cases h with ⟨-, rfl, rfl⟩ | ⟨heapBase, hbase, h⟩
  · exact Or.inl ⟨rfl, k'.phys, rfl, Or.inl rfl⟩
  obtain ⟨hlt, rfl⟩ := checkedAdd_eq_some.mp hbase
  have hreject : ∀ h : (onPhys (freeUserSpace pagetable userStack imageBase imageSize
      (imageBase + imageSize) (imageBase + imageSize)) >>= fun _ =>
        (Fallible.fail : Fallible Kernel ℕ)) k = some (o, k'),
      o = none ∧ ∃ ph, k' = { k with phys := ph } ∧ (ph = k.phys ∨
        imageBase + imageSize < 2 ^ 64 ∧
        freeUserSpace pagetable userStack imageBase imageSize (imageBase + imageSize)
          (imageBase + imageSize) k.phys = some (some (), ph)) := by
    intro h
    obtain ⟨u, k₁, h₁, h₂⟩ := (noFail_onPhys (noFail_freeUserSpace _ _ _ _ _ _)).bind_cases h
    obtain ⟨ph, hfree, rfl⟩ := onPhys_eq_some.mp h₁
    obtain ⟨rfl, rfl⟩ : none = o ∧ { k with phys := ph } = k' := by simpa using h₂
    exact ⟨rfl, ph, rfl, Or.inr ⟨hlt, hfree⟩⟩
  by_cases hlimit : heapLimit < imageBase + imageSize ∨ (imageBase + imageSize) % pageSize ≠ 0
  · rw [if_pos hlimit] at h
    exact Or.inl (hreject h)
  rw [if_neg hlimit, readTm_bind] at h
  rw [not_or, not_lt, not_not] at hlimit
  cases hslot : k.tm.tasks.firstFree with
  | none =>
    simp only [hslot] at h
    exact Or.inl (hreject h)
  | some slot =>
    simp only [hslot, Fallible.attempt_bind, Option.bind_eq_some_iff] at h
    obtain ⟨⟨r, k₁⟩, hr, h⟩ := h
    obtain ⟨ph, halloc, rfl⟩ := onPhys_eq_some.mp hr
    cases r with
    | none =>
      obtain rfl := allocPage_eq_none halloc
      exact Or.inl (hreject h)
    | some kernelStack =>
      obtain ⟨rfl, rfl⟩ := by simpa using h
      exact Or.inr ⟨rfl, hlimit.1, hlimit.2, slot, kernelStack, ph, rfl, halloc, rfl⟩

/-- `fork` finds no user task to fork and changes nothing, or fails when it builds the address space
of the child and leaves the task manager alone, or fails for want of a slot after taking a pid,
or registers a child in the first free slot. -/
lemma fork_cases {tf : TrapFrame} {k k' : Kernel} {o : Option ℕ} (h : fork tf k = some (o, k')) :
    (o = none ∧ k' = k ∧ (k.tm.currentPid = some idlePid ∨ k.tm.current = none)) ∨
    (k.tm.currentPid ≠ some idlePid ∧ ∃ parent child ph, k.tm.current = some parent ∧
      forkSpace parent k.phys = some (child, ph) ∧
      ((o = none ∧ child = none ∧ k' = { k with phys := ph }) ∨
       (o = none ∧ child.isSome ∧ k.tm.tasks.firstFree = none ∧
        k' = { k with tm := k.tm.bumpPid, phys := ph }) ∨
       (o = some k.tm.nextPid ∧ ∃ space slot, child = some space ∧
        k.tm.tasks.firstFree = some slot ∧
        k' = { k with
          tm := (k.tm.bumpPid.setTask slot (some (childTask k.tm parent space tf))).incRunnable
          phys := ph }))) := by
  rw [fork, readTm_bind] at h
  rcases Fallible.guard_cases h with ⟨hidle, rfl, rfl⟩ | ⟨hidle, h⟩
  · exact Or.inl ⟨rfl, rfl, Or.inl hidle⟩
  rcases Fallible.ofOption_bind_cases h with ⟨hnone, rfl, rfl⟩ | ⟨parent, hparent, h⟩
  · exact Or.inl ⟨rfl, rfl, Or.inr hnone⟩
  refine Or.inr ⟨hidle, parent, ?_⟩
  rcases Fallible.bind_eq_iff.mp h with ⟨rfl, h₁⟩ | ⟨child, k₁, h₁, h⟩
  · obtain ⟨ph, hspace, rfl⟩ := onPhys_eq_some.mp h₁
    exact ⟨none, ph, hparent, hspace, Or.inl ⟨rfl, rfl, rfl⟩⟩
  obtain ⟨ph, hspace, rfl⟩ := onPhys_eq_some.mp h₁
  refine ⟨some child, ph, hparent, hspace, Or.inr ?_⟩
  rw [onTm_bind] at h
  rcases Fallible.ofOption_bind_cases h with ⟨hslot, rfl, rfl⟩ | ⟨slot, hslot, h⟩
  · exact Or.inl ⟨rfl, rfl, hslot, rfl⟩
  · obtain ⟨rfl, rfl⟩ := by simpa using h
    exact Or.inr ⟨rfl, child, slot, rfl, hslot, rfl⟩

/-! ### Exec and sbrk -/

/-- `replace_current` fails and changes nothing, or gives the current task the new address space
and frees the old one. -/
lemma replaceCurrent_cases {pagetable userStack entry imageBase imageSize : ℕ} {tf : TrapFrame}
    {k k' : Kernel} {o : Option TrapFrame}
    (h : replaceCurrent pagetable userStack entry imageBase imageSize tf k = some (o, k')) :
    (o = none ∧ k' = k) ∨
    (o = some { tf with sp := userStackTop, sepc := entry, a0 := 0, a1 := 0, a2 := 0 } ∧
      imageBase + imageSize ≤ heapLimit ∧ (imageBase + imageSize) % pageSize = 0 ∧
      ∃ i old ph, k.tm.currentIndex = some i ∧ k.tm.tasks i = some old ∧
        freeUserSpace old.pagetable old.userStack old.imageBase old.imageSize old.heapBase
          old.heapEnd k.phys = some (some (), ph) ∧
        k' = { k with
          tm := k.tm.updateTask i fun t =>
            { t with
              pagetable := pagetable
              userStack := userStack
              entry := entry
              imageBase := imageBase
              imageSize := imageSize
              heapBase := imageBase + imageSize
              heapEnd := imageBase + imageSize }
          phys := ph }) := by
  rcases Fallible.ofOption_bind_cases h with ⟨-, rfl, rfl⟩ | ⟨heapBase, hbase, h⟩
  · exact Or.inl ⟨rfl, rfl⟩
  obtain ⟨-, rfl⟩ := checkedAdd_eq_some.mp hbase
  rcases Fallible.guard_cases h with ⟨-, rfl, rfl⟩ | ⟨hlimit, h⟩
  · exact Or.inl ⟨rfl, rfl⟩
  rw [not_or, not_lt, not_not] at hlimit
  rw [readTm_bind] at h
  rcases Fallible.ofOption_bind_cases h with ⟨-, rfl, rfl⟩ | ⟨i, hi, h⟩
  · exact Or.inl ⟨rfl, rfl⟩
  rcases Fallible.ofOption_bind_cases h with ⟨-, rfl, rfl⟩ | ⟨old, hold, h⟩
  · exact Or.inl ⟨rfl, rfl⟩
  rw [onTm_bind] at h
  obtain ⟨u, k₁, h₁, h₂⟩ := (noFail_onPhys (noFail_freeUserSpace _ _ _ _ _ _)).bind_cases h
  obtain ⟨ph, hfree, rfl⟩ := onPhys_eq_some.mp h₁
  obtain ⟨rfl, rfl⟩ := by simpa using h₂
  exact Or.inr ⟨rfl, hlimit.1, hlimit.2, i, old, ph, hi, hold, hfree, rfl⟩

/-- `sbrk` changes the pages of the heap of the current task and, when it succeeds, the end of its
heap. -/
lemma sbrk_cases {increment : ℤ} {k k' : Kernel} {o : Option ℕ}
    (h : sbrk increment k = some (o, k')) :
    (o = none ∧ k' = k) ∨
    (k.tm.currentPid ≠ some idlePid ∧ ∃ i task newEnd oldMappedEnd newMappedEnd r ph,
      k.tm.currentIndex = some i ∧ k.tm.tasks i = some task ∧
      checkedAddSigned task.heapEnd increment = some newEnd ∧
      task.heapBase ≤ newEnd ∧ newEnd ≤ heapLimit ∧ alignUp task.heapEnd = some oldMappedEnd ∧
      alignUp newEnd = some newMappedEnd ∧
      resizeHeap task.pagetable oldMappedEnd newMappedEnd k.phys = some (r, ph) ∧
      ((o = none ∧ r = none ∧ k' = { k with phys := ph }) ∨
       (o = some task.heapEnd ∧ r = some () ∧
        k' = { k with tm := k.tm.updateTask i fun t => { t with heapEnd := newEnd }
                      phys := ph }))) := by
  rw [sbrk, readTm_bind] at h
  rcases Fallible.guard_cases h with ⟨-, rfl, rfl⟩ | ⟨hidle, h⟩
  · exact Or.inl ⟨rfl, rfl⟩
  rcases Fallible.ofOption_bind_cases h with ⟨-, rfl, rfl⟩ | ⟨i, hi, h⟩
  · exact Or.inl ⟨rfl, rfl⟩
  rcases Fallible.ofOption_bind_cases h with ⟨-, rfl, rfl⟩ | ⟨task, htask, h⟩
  · exact Or.inl ⟨rfl, rfl⟩
  rcases Fallible.ofOption_bind_cases h with ⟨-, rfl, rfl⟩ | ⟨newEnd, hnew, h⟩
  · exact Or.inl ⟨rfl, rfl⟩
  rcases Fallible.guard_cases h with ⟨-, rfl, rfl⟩ | ⟨hlimit, h⟩
  · exact Or.inl ⟨rfl, rfl⟩
  rw [not_or, not_lt, not_lt] at hlimit
  rcases Fallible.ofOption_bind_cases h with ⟨-, rfl, rfl⟩ | ⟨oldMappedEnd, hoe, h⟩
  · exact Or.inl ⟨rfl, rfl⟩
  rcases Fallible.ofOption_bind_cases h with ⟨-, rfl, rfl⟩ | ⟨newMappedEnd, hne, h⟩
  · exact Or.inl ⟨rfl, rfl⟩
  refine Or.inr ⟨hidle, i, task, newEnd, oldMappedEnd, newMappedEnd, ?_⟩
  rcases Fallible.bind_eq_iff.mp h with ⟨rfl, h₁⟩ | ⟨u, k₁, h₁, h₂⟩
  · obtain ⟨ph, hresize, rfl⟩ := onPhys_eq_some.mp h₁
    exact ⟨none, ph, hi, htask, hnew, hlimit.1, hlimit.2, hoe, hne, hresize,
      Or.inl ⟨rfl, rfl, rfl⟩⟩
  · obtain ⟨ph, hresize, rfl⟩ := onPhys_eq_some.mp h₁
    obtain ⟨rfl, rfl⟩ := by simpa using h₂
    exact ⟨some (), ph, hi, htask, hnew, hlimit.1, hlimit.2, hoe, hne, hresize,
      Or.inr ⟨rfl, rfl, rfl⟩⟩

/-! ### Waiting and exiting -/

/-- `waitpid` fails and changes nothing, or frees a zombie child, or puts the parent to sleep and
schedules. -/
lemma waitpid_cases {pid : ℕ} {tf : TrapFrame} {k k' : Kernel} {o : Option WaitResult}
    (h : waitpid pid tf k = some (o, k')) :
    (o = none ∧ k' = k) ∨
    (k.tm.currentPid ≠ some idlePid ∧ ∃ parentPid c child, k.tm.currentPid = some parentPid ∧
      k.tm.tasks c = some child ∧ child.pid = pid ∧ child.parentPid = some parentPid ∧
      ((child.state = .zombie ∧ o = some (.reaped child.exitCode) ∧ ∃ ph,
        freeTask child k.phys = some (some (), ph) ∧
        k' = { k with tm := k.tm.setTask c none, phys := ph }) ∨
       (child.state ≠ .zombie ∧ ∃ i next, k.tm.currentIndex = some i ∧
        o = some (.blocked next) ∧
        schedule tf { k with tm := k.tm.block i (.child pid) tf } = some (some next, k')))) := by
  rw [waitpid, readTm_bind] at h
  rcases Fallible.guard_cases h with ⟨-, rfl, rfl⟩ | ⟨hidle, h⟩
  · exact Or.inl ⟨rfl, rfl⟩
  rcases Fallible.ofOption_bind_cases h with ⟨-, rfl, rfl⟩ | ⟨parentPid, hparent, h⟩
  · exact Or.inl ⟨rfl, rfl⟩
  rcases Fallible.ofOption_bind_cases h with ⟨-, rfl, rfl⟩ | ⟨c, hc, h⟩
  · exact Or.inl ⟨rfl, rfl⟩
  obtain ⟨child, hchild, h⟩ := Fallible.unwrap_bind_cases h
  obtain ⟨child', hchild', hprop⟩ := Slots.position_eq_some hc
  obtain rfl : child = child' := by rw [hchild, Option.some.injEq] at hchild'; exact hchild'
  rw [decide_eq_true_eq] at hprop
  by_cases hz : child.state = .zombie
  · rw [if_pos hz, onTm_bind] at h
    obtain ⟨u, k₁, h₁, h₂⟩ := (noFail_onPhys (noFail_freeTask _)).bind_cases h
    obtain ⟨ph, hfree, rfl⟩ := onPhys_eq_some.mp h₁
    obtain ⟨rfl, rfl⟩ := by simpa using h₂
    exact Or.inr ⟨hidle, parentPid, c, child, hparent, hchild, hprop.1, hprop.2,
      Or.inl ⟨hz, rfl, ph, hfree, rfl⟩⟩
  · rw [if_neg hz] at h
    rcases Fallible.ofOption_bind_cases h with ⟨-, rfl, rfl⟩ | ⟨i, hi, h⟩
    · exact Or.inl ⟨rfl, rfl⟩
    rw [onTm_bind] at h
    obtain ⟨next, k₁, h₁, h₂⟩ := noFail_schedule.bind_cases h
    obtain ⟨rfl, rfl⟩ := by simpa using h₂
    exact Or.inr ⟨hidle, parentPid, c, child, hparent, hchild, hprop.1, hprop.2,
      Or.inr ⟨hz, i, next, hi, rfl, h₁⟩⟩

/-- `exit_current` resumes the idle task when that is current.  Otherwise it turns the current task
into a zombie and runs the chosen slot. -/
lemma exitCurrent_cases {code : ℤ} {k k' : Kernel} {o : Option FramePtr}
    (h : exitCurrent code k = some (o, k')) :
    (k.tm.currentPid = some idlePid ∧ k' = k ∧ ∃ i, k.tm.currentIndex = some i ∧
      o = some (some i)) ∨
    (k.tm.currentPid ≠ some idlePid ∧ ∃ next, o = some (some next) ∧
      ({ k.tm.retire code with currentPid := none } : TaskManager).choose
        (List.finRange maxTasks) = some next ∧
      k' = { k with
        tm := ({ k.tm.retire code with currentPid := none } : TaskManager).runSlot next }) := by
  rw [exitCurrent, readTm_bind] at h
  by_cases hidle : k.tm.currentPid = some idlePid
  · rw [if_pos hidle] at h
    obtain ⟨i, hi, h⟩ := Fallible.unwrap_bind_cases h
    obtain ⟨rfl, rfl⟩ := by simpa using h
    exact Or.inl ⟨hidle, rfl, i, hi, rfl⟩
  · rw [if_neg hidle, onTm_bind, readTm_bind] at h
    obtain ⟨next, hnext, h⟩ := Fallible.unwrap_bind_cases h
    obtain ⟨rfl, rfl⟩ := by simpa using h
    exact Or.inr ⟨hidle, next, rfl, hnext, rfl⟩

/-- `wait_uart_irq` fails and changes nothing, or puts the owner of the UART to sleep and
schedules. -/
lemma waitUartIrq_cases {tf : TrapFrame} {k k' : Kernel} {o : Option FramePtr}
    (h : waitUartIrq tf k = some (o, k')) :
    (o = none ∧ k' = k) ∨
    (k.tm.currentPid ≠ some idlePid ∧ k.tm.currentPid = k.tm.uartOwner ∧ ∃ i,
      k.tm.currentIndex = some i ∧
      schedule tf { k with tm := k.tm.block i .uartRx tf } = some (o, k')) := by
  rw [waitUartIrq, readTm_bind] at h
  rcases Fallible.guard_cases h with ⟨-, rfl, rfl⟩ | ⟨hidle, h⟩
  · exact Or.inl ⟨rfl, rfl⟩
  rw [not_or, not_not] at hidle
  rcases Fallible.ofOption_bind_cases h with ⟨-, rfl, rfl⟩ | ⟨i, hi, h⟩
  · exact Or.inl ⟨rfl, rfl⟩
  · exact Or.inr ⟨hidle.1, hidle.2, i, hi, h⟩

end Kernel

end NekOS
