import NekOS.Scheduling.Pids

/-!
# Round robin

`schedule` turns from the task in a slot to the first runnable task in a later slot, in cyclic order.
The task it leaves becomes ready with the frame of the interrupt, the chosen one runs, and the other
tasks stay as they are (`Core.resched_eq`).  So successive calls give every runnable task one turn
before the first one comes again, and each call saves the frame it is given in the task that it
interrupts (`RoundRobin`).
-/

namespace NekOS

/-- The task after `schedule` has turned from slot `i` to slot `j`, when it sits in slot `x`. -/
def Task.turned (i j : Fin maxTasks) (tf : TrapFrame) (x : Fin maxTasks) (t : Task) : Task :=
  { t with
    trapFrame := if x = i then tf else t.trapFrame
    state := if x = j then .running else if x = i then .ready else t.state }

namespace TaskManager

/-- The slots of the ready and running tasks other than the idle task, in cyclic order from the slot
after `i` on. -/
def turns (i : Fin maxTasks) (m : TaskManager) : List (Fin maxTasks) :=
  (Slots.cyclicFrom (i + 1)).filter fun j => (m.tasks j).any Task.runnable

/-- No task waits to be reaped by `schedule`. -/
def Quiet (m : TaskManager) : Prop :=
  ∀ i t, m.tasks i = some t → detached m.currentPid t = false

/-- The saved frame of the task in a slot. -/
def savedFrame (m : TaskManager) (x : Fin maxTasks) : Option TrapFrame :=
  (m.tasks x).map Task.trapFrame

variable {m : TaskManager} {i j x : Fin maxTasks} {tf : TrapFrame}

/-! ### The order of the turns -/

/-- Every runnable task has a turn. -/
lemma mem_turns : j ∈ m.turns i ↔ (m.tasks j).any Task.runnable = true := by
  simp [turns, Slots.mem_cyclicFrom]

/-- No task has two turns. -/
lemma nodup_turns (i : Fin maxTasks) (m : TaskManager) : (m.turns i).Nodup :=
  (Slots.nodup_cyclicFrom _).filter _

/-- There are as many turns as runnable tasks. -/
lemma length_turns (i : Fin maxTasks) (m : TaskManager) :
    (m.turns i).length = m.tasks.count Task.runnable := by
  have hcard : (Finset.univ.filter fun j => (m.tasks j).any Task.runnable = true) =
      (m.turns i).toFinset := by
    ext j
    simp [mem_turns]
  rw [Slots.count, ← Finset.card_filter, hcard, List.toFinset_card_of_nodup (nodup_turns i m)]

/-- The turn of the task in the slot itself comes last. -/
lemma turns_eq (i : Fin maxTasks) (m : TaskManager) : ∃ before, i ∉ before ∧
    m.turns i = before ++ if (m.tasks i).any Task.runnable then [i] else [] := by
  obtain ⟨before, hlast, hi⟩ := Slots.cyclicFrom_succ_last i
  refine ⟨before.filter fun j => (m.tasks j).any Task.runnable, fun h => hi (List.mem_filter.mp h).1, ?_⟩
  rw [turns, hlast, List.filter_append, List.filter_singleton, Bool.cond_eq_ite]

/-- The turns before that of the task in the slot itself. -/
lemma not_mem_take_turns (i : Fin maxTasks) (m : TaskManager) {n : ℕ}
    (hn : n < (m.turns i).length) : i ∉ (m.turns i).take n := by
  obtain ⟨before, hi, hturns⟩ := turns_eq i m
  rw [hturns] at hn ⊢
  have hle : n ≤ before.length := by
    split at hn
    · simpa [Nat.lt_succ_iff] using hn
    · simpa using hn.le
  rw [List.take_append_of_le_length hle]
  exact fun hmem => hi (List.mem_of_mem_take hmem)

/-! ### One call -/

/-- The tasks after one slot has been written. -/
lemma tasks_setTask (m : TaskManager) (i x : Fin maxTasks) (o : Option Task) :
    (m.setTask i o).tasks x = if x = i then o else m.tasks x :=
  Slots.set_apply ..

/-- Without the detached zombies the task in the running slot is still there. -/
lemma reaped_running {a : Task} (ha : m.tasks i = some a) (hrun : a.state = .running) :
    m.reaped.tasks i = some a := by
  simp [TaskManager.reaped, ha, detached, hrun]

/-- What the scheduler leaves of a task that is no detached zombie. -/
lemma reaped_eq_some {t : Task} :
    m.reaped.tasks x = some t ↔ m.tasks x = some t ∧ detached m.currentPid t = false := by
  rw [TaskManager.reaped, Option.filter_eq_some_iff, Bool.not_eq_true']

/-- A runnable task is no zombie. -/
lemma any_runnable_reaped (m : TaskManager) (x : Fin maxTasks) :
    (m.reaped.tasks x).any Task.runnable = (m.tasks x).any Task.runnable := by
  cases hx : m.tasks x with
  | none => simp [TaskManager.reaped, hx]
  | some t =>
    by_cases hd : detached m.currentPid t = true
    · have hz : t.state = .zombie := by
        simp only [detached, Bool.and_eq_true, decide_eq_true_eq] at hd
        exact hd.1.1
      simp [TaskManager.reaped, hx, hd, Task.runnable, hz]
    · simp [TaskManager.reaped, hx, hd]

/-- The tasks after one slot has been updated. -/
lemma tasks_updateTask_apply (m : TaskManager) (i x : Fin maxTasks) (f : Task → Task) :
    (m.updateTask i f).tasks x = if x = i then (m.tasks x).map f else m.tasks x := by
  rw [updateTask, tasks_setTask]
  split
  · rename_i hx
    rw [hx]
  · rfl

/-- A task is left and another one is run. -/
lemma tasks_turned {a : Task} (ha : m.tasks i = some a) (j : Fin maxTasks) (tf : TrapFrame)
    (x : Fin maxTasks) :
    ((m.setTask i (some { a with trapFrame := tf, state := .ready })).updateTask j fun t =>
      { t with state := .running }).tasks x = (m.tasks x).map (Task.turned i j tf x) := by
  rw [tasks_updateTask_apply, tasks_setTask]
  by_cases hxi : x = i
  · subst hxi
    rw [if_pos rfl, ha, Option.map_some, Option.map_some]
    by_cases hxj : x = j
    · simp [Task.turned, hxj]
    · simp [Task.turned, hxj]
  · rw [if_neg hxi]
    by_cases hxj : x = j
    · rw [if_pos hxj]
      refine congrArg (Option.map · _) (funext fun t => ?_)
      simp only [Task.turned, if_neg hxi, if_pos hxj]
    · have hid : Task.turned i j tf x = id := funext fun t => by simp [Task.turned, hxi, hxj]
      rw [if_neg hxj, hid, Option.map_id, id]

/-- After the current task has been preempted the ready tasks are the runnable ones. -/
lemma Core.preempt_eq (hm : Core m) {a : Task} (ha : m.tasks i = some a)
    (hcur : m.currentPid = some a.pid) (hrun : a.state = .running) (tf : TrapFrame) :
    m.reaped.preempt tf = m.reaped.setTask i (some { a with trapFrame := tf, state := .ready }) := by
  have ha' := reaped_running ha hrun
  rw [TaskManager.preempt, hm.reaped.currentIndex_eq ha' hcur]
  dsimp only
  rw [updateTask, ha', Option.map_some, if_pos hrun]

/-- The tasks that the scheduler chooses from. -/
lemma Core.any_selectable (hm : Core m) {a : Task} (ha : m.tasks i = some a)
    (hcur : m.currentPid = some a.pid) (hrun : a.state = .running) (tf : TrapFrame)
    (x : Fin maxTasks) :
    ((m.reaped.preempt tf).tasks x).any selectable = (m.tasks x).any Task.runnable := by
  rw [hm.preempt_eq ha hcur hrun, tasks_setTask, ← any_runnable_reaped]
  by_cases hx : x = i
  · rw [if_pos hx, hx, reaped_running ha hrun]
    simp [selectable, Task.runnable, hrun]
  · rw [if_neg hx]
    cases ht : m.reaped.tasks x with
    | none => rfl
    | some t =>
      have hnot : t.state ≠ .running := fun h =>
        hx (hm.eq_of_running ⟨a, ha, hcur, hrun⟩ (reaped_eq_some.mp ht).1 h)
      simp [selectable, Task.runnable, hnot]

/-- **One turn.**  `schedule` turns from the running slot to the slot whose turn is next, or to the
idle task.  It removes the detached zombies, and changes nothing else than the frame and the state of
the task it leaves and the state of the task it runs. -/
lemma Core.resched_eq (hm : Core m) (hi : m.RunsIn i) (tf : TrapFrame) : ∃ j a,
    j = (m.turns i).headD System.idleSlot ∧ m.reaped.tasks j = some a ∧ m.scheduled tf = some j ∧
      m.resched tf = { m with
        currentPid := some a.pid
        tasks := fun x => (m.reaped.tasks x).map (Task.turned i j tf x) } := by
  obtain ⟨a, ha, hcur, hrun⟩ := hi
  have hpre := hm.preempt_eq ha hcur hrun tf
  have hsel := hm.any_selectable ha hcur hrun tf
  obtain ⟨hcore, hno⟩ := hm.reaped.preempt tf
  have hchoose : (m.reaped.preempt tf).choose (m.reaped.preempt tf).visitOrder =
      some ((m.turns i).headD System.idleSlot) := by
    have hindex : (m.reaped.preempt tf).currentIndex = some i :=
      hcore.currentIndex_eq (t := { a with trapFrame := tf, state := .ready })
        (by rw [hpre, tasks_setTask, if_pos rfl]) (by rw [hpre]; exact hcur)
    have horder : (m.reaped.preempt tf).visitOrder = Slots.cyclicFrom (i + 1) := by
      rw [TaskManager.visitOrder, hindex]
      exact Slots.cyclicFrom_mod _
    have hsearch : (m.reaped.preempt tf).tasks.search (Slots.cyclicFrom (i + 1)) selectable =
        (m.turns i).head? := by
      rw [Slots.search, turns, List.head?_filter]
      exact congrArg (fun p => List.find? p _) (funext hsel)
    obtain ⟨u, hu, hpid, -⟩ := hcore.idle
    have hidle := hcore.findPid_eq hu
    rw [hpid] at hidle
    rw [TaskManager.choose, horder, hsearch, hidle]
    cases m.turns i <;> rfl
  obtain ⟨j, b, hj, hb, hready⟩ := hcore.choose hno (m.reaped.preempt tf).visitOrder
  obtain rfl : j = (m.turns i).headD System.idleSlot := Option.some.inj (hj.symm.trans hchoose)
  generalize (m.turns i).headD System.idleSlot = j at hchoose hb hj
  rw [hpre, tasks_setTask] at hb
  obtain ⟨c, hc, hpid⟩ : ∃ c, m.reaped.tasks j = some c ∧ c.pid = b.pid := by
    split at hb
    · rename_i hji
      obtain rfl := Option.some.inj hb
      exact ⟨a, by rw [hji]; exact reaped_running ha hrun, rfl⟩
    · exact ⟨b, hb, rfl⟩
  refine ⟨j, c, rfl, hc, hchoose, ?_⟩
  have hcurrent : ((m.reaped.setTask i (some { a with trapFrame := tf, state := .ready })).tasks j).map
      Task.pid = some c.pid := by
    rw [tasks_setTask, hb, hpid]
    rfl
  have htasks := tasks_turned (m := m.reaped) (reaped_running ha hrun) j tf
  rw [TaskManager.resched, TaskManager.scheduled, hchoose, hpre]
  dsimp only [TaskManager.runChosen, TaskManager.runSlot]
  rw [hcurrent, funext htasks]
  rfl

/-- The tasks after a call are those that are no detached zombies, turned. -/
lemma Core.tasks_resched_turned (hm : Core m) (hi : m.RunsIn i) {j : Fin maxTasks}
    (hj : m.scheduled tf = some j) (x : Fin maxTasks) :
    (m.resched tf).tasks x = (m.reaped.tasks x).map (Task.turned i j tf x) := by
  obtain ⟨j', a, -, -, hsched, heq⟩ := hm.resched_eq hi tf
  obtain rfl := Option.some.inj (hsched.symm.trans hj)
  rw [heq]

/-- The chosen task runs. -/
lemma Core.runsIn_resched (hm : Core m) {j : Fin maxTasks} (hj : m.scheduled tf = some j) :
    Core (m.resched tf) ∧ (m.resched tf).RunsIn j := by
  obtain ⟨hcore, j', hj', hruns⟩ := hm.resched tf
  obtain rfl := Option.some.inj (hj'.symm.trans hj)
  exact ⟨hcore, hruns⟩

/-- A call keeps the tasks runnable. -/
lemma Core.any_runnable_resched (hm : Core m) (hi : m.RunsIn i) (tf : TrapFrame) (x : Fin maxTasks) :
    ((m.resched tf).tasks x).any Task.runnable = (m.tasks x).any Task.runnable := by
  obtain ⟨j, b, hj, hb, hsched, -⟩ := hm.resched_eq hi tf
  obtain ⟨a, ha, hcur, hrun⟩ := hi
  rw [hm.tasks_resched_turned ⟨a, ha, hcur, hrun⟩ hsched, ← any_runnable_reaped]
  have ha' := reaped_running ha hrun
  by_cases hxi : x = i
  · rw [hxi, ha']
    by_cases hxj : i = j <;> simp [Task.turned, Task.runnable, hxj, hrun]
  cases ht : m.reaped.tasks x with
  | none => rfl
  | some t =>
    by_cases hxj : x = j
    · -- A task that is chosen is runnable, unless it is the idle task.
      rw [hxj, hb, Option.some.injEq] at ht
      subst ht
      have hpid : b.pid = idlePid ∨ b.runnable = true := by
        cases hturns : m.turns i with
        | nil =>
          obtain ⟨u, hu, hidle, -⟩ := hm.idle
          rw [hturns, List.headD_nil] at hj
          rw [hj, reaped_eq_some, hu, Option.some.injEq] at hb
          exact Or.inl (by rw [← hb.1, hidle])
        | cons j' l =>
          rw [hturns, List.headD_cons] at hj
          have hmem := mem_turns.mp (hj ▸ hturns ▸ List.mem_cons_self : j ∈ m.turns i)
          rw [← any_runnable_reaped, hb] at hmem
          exact Or.inr hmem
      simp only [Task.runnable, Bool.and_eq_true, decide_eq_true_eq, Bool.or_eq_true] at hpid
      simp only [Option.map_some, Option.any_some, Task.turned, Task.runnable, hxj, if_true]
      grind
    · simp [Task.turned, Task.runnable, hxj, hxi]

/-- After a call no zombie is left to reap. -/
lemma Core.quiet_resched (hm : Core m) (hi : m.RunsIn i) (tf : TrapFrame) : (m.resched tf).Quiet := by
  obtain ⟨j, b, -, -, hsched, -⟩ := hm.resched_eq hi tf
  intro x t' ht'
  rw [hm.tasks_resched_turned hi hsched, Option.map_eq_some_iff] at ht'
  obtain ⟨t, ht, rfl⟩ := ht'
  obtain ⟨ht, hdetached⟩ := reaped_eq_some.mp ht
  by_contra hd
  rw [Bool.not_eq_false] at hd
  simp only [detached, Bool.and_eq_true, Task.turned] at hd
  have hzombie : t.state = .zombie := by
    have := hd.1.1
    grind
  have hcur : some t.pid ≠ m.currentPid := by
    obtain ⟨a, ha, hcur, hrun⟩ := hi
    rw [hcur]
    intro hpid
    obtain rfl := hm.unique _ _ _ _ ht ha (Option.some.inj hpid)
    rw [ha, Option.some.injEq] at ht
    rw [← ht, hrun] at hzombie
    cases hzombie
  simp [detached, hzombie, hd.1.2, hcur] at hdetached

/-- The next turns after a call. -/
lemma Core.turns_resched (hm : Core m) (hi : m.RunsIn i) (tf : TrapFrame) {j : Fin maxTasks}
    {l : List (Fin maxTasks)} (h : m.turns i = j :: l) :
    m.scheduled tf = some j ∧ (m.resched tf).turns j = l ++ [j] := by
  obtain ⟨j', b, hj, -, hsched, -⟩ := hm.resched_eq hi tf
  rw [h, List.headD_cons] at hj
  subst hj
  refine ⟨hsched, ?_⟩
  obtain ⟨before, after, horder, hbefore, hj, hafter⟩ := List.filter_eq_cons_iff.mp h
  rw [turns, Slots.cyclicFrom_succ horder]
  simp only [hm.any_runnable_resched hi]
  have hnil : before.filter (fun x => (m.tasks x).any Task.runnable) = [] :=
    List.filter_eq_nil_iff.mpr hbefore
  rw [List.filter_append, List.filter_append, hafter, hnil, List.filter_singleton, hj]
  rfl

/-- The frames after a call. -/
lemma Core.savedFrame_resched (hm : Core m) (hi : m.RunsIn i) (tf : TrapFrame) (x : Fin maxTasks) :
    (m.resched tf).savedFrame x = if x = i then some tf else m.reaped.savedFrame x := by
  obtain ⟨j, b, -, -, hsched, -⟩ := hm.resched_eq hi tf
  obtain ⟨a, ha, hcur, hrun⟩ := hi
  rw [savedFrame, savedFrame, hm.tasks_resched_turned ⟨a, ha, hcur, hrun⟩ hsched]
  by_cases hx : x = i
  · subst hx
    rw [reaped_running ha hrun]
    simp [Task.turned]
  · rw [if_neg hx, Option.map_map]
    refine congrArg (Option.map · _) (funext fun t => ?_)
    simp [Task.turned, hx]

/-- Without detached zombies nothing is reaped. -/
lemma Quiet.reaped (h : m.Quiet) : m.reaped = m := by
  have htasks : m.reaped.tasks = m.tasks := funext fun x => by
    cases ht : m.tasks x with
    | none => simp [TaskManager.reaped, ht]
    | some t => exact reaped_eq_some.mpr ⟨ht, h x t ht⟩
  exact congrArg (fun t => { m with tasks := t }) htasks

end TaskManager

/-! ### Successive calls -/

open TaskManager

namespace Kernel

/-- Successive calls of `schedule`, each with the frame of the task it interrupts. -/
def schedules : List TrapFrame → Fallible Kernel (List FramePtr)
  | [] => pure []
  | tf :: tfs => do
    let next ← schedule tf
    let rest ← schedules tfs
    return next :: rest

/-- Round robin from a state in which the task in slot `i` is the current one. -/
structure RoundRobin (k : Kernel) (i : Fin maxTasks) : Prop where
  /-- The tasks that have a turn are those that are ready or running, without the idle task. -/
  mem : ∀ j, j ∈ k.tm.turns i ↔ (k.tm.tasks j).any Task.runnable = true
  /-- Every one of them has one turn. -/
  once : (k.tm.turns i).Nodup
  /-- The calls choose the tasks in turn. -/
  chosen : ∀ tfs o k', tfs.length ≤ (k.tm.turns i).length → schedules tfs k = some (o, k') →
    o = some (((k.tm.turns i).take tfs.length).map some)
  /-- When all have had their turn the current task is the same as before. -/
  back : ∀ tfs o k', tfs.length = (k.tm.turns i).length →
    (k.tm.tasks i).any Task.runnable = true → schedules tfs k = some (o, k') →
      k'.tm.currentPid = k.tm.currentPid
  /-- Each call saves its frame in the task that it interrupts. -/
  saved : ∀ tfs o k', tfs.length ≤ (k.tm.turns i).length → schedules tfs k = some (o, k') →
    ∀ x tf, (x, tf) ∈ (i :: k.tm.turns i).zip tfs → k'.tm.savedFrame x = some tf
  /-- The frames of the other tasks are kept. -/
  kept : ∀ tfs o k', tfs.length ≤ (k.tm.turns i).length → schedules tfs k = some (o, k') →
    ∀ x, x ∉ (i :: k.tm.turns i).take tfs.length → k.tm.reaped.savedFrame x ≠ none →
      k'.tm.savedFrame x = k.tm.savedFrame x
  /-- Apart from frames and states the tasks that are not reaped stay as they are. -/
  same : ∀ tfs o k', tfs.length ≤ (k.tm.turns i).length → schedules tfs k = some (o, k') →
    ∀ x t, k.tm.reaped.tasks x = some t →
      ∃ t', k'.tm.tasks x = some t' ∧ { t' with trapFrame := t.trapFrame, state := t.state } = t
  /-- Without a ready or running task the idle task is chosen. -/
  idle : k.tm.turns i = [] → ∀ tf o k', schedule tf k = some (o, k') →
    o = some (some System.idleSlot)

/-- What successive calls do as long as no task comes twice. -/
structure Turned (k : Kernel) (i : Fin maxTasks) (tfs : List TrapFrame) (o : Option (List FramePtr))
    (k' : Kernel) : Prop where
  chosen : o = some (((k.tm.turns i).take tfs.length).map some)
  runs : ∀ j, (i :: k.tm.turns i)[tfs.length]? = some j → k'.tm.RunsIn j
  saved : ∀ x tf, (x, tf) ∈ (i :: k.tm.turns i).zip tfs → k'.tm.savedFrame x = some tf
  kept : ∀ x, x ∉ (i :: k.tm.turns i).take tfs.length → k.tm.reaped.savedFrame x ≠ none →
    k'.tm.savedFrame x = k.tm.savedFrame x
  same : ∀ x t, k.tm.reaped.tasks x = some t →
    ∃ t', k'.tm.tasks x = some t' ∧ { t' with trapFrame := t.trapFrame, state := t.state } = t

/-- What the reaping leaves keeps its frame. -/
lemma savedFrame_reaped {m : TaskManager} {x : Fin maxTasks} (h : m.reaped.savedFrame x ≠ none) :
    m.reaped.savedFrame x = m.savedFrame x := by
  rw [Ne, TaskManager.savedFrame, Option.map_eq_none_iff] at h
  obtain ⟨t, ht⟩ := Option.ne_none_iff_exists'.mp h
  rw [TaskManager.savedFrame, TaskManager.savedFrame, ht, (reaped_eq_some.mp ht).1]

/-- **Run lemma.**  Successive calls give the tasks their turns. -/
lemma turned_of_schedules {tfs : List TrapFrame} {k k' : Kernel} {i : Fin maxTasks}
    {o : Option (List FramePtr)} (hm : Core k.tm) (hi : k.tm.RunsIn i)
    (hlen : tfs.length ≤ (k.tm.turns i).length) (hrun : schedules tfs k = some (o, k')) :
    Turned k i tfs o k' := by
  induction tfs generalizing k i o with
  | nil =>
    obtain ⟨rfl, rfl⟩ := by simpa [schedules] using hrun
    exact ⟨by simp, fun j hj => by simpa [← Option.some.inj hj] using hi, by simp,
      fun _ _ _ => rfl, fun x t ht => ⟨t, (reaped_eq_some.mp ht).1, rfl⟩⟩
  | cons tf tfs ih =>
    cases hturns : k.tm.turns i with
    | nil => simp [hturns] at hlen
    | cons j l =>
      rw [hturns, List.length_cons, List.length_cons, Nat.succ_le_succ_iff] at hlen
      obtain ⟨hsched, hturns₁⟩ := hm.turns_resched hi tf hturns
      obtain ⟨hcore₁, hruns₁⟩ := hm.runsIn_resched hsched
      obtain ⟨next, k₁, h₁, h₂⟩ := noFail_schedule.bind_cases hrun
      obtain ⟨hnext, ph, -, rfl⟩ := schedule_cases h₁
      obtain rfl : next = some j := by rw [Option.some.inj hnext, hsched]
      have hle : tfs.length ≤ (k.tm.resched tf |>.turns j).length := by
        rw [hturns₁, List.length_append]
        omega
      obtain ⟨rest, hT, rfl⟩ : ∃ rest, Turned { k with tm := k.tm.resched tf, phys := ph } j tfs
          (some rest) k' ∧ o = some (some j :: rest) := by
        rcases Fallible.bind_eq_iff.mp h₂ with ⟨rfl, h₃⟩ | ⟨rest, k₂, h₃, h₄⟩
        · have hchosen := (ih hcore₁ hruns₁ hle h₃).chosen
          simp at hchosen
        · obtain ⟨rfl, rfl⟩ := by simpa using h₄
          exact ⟨rest, ih hcore₁ hruns₁ hle h₃, rfl⟩
      have hquiet := hm.quiet_resched hi tf
      -- The list of turns goes on as before until all have had theirs.
      have htake : ∀ n ≤ l.length + 1, (j :: (l ++ [j])).take n = (j :: l).take n := fun n hn => by
        rw [← List.cons_append, List.take_append_of_le_length (by simpa using hn)]
      obtain ⟨hchosen, hruns, hsaved, hkept, hsame⟩ := hT
      dsimp only at hchosen hruns hsaved hkept hsame
      rw [hturns₁] at hchosen hruns hsaved hkept
      rw [htake _ (by omega)] at hkept
      have hi₁ : i ∉ (j :: l).take tfs.length := by
        rw [← hturns]
        exact not_mem_take_turns i k.tm (by rw [hturns, List.length_cons]; omega)
      have hsaved₁ := hm.savedFrame_resched hi tf
      refine ⟨?_, fun n hn => hruns n ?_, fun x f hx => ?_, fun x hx hne => ?_,
        fun x t ht => ?_⟩
      · rw [hturns, List.length_cons, List.take_succ_cons, List.map_cons, Option.some.inj hchosen,
          List.take_append_of_le_length hlen]
      · rw [hturns, List.length_cons, List.getElem?_cons_succ] at hn
        rwa [← List.cons_append, List.getElem?_append_left (by rw [List.length_cons]; omega)]
      · rw [hturns, List.zip_cons_cons, List.mem_cons] at hx
        rcases hx with hx | hx
        · obtain ⟨rfl, rfl⟩ := Prod.mk.inj hx
          have hframe := hsaved₁ x
          rw [if_pos rfl] at hframe
          rw [hkept x hi₁ (by rw [hquiet.reaped, hframe]; simp), hframe]
        · refine hsaved x f ?_
          rw [← List.cons_append]
          obtain ⟨n, hn, hget⟩ := List.mem_iff_getElem.mp hx
          rw [List.mem_iff_getElem]
          rw [List.length_zip] at hn
          refine ⟨n, by simp; omega, ?_⟩
          rw [← hget, List.getElem_zip, List.getElem_zip, List.getElem_append_left]
      · rw [hturns, List.length_cons, List.take_succ_cons, List.mem_cons, not_or] at hx
        have hframe := hsaved₁ x
        rw [if_neg hx.1] at hframe
        rw [hkept x hx.2 (by rw [hquiet.reaped, hframe]; exact hne), hframe, savedFrame_reaped hne]
      · rw [hquiet.reaped] at hsame
        obtain ⟨t', ht', heq⟩ := hsame x (t.turned i j tf x) (by
          rw [hm.tasks_resched_turned hi hsched, ht]
          rfl)
        refine ⟨t', ht', ?_⟩
        exact congrArg (fun u : Task => { u with trapFrame := t.trapFrame, state := t.state }) heq

/-- Every task has its turn when the scheduler is in order. -/
lemma roundRobin_of_core {k : Kernel} {i : Fin maxTasks} (hm : Core k.tm) (hi : k.tm.RunsIn i) :
    k.RoundRobin i := by
  refine ⟨fun _ => mem_turns, nodup_turns .., fun tfs o k' hlen h => (turned_of_schedules hm hi hlen h).chosen,
    fun tfs o k' hlen hrun h => ?_, fun tfs o k' hlen h => (turned_of_schedules hm hi hlen h).saved,
    fun tfs o k' hlen h => (turned_of_schedules hm hi hlen h).kept,
    fun tfs o k' hlen h => (turned_of_schedules hm hi hlen h).same, fun hnil tf o k' h => ?_⟩
  · obtain ⟨before, -, hturns⟩ := turns_eq i k.tm
    rw [if_pos hrun] at hturns
    have hT := turned_of_schedules hm hi hlen.le h
    have hruns : k'.tm.RunsIn i := hT.runs i (by simp [hlen, hturns])
    obtain ⟨a, ha, hcur, hstate⟩ := hi
    obtain ⟨b, hb, hcur', -⟩ := hruns
    obtain ⟨b', hb', hsame⟩ := hT.same i a (reaped_running ha hstate)
    obtain rfl := Option.some.inj (hb.symm.trans hb')
    have hpid := congrArg Task.pid hsame
    rw [hcur', hcur]
    exact congrArg some hpid
  · obtain ⟨j, a, hj, -, hsched, -⟩ := hm.resched_eq hi tf
    rw [(schedule_cases h).1, hsched, hj, hnil]
    rfl

end Kernel

end NekOS
