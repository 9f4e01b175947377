import NekOS.Scheduling.Invariant

/-!
# The scheduler keeps its invariant

Every effect of the machine keeps `Core` and leaves the task on the hart running, as long as the
counter of pids does not run over (`Core.effect`).
-/

namespace NekOS

/-- The task, turned into a zombie. -/
def Task.buried (code : ℤ) (t : Task) : Task := { t with state := .zombie, exitCode := code }

/-- A child of the exiting task loses its parent. -/
def Task.orphaned (parent : Option ℕ) (t : Task) : Task :=
  if t.parentPid = parent then { t with parentPid := none } else t

/-- Losing the parent does not matter to scheduling. -/
lemma Task.orphaned_key (parent : Option ℕ) (t : Task) : (t.orphaned parent).key = t.key := by
  unfold Task.orphaned
  split <;> rfl

/-- Losing the parent does not change the state. -/
lemma Task.orphaned_state (parent : Option ℕ) (t : Task) :
    (t.orphaned parent).state = t.state := by
  unfold Task.orphaned
  split <;> rfl

namespace TaskManager

variable {m m' : TaskManager} {i : Fin maxTasks}

/-! ### Exit -/

/-- The only running task is the one on the hart. -/
lemma Core.eq_of_running (hm : Core m) (hi : m.RunsIn i) {j : Fin maxTasks} {t : Task}
    (ht : m.tasks j = some t) (hrun : t.state = .running) : j = i := by
  obtain ⟨a, ha, hcur, -⟩ := hi
  refine hm.unique j i t a ht ha ?_
  have := hm.running j t ht hrun
  rw [hcur, Option.some.injEq] at this
  exact this.symm

/-- Updates that make no task run. -/
lemma NoRunning.updateTask (hno : NoRunning m) {f : Task → Task}
    (hf : ∀ t, t.state ≠ .running → (f t).state ≠ .running) : NoRunning (m.updateTask i f) := by
  intro j t ht
  by_cases hj : j = i
  · subst hj
    simp only [TaskManager.updateTask, setTask, Slots.set_self, Option.map_eq_some_iff] at ht
    obtain ⟨u, hu, rfl⟩ := ht
    exact hf u (hno j u hu)
  · simp only [TaskManager.updateTask, setTask, Slots.set_of_ne hj] at ht
    exact hno j t ht

/-- The current task becomes a zombie. -/
lemma Core.zombie (hm : Core m) {a : Task} (ha : m.tasks i = some a) (hrun : a.state = .running)
    (hcur : m.currentPid = some a.pid) (hidle : a.pid ≠ idlePid) (code : ℤ) :
    Core (m.updateTask i (Task.buried code)).decRunnable ∧
      NoRunning (m.updateTask i (Task.buried code)).decRunnable := by
  have htasks : (m.updateTask i (Task.buried code)).decRunnable.tasks =
    m.tasks.set i (some (a.buried code)) := tasks_updateTask ha
  have hrunnable : a.runnable = true := by simp [Task.runnable, hidle, hrun]
  have hpos : 0 < m.runnableCount := by
    rw [hm.count]
    exact Slots.count_pos (i := i) (by simp [ha, hrunnable])
  constructor
  · refine hm.replace ha (b := a.buried code) rfl htasks rfl (by simp [Task.buried]) ?_
      (fun h => absurd h hidle) ?_ ?_
    · have := hm.waiting i a ha
      rw [hrun] at this
      simpa [Task.buried] using this
    · have hle := hm.count_le
      have hcount : (m.updateTask i (Task.buried code)).decRunnable.runnableCount =
        (m.runnableCount + (2 ^ 32 - 1)) % 2 ^ 32 := rfl
      have hburied : (a.buried code).runnable = false := by simp [Task.runnable, Task.buried]
      rw [hcount, hrunnable, hburied, if_pos rfl, if_neg (by simp)]
      simp only [maxTasks] at hle
      omega
    · refine hm.receiver_replace ha (b := a.buried code) rfl htasks rfl ?_
      simp [Task.awaits, Task.buried, hrun]
  · intro j t ht hst
    rcases tasks_of_set htasks ht with ⟨-, rfl⟩ | ⟨hj, ht⟩
    · simp [Task.buried] at hst
    · exact hj (hm.eq_of_running ⟨a, ha, hcur, hrun⟩ ht hst)

/-- The current task becomes a zombie and its children orphans. -/
lemma Core.bury (hm : Core m) {a : Task} (ha : m.tasks i = some a) (hrun : a.state = .running)
    (hcur : m.currentPid = some a.pid) (hidle : a.pid ≠ idlePid) (code : ℤ) :
    Core (m.bury i code) ∧ NoRunning (m.bury i code) := by
  obtain ⟨hcore, hno⟩ := hm.zombie ha hrun hcur hidle code
  have htasks : (m.bury i code).tasks = fun j =>
    ((m.updateTask i (Task.buried code)).decRunnable.tasks j).map
      (Task.orphaned ((m.tasks i).map Task.pid)) := rfl
  constructor
  · refine hcore.congr (fun j => ?_) (fun _ => rfl) rfl rfl
    rw [htasks, Option.map_map]
    exact congrArg (fun f => Option.map f _) (funext (Task.orphaned_key _))
  · intro j t ht
    rw [htasks, Option.map_eq_some_iff] at ht
    obtain ⟨u, hu, rfl⟩ := ht
    rw [Task.orphaned_state]
    exact hno j u hu

/-- The exit code is handed to a parent blocked in `waitpid`. -/
lemma Core.notifyParent (hm : Core m) (hno : NoRunning m) (childPid parentPid : ℕ) (code : ℤ) :
    Core (m.notifyParent childPid parentPid code) ∧
      NoRunning (m.notifyParent childPid parentPid code) := by
  unfold TaskManager.notifyParent
  cases hp : m.findPid parentPid with
  | none => exact ⟨hm, hno⟩
  | some p =>
    obtain ⟨a, ha, -⟩ := findPid_eq_some hp
    simp only [ha, Option.any_some, Bool.and_eq_true, decide_eq_true_eq]
    split
    · rename_i h
      have hcore := hm.wake ha h.1 (by simp [h.2]) fun tf => { tf with a0 := asUsize code }
      have hno' : NoRunning (m.wake p fun tf => { tf with a0 := asUsize code }) :=
        hno.updateTask fun t _ => by simp
      cases hc : (m.wake p fun tf => { tf with a0 := asUsize code }).findPid childPid with
      | none => exact ⟨hcore, hno'⟩
      | some c => exact ⟨hcore.updateTask_of_key fun _ => rfl, hno'.updateTask fun _ h => h⟩
    · exact ⟨hm, hno⟩

/-- The part of `exit_current` before the next task is chosen. -/
lemma Core.retire (hm : Core m) (hi : m.RunsIn i) (hidle : m.currentPid ≠ some idlePid)
    (code : ℤ) : Core (m.retire code) ∧ NoRunning (m.retire code) := by
  obtain ⟨a, ha, hcur, hrun⟩ := hi
  have hne : a.pid ≠ idlePid := fun h => hidle (by rw [hcur, h])
  obtain ⟨hcore, hno⟩ := hm.bury ha hrun hcur hne code
  simp only [TaskManager.retire, hm.currentIndex_eq ha hcur, ha]
  cases a.parentPid with
  | none => exact ⟨hcore, hno⟩
  | some parentPid => exact hcore.notifyParent hno _ _ _

/-! ### The UART -/

/-- Waking the tasks that wait for the UART. -/
lemma Core.wakeUart (hm : Core m) : Core m.wakeUart := by
  unfold TaskManager.wakeUart
  induction List.finRange maxTasks generalizing m with
  | nil => exact hm
  | cons j slots ih =>
    refine ih ?_
    unfold wakeUartSlot
    split
    · rename_i h
      obtain ⟨t, ht, h⟩ := (Option.any_eq_true _ _).mp h
      simp only [Bool.and_eq_true, decide_eq_true_eq] at h
      exact hm.wake ht h.1 (by simp [h.2]) _
    · exact hm

/-! ### The effects -/

/-- Updates that keep what scheduling depends on. -/
lemma RunsIn.updateTask (hi : m.RunsIn i) {j : Fin maxTasks} {f : Task → Task}
    (hf : ∀ t, (f t).key = t.key) : (m.updateTask j f).RunsIn i := by
  obtain ⟨a, ha, hcur, hrun⟩ := hi
  by_cases hj : i = j
  · subst hj
    have hkey := hf a
    simp only [Task.key, Prod.mk.injEq] at hkey
    exact ⟨f a, by simp [tasks_updateTask ha], by rw [hkey.1]; exact hcur, hkey.2.1.trans hrun⟩
  · exact ⟨a, by simp [TaskManager.updateTask, setTask, Slots.set_of_ne hj, ha], hcur, hrun⟩

/-- Waking a sleeping task does not stop the running one. -/
lemma RunsIn.wake (hi : m.RunsIn i) {j : Fin maxTasks} {t : Task} (ht : m.tasks j = some t)
    (hs : t.state = .sleeping) (g : TrapFrame → TrapFrame) : (m.wake j g).RunsIn i := by
  obtain ⟨a, ha, hcur, hrun⟩ := hi
  have hj : i ≠ j := by
    rintro rfl
    rw [ha, Option.some.injEq] at ht
    rw [ht, hs] at hrun
    simp at hrun
  exact ⟨a, by rw [tasks_wake ht, Slots.set_of_ne hj, ha], hcur, hrun⟩

/-- A message is queued. -/
lemma Core.enqueue (hm : Core m) (e : Fin maxEndpoints) (message : Message) :
    Core (m.enqueue e message) := by
  unfold TaskManager.enqueue
  exact hm.updateEndpoint_of_key fun ep => rfl

/-- Staging keeps the invariant. -/
lemma Core.stage (hm : Core m) {e : Fin maxEndpoints} {f : Endpoint → Endpoint} (hf : Staging f) :
    Core (m.updateEndpoint e f) :=
  hm.updateEndpoint_of_key fun ep => by
    obtain ⟨buf, len, hep⟩ := hf ep
    rw [hep]
    rfl

/-- The current task is the one on the hart. -/
lemma Core.current_eq (hm : Core m) (hi : m.RunsIn i) {j : Fin maxTasks}
    (hj : m.currentIndex = some j) : j = i := by
  obtain ⟨a, ha, hcur, -⟩ := hi
  rw [hm.currentIndex_eq ha hcur, Option.some.injEq] at hj
  exact hj.symm

/-- The caller blocks. -/
lemma Core.blockCall (hm : Core m) (hi : m.RunsIn i) (hidle : m.currentPid ≠ some idlePid)
    (e : Fin maxEndpoints) {f : Endpoint → Endpoint} (hf : Staging f) (tf : TrapFrame) :
    Core ((m.updateEndpoint e f).block i (.ipcCall e) tf) := by
  obtain ⟨a, ha, hcur, hrun⟩ := hi
  exact (hm.stage hf).block ha hrun (fun h => hidle (by rw [hcur, h])) (by simp) tf

/-- The owner that an endpoint lists as receiver is found, and waits for it. -/
lemma Core.receiver_found (hm : Core m) {e : Fin maxEndpoints} {ep : Endpoint}
    (hep : m.endpoints e = some ep) (hwait : ep.receiverWaiting = true) {r : Fin maxTasks}
    (hr : m.findPid ep.owner = some r) :
    ∃ b, m.tasks r = some b ∧ b.pid = ep.owner ∧ b.awaits e := by
  obtain ⟨-, l, b, hb, hpid, haw⟩ := (hm.receiver e ep ep.owner hep).mp (by
    simpa [Endpoint.receiverWaiting] using hwait)
  have hl := hm.findPid_eq hb
  rw [hpid, hr, Option.some.injEq] at hl
  subst hl
  exact ⟨b, hb, hpid, haw⟩

/-- An endpoint after the caller has blocked. -/
lemma endpoints_blockCall {e : Fin maxEndpoints} {ep : Endpoint} (hep : m.endpoints e = some ep)
    (f : Endpoint → Endpoint) (j : Fin maxTasks) (channel : WaitChannel) (tf : TrapFrame) :
    ((m.updateEndpoint e f).block j channel tf).endpoints e = some (f ep) := by
  simp [TaskManager.block, TaskManager.updateEndpoint, TaskManager.updateTask, setTask,
    satDecRunnable, hep]

/-- Staging keeps the receiver. -/
lemma Staging.receiverWaiting {f : Endpoint → Endpoint} (hf : Staging f) (ep : Endpoint) :
    (f ep).receiverWaiting = ep.receiverWaiting := by
  obtain ⟨buf, len, hep⟩ := hf ep
  rw [hep]
  rfl

/-- Staging keeps the owner. -/
lemma Staging.owner {f : Endpoint → Endpoint} (hf : Staging f) (ep : Endpoint) :
    (f ep).owner = ep.owner := by
  obtain ⟨buf, len, hep⟩ := hf ep
  rw [hep]

/-- What follows a preparation for `schedule`. -/
lemma Core.resched_getD (hm : Core m) (tf : TrapFrame) (j : Fin maxTasks) :
    Core (m.resched tf) ∧ (m.resched tf).RunsIn ((m.scheduled tf).getD j) := by
  obtain ⟨hcore, i, hnext, hi⟩ := hm.resched tf
  exact ⟨hcore, by rwa [hnext]⟩

/-- **Step lemma.**  An effect keeps the invariant of the scheduler and leaves the task on the hart
running. -/
theorem Core.effect (hm : Core m) (hi : m.RunsIn i) {label : Label}
    (hfresh : label = .create → m.PidFree) {next : FramePtr}
    (h : Effect m label next m') : Core m' ∧ m'.RunsIn (next.getD i) := by
  obtain ⟨a, ha, hcur, hrun⟩ := id hi
  have hnotIdle : m.currentPid ≠ some idlePid → a.pid ≠ idlePid := fun h hpid =>
    h (by rw [hcur, hpid])
  cases h with
  | touch h =>
    rcases h with rfl | ⟨j, f, hf, -, rfl⟩
    · exact ⟨hm, hi⟩
    · have hkey : ∀ t, (f t).key = t.key := fun t => by
        simp only [Task.key, (hf t).pid, (hf t).state, (hf t).waitingFor]
      exact ⟨hm.updateTask_of_key hkey, hi.updateTask hkey⟩
  | bump => exact ⟨hm.congr (fun _ => rfl) (fun _ => rfl) rfl rfl, hi⟩
  | @create slot t hfree hpid hready hwait _ =>
    refine ⟨hm.create hfree hpid hready hwait (hfresh rfl), a, ?_, hcur, hrun⟩
    have hslot : i ≠ slot := by
      rintro rfl
      rw [ha] at hfree
      simp at hfree
    exact (Slots.set_of_ne hslot _).trans ha
  | @reap c child hc hz =>
    refine ⟨hm.free (fun j => ?_) rfl rfl rfl, a, ?_, hcur, hrun⟩
    · by_cases hj : j = c
      · exact Or.inr ⟨by simp [setTask, hj], child, by rw [hj, hc], hz⟩
      · exact Or.inl (Slots.set_of_ne hj _)
    · have hslot : i ≠ c := by
        rintro rfl
        rw [ha, Option.some.injEq] at hc
        rw [hc, hz] at hrun
        simp at hrun
      exact (Slots.set_of_ne hslot _).trans ha
  | yield tf => exact hm.resched_getD tf i
  | uart tf => exact hm.wakeUart.resched_getD tf i
  | sleep tf hidle hj hch =>
    obtain rfl := hm.current_eq hi hj
    exact (hm.block ha hrun (hnotIdle hidle) (fun e => (hch.not_ipc e).2) tf).resched_getD tf _
  | exit code hidle hchoose =>
    obtain ⟨hcore, hno⟩ := hm.retire hi hidle code
    obtain ⟨l, b, hl, hb, hready⟩ :=
      (hcore.setCurrent hno none).choose hno (List.finRange maxTasks)
    rw [hl, Option.some.injEq] at hchoose
    subst hchoose
    exact (hcore.setCurrent hno none).runSlot hno hb hready
  | stage hep _ hf => exact ⟨hm.stage hf, hi⟩
  | @callQueued sender e ep j f words payload tf hidle hsender hj _ _ _ _ hf _ =>
    obtain rfl := hm.current_eq hi (j := j) (by rw [currentIndex, hsender]; exact hj)
    exact ((hm.blockCall hi hidle e hf.1 tf).enqueue _ _).resched_getD tf _
  | @callDirect sender e ep j r f u g words _ tf hidle hsender hj hep _ hwait hr hf hu _ =>
    obtain rfl := hm.current_eq hi (j := j) (by rw [currentIndex, hsender]; exact hj)
    have hcore := hm.blockCall hi hidle e hf.1 tf
    have hend := endpoints_blockCall hep f j (.ipcCall e) tf
    obtain ⟨b, hb, hpid, haw⟩ := hcore.receiver_found hend
      (by rw [hf.1.receiverWaiting, hwait]) (by rw [hf.1.owner, hr])
    exact (hcore.deliver hb hend hpid haw hu g).resched_getD tf _
  | recvPop => exact ⟨hm.updateEndpoint_of_key fun _ => rfl, hi⟩
  | recvBlock tf hidle howner hj hep _ hu =>
    obtain rfl := hm.current_eq hi hj
    have heq := howner.symm.trans hcur
    rw [Option.some.injEq] at heq
    exact (hm.blockRecv ha hrun (hnotIdle hidle) hep heq hu tf).resched_getD tf _
  | reply g _ htarget hs =>
    obtain ⟨-, ht, endpoint, _, _, hwait, -⟩ := Kernel.replyTarget_eq_some htarget
    exact ⟨hm.wake ht hs (by simp [hwait]) g, hi.wake ht hs g⟩
  | scribble g _ _ _ => exact ⟨hm.updateTask_of_key fun _ => rfl, hi.updateTask fun _ => rfl⟩

end TaskManager

end NekOS
