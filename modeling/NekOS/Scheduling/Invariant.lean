import NekOS.Kernel.Effect

/-!
# The invariant of the scheduler

`Core` collects what holds of the task manager at every point of a handler: pids identify tasks,
the idle task can always run, a task sleeps exactly when it waits on a channel, the count of
runnable tasks is right, and an endpoint lists its owner as receiver exactly when the owner waits
for it.  Between two events the task on the hart is also the current one and runs (`RunsIn`).

The pids are handed out by a counter that wraps; `Core` is kept as long as the pid that a new task
gets is not in use (`PidFree`).
-/

namespace NekOS

/-- What scheduling depends on in a task. -/
def Task.key (t : Task) : ℕ × TaskState × Option WaitChannel := (t.pid, t.state, t.waitingFor)

/-- What scheduling depends on in an endpoint. -/
def Endpoint.key (ep : Endpoint) : ℕ × Option ℕ := (ep.owner, ep.waitingReceiver)

/-- A task that counts as runnable: ready or running, and not the idle task. -/
def Task.runnable (t : Task) : Bool :=
  decide (t.pid ≠ TaskManager.idlePid) && (decide (t.state = .ready) || decide (t.state = .running))

/-- The task, put to sleep on a channel. -/
def Task.asleep (channel : WaitChannel) (tf : TrapFrame) (t : Task) : Task :=
  { t with state := .sleeping, waitingFor := some channel, trapFrame := tf }

/-- The task, woken with the result of its system call. -/
def Task.woken (result : TrapFrame → TrapFrame) (t : Task) : Task :=
  { t with state := .ready, waitingFor := none, trapFrame := result t.trapFrame }

/-- The task sleeps in a receive operation on an endpoint. -/
def Task.awaits (t : Task) (e : Fin maxEndpoints) : Prop :=
  t.state = .sleeping ∧ t.waitingFor = some (.ipcRecv e)

namespace TaskManager

/-- A task with the pid sleeps in a receive operation on an endpoint. -/
def Awaits (m : TaskManager) (pid : ℕ) (e : Fin maxEndpoints) : Prop :=
  ∃ i t, m.tasks i = some t ∧ t.pid = pid ∧ t.awaits e

/-- What holds of the task manager at every point of a handler. -/
structure Core (m : TaskManager) : Prop where
  /-- Pids identify tasks. -/
  unique : ∀ i j a b, m.tasks i = some a → m.tasks j = some b → a.pid = b.pid → i = j
  /-- The idle task is in its slot and can run. -/
  idle : ∃ t, m.tasks System.idleSlot = some t ∧ t.pid = idlePid ∧
    (t.state = .ready ∨ t.state = .running)
  /-- A running task is the current one. -/
  running : ∀ i t, m.tasks i = some t → t.state = .running → m.currentPid = some t.pid
  /-- A task sleeps exactly when it waits on a channel. -/
  waiting : ∀ i t, m.tasks i = some t → (t.state = .sleeping ↔ t.waitingFor.isSome = true)
  /-- The count of runnable tasks is right. -/
  count : m.runnableCount = m.tasks.count Task.runnable
  /-- An endpoint lists its owner as receiver exactly when the owner waits for it. -/
  receiver : ∀ e ep pid, m.endpoints e = some ep →
    (ep.waitingReceiver = some pid ↔ pid = ep.owner ∧ m.Awaits pid e)

/-- No task has the pid that is handed out next. -/
def PidFree (m : TaskManager) : Prop := ∀ i t, m.tasks i = some t → t.pid ≠ m.nextPid

/-- The task in a slot is the current one and runs. -/
def RunsIn (m : TaskManager) (i : Fin maxTasks) : Prop :=
  ∃ t, m.tasks i = some t ∧ m.currentPid = some t.pid ∧ t.state = .running

/-- No task is running. -/
def NoRunning (m : TaskManager) : Prop := ∀ i t, m.tasks i = some t → t.state ≠ .running

/-! ### Changes that do not matter -/

section Congruence

variable {m m' : TaskManager}

/-- A task with the same key. -/
lemma exists_of_key (h : ∀ i, (m'.tasks i).map Task.key = (m.tasks i).map Task.key)
    {i : Fin maxTasks} {t : Task} (ht : m'.tasks i = some t) :
    ∃ u, m.tasks i = some u ∧ u.pid = t.pid ∧ u.state = t.state ∧ u.waitingFor = t.waitingFor := by
  have hi := h i
  rw [ht] at hi
  cases hu : m.tasks i with
  | none => simp [hu] at hi
  | some u =>
    rw [hu, Option.map_some, Option.map_some, Option.some.injEq] at hi
    simp only [Task.key, Prod.mk.injEq] at hi
    exact ⟨u, rfl, hi.1.symm, hi.2.1.symm, hi.2.2.symm⟩

/-- The keys of the tasks decide who waits for an endpoint. -/
lemma awaits_congr (h : ∀ i, (m'.tasks i).map Task.key = (m.tasks i).map Task.key) (pid : ℕ)
    (e : Fin maxEndpoints) : m'.Awaits pid e ↔ m.Awaits pid e := by
  constructor
  · rintro ⟨i, t, ht, rfl, hs, hw⟩
    obtain ⟨u, hu, hpid, hstate, hwait⟩ := exists_of_key h ht
    exact ⟨i, u, hu, hpid, hstate.trans hs, hwait.trans hw⟩
  · rintro ⟨i, t, ht, rfl, hs, hw⟩
    obtain ⟨u, hu, hpid, hstate, hwait⟩ := exists_of_key (fun i => (h i).symm) ht
    exact ⟨i, u, hu, hpid, hstate.trans hs, hwait.trans hw⟩

/-- The keys of the tasks decide which of them are runnable. -/
lemma count_runnable_congr (h : ∀ i, (m'.tasks i).map Task.key = (m.tasks i).map Task.key) :
    m'.tasks.count Task.runnable = m.tasks.count Task.runnable := by
  refine Slots.count_congr fun i => ?_
  cases ht : m'.tasks i with
  | none =>
    have hi := h i
    rw [ht] at hi
    cases hu : m.tasks i with
    | none => rfl
    | some u => simp [hu] at hi
  | some t =>
    obtain ⟨u, hu, hpid, hstate, -⟩ := exists_of_key h ht
    simp [hu, Task.runnable, hpid, hstate]

/-- `Core` depends on the keys alone. -/
lemma Core.congr (hm : Core m)
    (htasks : ∀ i, (m'.tasks i).map Task.key = (m.tasks i).map Task.key)
    (hends : ∀ e, (m'.endpoints e).map Endpoint.key = (m.endpoints e).map Endpoint.key)
    (hcurrent : m'.currentPid = m.currentPid) (hcount : m'.runnableCount = m.runnableCount) :
    Core m' where
  unique i j a b ha hb hab := by
    obtain ⟨u, hu, hpu, -⟩ := exists_of_key htasks ha
    obtain ⟨v, hv, hpv, -⟩ := exists_of_key htasks hb
    exact hm.unique i j u v hu hv (by rw [hpu, hpv, hab])
  idle := by
    obtain ⟨t, ht, hpid, hstate⟩ := hm.idle
    obtain ⟨u, hu, hpu, hsu, -⟩ := exists_of_key (fun i => (htasks i).symm) ht
    exact ⟨u, hu, hpu.trans hpid, by rw [hsu]; exact hstate⟩
  running i t ht hrun := by
    obtain ⟨u, hu, hpid, hstate, -⟩ := exists_of_key htasks ht
    rw [hcurrent, ← hpid]
    exact hm.running i u hu (hstate.trans hrun)
  waiting i t ht := by
    obtain ⟨u, hu, -, hstate, hwait⟩ := exists_of_key htasks ht
    rw [← hstate, ← hwait]
    exact hm.waiting i u hu
  count := by rw [hcount, hm.count, count_runnable_congr htasks]
  receiver e ep pid hep := by
    have he := hends e
    rw [hep] at he
    cases hep' : m.endpoints e with
    | none => simp [hep'] at he
    | some ep' =>
      rw [hep', Option.map_some, Option.map_some, Option.some.injEq] at he
      simp only [Endpoint.key, Prod.mk.injEq] at he
      rw [he.1, he.2, awaits_congr htasks]
      exact hm.receiver e ep' pid hep'

end Congruence

/-! ### Replacing one task -/

section Replace

variable {m m' : TaskManager} {i : Fin maxTasks} {a b : Task}

/-- The content of the slots after one task is replaced. -/
lemma tasks_of_set (htasks : m'.tasks = m.tasks.set i (some b)) {j : Fin maxTasks} {t : Task}
    (ht : m'.tasks j = some t) : (j = i ∧ t = b) ∨ (j ≠ i ∧ m.tasks j = some t) := by
  rw [htasks, Slots.set_apply] at ht
  by_cases hj : j = i
  · rw [if_pos hj, Option.some.injEq] at ht
    exact Or.inl ⟨hj, ht.symm⟩
  · rw [if_neg hj] at ht
    exact Or.inr ⟨hj, ht⟩

/-- Who waits for an endpoint after one task is replaced by one with the same pid. -/
lemma awaits_set (hm : Core m) (ha : m.tasks i = some a) (hpid : b.pid = a.pid)
    (htasks : m'.tasks = m.tasks.set i (some b)) (pid : ℕ) (e : Fin maxEndpoints) :
    m'.Awaits pid e ↔ (if pid = a.pid then b.awaits e else m.Awaits pid e) := by
  constructor
  · rintro ⟨j, t, ht, rfl, hw⟩
    rcases tasks_of_set htasks ht with ⟨rfl, rfl⟩ | ⟨hj, ht⟩
    · rwa [if_pos hpid]
    · have hne : t.pid ≠ a.pid := fun h => hj (hm.unique j i t a ht ha h)
      rw [if_neg hne]
      exact ⟨j, t, ht, rfl, hw⟩
  · split
    · rename_i heq
      exact fun hw => ⟨i, b, by rw [htasks, Slots.set_self], hpid.trans heq.symm, hw⟩
    · rename_i hne
      rintro ⟨j, t, ht, rfl, hw⟩
      have hj : j ≠ i := by
        rintro rfl
        rw [ha, Option.some.injEq] at ht
        exact hne (by rw [ht])
      exact ⟨j, t, by rw [htasks, Slots.set_of_ne hj, ht], rfl, hw⟩

/-- `Core` after one task is replaced by one with the same pid. -/
lemma Core.replace (hm : Core m) (ha : m.tasks i = some a) (hpid : b.pid = a.pid)
    (htasks : m'.tasks = m.tasks.set i (some b)) (hcurrent : m'.currentPid = m.currentPid)
    (hrun : b.state = .running → m.currentPid = some b.pid)
    (hwait : b.state = .sleeping ↔ b.waitingFor.isSome = true)
    (hidle : a.pid = idlePid → b.state = .ready ∨ b.state = .running)
    (hcount : m'.runnableCount + (if a.runnable then 1 else 0) =
      m.runnableCount + (if b.runnable then 1 else 0))
    (hrecv : ∀ e ep pid, m'.endpoints e = some ep →
      (ep.waitingReceiver = some pid ↔ pid = ep.owner ∧ m'.Awaits pid e)) : Core m' where
  unique j₁ j₂ t₁ t₂ h₁ h₂ heq := by
    rcases tasks_of_set htasks h₁ with ⟨rfl, rfl⟩ | ⟨hj₁, h₁⟩ <;>
      rcases tasks_of_set htasks h₂ with ⟨rfl, rfl⟩ | ⟨hj₂, h₂⟩
    · rfl
    · exact hm.unique _ _ _ _ ha h₂ (by rw [← hpid, heq])
    · exact hm.unique _ _ _ _ h₁ ha (by rw [← hpid, heq])
    · exact hm.unique _ _ _ _ h₁ h₂ heq
  idle := by
    obtain ⟨t, ht, hpt, hstate⟩ := hm.idle
    by_cases hi : System.idleSlot = i
    · subst hi
      rw [ha, Option.some.injEq] at ht
      subst ht
      exact ⟨b, by rw [htasks, Slots.set_self], hpid.trans hpt, hidle hpt⟩
    · exact ⟨t, by rw [htasks, Slots.set_of_ne hi, ht], hpt, hstate⟩
  running j t ht hst := by
    rw [hcurrent]
    rcases tasks_of_set htasks ht with ⟨rfl, rfl⟩ | ⟨-, ht⟩
    · exact hrun hst
    · exact hm.running _ _ ht hst
  waiting j t ht := by
    rcases tasks_of_set htasks ht with ⟨rfl, rfl⟩ | ⟨-, ht⟩
    · exact hwait
    · exact hm.waiting _ _ ht
  count := by
    have hset := Slots.count_set m.tasks i (some b) Task.runnable
    rw [ha, ← htasks, Option.any_some, Option.any_some] at hset
    have := hm.count
    omega
  receiver := hrecv

end Replace

/-! ### The parts of the operations -/

section Operations

variable {m m' : TaskManager} {i : Fin maxTasks}

/-- The content of the slots after a task is updated. -/
lemma tasks_updateTask {f : Task → Task} {a : Task} (ha : m.tasks i = some a) :
    (m.updateTask i f).tasks = m.tasks.set i (some (f a)) := by
  simp [updateTask, setTask, ha]

/-- The count of runnable tasks is small. -/
lemma Core.count_le (hm : Core m) : m.runnableCount ≤ maxTasks := by
  rw [hm.count]
  exact Slots.count_le _ _

/-- Only the idle task has its pid. -/
lemma Core.idle_of_pid (hm : Core m) {t : Task} (ht : m.tasks i = some t)
    (hpid : t.pid = idlePid) : i = System.idleSlot ∧ (t.state = .ready ∨ t.state = .running) := by
  obtain ⟨u, hu, hpu, hstate⟩ := hm.idle
  obtain rfl := hm.unique _ _ _ _ ht hu (hpid.trans hpu.symm)
  rw [ht, Option.some.injEq] at hu
  exact ⟨rfl, by rw [hu]; exact hstate⟩

/-- A sleeping task is not the idle task. -/
lemma Core.pid_ne_idle (hm : Core m) {t : Task} (ht : m.tasks i = some t)
    (hs : t.state = .sleeping) : t.pid ≠ idlePid := fun hpid => by
  have := (hm.idle_of_pid ht hpid).2
  rw [hs] at this
  simp at this

/-- The current slot is the one that holds the current pid. -/
lemma Core.currentIndex_eq (hm : Core m) {t : Task} (ht : m.tasks i = some t)
    (hpid : m.currentPid = some t.pid) : m.currentIndex = some i := by
  rw [currentIndex, hpid, Option.bind_some, findPid]
  exact Slots.position_eq_of_key hm.unique ht

/-- The slot found for the pid of a task is the slot of the task. -/
lemma Core.findPid_eq (hm : Core m) {t : Task} (ht : m.tasks i = some t) :
    m.findPid t.pid = some i :=
  Slots.position_eq_of_key hm.unique ht

/-- Changes of the data of a task that scheduling does not depend on. -/
lemma keys_updateTask (m : TaskManager) (i : Fin maxTasks) {f : Task → Task}
    (hf : ∀ t, (f t).key = t.key) (j : Fin maxTasks) :
    ((m.updateTask i f).tasks j).map Task.key = (m.tasks j).map Task.key := by
  by_cases hj : j = i
  · subst hj
    cases h : m.tasks j <;> simp [updateTask, setTask, h, hf]
  · simp [updateTask, setTask, Slots.set_of_ne hj]

/-- Changes of the data of a task that scheduling does not depend on. -/
lemma Core.updateTask_of_key (hm : Core m) {f : Task → Task} (hf : ∀ t, (f t).key = t.key) :
    Core (m.updateTask i f) :=
  hm.congr (keys_updateTask m i hf) (fun _ => rfl) rfl rfl

/-- Changes of an endpoint that scheduling does not depend on. -/
lemma Core.updateEndpoint_of_key (hm : Core m) {e : Fin maxEndpoints} {f : Endpoint → Endpoint}
    (hf : ∀ ep, (f ep).key = ep.key) : Core (m.updateEndpoint e f) := by
  refine hm.congr (fun _ => rfl) (fun e' => ?_) rfl rfl
  by_cases he : e' = e
  · subst he
    cases h : m.endpoints e' <;> simp [updateEndpoint, h, hf]
  · simp [updateEndpoint, Slots.set_of_ne he]

/-- The receivers of endpoints after one task is replaced that waits for the same endpoints. -/
lemma Core.receiver_replace (hm : Core m) {a b : Task} (ha : m.tasks i = some a)
    (hpid : b.pid = a.pid) (htasks : m'.tasks = m.tasks.set i (some b))
    (hends : m'.endpoints = m.endpoints) (haw : ∀ e, b.awaits e ↔ a.awaits e)
    (e : Fin maxEndpoints) (ep : Endpoint) (pid : ℕ) (hep : m'.endpoints e = some ep) :
    ep.waitingReceiver = some pid ↔ pid = ep.owner ∧ m'.Awaits pid e := by
  rw [hends] at hep
  rw [hm.receiver e ep pid hep, awaits_set hm ha hpid htasks]
  refine and_congr_right fun _ => ?_
  split
  · rename_i heq
    rw [haw]
    constructor
    · rintro ⟨j, t, ht, hp, hw⟩
      obtain rfl := hm.unique _ _ _ _ ht ha (hp.trans heq)
      rw [ha, Option.some.injEq] at ht
      rwa [ht]
    · exact fun hw => ⟨i, a, ha, heq.symm, hw⟩
  · rfl

/-- The task table after a task is put to sleep. -/
lemma tasks_block {a : Task} (ha : m.tasks i = some a) (channel : WaitChannel) (tf : TrapFrame) :
    (m.block i channel tf).tasks = m.tasks.set i (some (a.asleep channel tf)) :=
  tasks_updateTask ha

/-- The task table after a task is woken. -/
lemma tasks_wake {a : Task} (ha : m.tasks i = some a) (g : TrapFrame → TrapFrame) :
    (m.wake i g).tasks = m.tasks.set i (some (a.woken g)) :=
  tasks_updateTask ha

/-- A running task counts once less when it is put to sleep. -/
lemma Core.block_count (hm : Core m) {a : Task} (ha : m.tasks i = some a)
    (hrun : a.state = .running) (hidle : a.pid ≠ idlePid) (channel : WaitChannel)
    (tf : TrapFrame) :
    (m.block i channel tf).runnableCount + (if a.runnable then 1 else 0) =
      m.runnableCount + (if (a.asleep channel tf).runnable then 1 else 0) := by
  have hrunnable : a.runnable = true := by simp [Task.runnable, hidle, hrun]
  have hpos : 0 < m.runnableCount := by
    rw [hm.count]
    exact Slots.count_pos (i := i) (by simp [ha, hrunnable])
  have hcount : (m.block i channel tf).runnableCount = m.runnableCount - 1 := rfl
  have hasleep : (a.asleep channel tf).runnable = false := by simp [Task.runnable, Task.asleep]
  rw [hcount, hrunnable, hasleep, if_pos rfl, if_neg (by simp)]
  omega

/-- Putting the current task to sleep on a channel that is not a receive operation. -/
lemma Core.block (hm : Core m) {a : Task} (ha : m.tasks i = some a) (hrun : a.state = .running)
    (hidle : a.pid ≠ idlePid) {channel : WaitChannel} (hch : ∀ e, channel ≠ .ipcRecv e)
    (tf : TrapFrame) : Core (m.block i channel tf) := by
  refine hm.replace ha (b := a.asleep channel tf) rfl (tasks_block ha channel tf) rfl
    (by simp [Task.asleep]) (by simp [Task.asleep]) (fun h => absurd h hidle)
    (hm.block_count ha hrun hidle channel tf) ?_
  refine hm.receiver_replace ha (b := a.asleep channel tf) rfl (tasks_block ha channel tf) rfl ?_
  simp [Task.awaits, Task.asleep, hch, hrun]

/-- A sleeping task counts once more when it is woken. -/
lemma Core.wake_count (hm : Core m) {a : Task} (ha : m.tasks i = some a)
    (hs : a.state = .sleeping) (g : TrapFrame → TrapFrame) :
    (m.wake i g).runnableCount + (if a.runnable then 1 else 0) =
      m.runnableCount + (if (a.woken g).runnable then 1 else 0) := by
  have hle := hm.count_le
  have hcount : (m.wake i g).runnableCount = (m.runnableCount + 1) % 2 ^ 32 := rfl
  rw [hcount, Nat.mod_eq_of_lt (by simp only [maxTasks] at hle; omega)]
  simp [Task.runnable, Task.woken, hs, hm.pid_ne_idle ha hs]

/-- Waking a task that does not sleep in a receive operation. -/
lemma Core.wake (hm : Core m) {a : Task} (ha : m.tasks i = some a) (hs : a.state = .sleeping)
    (hch : ∀ e : ℕ, a.waitingFor ≠ some (.ipcRecv e)) (g : TrapFrame → TrapFrame) :
    Core (m.wake i g) := by
  refine hm.replace ha (b := a.woken g) rfl (tasks_wake ha g) rfl (by simp [Task.woken])
    (by simp [Task.woken]) (fun _ => Or.inl rfl) (hm.wake_count ha hs g) ?_
  refine hm.receiver_replace ha (b := a.woken g) rfl (tasks_wake ha g) rfl ?_
  simp [Task.awaits, Task.woken, hch]

/-- The owner of an endpoint starts to wait for a message. -/
lemma Core.blockRecv (hm : Core m) {a : Task} (ha : m.tasks i = some a)
    (hrun : a.state = .running) (hidle : a.pid ≠ idlePid) {e : Fin maxEndpoints} {ep : Endpoint}
    (hep : m.endpoints e = some ep) (howner : ep.owner = a.pid) {u : Endpoint → Endpoint}
    (hu : Awaiting ep.owner u) (tf : TrapFrame) :
    Core ((m.updateEndpoint e u).block i (.ipcRecv e) tf) := by
  have htasks : ((m.updateEndpoint e u).block i (.ipcRecv e) tf).tasks =
      m.tasks.set i (some (a.asleep (.ipcRecv e) tf)) := tasks_block ha _ tf
  refine hm.replace ha (b := a.asleep (.ipcRecv e) tf) rfl htasks rfl (by simp [Task.asleep])
    (by simp [Task.asleep]) (fun h => absurd h hidle)
    (hm.block_count ha hrun hidle (.ipcRecv e) tf) fun e' ep' pid hep' => ?_
  rw [awaits_set hm ha (b := a.asleep (.ipcRecv e) tf) rfl htasks]
  have hends : (m.endpoints.set e ((m.endpoints e).map u)) e' = some ep' := hep'
  rw [Slots.set_apply] at hends
  by_cases he : e' = e
  · subst he
    obtain ⟨addr, cap, hu'⟩ := hu ep
    rw [if_pos rfl, hep, Option.map_some, Option.some.injEq, hu'] at hends
    subst hends
    simp only [Option.some.injEq, howner]
    constructor
    · rintro rfl
      exact ⟨rfl, by simp [Task.awaits, Task.asleep]⟩
    · rintro ⟨rfl, -⟩
      rfl
  · rw [if_neg he] at hends
    rw [hm.receiver e' ep' pid hends]
    refine and_congr_right fun _ => ?_
    split
    · rename_i heq
      have hne : (e : ℕ) ≠ e' := fun h => he (Fin.ext h.symm)
      simp only [Task.awaits, Task.asleep, Option.some.injEq, WaitChannel.ipcRecv.injEq, hne,
        and_false, iff_false]
      rintro ⟨j, t, ht, hp, hs, -⟩
      obtain rfl := hm.unique _ _ _ _ ht ha (hp.trans heq)
      rw [ha, Option.some.injEq] at ht
      rw [← ht, hrun] at hs
      simp at hs
    · rfl

/-- A message wakes the owner of an endpoint. -/
lemma Core.deliver (hm : Core m) {a : Task} (ha : m.tasks i = some a) {e : Fin maxEndpoints}
    {ep : Endpoint} (hep : m.endpoints e = some ep) (howner : a.pid = ep.owner)
    (haw : a.awaits e) {u : Endpoint → Endpoint} (hu : Releasing u) (g : TrapFrame → TrapFrame) :
    Core ((m.wake i g).updateEndpoint e u) := by
  have htasks : ((m.wake i g).updateEndpoint e u).tasks = m.tasks.set i (some (a.woken g)) :=
    tasks_wake ha g
  refine hm.replace ha (b := a.woken g) rfl htasks rfl (by simp [Task.woken])
    (by simp [Task.woken]) (fun _ => Or.inl rfl) (hm.wake_count ha haw.1 g)
    fun e' ep' pid hep' => ?_
  rw [awaits_set hm ha (b := a.woken g) rfl htasks]
  have hends : (m.endpoints.set e ((m.endpoints e).map u)) e' = some ep' := hep'
  rw [Slots.set_apply] at hends
  have hwoken : ¬ (a.woken g).awaits e' := by simp [Task.awaits, Task.woken]
  by_cases he : e' = e
  · subst he
    obtain ⟨addr, cap, hu'⟩ := hu ep
    rw [if_pos rfl, hep, Option.map_some, Option.some.injEq, hu'] at hends
    subst hends
    simp only [reduceCtorEq, false_iff, not_and]
    rintro rfl
    rwa [if_pos howner.symm]
  · rw [if_neg he] at hends
    rw [hm.receiver e' ep' pid hends]
    refine and_congr_right fun _ => ?_
    split
    · rename_i heq
      refine iff_of_false ?_ hwoken
      rintro ⟨j, t, ht, hp, -, hw⟩
      obtain rfl := hm.unique _ _ _ _ ht ha (hp.trans heq)
      rw [ha, Option.some.injEq] at ht
      rw [← ht, haw.2] at hw
      simp only [Option.some.injEq, WaitChannel.ipcRecv.injEq] at hw
      exact he (Fin.ext hw.symm)
    · rfl

/-- A new task gets the next pid, which no task has. -/
lemma Core.create (hm : Core m) (hfree : m.tasks i = none) {t : Task} (hpid : t.pid = m.nextPid)
    (hready : t.state = .ready) (hwait : t.waitingFor = none) (hfresh : m.PidFree) :
    Core (m.bumpPid.setTask i (some t)).incRunnable := by
  have htasks : (m.bumpPid.setTask i (some t)).incRunnable.tasks = m.tasks.set i (some t) := rfl
  obtain ⟨u, hu, hpu, hsu⟩ := hm.idle
  have hidle : System.idleSlot ≠ i := by
    rintro rfl
    rw [hu] at hfree
    simp at hfree
  have hne : t.pid ≠ idlePid := fun h => hfresh _ _ hu (by rw [hpu, ← h, hpid])
  constructor
  · intro j₁ j₂ t₁ t₂ e₁ e₂ heq
    rcases tasks_of_set htasks e₁ with ⟨rfl, rfl⟩ | ⟨-, h₁⟩ <;>
      rcases tasks_of_set htasks e₂ with ⟨hj, rfl⟩ | ⟨-, h₂⟩
    · exact hj.symm
    · exact absurd (heq.symm.trans hpid) (hfresh _ _ h₂)
    · exact absurd (heq.trans hpid) (hfresh _ _ h₁)
    · exact hm.unique _ _ _ _ h₁ h₂ heq
  · exact ⟨u, by rw [htasks, Slots.set_of_ne hidle, hu], hpu, hsu⟩
  · intro j v hv hrun
    rcases tasks_of_set htasks hv with ⟨rfl, rfl⟩ | ⟨-, hv⟩
    · rw [hready] at hrun
      simp at hrun
    · exact hm.running _ _ hv hrun
  · intro j v hv
    rcases tasks_of_set htasks hv with ⟨rfl, rfl⟩ | ⟨-, hv⟩
    · simp [hready, hwait]
    · exact hm.waiting _ _ hv
  · have hle := hm.count_le
    have hcount : (m.bumpPid.setTask i (some t)).incRunnable.runnableCount =
      (m.runnableCount + 1) % 2 ^ 32 := rfl
    rw [hcount, Nat.mod_eq_of_lt (by simp only [maxTasks] at hle; omega), htasks,
      Slots.count_set_gain (by simp [hfree]) (by simp [Task.runnable, hne, hready]), hm.count]
  · intro e ep pid hep
    rw [hm.receiver e ep pid hep]
    refine and_congr_right fun _ => ⟨?_, ?_⟩
    · rintro ⟨j, v, hv, rfl, haw⟩
      have hj : j ≠ i := by
        rintro rfl
        rw [hv] at hfree
        simp at hfree
      exact ⟨j, v, by rw [htasks, Slots.set_of_ne hj, hv], rfl, haw⟩
    · rintro ⟨j, v, hv, rfl, hs, hw⟩
      rcases tasks_of_set htasks hv with ⟨rfl, rfl⟩ | ⟨-, hv⟩
      · rw [hready] at hs
        simp at hs
      · exact ⟨j, v, hv, rfl, hs, hw⟩

/-- Zombies are freed. -/
lemma Core.free (hm : Core m)
    (htasks : ∀ i, m'.tasks i = m.tasks i ∨
      m'.tasks i = none ∧ ∃ t, m.tasks i = some t ∧ t.state = .zombie)
    (hends : m'.endpoints = m.endpoints) (hcurrent : m'.currentPid = m.currentPid)
    (hcount : m'.runnableCount = m.runnableCount) : Core m' := by
  have hsub : ∀ {j t}, m'.tasks j = some t → m.tasks j = some t := by
    intro j t ht
    rcases htasks j with h | ⟨h, -⟩
    · rwa [← h]
    · rw [h] at ht
      simp at ht
  have hkeep : ∀ {j t}, m.tasks j = some t → t.state ≠ .zombie → m'.tasks j = some t := by
    intro j t ht hz
    rcases htasks j with h | ⟨-, u, hu, hzombie⟩
    · rwa [h]
    · rw [ht, Option.some.injEq] at hu
      exact absurd (by rw [hu]; exact hzombie) hz
  constructor
  · exact fun j₁ j₂ t₁ t₂ h₁ h₂ => hm.unique _ _ _ _ (hsub h₁) (hsub h₂)
  · obtain ⟨t, ht, hpid, hs⟩ := hm.idle
    exact ⟨t, hkeep ht (by rcases hs with hs | hs <;> simp [hs]), hpid, hs⟩
  · intro j t ht
    rw [hcurrent]
    exact hm.running _ _ (hsub ht)
  · exact fun j t ht => hm.waiting _ _ (hsub ht)
  · rw [hcount, hm.count]
    refine Slots.count_congr fun j => ?_
    rcases htasks j with h | ⟨h, t, ht, hz⟩
    · rw [h]
    · simp [h, ht, Task.runnable, hz]
  · intro e ep pid hep
    rw [hends] at hep
    rw [hm.receiver e ep pid hep]
    refine and_congr_right fun _ => ⟨?_, ?_⟩
    · rintro ⟨j, t, ht, rfl, hs, hw⟩
      exact ⟨j, t, hkeep ht (by simp [hs]), rfl, hs, hw⟩
    · rintro ⟨j, t, ht, rfl, haw⟩
      exact ⟨j, t, hsub ht, rfl, haw⟩

/-! ### Choosing the next task -/

/-- Without a running task the current pid does not matter. -/
lemma Core.setCurrent (hm : Core m) (hno : NoRunning m) (current : Option ℕ) :
    Core { m with currentPid := current } where
  unique := hm.unique
  idle := hm.idle
  running i t ht hrun := absurd hrun (hno i t ht)
  waiting := hm.waiting
  count := hm.count
  receiver := hm.receiver

/-- The chosen task runs. -/
lemma Core.runSlot (hm : Core m) (hno : NoRunning m) {a : Task} (ha : m.tasks i = some a)
    (hready : a.state = .ready) : Core (m.runSlot i) ∧ (m.runSlot i).RunsIn i := by
  have hcurrent : (m.runSlot i).currentPid = some a.pid := by simp [TaskManager.runSlot, ha]
  have htasks : (m.runSlot i).tasks = m.tasks.set i (some { a with state := .running }) :=
    tasks_updateTask ha
  have hwait := hm.waiting i a ha
  constructor
  · refine (hm.setCurrent hno (some a.pid)).replace ha (b := { a with state := .running }) rfl
      htasks hcurrent (fun _ => rfl) ?_ (fun _ => Or.inr rfl) ?_ ?_
    · rw [hready] at hwait
      simpa using hwait
    · have hcount : (m.runSlot i).runnableCount = m.runnableCount := rfl
      simp [hcount, Task.runnable, hready]
    · refine hm.receiver_replace ha (b := { a with state := .running }) rfl htasks rfl ?_
      simp [Task.awaits, hready]
  · exact ⟨{ a with state := .running }, by rw [htasks, Slots.set_self], hcurrent, rfl⟩

/-- There is always a task to choose: the idle task when no other one is ready. -/
lemma Core.choose (hm : Core m) (hno : NoRunning m) (order : List (Fin maxTasks)) :
    ∃ i a, m.choose order = some i ∧ m.tasks i = some a ∧ a.state = .ready := by
  unfold TaskManager.choose
  cases h : m.tasks.search order selectable with
  | some i =>
    obtain ⟨a, ha, hsel⟩ := Slots.search_eq_some h
    simp only [selectable, Bool.and_eq_true, decide_eq_true_eq] at hsel
    exact ⟨i, a, rfl, ha, hsel.2⟩
  | none =>
    obtain ⟨t, ht, hpid, hs⟩ := hm.idle
    have hfind := hm.findPid_eq ht
    rw [hpid] at hfind
    exact ⟨_, t, hfind, ht, hs.resolve_right (hno _ _ ht)⟩

/-- The detached zombies are freed. -/
lemma Core.reaped (hm : Core m) : Core m.reaped := by
  refine hm.free (fun j => ?_) rfl rfl rfl
  cases h : m.tasks j with
  | none => exact Or.inl (by simp [TaskManager.reaped, h])
  | some t =>
    by_cases hd : detached m.currentPid t = true
    · refine Or.inr ⟨by simp [TaskManager.reaped, h, hd], t, rfl, ?_⟩
      simp only [detached, Bool.and_eq_true, decide_eq_true_eq] at hd
      exact hd.1.1
    · exact Or.inl (by simp [TaskManager.reaped, h, hd])

/-- The current task stops running. -/
lemma Core.preempt (hm : Core m) (tf : TrapFrame) :
    Core (m.preempt tf) ∧ NoRunning (m.preempt tf) := by
  unfold TaskManager.preempt
  cases h : m.currentIndex with
  | none =>
    refine ⟨hm, fun j t ht hrun => ?_⟩
    rw [hm.currentIndex_eq ht (hm.running j t ht hrun)] at h
    simp at h
  | some j =>
    obtain ⟨a, ha, hpid⟩ := currentIndex_eq_some h
    let b : Task := { a with
      trapFrame := tf, state := if a.state = .running then .ready else a.state }
    have htasks : (m.updateTask j fun t => { t with
        trapFrame := tf, state := if t.state = .running then .ready else t.state }).tasks =
        m.tasks.set j (some b) := tasks_updateTask ha
    constructor
    · refine hm.replace ha (b := b) rfl htasks rfl (by grind) ?_ ?_ ?_ ?_
      · have := hm.waiting j a ha
        grind
      · intro hidle
        have := (hm.idle_of_pid ha hidle).2
        grind
      · have hb : b.runnable = a.runnable := by
          simp only [Task.runnable]
          grind
        rw [hb]
        rfl
      · refine hm.receiver_replace ha (b := b) rfl htasks rfl fun e => ?_
        simp only [Task.awaits]
        grind
    · intro l t ht hrun
      rcases tasks_of_set htasks ht with ⟨rfl, rfl⟩ | ⟨hl, ht⟩
      · grind
      · have hcur := hm.running l t ht hrun
        rw [hm.currentIndex_eq ht hcur, Option.some.injEq] at h
        exact hl h

/-- `schedule` selects a task, which runs. -/
lemma Core.resched (hm : Core m) (tf : TrapFrame) :
    Core (m.resched tf) ∧ ∃ i, m.scheduled tf = some i ∧ (m.resched tf).RunsIn i := by
  obtain ⟨hcore, hno⟩ := hm.reaped.preempt tf
  obtain ⟨i, a, hchoose, ha, hready⟩ := hcore.choose hno (m.reaped.preempt tf).visitOrder
  have hscheduled : m.scheduled tf = some i := hchoose
  have hresched : m.resched tf = (m.reaped.preempt tf).runSlot i := by
    rw [TaskManager.resched, hscheduled]
    rfl
  obtain ⟨hrun, hin⟩ := hcore.runSlot hno ha hready
  rw [hresched]
  exact ⟨hrun, i, hscheduled, hin⟩

end Operations

end TaskManager

end NekOS
