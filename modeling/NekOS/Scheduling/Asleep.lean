import NekOS.Scheduling.Callers

/-!
# How a task falls asleep

A task that sleeps after an effect slept on the same channel before, or it is the current task and
has been put to sleep by the effect (`FallsAsleep`): it waits for a child or the UART, it is the
owner of an endpoint and waits for a message, or its call has been accepted.
-/

namespace NekOS

namespace TaskManager

variable {m m' : TaskManager} {i j : Fin maxTasks}

/-- An effect with the label may put the current task to sleep on the channel. -/
inductive FallsAsleep (m : TaskManager) : Label → WaitChannel → Prop
  /-- It waits for a child or the UART. -/
  | own {channel : WaitChannel} : m.MayAwait channel → FallsAsleep m .silent channel
  /-- It waits for a message. -/
  | recv {e : Fin maxEndpoints} {ep : Endpoint} : m.endpoints e = some ep →
      m.currentPid = some ep.owner → FallsAsleep m .silent (.ipcRecv e)
  /-- It waits for a reply. -/
  | call {e : Fin maxEndpoints} {sender : ℕ} {words : Words} {payload : List UInt8} :
      FallsAsleep m (.call e sender words payload) (.ipcCall e)

/-- A suspended task sleeps on its channel after `schedule`. -/
lemma Suspended.resched {pid : ℕ} {channel : WaitChannel} (hm : Suspended m i pid channel)
    (tf : TrapFrame) {b : Task} (hb : (m.resched tf).tasks i = some b) :
    b.waitingFor = some channel := by
  obtain ⟨a, ha, hpid, hs, hwait⟩ := hm.task
  obtain ⟨c, hc, -, hcwait, -⟩ :=
    hm.core.resched_current ha (by rw [hm.current, hpid]) (by rw [hs]; decide) tf
  obtain rfl := Option.some.inj (hc.symm.trans hb)
  exact hcwait.trans hwait

/-- A task that runs does not fall asleep when it is preempted. -/
lemma Core.resched_awake (hm : Core m) {a : Task} (ha : m.tasks i = some a)
    (hcur : m.currentPid = some a.pid) (hrun : a.state = .running) (tf : TrapFrame) {b : Task}
    (hb : (m.resched tf).tasks i = some b) : b.state ≠ .sleeping := by
  obtain ⟨c, hc, -, -, -, -, hs⟩ := hm.resched_current ha hcur (by rw [hrun]; decide) tf
  obtain rfl := Option.some.inj (hc.symm.trans hb)
  rw [Ne, hs, hrun]
  decide

/-- The current task after its exit does not sleep. -/
lemma Core.retired (hm : Core m) (hi : m.RunsIn i) (code : ℤ) {next : Fin maxTasks} {b : Task}
    (hb : (({ m.retire code with currentPid := none } : TaskManager).runSlot next).tasks i =
      some b) : b.state ≠ .sleeping := by
  obtain ⟨a, ha, hcur, hrun⟩ := id hi
  obtain ⟨u, hu, ⟨hj, -⟩ | ⟨-, -, hz, -⟩⟩ := hm.tasks_retire hi ha code ha
  · exact absurd rfl hj
  · by_cases hn : i = next
    · subst hn
      have hrunning : (({ m.retire code with currentPid := none } : TaskManager).runSlot
          i).tasks i = some { u with state := .running } := by
        refine (congrFun (tasks_updateTask (m := { m.retire code with currentPid := none }) hu)
          i).trans ?_
        exact Slots.set_self ..
      obtain rfl := Option.some.inj (hrunning.symm.trans hb)
      simp
    · have hkept : (({ m.retire code with currentPid := none } : TaskManager).runSlot
          next).tasks i = some u := (tasks_updateTask_of_ne hn _).trans hu
      obtain rfl := Option.some.inj (hkept.symm.trans hb)
      rw [hz]
      decide

/-- A task that sleeps after what another one has done slept before. -/
lemma Fate.asleep {a b : Task} {label : Label} (h : Fate m m' j a label)
    (hb : m'.tasks j = some b) (hs : b.state = .sleeping) :
    b.pid = a.pid ∧ a.state = .sleeping ∧ a.waitingFor = b.waitingFor := by
  have hrests : ∀ {a' c : Task}, m'.tasks j = some c → Rests m.currentPid a' c →
      a'.state = .sleeping ∧ b.pid = a'.pid ∧ b.waitingFor = a'.waitingFor := fun {a' c} hc hr => by
    obtain rfl := Option.some.inj (hc.symm.trans hb)
    refine ⟨?_, hr.pid, hr.waitingFor⟩
    rcases hr.state with hstate | ⟨-, hstate⟩
    · exact hstate.symm.trans hs
    · cases hs.symm.trans hstate
  cases h with
  | freed hnone => cases hnone.symm.trans hb
  | rests hc hr =>
    obtain ⟨hsleep, hpid, hwait⟩ := hrests hc hr
    exact ⟨hpid, hsleep, hwait.symm⟩
  | exitCode _ _ _ hc hr => cases (hrests hc hr).1
  | input _ _ hc hr => cases (hrests hc hr).1
  | message _ _ _ _ _ hc hr => cases (hrests hc hr).1
  | answer _ _ _ _ _ hc hr => cases (hrests hc hr).1
  | scribble _ _ _ _ _ hc hr =>
    obtain ⟨hsleep, hpid, hwait⟩ := hrests hc hr
    exact ⟨hpid, hsleep, hwait.symm⟩

/-- The current task that sleeps after an effect has fallen asleep in it. -/
lemma Effect.asleep_self (hm : Core m) (hi : m.RunsIn i) {label : Label} {next : FramePtr}
    (h : Effect m label next m') {b : Task} (hb : m'.tasks i = some b) (hs : b.state = .sleeping) :
    ∃ channel, b.waitingFor = some channel ∧ FallsAsleep m label channel := by
  obtain ⟨a, ha, hcur, hrun⟩ := id hi
  have hawake : ∀ {c : Task}, c.state = .running → m'.tasks i ≠ some c := fun {c} hc heq => by
    obtain rfl := Option.some.inj (heq.symm.trans hb)
    cases hs.symm.trans hc
  have hother : ∀ {l : Fin maxTasks} {f : Task → Task}, i ≠ l → m'.tasks = (m.updateTask l f).tasks →
      False := fun hl heq => hawake hrun (by rw [heq, tasks_updateTask_of_ne hl, ha])
  cases h with
  | touch h =>
    rcases h with rfl | ⟨l, f, hf, -, rfl⟩
    · exact absurd ha (hawake hrun)
    · by_cases hl : i = l
      · subst hl
        exact absurd (by rw [tasks_updateTask ha, Slots.set_self]) (hawake ((hf a).state.trans hrun))
      · exact (hother hl rfl).elim
  | bump => exact absurd ha (hawake hrun)
  | @create slot t hfree =>
    have hl : i ≠ slot := by
      rintro rfl
      cases hfree.symm.trans ha
    exact absurd ((Slots.set_of_ne hl _).trans ha) (hawake hrun)
  | @reap c child hc hz =>
    have hl : i ≠ c := by
      rintro rfl
      obtain rfl := Option.some.inj (ha.symm.trans hc)
      cases hrun.symm.trans hz
    exact absurd ((Slots.set_of_ne hl _).trans ha) (hawake hrun)
  | yield tf => exact absurd hs (hm.resched_awake ha hcur hrun tf hb)
  | uart tf =>
    have hkept : m.wakeUart.tasks i = some a := by
      rcases fate_wakeUart ha with h | ⟨hsleep, -⟩
      · exact h
      · cases hrun.symm.trans hsleep
    exact absurd hs (hm.wakeUart.resched_awake hkept (by rw [currentPid_wakeUart, hcur]) hrun tf hb)
  | @sleep l channel tf hidle hl hch =>
    obtain rfl := hm.current_eq hi hl
    have hsleep := hm.suspended_block hi hidle (fun e => (hch.not_ipc e).2) hcur tf
    exact ⟨channel, hsleep.resched tf hb, .own hch⟩
  | @exit next code => exact absurd hs (hm.retired hi code hb)
  | stage => exact absurd ha (hawake hrun)
  | @callQueued sender e ep l f words payload tf hidle hsender hl _ _ _ _ hf _ =>
    obtain rfl := hm.current_eq hi (j := l) (by rw [currentIndex, hsender]; exact hl)
    have hsleep := hm.suspended_queued hi hidle hsender e hf.1 tf ⟨sender, words, payload.length⟩
    exact ⟨.ipcCall e, hsleep.resched tf hb, .call⟩
  | @callDirect sender e ep l r f u g words payload tf hidle hsender hl hep _ hwait hr hf hu _ =>
    obtain rfl := hm.current_eq hi (j := l) (by rw [currentIndex, hsender]; exact hl)
    have hsleep := hm.suspended_direct hi hidle hsender hep hwait hf.1 hu tf hr g
    exact ⟨.ipcCall e, hsleep.resched tf hb, .call⟩
  | recvPop => exact absurd ha (hawake hrun)
  | @recvBlock e ep l u tf hidle howner hl hep _ hu =>
    obtain rfl := hm.current_eq hi hl
    have hsleep := hm.suspended_recv hi hidle howner hep rfl hu tf
    exact ⟨.ipcRecv e, hsleep.resched tf hb, .recv hep howner⟩
  | @reply replier client index task _ g _ htarget hst _ =>
    obtain ⟨-, htask, -⟩ := Kernel.replyTarget_eq_some htarget
    refine (hother (l := index) ?_ rfl).elim
    rintro rfl
    obtain rfl := Option.some.inj (ha.symm.trans htask)
    cases hrun.symm.trans hst
  | @scribble replier client index task g _ htarget hst _ =>
    obtain ⟨-, htask, -⟩ := Kernel.replyTarget_eq_some htarget
    refine (hother (l := index) ?_ rfl).elim
    rintro rfl
    obtain rfl := Option.some.inj (ha.symm.trans htask)
    cases hrun.symm.trans hst

/-- **Inversion.**  A task that sleeps after an effect slept before, or it is the current task and has
fallen asleep. -/
theorem Effect.asleep (hm : Core m) (hi : m.RunsIn i) {label : Label} {next : FramePtr}
    (h : Effect m label next m') {b : Task} (hb : m'.tasks j = some b) (hs : b.state = .sleeping) :
    (∃ a, m.tasks j = some a ∧ b.pid = a.pid ∧ a.state = .sleeping ∧
      a.waitingFor = b.waitingFor) ∨
    (some b.pid = m.currentPid ∧ ∃ channel, b.waitingFor = some channel ∧
      FallsAsleep m label channel) := by
  by_cases hj : j = i
  · subst hj
    obtain ⟨a, ha, hcur, -⟩ := id hi
    exact Or.inr ⟨by rw [hcur, h.pid_eq hm hi ha hb], h.asleep_self hm hi hb hs⟩
  · cases ha : m.tasks j with
    | some a =>
      obtain ⟨hpid, hsleep, hwait⟩ := (h.fate hm hi hj ha).asleep hb hs
      exact Or.inl ⟨a, rfl, hpid, hsleep, hwait⟩
    | none =>
      by_cases hlabel : label = .create
      · subst hlabel
        cases h with
        | bump => cases ha.symm.trans hb
        | create _ _ hready =>
          rcases tasks_of_set rfl hb with ⟨-, rfl⟩ | ⟨-, hb⟩
          · cases hready.symm.trans hs
          · cases ha.symm.trans hb
      · obtain ⟨a, ha', -⟩ := h.stems hm hi hlabel j b hb
        cases ha.symm.trans ha'

end TaskManager

end NekOS
