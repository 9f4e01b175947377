import NekOS.Scheduling.Reachable

/-!
# What happens to a task that is not on the hart

A task that is not on the hart is changed by the others only.  `Fate` lists what one effect can do
to it: it rests, or it is woken with the result of its system call in its frame, or a failing reply
writes its frame, or it is a zombie and is freed.
-/

namespace NekOS

namespace TaskManager

variable {m m' : TaskManager} {i j : Fin maxTasks} {a : Task}

/-- The task keeps its registers and its place in the scheduler, except that it may be chosen to
run, and that it loses its parent when that is the current task. -/
structure Rests (current : Option ℕ) (a b : Task) : Prop where
  pid : b.pid = a.pid
  waitingFor : b.waitingFor = a.waitingFor
  trapFrame : b.trapFrame = a.trapFrame
  exitCode : b.exitCode = a.exitCode
  state : b.state = a.state ∨ (a.state = .ready ∧ b.state = .running)
  parentPid : b.parentPid = a.parentPid ∨ (b.parentPid = none ∧ a.parentPid = current)

/-- What one effect does to a task that is not the current one. -/
inductive Fate (m m' : TaskManager) (j : Fin maxTasks) (a : Task) : Label → Prop
  /-- It is a zombie and is freed: no one will wait for it, or its parent waits for it now. -/
  | freed {label : Label} : m'.tasks j = none → a.state = .zombie →
      (a.parentPid = none ∨ m.Reaps a) → Fate m m' j a label
  /-- It rests. -/
  | rests {b : Task} {label : Label} : m'.tasks j = some b → Rests m.currentPid a b →
      Fate m m' j a label
  /-- Its child exits. -/
  | exitCode {b : Task} {code : ℤ} : a.state = .sleeping →
      a.waitingFor = m.currentPid.map .child → m.Exits code → m'.tasks j = some b →
      Rests m.currentPid (a.woken fun fr => { fr with a0 := asUsize code }) b →
      Fate m m' j a .silent
  /-- The UART has input. -/
  | input {b : Task} : a.state = .sleeping → a.waitingFor = some .uartRx → m'.tasks j = some b →
      Rests m.currentPid (a.woken fun fr => { fr with a0 := 0 }) b → Fate m m' j a .silent
  /-- A message is handed to it. -/
  | message {b : Task} {e : Fin maxEndpoints} {ep : Endpoint} {sender : ℕ} {words : Words}
      {payload : List UInt8} {g : TrapFrame → TrapFrame} : m.endpoints e = some ep →
      ep.receiverWaiting = true → a.pid = ep.owner → a.awaits e → m.HandsOver sender words g →
      m'.tasks j = some b → Rests m.currentPid (a.woken g) b →
      Fate m m' j a (.call e sender words payload)
  /-- The owner of the endpoint it has called replies. -/
  | answer {b : Task} {e : Fin maxEndpoints} {ep : Endpoint} {call : Sysno}
      {g : TrapFrame → TrapFrame} : a.state = .sleeping → a.waitingFor = some (.ipcCall e) →
      m.endpoints e = some ep → m.currentPid = some ep.owner → m.Answers call a.pid a g →
      m'.tasks j = some b → Rests m.currentPid (a.woken g) b → Fate m m' j a (.reply a.pid)
  /-- A reply to it fails. -/
  | scribble {b : Task} {e : Fin maxEndpoints} {ep : Endpoint} {g : TrapFrame → TrapFrame} :
      a.state = .sleeping → a.waitingFor = some (.ipcCall e) → m.endpoints e = some ep →
      m.currentPid = some ep.owner → m.Answers .ipcReplyBuf a.pid a g → m'.tasks j = some b →
      Rests m.currentPid { a with trapFrame := g a.trapFrame } b → Fate m m' j a .silent

/-! ### Resting -/

/-- A task that is not touched rests. -/
lemma Rests.refl (current : Option ℕ) (a : Task) : Rests current a a :=
  ⟨rfl, rfl, rfl, rfl, Or.inl rfl, Or.inl rfl⟩

/-- Resting twice. -/
lemma Rests.trans {current : Option ℕ} {b c : Task} (h₁ : Rests current a b)
    (h₂ : Rests current b c) : Rests current a c where
  pid := h₂.pid.trans h₁.pid
  waitingFor := h₂.waitingFor.trans h₁.waitingFor
  trapFrame := h₂.trapFrame.trans h₁.trapFrame
  exitCode := h₂.exitCode.trans h₁.exitCode
  state := by
    have hab := h₁.state
    have hbc := h₂.state
    grind
  parentPid := by
    have hab := h₁.parentPid
    have hbc := h₂.parentPid
    grind

/-- The other slots keep their tasks. -/
lemma tasks_updateTask_of_ne {l : Fin maxTasks} (hj : j ≠ l) (f : Task → Task) :
    (m.updateTask l f).tasks j = m.tasks j :=
  Slots.set_of_ne hj _

/-- The other slots keep their tasks when one blocks. -/
lemma tasks_block_of_ne {l : Fin maxTasks} (hj : j ≠ l) (channel : WaitChannel) (tf : TrapFrame) :
    (m.block l channel tf).tasks j = m.tasks j :=
  Slots.set_of_ne hj _

/-- The other slots keep their tasks when one is woken. -/
lemma tasks_wake_of_ne {l : Fin maxTasks} (hj : j ≠ l) (g : TrapFrame → TrapFrame) :
    (m.wake l g).tasks j = m.tasks j :=
  Slots.set_of_ne hj _

/-- A task that starts to run rests. -/
lemma rests_runSlot {n : Fin maxTasks} (ha : m.tasks j = some a)
    (hready : ∀ c, m.tasks n = some c → c.state = .ready) (current : Option ℕ) :
    ∃ b, (m.runSlot n).tasks j = some b ∧ Rests current a b := by
  by_cases hj : j = n
  · subst hj
    exact ⟨{ a with state := .running }, by
      rw [show (m.runSlot j).tasks = _ from tasks_updateTask ha, Slots.set_self],
      rfl, rfl, rfl, rfl, Or.inr ⟨hready a ha, rfl⟩, Or.inl rfl⟩
  · exact ⟨a, (tasks_updateTask_of_ne hj _).trans ha, .refl current a⟩

/-- What `schedule` does to a task that is not the current one. -/
lemma Core.rests_resched (hm : Core m) (ha : m.tasks j = some a)
    (hcur : some a.pid ≠ m.currentPid) (tf : TrapFrame) (current : Option ℕ) :
    ((m.resched tf).tasks j = none ∧ a.state = .zombie ∧ a.parentPid = none) ∨
      ∃ b, (m.resched tf).tasks j = some b ∧ Rests current a b := by
  obtain ⟨hcore, hno⟩ := hm.reaped.preempt tf
  obtain ⟨n, c, hchoose, hc, hready⟩ := hcore.choose hno (m.reaped.preempt tf).visitOrder
  have hresched : m.resched tf = (m.reaped.preempt tf).runSlot n := by
    rw [TaskManager.resched, scheduled, hchoose]
    rfl
  have hready' : ∀ d, (m.reaped.preempt tf).tasks n = some d → d.state = .ready := fun d hd => by
    obtain rfl := Option.some.inj (hc.symm.trans hd)
    exact hready
  have hpreempt : (m.reaped.preempt tf).tasks j = m.reaped.tasks j := by
    unfold TaskManager.preempt
    cases hl : m.reaped.currentIndex with
    | none => rfl
    | some l =>
      obtain ⟨u, hu, hpid⟩ := currentIndex_eq_some hl
      refine tasks_updateTask_of_ne ?_ _
      rintro rfl
      have hkept : m.reaped.tasks j = (m.tasks j).filter fun t => !detached m.currentPid t := rfl
      rw [hkept, ha, Option.filter_eq_some_iff] at hu
      obtain rfl := Option.some.inj hu.1
      exact hcur hpid.symm
  by_cases hd : detached m.currentPid a = true
  · left
    have hnone : (m.reaped.preempt tf).tasks j = none := by
      rw [hpreempt]
      simp [TaskManager.reaped, ha, hd]
    have hj : j ≠ n := by
      rintro rfl
      rw [hnone] at hc
      cases hc
    simp only [detached, Bool.and_eq_true, decide_eq_true_eq, Option.isNone_iff_eq_none] at hd
    exact ⟨by rw [hresched]; exact (tasks_updateTask_of_ne hj _).trans hnone, hd.1.1, hd.1.2⟩
  · right
    have hsome : (m.reaped.preempt tf).tasks j = some a := by
      rw [hpreempt]
      simp [TaskManager.reaped, ha, hd]
    rw [hresched]
    exact rests_runSlot hsome hready' current

/-! ### Exit -/

/-- The exit of the current task hands its exit code to its parent: `waiting` of `exit_current`. -/
def handsOver (m : TaskManager) (t : Task) : Bool :=
  t.parentPid.any fun p => ((m.findPid p).bind m.tasks).any fun u =>
    decide (u.state = .sleeping) && decide (u.waitingFor = some (.child t.pid))

/-- The exit of a task orphans its children. -/
lemma tasks_bury (ha : m.tasks j = some a) (hj : j ≠ i) (code : ℤ) :
    (m.bury i code).tasks j = some (a.orphaned ((m.tasks i).map Task.pid)) := by
  have h : (m.updateTask i (Task.buried code)).decRunnable.tasks j = some a := by
    simp [decRunnable, updateTask, setTask, Slots.set_of_ne hj, ha]
  change Option.map (Task.orphaned _)
    ((m.updateTask i (Task.buried code)).decRunnable.tasks j) = _
  rw [h]
  rfl

/-- A search for a pid depends on the pids alone. -/
lemma findPid_congr (h : ∀ j, (m'.tasks j).map Task.pid = (m.tasks j).map Task.pid) (pid : ℕ) :
    m'.findPid pid = m.findPid pid := by
  unfold findPid Slots.position Slots.search
  congr 1
  funext j
  have hj := h j
  cases hm' : m'.tasks j <;> cases hm : m.tasks j <;> simp_all

/-- The table after the current task has become a zombie and its children orphans. -/
lemma tasks_bury_eq {a : Task} (ha : m.tasks i = some a) (code : ℤ) (j : Fin maxTasks) :
    (m.bury i code).tasks j = (m.tasks j).map fun t =>
      (if j = i then t.buried code else t).orphaned (some a.pid) := by
  by_cases hj : j = i
  · subst hj
    simp [bury, decRunnable, updateTask, setTask, ha, Task.orphaned, Task.buried]
  · cases ht : m.tasks j with
    | none => simp [bury, decRunnable, updateTask, setTask, Slots.set_of_ne hj, ht]
    | some t => simp [tasks_bury ht hj, ha, hj]

/-- What losing the parent does to a task. -/
lemma orphaned_spec (pid : ℕ) (t : Task) : (t.orphaned (some pid)).pid = t.pid ∧
    (t.orphaned (some pid)).parentPid = (if t.parentPid = some pid then none else t.parentPid) ∧
    (t.orphaned (some pid)).state = t.state ∧
    (t.orphaned (some pid)).waitingFor = t.waitingFor := by
  unfold Task.orphaned
  split <;> simp_all

/-- A task that loses its parent rests. -/
lemma rests_orphaned (pid : ℕ) (t : Task) : Rests (some pid) t (t.orphaned (some pid)) := by
  unfold Task.orphaned
  split
  · next h => exact ⟨rfl, rfl, rfl, rfl, Or.inl rfl, Or.inr ⟨rfl, h⟩⟩
  · exact .refl _ t

/-- The table after the exit code has been handed to the waiting parent. -/
lemma Core.notifyParent_eq (hm : Core m) {a : Task} (ha : m.tasks i = some a)
    (hrun : a.state = .running) {p : ℕ} (hp : a.parentPid = some p) (code : ℤ) :
    (m.handsOver a = false ∧
      (m.bury i code).notifyParent a.pid p code = m.bury i code) ∨
    ∃ q u, m.handsOver a = true ∧ m.tasks q = some u ∧ u.pid = p ∧ q ≠ i ∧
      (m.bury i code).notifyParent a.pid p code =
        (((m.bury i code).wake q fun tf => { tf with a0 := asUsize code }).updateTask i
          fun t => { t with parentPid := none }) := by
  have hpids : ∀ j, ((m.bury i code).tasks j).map Task.pid = (m.tasks j).map Task.pid := fun j => by
    rw [tasks_bury_eq ha, Option.map_map]
    refine congrArg (fun f => Option.map f _) (funext fun t => ?_)
    simp only [Function.comp_apply, (orphaned_spec _ _).1]
    split <;> rfl
  have hfind := findPid_congr hpids
  unfold TaskManager.notifyParent
  rw [hfind]
  cases hq : m.findPid p with
  | none => exact Or.inl ⟨by simp [handsOver, hp, hq], rfl⟩
  | some q =>
    obtain ⟨u, hu, hpid⟩ := findPid_eq_some hq
    have hany : ((m.bury i code).tasks q).any (fun t => decide (t.state = .sleeping) &&
        decide (t.waitingFor = some (.child a.pid))) = m.handsOver a := by
      rw [tasks_bury_eq ha, hu]
      obtain ⟨-, -, hstate, hwait⟩ :=
        orphaned_spec a.pid (if q = i then u.buried code else u)
      simp only [Option.map_some, Option.any_some, hstate, hwait, handsOver, hp, hq,
        Option.bind_some, hu]
      by_cases hqi : q = i
      · subst hqi
        obtain rfl := Option.some.inj (ha.symm.trans hu)
        simp [Task.buried, hrun]
      · simp [hqi]
    dsimp only
    rw [hany]
    cases hands : m.handsOver a with
    | false => exact Or.inl ⟨rfl, by simp⟩
    | true =>
      have hqi : q ≠ i := by
        rintro rfl
        obtain rfl := Option.some.inj (ha.symm.trans hu)
        simp [handsOver, hp, hq, hu, hrun] at hands
      have hself : ((m.bury i code).wake q fun tf => { tf with a0 := asUsize code }).findPid a.pid =
          some i := by
        rw [findPid_congr (m := m) (fun j => ?_), hm.findPid_eq ha]
        rw [← hpids j]
        by_cases hj : j = q
        · subst hj
          simp [TaskManager.wake, incRunnable, updateTask, setTask, Option.map_map,
            Function.comp_def]
        · rw [tasks_wake_of_ne hj]
      exact Or.inr ⟨q, u, rfl, hu, hpid, hqi, by simp [hself]⟩

/-- The exit of the current task, with or without a parent to wake. -/
lemma Core.retire_eq (hm : Core m) (hi : m.RunsIn i) {a : Task} (ha : m.tasks i = some a)
    (code : ℤ) : (m.handsOver a = false ∧ m.retire code = m.bury i code) ∨
    ∃ q u, m.handsOver a = true ∧ m.tasks q = some u ∧ a.parentPid = some u.pid ∧ q ≠ i ∧
      m.retire code = ((m.bury i code).wake q fun tf => { tf with a0 := asUsize code }).updateTask i
        fun t => { t with parentPid := none } := by
  obtain ⟨a', ha', hcur, hrun⟩ := hi
  obtain rfl := Option.some.inj (ha.symm.trans ha')
  simp only [TaskManager.retire, hm.currentIndex_eq ha hcur, ha]
  obtain hp | ⟨p, hp⟩ := Option.eq_none_or_eq_some a.parentPid
  · exact Or.inl ⟨by simp [handsOver, hp], by simp only [hp]⟩
  · simp only [hp]
    rcases hm.notifyParent_eq ha hrun hp code with h | ⟨q, u, hyes, hu, rfl, hqi, heq⟩
    · exact Or.inl h
    · exact Or.inr ⟨q, u, hyes, hu, rfl, hqi, heq⟩

/-- What the exit of the current task does to another one. -/
lemma Core.fate_retire (hm : Core m) (hi : m.RunsIn i) (hj : j ≠ i) (ha : m.tasks j = some a)
    (code : ℤ) : ∃ b, (m.retire code).tasks j = some b ∧ (Rests m.currentPid a b ∨
      a.state = .sleeping ∧ a.waitingFor = m.currentPid.map .child ∧
        Rests m.currentPid (a.woken fun fr => { fr with a0 := asUsize code }) b) := by
  obtain ⟨c, hc, hcur, -⟩ := id hi
  have hbury : (m.bury i code).tasks j = some (a.orphaned (some c.pid)) := by
    rw [tasks_bury ha hj, hc]
    rfl
  have hrests : Rests m.currentPid a (a.orphaned (some c.pid)) := hcur ▸ rests_orphaned c.pid a
  rcases hm.retire_eq hi hc code with ⟨-, heq⟩ | ⟨q, u, hands, hu, hparent, hqi, heq⟩
  · exact ⟨_, by rw [heq, hbury], Or.inl hrests⟩
  · rw [heq, tasks_updateTask_of_ne hj]
    by_cases hjq : j = q
    · subst hjq
      obtain rfl := Option.some.inj (ha.symm.trans hu)
      have hfind : m.findPid a.pid = some j := hm.findPid_eq ha
      simp only [handsOver, hparent, Option.any_some, hfind, Option.bind_some, ha,
        Bool.and_eq_true, decide_eq_true_eq] at hands
      refine ⟨_, by rw [tasks_wake hbury, Slots.set_self], Or.inr ⟨hands.1, ?_, ?_⟩⟩
      · rw [hands.2, hcur]
        rfl
      · exact ⟨hrests.pid, rfl, by rw [Task.woken, Task.woken, hrests.trapFrame], hrests.exitCode,
          Or.inl rfl, hrests.parentPid⟩
    · exact ⟨_, by rw [tasks_wake_of_ne hjq, hbury], Or.inl hrests⟩

/-! ### The UART -/

/-- What the UART does to a task. -/
lemma fate_wakeUart (ha : m.tasks j = some a) : m.wakeUart.tasks j = some a ∨
    a.state = .sleeping ∧ a.waitingFor = some .uartRx ∧
      m.wakeUart.tasks j = some (a.woken fun fr => { fr with a0 := 0 }) := by
  unfold TaskManager.wakeUart
  induction List.finRange maxTasks generalizing m a with
  | nil => exact Or.inl ha
  | cons l slots ih =>
    rw [List.foldl_cons]
    unfold wakeUartSlot
    split
    · rename_i hwake
      by_cases hj : j = l
      · subst hj
        simp only [ha, Option.any_some, Bool.and_eq_true, decide_eq_true_eq] at hwake
        have hwoken : (m.wake j fun fr => { fr with a0 := 0 }).tasks j =
            some (a.woken fun fr => { fr with a0 := 0 }) := by
          rw [tasks_wake ha, Slots.set_self]
        rcases ih hwoken with h | ⟨hs, -, -⟩
        · exact Or.inr ⟨hwake.1, hwake.2, h⟩
        · cases hs
      · exact ih (by rw [tasks_wake_of_ne hj, ha])
    · exact ih ha

/-- The UART does not change the current task. -/
lemma currentPid_wakeUart (m : TaskManager) : m.wakeUart.currentPid = m.currentPid := by
  unfold TaskManager.wakeUart
  induction List.finRange maxTasks generalizing m with
  | nil => rfl
  | cons l slots ih =>
    rw [List.foldl_cons, ih]
    unfold wakeUartSlot
    split <;> rfl

/-! ### Effects -/

/-- A task that another one leaves alone before `schedule`. -/
lemma Core.fate_resched {n : TaskManager} (hn : Core n) (ha : n.tasks j = some a)
    (hcur : some a.pid ≠ n.currentPid) (tf : TrapFrame) (label : Label) :
    Fate m (n.resched tf) j a label := by
  rcases hn.rests_resched ha hcur tf m.currentPid with ⟨hnone, hz, hp⟩ | ⟨b, hb, hrests⟩
  · exact .freed hnone hz (Or.inl hp)
  · exact .rests hb hrests

/-- A task that has been woken before `schedule` is not freed by it. -/
lemma Core.woken_resched {n : TaskManager} (hn : Core n) {g : TrapFrame → TrapFrame}
    (ha : n.tasks j = some (a.woken g)) (hcur : some a.pid ≠ n.currentPid) (tf : TrapFrame)
    (current : Option ℕ) :
    ∃ b, (n.resched tf).tasks j = some b ∧ Rests current (a.woken g) b := by
  rcases hn.rests_resched ha hcur tf current with ⟨-, hz, -⟩ | h
  · cases hz
  · exact h

/-- **Inversion.**  What an effect does to a task that is not the current one. -/
theorem Effect.fate (hm : Core m) (hi : m.RunsIn i) {label : Label} {next : FramePtr}
    (h : Effect m label next m') (hj : j ≠ i) (ha : m.tasks j = some a) :
    Fate m m' j a label := by
  obtain ⟨c, hc, hcur, hrun⟩ := id hi
  have hpid : some a.pid ≠ m.currentPid := fun heq => by
    rw [hcur, Option.some.injEq] at heq
    exact hj (hm.unique _ _ _ _ ha hc heq)
  have hnotIdle : m.currentPid ≠ some idlePid → c.pid ≠ idlePid := fun h hc =>
    h (by rw [hcur, hc])
  have hsame : ∀ {n : TaskManager} {label : Label}, n.tasks j = some a → Fate m n j a label :=
    fun h => .rests h (.refl _ a)
  cases h with
  | touch h =>
    rcases h with rfl | ⟨l, f, -, hcurrent, rfl⟩
    · exact hsame ha
    · have hl : j ≠ l := by
        rintro rfl
        exact hpid (hcurrent a ha)
      exact hsame ((tasks_updateTask_of_ne hl f).trans ha)
  | bump => exact hsame ha
  | @create slot t hfree =>
    have hl : j ≠ slot := by
      rintro rfl
      rw [ha] at hfree
      cases hfree
    exact hsame ((Slots.set_of_ne hl _).trans ha)
  | @reap l child hchild hz hreaps =>
    by_cases hl : j = l
    · subst hl
      obtain rfl := Option.some.inj (ha.symm.trans hchild)
      exact .freed (Slots.set_self ..) hz (Or.inr hreaps)
    · exact hsame ((Slots.set_of_ne hl _).trans ha)
  | yield tf => exact hm.fate_resched ha hpid tf _
  | uart tf =>
    have hcurrent : some a.pid ≠ m.wakeUart.currentPid := by rwa [currentPid_wakeUart]
    rcases fate_wakeUart ha with hkept | ⟨hs, hwait, hwoken⟩
    · exact hm.wakeUart.fate_resched hkept hcurrent tf _
    · obtain ⟨b, hb, hrests⟩ := hm.wakeUart.woken_resched hwoken hcurrent tf m.currentPid
      exact .input hs hwait hb hrests
  | @sleep l channel tf hidle hl hch =>
    obtain rfl := hm.current_eq hi hl
    have hcore := hm.block hc hrun (hnotIdle hidle) (fun e => (hch.not_ipc e).2) tf
    exact hcore.fate_resched (by rw [tasks_block_of_ne hj, ha]) hpid tf _
  | @exit next code hidle hchoose hexits =>
    obtain ⟨hcore, hno⟩ := hm.retire hi hidle code
    obtain ⟨n, d, hn, hd, hready⟩ :=
      (hcore.setCurrent hno none).choose hno (List.finRange maxTasks)
    obtain rfl := Option.some.inj (hchoose.symm.trans hn)
    have hready' : ∀ e, (m.retire code).tasks next = some e → e.state = .ready := fun e he => by
      obtain rfl := Option.some.inj (hd.symm.trans he)
      exact hready
    obtain ⟨b, hb, hfate⟩ := hm.fate_retire hi hj ha code
    obtain ⟨b', hb', hrests⟩ := rests_runSlot (m := { m.retire code with currentPid := none })
      hb hready' m.currentPid
    rcases hfate with h | ⟨hs, hwait, h⟩
    · exact .rests hb' (h.trans hrests)
    · exact .exitCode hs hwait hexits hb' (h.trans hrests)
  | stage => exact hsame ha
  | @callQueued sender e ep l f words payload tf hidle hsender hl _ _ _ _ hf _ =>
    obtain rfl := hm.current_eq hi (j := l) (by rw [currentIndex, hsender]; exact hl)
    have hcore := (hm.blockCall hi hidle e hf.1 tf).enqueue e ⟨sender, words, payload.length⟩
    have hkept : (((m.updateEndpoint e f).block l (.ipcCall e) tf).enqueue e
        ⟨sender, words, payload.length⟩).tasks j = some a :=
      (tasks_block_of_ne (m := m.updateEndpoint e f) hj _ tf).trans ha
    exact hcore.fate_resched hkept hpid tf _
  | @callDirect sender e ep l r f u g words payload tf hidle hsender hl hep _ hwait hr hf hu hg =>
    obtain rfl := hm.current_eq hi (j := l) (by rw [currentIndex, hsender]; exact hl)
    have hcore := hm.blockCall hi hidle e hf.1 tf
    have hend := endpoints_blockCall hep f l (.ipcCall e) tf
    obtain ⟨b, hb, hbpid, haw⟩ := hcore.receiver_found hend
      (by rw [hf.1.receiverWaiting, hwait]) (by rw [hf.1.owner, hr])
    have hdeliver := hcore.deliver hb hend hbpid haw hu g
    have hblocked : ((m.updateEndpoint e f).block l (.ipcCall e) tf).tasks j = some a :=
      (tasks_block_of_ne (m := m.updateEndpoint e f) hj _ tf).trans ha
    by_cases hjr : j = r
    · subst hjr
      obtain rfl := Option.some.inj (hblocked.symm.trans hb)
      have hwoken : ((((m.updateEndpoint e f).block l (.ipcCall e) tf).wake j g).updateEndpoint e
          u).tasks j = some (a.woken g) := by
        change (((m.updateEndpoint e f).block l (.ipcCall e) tf).wake j g).tasks j = _
        rw [tasks_wake hblocked, Slots.set_self]
      obtain ⟨b', hb', hrests⟩ := hdeliver.woken_resched hwoken hpid tf m.currentPid
      exact .message hep hwait (by rw [hbpid, hf.1.owner]) haw hg hb' hrests
    · have hkept : ((((m.updateEndpoint e f).block l (.ipcCall e) tf).wake r g).updateEndpoint e
          u).tasks j = some a := (tasks_wake_of_ne hjr g).trans hblocked
      exact hdeliver.fate_resched hkept hpid tf _
  | recvPop => exact hsame ha
  | @recvBlock e ep l u tf hidle howner hl hep _ hu =>
    obtain rfl := hm.current_eq hi hl
    have heq := Option.some.inj (howner.symm.trans hcur)
    have hcore := hm.blockRecv hc hrun (hnotIdle hidle) hep heq hu tf
    have hkept : ((m.updateEndpoint e u).block l (.ipcRecv e) tf).tasks j = some a :=
      (tasks_block_of_ne (m := m.updateEndpoint e u) hj _ tf).trans ha
    exact hcore.fate_resched hkept hpid tf _
  | @reply replier client index task _ g hreplier htarget hst hanswers =>
    obtain ⟨hfind, htask, endpoint, e, ep, hwait, hep, howner⟩ :=
      Kernel.replyTarget_eq_some htarget
    obtain ⟨rfl, hget⟩ := endpointAt_eq_some.mp hep
    by_cases hl : j = index
    · subst hl
      obtain rfl := Option.some.inj (ha.symm.trans htask)
      obtain ⟨b, hb, rfl⟩ := findPid_eq_some hfind
      obtain rfl := Option.some.inj (ha.symm.trans hb)
      exact .answer hst hwait hget (by rw [hreplier, howner]) hanswers
        (by rw [tasks_wake ha, Slots.set_self]) (.refl _ _)
    · exact hsame ((tasks_wake_of_ne hl _).trans ha)
  | @scribble replier client index task g hreplier htarget hst hanswers =>
    obtain ⟨hfind, htask, endpoint, e, ep, hwait, hep, howner⟩ :=
      Kernel.replyTarget_eq_some htarget
    obtain ⟨rfl, hget⟩ := endpointAt_eq_some.mp hep
    by_cases hl : j = index
    · subst hl
      obtain rfl := Option.some.inj (ha.symm.trans htask)
      obtain ⟨b, hb, rfl⟩ := findPid_eq_some hfind
      obtain rfl := Option.some.inj (ha.symm.trans hb)
      exact .scribble hst hwait hget (by rw [hreplier, howner]) hanswers
        (by rw [tasks_updateTask ha, Slots.set_self]) (.refl _ _)
    · exact hsame ((tasks_updateTask_of_ne hl _).trans ha)

/-- The fate of a task depends on its slot alone. -/
lemma Fate.of_tasks {n' : TaskManager} {label : Label}
    (h : Fate m m' j a label) (htasks : n'.tasks j = m'.tasks j) : Fate m n' j a label := by
  cases h with
  | freed hnone hz hparent => exact .freed (htasks.trans hnone) hz hparent
  | rests hb hrests => exact .rests (htasks.trans hb) hrests
  | exitCode hs hwait hexits hb hrests =>
    exact .exitCode hs hwait hexits (htasks.trans hb) hrests
  | input hs hwait hb hrests => exact .input hs hwait (htasks.trans hb) hrests
  | message hep hwait hpid haw hg hb hrests =>
    exact .message hep hwait hpid haw hg (htasks.trans hb) hrests
  | answer hs hwait hep hcur hanswers hb hrests =>
    exact .answer hs hwait hep hcur hanswers (htasks.trans hb) hrests
  | scribble hs hwait hep hcur hanswers hb hrests =>
    exact .scribble hs hwait hep hcur hanswers (htasks.trans hb) hrests

/-- What an event that is no system call does to a task that is not the current one. -/
theorem Outside.fate (hm : Core m) (hi : m.RunsIn i) {label : Label} {next : FramePtr}
    (h : Outside m label next m') (hj : j ≠ i) (ha : m.tasks j = some a) :
    (m'.tasks j = none ∧ a.state = .zombie ∧ a.parentPid = none) ∨
      ∃ b, m'.tasks j = some b ∧ (Rests m.currentPid a b ∨ a.state = .sleeping ∧
        a.waitingFor = some .uartRx ∧
          Rests m.currentPid (a.woken fun fr => { fr with a0 := 0 }) b) := by
  obtain ⟨c, hc, hcur, -⟩ := id hi
  have hpid : some a.pid ≠ m.currentPid := fun heq => by
    rw [hcur, Option.some.injEq] at heq
    exact hj (hm.unique _ _ _ _ ha hc heq)
  have hresched : ∀ {n : TaskManager} (tf : TrapFrame), Core n → n.tasks j = some a →
      some a.pid ≠ n.currentPid → ((n.resched tf).tasks j = none ∧ a.state = .zombie ∧
        a.parentPid = none) ∨ ∃ b, (n.resched tf).tasks j = some b ∧ Rests m.currentPid a b :=
    fun tf hn hna hne => hn.rests_resched hna hne tf m.currentPid
  cases h with
  | keep => exact Or.inr ⟨a, ha, Or.inl (.refl _ a)⟩
  | @create slot t hfree =>
    have hl : j ≠ slot := by
      rintro rfl
      rw [ha] at hfree
      cases hfree
    exact Or.inr ⟨a, (Slots.set_of_ne hl _).trans ha, Or.inl (.refl _ a)⟩
  | yield tf =>
    rcases hresched tf hm ha hpid with h | ⟨b, hb, hrests⟩
    · exact Or.inl h
    · exact Or.inr ⟨b, hb, Or.inl hrests⟩
  | uart tf =>
    have hne : some a.pid ≠ m.wakeUart.currentPid := by rwa [currentPid_wakeUart]
    rcases fate_wakeUart ha with hkept | ⟨hs, hwait, hwoken⟩
    · rcases hresched tf hm.wakeUart hkept hne with h | ⟨b, hb, hrests⟩
      · exact Or.inl h
      · exact Or.inr ⟨b, hb, Or.inl hrests⟩
    · obtain ⟨b, hb, hrests⟩ := hm.wakeUart.woken_resched hwoken hne tf m.currentPid
      exact Or.inr ⟨b, hb, Or.inr ⟨hs, hwait, hrests⟩⟩

end TaskManager

namespace System

open TaskManager

/-- The frames written around an effect do not matter to the other tasks. -/
lemma StepView.tasks_eq {s t : System} {ev : Event} {m₁ m₂ : TaskManager} {label : Label}
    {next : FramePtr} (h : StepView s ev t m₁ m₂ label next) {j : Fin maxTasks}
    (hj : j ≠ s.hart) : m₁.tasks j = s.kernel.tm.tasks j ∧ t.kernel.tm.tasks j = m₂.tasks j := by
  refine ⟨h.framed.tasks hj, ?_⟩
  rcases h.resumes with ⟨-, htm⟩ | ⟨-, -, hframed⟩
  · rw [htm]
  · exact hframed.tasks hj

/-- What an event does to a task that is not on the hart. -/
lemma StepView.fate {s t : System} {ev : Event} {m₁ m₂ : TaskManager} {label : Label}
    {next : FramePtr} (h : StepView s ev t m₁ m₂ label next) {j : Fin maxTasks} {a : Task}
    (hj : j ≠ s.hart) (ha : s.kernel.tm.tasks j = some a) :
    Fate m₁ t.kernel.tm j a label := by
  obtain ⟨htasks, htasks'⟩ := h.tasks_eq hj
  have hfate : Fate m₁ m₂ j a label := h.effect.fate h.core h.runs hj (htasks.trans ha)
  exact hfate.of_tasks htasks'

/-- What an event that is no system call does to a task that is not on the hart. -/
lemma StepView.fate_outside {s t : System} {ev : Event} {m₁ m₂ : TaskManager} {label : Label}
    {next : FramePtr} (h : StepView s ev t m₁ m₂ label next) (hev : ∀ tf, ev ≠ .ecall tf)
    {j : Fin maxTasks} {a : Task} (hj : j ≠ s.hart) (ha : s.kernel.tm.tasks j = some a) :
    (t.kernel.tm.tasks j = none ∧ a.state = .zombie ∧ a.parentPid = none) ∨
      ∃ b, t.kernel.tm.tasks j = some b ∧ (Rests m₁.currentPid a b ∨ a.state = .sleeping ∧
        a.waitingFor = some .uartRx ∧
          Rests m₁.currentPid (a.woken fun fr => { fr with a0 := 0 }) b) := by
  obtain ⟨htasks, htasks'⟩ := h.tasks_eq hj
  have hout : Outside m₁ label next m₂ := by
    have hent := h.entered
    cases ev with
    | ecall tf => exact absurd rfl (hev tf)
    | _ => exact hent
  rw [htasks']
  exact hout.fate h.core h.runs hj (htasks.trans ha)

end System

end NekOS
