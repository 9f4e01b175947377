import NekOS.Processes.Table
import NekOS.Processes.Turns

/-!
# Exit codes

The exit code of a task reaches its parent.  A `waitpid` for a child that has not exited returns with
the code of the exit call that the child makes later (`waitpid_returns`).  When the child exits first,
it stays as a zombie with its code until its parent waits for it, and goes then
(`exit_code_collected`).
-/

namespace NekOS

namespace TaskManager

variable {m m' : TaskManager} {i : Fin maxTasks}

/-! ### The task that exits -/

/-- What the exit of the current task leaves in its slot. -/
lemma Core.tasks_retire_self (hm : Core m) (hi : m.RunsIn i) {a : Task} (ha : m.tasks i = some a)
    (code : ℤ) : ∃ z, (m.retire code).tasks i = some z ∧ z.pid = a.pid ∧ z.state = .zombie ∧
      z.exitCode = code ∧
      (m.handsOver a = false → a.parentPid ≠ some a.pid → z.parentPid = a.parentPid) := by
  have hbury : (m.bury i code).tasks i = some ((a.buried code).orphaned (some a.pid)) := by
    rw [tasks_bury_eq ha, ha, Option.map_some, if_pos rfl]
  obtain ⟨hpid, hparent, hstate, -⟩ := orphaned_spec a.pid (a.buried code)
  have hcode : ((a.buried code).orphaned (some a.pid)).exitCode = code := by
    unfold Task.orphaned
    split <;> rfl
  rcases hm.retire_eq hi ha code with ⟨-, heq⟩ | ⟨q, u, hyes, -, -, hqi, heq⟩
  · refine ⟨_, by rw [heq, hbury], hpid, hstate, hcode, fun _ hne => ?_⟩
    exact hparent.trans (if_neg hne)
  · refine ⟨{ (a.buried code).orphaned (some a.pid) with parentPid := none }, ?_, hpid, hstate, hcode,
      fun hno => ?_⟩
    · rw [heq, tasks_updateTask ((tasks_wake_of_ne (Ne.symm hqi) _).trans hbury), Slots.set_self]
    · rw [hyes] at hno
      cases hno

/-- The next task that runs is not the one that has exited. -/
lemma Core.tasks_exit (hm : Core m) (hi : m.RunsIn i) (hidle : m.currentPid ≠ some idlePid)
    {code : ℤ} {next : Fin maxTasks}
    (hchoose : ({ m.retire code with currentPid := none } : TaskManager).choose
      (List.finRange maxTasks) = some next) {z : Task} (hz : (m.retire code).tasks i = some z)
    (hzombie : z.state = .zombie) :
    (({ m.retire code with currentPid := none } : TaskManager).runSlot next).tasks i = some z := by
  obtain ⟨hcore, hno⟩ := hm.retire hi hidle code
  obtain ⟨n, d, hn, hd, hready⟩ := (hcore.setCurrent hno none).choose hno (List.finRange maxTasks)
  obtain rfl := Option.some.inj (hchoose.symm.trans hn)
  have hne : i ≠ next := by
    rintro rfl
    obtain rfl : z = d := Option.some.inj (hz.symm.trans hd)
    rw [hready] at hzombie
    cases hzombie
  exact (tasks_updateTask_of_ne hne _).trans hz

/-- Apart from exits no event changes the parent of a task. -/
lemma Outside.parentPid_eq {label : Label} {next : FramePtr} (h : Outside m label next m')
    {j : Fin maxTasks} {a b : Task} (ha : m.tasks j = some a) (hb : m'.tasks j = some b) :
    b.parentPid = a.parentPid := by
  have hkin : Kin m m' → b.parentPid = a.parentPid := fun hk => by
    obtain ⟨c, hc, -, hparent⟩ := hk j b hb
    obtain rfl := Option.some.inj (ha.symm.trans hc)
    exact hparent
  cases h with
  | keep => exact hkin (Calm.of_tasks rfl).kin
  | create hfree =>
    rcases tasks_of_set rfl hb with ⟨rfl, -⟩ | ⟨-, hb⟩
    · rw [ha] at hfree
      cases hfree
    · obtain rfl := Option.some.inj (ha.symm.trans hb)
      rfl
  | yield tf => exact hkin (Calm.resched tf m).kin
  | uart tf => exact hkin ((Calm.wakeUart m).trans (.resched tf _)).kin

/-- An effect of another kind than an exit changes the parent of no task. -/
lemma Effect.parentPid_eq {label : Label} {next : FramePtr} (h : Effect m label next m')
    (hexit : ∀ code, ¬ m.Exits code) {j : Fin maxTasks} {a b : Task} (ha : m.tasks j = some a)
    (hb : m'.tasks j = some b) : b.parentPid = a.parentPid := by
  by_cases hlabel : label = .create
  · subst hlabel
    cases h with
    | bump =>
      obtain rfl := Option.some.inj (ha.symm.trans hb)
      rfl
    | create hfree hpid hready hwait hparent =>
      exact (Outside.create hfree hpid hready hwait hparent).parentPid_eq ha hb
  · obtain ⟨c, hc, -, hparent⟩ :=
      (h.kin hlabel).resolve_right (fun ⟨code, _, hexits, _⟩ => hexit code hexits) j b hb
    obtain rfl := Option.some.inj (ha.symm.trans hc)
    exact hparent

end TaskManager

namespace Kernel

open TaskManager

variable {k k' : Kernel} {i : Fin maxTasks}

/-- `waitpid` fails only when the current task has no child with the pid. -/
lemma waitpid_refused {pid p : ℕ} {tf : TrapFrame} (hm : Core k.tm) (hi : k.tm.RunsIn i)
    (hidle : k.tm.currentPid ≠ some idlePid) (hcur : k.tm.currentPid = some p)
    (hrun : waitpid pid tf k = some (none, k')) {j : Fin maxTasks} {t : Task}
    (ht : k.tm.tasks j = some t) (hpid : t.pid = pid) : t.parentPid ≠ some p := by
  intro hparent
  obtain ⟨c, hc⟩ := Slots.position_isSome
    (p := fun t : Task => decide (t.pid = pid ∧ t.parentPid = some p))
    ht (by simp [hpid, hparent])
  obtain ⟨child, hchild, -⟩ := Slots.position_eq_some hc
  obtain ⟨a, ha, hacur, -⟩ := id hi
  rw [waitpid, readTm_bind, if_neg hidle, hcur, Fallible.ofOption_bind, Option.elim_some, hc,
    Fallible.ofOption_bind, Option.elim_some] at hrun
  obtain ⟨child', hchild', hrun⟩ := Fallible.unwrap_bind_cases hrun
  split at hrun
  · have hnoFail : Fallible.NoFail (onPhys (freeTask child') >>= fun _ =>
        pure (WaitResult.reaped child'.exitCode)) :=
      (noFail_onPhys (noFail_freeTask _)).bind fun _ => .pure _
    rw [onTm_bind] at hrun
    exact hnoFail _ _ hrun
  · have hindex := hm.currentIndex_eq ha hacur
    rw [hindex, Fallible.ofOption_bind, Option.elim_some, onTm_bind] at hrun
    exact (noFail_schedule.bind fun _ => .pure _) _ _ hrun

end Kernel

namespace System

open TaskManager

variable {s t u : System} {ev : Event} {m₁ m₂ : TaskManager} {label : Label} {next : FramePtr}
  {tf fr : TrapFrame} {j : Fin maxTasks} {a : Task} {c pid : ℕ}

/-- The code with which an event ends the task with the pid, when it is the exit call of that
task. -/
def exitOf (c : ℕ) (s : System) : Event → List ℤ
  | .ecall tf =>
    if Sysno.decode tf.a7 = some .exit ∧ s.kernel.tm.currentPid = some c then [asI32 tf.a0] else []
  | _ => []

/-- The task in the slot sleeps until the child exits, with the registers `fr` in its frame. -/
def AwaitsExit (c pid : ℕ) (fr : TrapFrame) (j : Fin maxTasks) (s : System) : Prop :=
  ∃ a, s.kernel.tm.tasks j = some a ∧ a.SleepsAt pid (.child c) fr

/-- The task in the slot has been told the exit code. -/
def HasExitCode (code : ℤ) (pid : ℕ) (fr : TrapFrame) (j : Fin maxTasks) (s : System) : Prop :=
  ∃ a, s.kernel.tm.tasks j = some a ∧ a.pid = pid ∧ a.state ≠ .sleeping ∧ a.state ≠ .zombie ∧
    a.trapFrame = { fr with a0 := asUsize code }

/-! ### The step of an exit -/

/-- The tasks when the handler of a system call starts. -/
lemma tasks_entry (s : System) (tf : TrapFrame) (j : Fin maxTasks) : (s.entry tf).tm.tasks j =
    (s.kernel.tm.tasks j).map fun t => if j = s.hart then { t with trapFrame := tf } else t := by
  by_cases hj : j = s.hart
  · subst hj
    simp [System.entry, storeFrame, updateTask, setTask]
  · simp only [hj, if_false, Option.map_id']
    exact tasks_updateTask_of_ne hj _

/-- What an exit leaves in the slot of the task that makes it: a zombie with the code, which keeps
its parent unless that has been told the code. -/
lemma Scheduled.exited (hs : s.Scheduled) (hstep : s.step (.ecall tf) = some t)
    (hcall : Sysno.decode tf.a7 = some .exit) (ha : s.kernel.tm.tasks s.hart = some a) :
    ∃ z, t.kernel.tm.tasks s.hart = some z ∧ z.pid = a.pid ∧ z.state = .zombie ∧
      z.exitCode = asI32 tf.a0 ∧
      ((s.entry tf).tm.handsOver { a with trapFrame := tf } = false → a.parentPid ≠ some a.pid →
        z.parentPid = a.parentPid) := by
  simp only [step] at hstep
  by_cases huser : s.inUser = true
  · rw [if_pos huser] at hstep
    obtain ⟨next, tf', k', hrun, rfl, -⟩ := trap_resumes hstep
    change Kernel.handle tf (s.entry tf) = some (some (next, tf'), k') at hrun
    obtain ⟨hcore, hruns⟩ := hs.entry tf
    have hidle : (s.entry tf).tm.currentPid ≠ some idlePid := hs.onHart.user huser
    have ha' : (s.entry tf).tm.tasks s.hart = some { a with trapFrame := tf } := by
      simp [tasks_entry, ha]
    simp only [Kernel.handle, hcall] at hrun
    rcases Fallible.bind_eq_some.mp hrun with ⟨next', k₁, hexit, hret⟩
    obtain ⟨⟨rfl, -⟩, rfl⟩ := by simpa using hret
    rcases Kernel.exitCurrent_cases hexit with ⟨hpid, -⟩ | ⟨-, n, hn, hchoose, rfl⟩
    · exact absurd hpid hidle
    obtain rfl := Option.some.inj hn
    obtain ⟨z, hz, hpid, hzombie, hcode, hparent⟩ :=
      hcore.tasks_retire_self hruns ha' (asI32 tf.a0)
    exact ⟨z, hcore.tasks_exit hruns hidle hchoose hz hzombie, hpid, hzombie, hcode, hparent⟩
  · simp [huser] at hstep

/-- Only an exit call ends a task. -/
lemma StepView.exits (h : StepView s ev t m₁ m₂ label next) (hs : s.Scheduled)
    (hev : ∃ tf, ev = .ecall tf) {code : ℤ} (hexits : m₁.Exits code)
    (hcur : m₁.currentPid = some c) : exitOf c s ev = [code] := by
  obtain ⟨tf, rfl⟩ := hev
  obtain ⟨fr, hcall, rfl⟩ := hexits
  have hentered : m₁ = (s.entry tf).tm := h.entered
  rw [hentered] at hcall hcur
  obtain ⟨rfl, hdecode⟩ := hs.inCall hcall
  exact if_pos ⟨hdecode, hcur⟩

/-- **Step lemma.**  A task that sleeps until its child exits sleeps on, or the child exits and the
task is told the code. -/
lemma StepView.awaitsExit (h : StepView s ev t m₁ m₂ label next) (hs : s.Scheduled)
    (hstep : s.step ev = some t) (hft : Family t.kernel.tm) (hj : s.hart ≠ j)
    (hwait : s.AwaitsExit c pid fr j) : (exitOf c s ev = [] ∧ t.AwaitsExit c pid fr j) ∨
      ∃ code, exitOf c s ev = [code] ∧ t.HasExitCode code pid fr j := by
  obtain ⟨a, ha, hpid, hsleep, hchannel, hframe⟩ := hwait
  have hon : ∀ {a' b : Task} {current : Option ℕ}, t.kernel.tm.tasks j = some b →
      Rests current a' b → a'.SleepsAt pid (.child c) fr →
      (exitOf c s ev = [] ∧ t.AwaitsExit c pid fr j) := by
    rintro a' b current hb hrests ⟨hpid', hsleep', hchannel', hframe'⟩
    have hstate : b.state = .sleeping := by
      rcases hrests.state with hstate | ⟨hready, -⟩
      · exact hstate.trans hsleep'
      · cases hsleep'.symm.trans hready
    have hbchannel : b.waitingFor = some (.child c) := hrests.waitingFor.trans hchannel'
    refine ⟨?_, b, hb, hrests.pid.trans hpid', hstate, hbchannel, hrests.trapFrame.trans hframe'⟩
    -- The child has not exited, as there is still one to wait for.
    cases ev with
    | ecall tf =>
      refine if_neg fun ⟨hcall, hcur⟩ => ?_
      obtain ⟨d, hd, hdcur, -⟩ := hs.runs
      obtain ⟨z, hz, hzpid, hzombie, -⟩ := hs.exited hstep hcall hd
      obtain ⟨l, v, hv, hvpid, halive, -⟩ := hft.child j b c hb (by simp [Task.awaited, hbchannel])
      have hdpid : d.pid = c := Option.some.inj (hdcur.symm.trans hcur)
      obtain rfl := h.scheduled.core.unique _ _ _ _ hz hv (by rw [hzpid, hdpid, hvpid])
      obtain rfl := Option.some.inj (hz.symm.trans hv)
      exact halive hzombie
    | _ => rfl
  have hwaits : ∀ {channel}, a.waitingFor = some channel → channel = .child c :=
    fun hch => Option.some.inj (hch.symm.trans hchannel)
  by_cases hev : ∃ tf, ev = .ecall tf
  · cases h.fate hj.symm ha with
    | freed _ hz => cases hsleep.symm.trans hz
    | rests hb hrests => exact Or.inl (hon hb hrests ⟨hpid, hsleep, hchannel, hframe⟩)
    | @exitCode b code _ hchild hexits hb hrests =>
      obtain ⟨d, hd, hcur, -⟩ := h.runs
      rw [hcur] at hchild
      obtain rfl : d.pid = c := WaitChannel.child.inj (hwaits hchild)
      have hready : b.state = .ready ∨ b.state = .running := hrests.state.imp id And.right
      refine Or.inr ⟨code, h.exits hs hev hexits hcur, b, hb, hrests.pid.trans hpid, ?_, ?_, ?_⟩
      · rcases hready with hstate | hstate <;> rw [hstate] <;> decide
      · rcases hready with hstate | hstate <;> rw [hstate] <;> decide
      · rw [hrests.trapFrame, ← hframe]
        rfl
    | input _ huart => cases hwaits huart
    | message _ _ _ haw => cases hwaits haw.2
    | answer _ hcall => cases hwaits hcall
    | scribble _ hcall => cases hwaits hcall
  · rcases h.fate_outside (fun tf htf => hev ⟨tf, htf⟩) hj.symm ha with
      ⟨-, hz, -⟩ | ⟨b, hb, hrests | ⟨-, huart, -⟩⟩
    · cases hsleep.symm.trans hz
    · exact Or.inl (hon hb hrests ⟨hpid, hsleep, hchannel, hframe⟩)
    · cases hwaits huart

/-- **Step lemma.**  A task that has been told an exit code keeps it until it is on the hart. -/
lemma StepView.hasExitCode (h : StepView s ev t m₁ m₂ label next) (hj : s.hart ≠ j) {code : ℤ}
    (hcode : s.HasExitCode code pid fr j) : t.HasExitCode code pid fr j := by
  obtain ⟨a, ha, hpid, hsleep, hz, hvalue⟩ := hcode
  cases h.fate hj.symm ha with
  | freed _ hzombie => exact absurd hzombie hz
  | @rests b _ hb hrests =>
    have hstate : b.state ≠ .sleeping ∧ b.state ≠ .zombie := by
      rcases hrests.state with hstate | ⟨-, hstate⟩ <;> rw [hstate]
      · exact ⟨hsleep, hz⟩
      · exact ⟨by decide, by decide⟩
    exact ⟨b, hb, hrests.pid.trans hpid, hstate.1, hstate.2, by rw [hrests.trapFrame, hvalue]⟩
  | exitCode hs' => exact absurd hs' hsleep
  | input hs' => exact absurd hs' hsleep
  | message _ _ _ haw => exact absurd haw.1 hsleep
  | answer hs' => exact absurd hs' hsleep
  | scribble hs' => exact absurd hs' hsleep

/-- **Run lemma.**  When a task that sleeps until its child exits is on the hart again, it has been
told the code of the first exit of the child. -/
lemma exitCode_of_until {es : List Event} (h : nekos.Until (fun v => v.hart = j) s es u)
    (hs : nekos.Reaches FreshPid s) (hok : nekos.RunOk FreshPid s es) :
    (s.AwaitsExit c pid fr j → ∃ code, (nekos.collect (exitOf c) s es).head? = some code ∧
      u.HasExitCode code pid fr j) ∧
    ∀ code, s.HasExitCode code pid fr j → u.HasExitCode code pid fr j := by
  induction h with
  | @now s hhart =>
    refine ⟨?_, fun code hcode => hcode⟩
    rintro ⟨a, ha, hsleeps⟩
    obtain ⟨d, hd, -, hrun⟩ := (scheduled_of_reaches hs).runs
    rw [hhart] at hd
    obtain rfl := Option.some.inj (hd.symm.trans ha)
    cases hrun.symm.trans hsleeps.state
  | @later s t u ev es hhart hstep _ ih =>
    have hsched := scheduled_of_reaches hs
    obtain ⟨m₁, m₂, label, next, hview⟩ := hsched.view hok.1 hstep
    have ht : nekos.Reaches FreshPid t := .step hs hok.1 hstep
    obtain ⟨hwaits, htold⟩ := ih ht (hok.2 t hstep)
    refine ⟨fun hwait => ?_, fun code hcode => htold code (hview.hasExitCode hhart hcode)⟩
    rw [Machine.collect_cons hstep]
    rcases hview.awaitsExit hsched hstep (tree_of_reaches ht).2.1 hhart hwait with
      ⟨hnil, hwait'⟩ | ⟨code, hone, hcode⟩
    · rw [hnil, List.nil_append]
      exact hwaits hwait'
    · exact ⟨code, by rw [hone]; rfl, htold code hcode⟩

/-! ### Waiting first -/

/-- **Inversion.**  A `waitpid` is refused when its caller has no child with the pid, frees a zombie
child and returns its code, or puts its caller to sleep. -/
lemma Scheduled.waitpid_step (hs : s.Scheduled) (hstep : s.step (.ecall tf) = some t)
    (hcall : Sysno.decode tf.a7 = some .waitpid) (ha : s.kernel.tm.tasks s.hart = some a) :
    (∃ k', t = restore s.hart none { Kernel.advanced tf with a0 := usizeMax } k' ∧
      ∀ j child, s.kernel.tm.tasks j = some child → child.pid = tf.a0 % 2 ^ 32 →
        child.parentPid ≠ some a.pid) ∨
    ∃ j child, s.kernel.tm.tasks j = some child ∧ child.pid = tf.a0 % 2 ^ 32 ∧
      child.parentPid = some a.pid ∧
      ((child.state = .zombie ∧ ∃ k', k'.tm.tasks j = none ∧
        t = restore s.hart none { Kernel.advanced tf with a0 := asUsize child.exitCode } k') ∨
      (child.state ≠ .zombie ∧ ∃ next tf' k', t = restore s.hart next tf' k' ∧
        Kernel.PutToSleep s.hart a.pid (.child (tf.a0 % 2 ^ 32)) (Kernel.advanced tf) next k')) := by
  simp only [step] at hstep
  by_cases huser : s.inUser = true
  · rw [if_pos huser] at hstep
    obtain ⟨next, tf', k', hrun, rfl, -⟩ := trap_resumes hstep
    change Kernel.handle tf (s.entry tf) = some (some (next, tf'), k') at hrun
    obtain ⟨hcore, hruns⟩ := hs.entry tf
    have hidle : (s.entry tf).tm.currentPid ≠ some idlePid := hs.onHart.user huser
    have hcur : (s.entry tf).tm.currentPid = some a.pid := by
      obtain ⟨b, hb, hcur, -⟩ := hs.runs
      obtain rfl := Option.some.inj (ha.symm.trans hb)
      exact hcur
    have hback : ∀ {j child}, (s.entry tf).tm.tasks j = some child → ∃ u,
        s.kernel.tm.tasks j = some u ∧ u.pid = child.pid ∧ u.parentPid = child.parentPid ∧
          u.state = child.state ∧ u.exitCode = child.exitCode := by
      intro j child hchild
      rw [tasks_entry, Option.map_eq_some_iff] at hchild
      obtain ⟨u, hu, rfl⟩ := hchild
      refine ⟨u, hu, ?_⟩
      split <;> exact ⟨rfl, rfl, rfl, rfl⟩
    simp only [Kernel.handle, hcall] at hrun
    change Kernel.dispatch .waitpid (Kernel.advanced tf) (s.entry tf) = some (some (next, tf'), k')
      at hrun
    simp only [Kernel.dispatch, Fallible.attempt_bind, Option.bind_eq_some_iff] at hrun
    obtain ⟨⟨r, k₁⟩, hwait, hret⟩ := hrun
    rcases r with _ | ⟨code | next'⟩
    · obtain ⟨⟨rfl, rfl⟩, rfl⟩ := by simpa using hret
      refine Or.inl ⟨k₁, rfl, fun j child hchild hpid => ?_⟩
      have hchild' : (s.entry tf).tm.tasks j =
          some (if j = s.hart then { child with trapFrame := tf } else child) := by
        rw [tasks_entry, hchild]
        rfl
      have hrefused := Kernel.waitpid_refused hcore hruns hidle hcur hwait hchild'
      split at hrefused <;> exact hrefused hpid
    · obtain ⟨⟨rfl, rfl⟩, rfl⟩ := by simpa using hret
      rcases Kernel.waitpid_cases hwait with
        ⟨hnone, -⟩ | ⟨-, p, j, child, hp, hchild, hpid, hparent, h⟩
      · simp at hnone
      rcases h with ⟨hz, hcode, ph, -, rfl⟩ | ⟨-, _, _, -, hsome, -⟩
      · obtain ⟨u, hu, hupid, huparent, hustate, hucode⟩ := hback hchild
        obtain rfl := Option.some.inj (hcur.symm.trans hp)
        obtain rfl : code = child.exitCode := by simpa using hcode
        refine Or.inr ⟨j, u, hu, hupid.trans hpid, huparent.trans hparent,
          Or.inl ⟨hustate.trans hz,
          { s.entry tf with tm := (s.entry tf).tm.setTask j none, phys := ph }, Slots.set_self .., ?_⟩⟩
        rw [hucode]
      · simp at hsome
    · obtain ⟨⟨rfl, rfl⟩, rfl⟩ := by simpa using hret
      have hsleep := Kernel.waitpid_blocked hcore hruns hidle hcur hwait
      rcases Kernel.waitpid_cases hwait with
        ⟨hnone, -⟩ | ⟨-, p, j, child, hp, hchild, hpid, hparent, h⟩
      · simp at hnone
      rcases h with ⟨-, hsome, -⟩ | ⟨hz, -⟩
      · simp at hsome
      · obtain ⟨u, hu, hupid, huparent, hustate, -⟩ := hback hchild
        obtain rfl := Option.some.inj (hcur.symm.trans hp)
        exact Or.inr ⟨j, u, hu, hupid.trans hpid, huparent.trans hparent,
          Or.inr ⟨by rwa [hustate], _, _, _, rfl, hsleep⟩⟩
  · simp [huser] at hstep

/-- A slot that is free before a trap returns is free after that. -/
lemma tasks_restore_none {hart : Fin maxTasks} {fr : TrapFrame} {k : Kernel}
    (h : k.tm.tasks j = none) : (restore hart none fr k).kernel.tm.tasks j = none := by
  change (k.tm.updateTask hart fun t => { t with trapFrame := fr }).tasks j = none
  by_cases hj : j = hart
  · subst hj
    simp [updateTask, setTask, h]
  · rw [tasks_updateTask_of_ne hj, h]

/-- What a `waitpid` of the task `a` for the pid `c` returns with, when the task is on the hart again
as `b`. -/
inductive WaitEnds (s : System) (a : Task) (c : ℕ) (t : System) (es : List Event) (b : Task) : Prop
  /-- The task has no child with the pid, and the call fails. -/
  | refused : es = [] → b.trapFrame.a0 = usizeMax →
      (∀ j child, s.kernel.tm.tasks j = some child → child.pid = c →
        child.parentPid ≠ some a.pid) → WaitEnds s a c t es b
  /-- The child has exited already; its code is returned, and its slot is free. -/
  | reaped {j : Fin maxTasks} {child : Task} : es = [] → s.kernel.tm.tasks j = some child →
      child.pid = c → child.parentPid = some a.pid → child.state = .zombie →
      t.kernel.tm.tasks j = none → b.trapFrame.a0 = asUsize child.exitCode → WaitEnds s a c t es b
  /-- The child exits later, while the task sleeps, and the code of that exit is returned. -/
  | told {j : Fin maxTasks} {child : Task} {code : ℤ} : s.kernel.tm.tasks j = some child →
      child.pid = c → child.parentPid = some a.pid → child.state ≠ .zombie →
      (nekos.collect (exitOf c) t es).head? = some code →
      b.trapFrame.a0 = asUsize code → WaitEnds s a c t es b

/-! ### Exiting first -/

/-- The parent neither exits nor waits for the child with this event. -/
def LeavesZombie (parent c : ℕ) (s : System) (ev : Event) : Prop :=
  s.FreshPid ev ∧ ∀ tf, ev = .ecall tf → s.kernel.tm.currentPid = some parent →
    Sysno.decode tf.a7 ≠ some .exit ∧
    ¬ (Sysno.decode tf.a7 = some .waitpid ∧ tf.a0 % 2 ^ 32 = c)

/-- The slot holds the zombie of the child with its code. -/
def HoldsZombie (code : ℤ) (parent c : ℕ) (j : Fin maxTasks) (s : System) : Prop :=
  ∃ z, s.kernel.tm.tasks j = some z ∧ z.pid = c ∧ z.state = .zombie ∧ z.exitCode = code ∧
    z.parentPid = some parent

/-- **Step lemma.**  A zombie stays with its code as long as its parent neither exits nor waits for
it. -/
lemma StepView.holdsZombie (h : StepView s ev t m₁ m₂ label next) (hs : s.Scheduled) {code : ℤ}
    {parent : ℕ} (hok : s.LeavesZombie parent c ev) (hz : s.HoldsZombie code parent c j) :
    t.HoldsZombie code parent c j := by
  obtain ⟨z, hz, hpid, hzombie, hcode, hparent⟩ := hz
  have hj : j ≠ s.hart := by
    rintro rfl
    obtain ⟨b, hb, -, hrun⟩ := hs.runs
    obtain rfl := Option.some.inj (hz.symm.trans hb)
    cases hzombie.symm.trans hrun
  obtain ⟨htasks, htasks'⟩ := h.tasks_eq hj
  have hcurrent : m₁.currentPid = s.kernel.tm.currentPid := h.framed.currentPid
  have hkeep : ∀ {b : Task} {current : Option ℕ}, t.kernel.tm.tasks j = some b →
      Rests current z b → b.parentPid = z.parentPid → t.HoldsZombie code parent c j := by
    intro b current hb hrests hp
    refine ⟨b, hb, hrests.pid.trans hpid, ?_, hrests.exitCode.trans hcode, hp.trans hparent⟩
    rcases hrests.state with hstate | ⟨hready, -⟩
    · exact hstate.trans hzombie
    · cases hzombie.symm.trans hready
  have hasleep : z.state ≠ .sleeping := by
    rw [hzombie]
    decide
  cases ev with
  | ecall tf =>
    have hentered : m₁ = (s.entry tf).tm := h.entered
    cases h.fate hj hz with
    | freed _ _ hfreed =>
      rcases hfreed with hnone | ⟨hcur, fr, hcall, hc⟩
      · cases hnone.symm.trans hparent
      · rw [hentered] at hcall
        obtain ⟨rfl, hdecode⟩ := hs.inCall hcall
        exact absurd ⟨hdecode, hc.symm.trans hpid⟩
          (hok.2 _ rfl (by rw [← hcurrent, ← hcur, hparent])).2
    | @rests b _ hb hrests =>
      by_cases hcur : s.kernel.tm.currentPid = some parent
      · -- The parent makes another system call than `exit`.
        refine hkeep hb hrests ?_
        rw [htasks'] at hb
        rw [← htasks] at hz
        refine h.effect.parentPid_eq (fun code hexits => ?_) hz hb
        obtain ⟨fr, hcall, -⟩ := hexits
        rw [hentered] at hcall
        obtain ⟨rfl, hdecode⟩ := hs.inCall hcall
        exact (hok.2 _ rfl hcur).1 hdecode
      · refine hkeep hb hrests (hrests.parentPid.resolve_right fun hp => hcur ?_)
        rw [← hcurrent, ← hp.2, hparent]
    | exitCode hsleep => exact absurd hsleep hasleep
    | input hsleep => exact absurd hsleep hasleep
    | message _ _ _ haw => exact absurd haw.1 hasleep
    | answer hsleep => exact absurd hsleep hasleep
    | scribble hsleep => exact absurd hsleep hasleep
  | _ =>
    rcases h.fate_outside (by simp) hj hz with ⟨-, -, hnone⟩ | ⟨b, hb, hrests | ⟨hsleep, -⟩⟩
    · cases hnone.symm.trans hparent
    · refine hkeep hb hrests ?_
      rw [htasks'] at hb
      rw [← htasks] at hz
      have hout : Outside m₁ label next m₂ := h.entered
      exact hout.parentPid_eq hz hb
    · exact absurd hsleep hasleep

/-- The parent of a task that exits is not told the code when it does not wait for the task. -/
lemma Scheduled.handsOver_eq_false {parent : ℕ} (hp : a.parentPid = some parent)
    (hwait : ∀ q w, s.kernel.tm.tasks q = some w → w.pid = parent →
      w.waitingFor ≠ some (.child a.pid)) :
    (s.entry tf).tm.handsOver { a with trapFrame := tf } = false := by
  by_contra hyes
  rw [Bool.not_eq_false, handsOver, Option.any_eq_true] at hyes
  obtain ⟨p, hp', hyes⟩ := hyes
  obtain rfl : parent = p := Option.some.inj (hp.symm.trans hp')
  obtain ⟨w, hw, hyes⟩ := (Option.any_eq_true ..).mp hyes
  obtain ⟨q, hq, hw⟩ := Option.bind_eq_some_iff.mp hw
  obtain ⟨w', hw', hwpid⟩ := findPid_eq_some hq
  obtain rfl := Option.some.inj (hw'.symm.trans hw)
  rw [tasks_entry, Option.map_eq_some_iff] at hw'
  obtain ⟨w₀, hw₀, rfl⟩ := hw'
  simp only [Bool.and_eq_true, decide_eq_true_eq] at hyes
  refine hwait q w₀ hw₀ ?_ ?_
  · rw [← hwpid]
    split <;> rfl
  · rw [← hyes.2]
    split <;> rfl

/-! ### A sample child -/

/-- A step that takes no pid leaves the tasks their slots, and gives none a parent. -/
lemma Scheduled.stems (hs : s.Scheduled) (hev : ev.takesPid = false) (hstep : s.step ev = some t) :
    t.Scheduled ∧ Stems s.kernel.tm t.kernel.tm := by
  obtain ⟨m₁, m₂, label, next, hview⟩ := hs.view (fun h => by simp [hev] at h) hstep
  have hlabel : label ≠ .create := fun hcreate => by
    have := takesPid_of_shows hview.shows' hcreate
    simp [hev] at this
  exact ⟨hview.scheduled, ((Calm.framed hview.framed).kin.stems.trans
    (hview.effect.stems hview.core hview.runs hlabel)).trans (Calm.framed hview.framed').kin.stems⟩

/-- Timer interrupts leave the tasks their slots. -/
lemma Scheduled.stems_timers {tfs : List TrapFrame} (hs : s.Scheduled)
    (hrun : nekos.run s (tfs.map .timer) = some t) : Stems s.kernel.tm t.kernel.tm := by
  have hnone : nekos.RunOk (fun _ ev => ev.takesPid = false) s (tfs.map .timer) :=
    runOk_timers (fun _ _ => rfl) tfs s
  have hkept : t.Scheduled ∧ Stems s.kernel.tm t.kernel.tm := by
    refine Machine.run_invariant (I := fun w : System => w.Scheduled ∧
      Stems s.kernel.tm w.kernel.tm) ?_ ⟨hs, (Calm.of_tasks rfl).kin.stems⟩ hnone hrun
    rintro w ev w' ⟨hw, hstems⟩ hev hstep
    obtain ⟨hw', hstems'⟩ := hw.stems hev hstep
    exact ⟨hw', hstems.trans hstems'⟩
  exact hkept.2

/-- A runnable task that is not on the hart stays runnable. -/
lemma StepView.runnable (h : StepView s ev t m₁ m₂ label next) (hj : j ≠ s.hart)
    (hrun : (s.kernel.tm.tasks j).any Task.runnable = true) :
    (t.kernel.tm.tasks j).any Task.runnable = true := by
  obtain ⟨a, ha, hrun⟩ := (Option.any_eq_true ..).mp hrun
  simp only [Task.runnable, Bool.and_eq_true, decide_eq_true_eq, Bool.or_eq_true] at hrun
  have hawake : a.state ≠ .sleeping := by
    rcases hrun.2 with hstate | hstate <;> rw [hstate] <;> decide
  cases h.fate hj ha with
  | freed _ hz => rcases hrun.2 with hstate | hstate <;> cases hz.symm.trans hstate
  | @rests b _ hb hrests =>
    have hpid : b.pid = a.pid := hrests.pid
    have hstate : b.state = .ready ∨ b.state = .running := by
      rcases hrests.state with hstate | ⟨-, hstate⟩
      · exact hstate ▸ hrun.2
      · exact Or.inr hstate
    simp only [hb, Option.any_some, Task.runnable, hpid, Bool.and_eq_true, decide_eq_true_eq,
      Bool.or_eq_true]
    exact ⟨hrun.1, hstate⟩
  | exitCode hsleep => exact absurd hsleep hawake
  | input hsleep => exact absurd hsleep hawake
  | message _ _ _ haw => exact absurd haw.1 hawake
  | answer hsleep => exact absurd hsleep hawake
  | scribble hsleep => exact absurd hsleep hawake

end System

namespace Sample

open TaskManager

/-- The sample machine when the kernel has started a second shell as a child of the first one. -/
def withChild (x : Sample) (p : Placement) (ph : Phys) : System :=
  ⟨{ x.start.kernel with
    tm := x.start.kernel.tm.bumpPid.incRunnable.setTask ⟨4, by decide⟩
      (some (Kernel.fileTask x.start.kernel.tm sampleProgram p))
    phys := ph }, x.start.hart⟩

/-- The sample machine reaches this state. -/
lemma exists_withChild : ∃ x p ph, nekos.Reaches System.FreshPid (withChild x p ph) ∧
    (withChild x p ph).kernel.Housed true ∧ (withChild x p ph).kernel.FilesOk true := by
  obtain ⟨x, hboot, hbooted⟩ := exists_start []
  obtain ⟨own, hhoused⟩ := hbooted.housed
  have hfile : x.start.kernel.findFile "shell" = some sampleProgram := by
    rw [Kernel.findFile, hbooted.files]
    simp [sampleConfig]
  have hslot : x.start.kernel.tm.tasks.firstFree = some ⟨4, by decide⟩ := rfl
  have hpages : Exec.cost sampleProgram ≤ x.start.kernel.phys.page.freePages := by
    have hleft := hbooted.pages
    rw [sampleProgram_cost] at hleft ⊢
    have hall : 179 ≤ (sampleConfig []).powerOn.phys.page.freePages := by decide
    omega
  obtain ⟨p, ph, own', hspawn, hhoused', -⟩ :=
    Kernel.spawn_run hhoused hfile sampleProgram_startable hslot hpages
  have hstep : nekos.step x.start (.spawn "shell") = some (withChild x p ph) := by
    change (Kernel.spawn "shell" x.start.kernel).map _ = _
    rw [hspawn]
    rfl
  have hfresh : x.start.FreshPid (.spawn "shell") := (System.pidsBelow_boot hboot).1.freshPid _
  refine ⟨x, p, ph, .step (.init ⟨_, hboot⟩) hfresh hstep, ⟨own', hhoused'⟩, ?_⟩
  rw [Kernel.FilesOk, show (withChild x p ph).kernel.files = (sampleConfig []).files from hbooted.files]
  exact sampleConfig_filesOk

variable (x : Sample) (p : Placement) (ph : Phys)

/-- No task waits for a child. -/
lemma awaited_withChild (j : Fin maxTasks) (w : Task)
    (hw : (withChild x p ph).kernel.tm.tasks j = some w) : w.awaited = none := by
  fin_cases j <;> cases hw <;> rfl

/-- The child has the next turn. -/
lemma turns_withChild : (withChild x p ph).kernel.tm.turns (withChild x p ph).hart =
    [⟨4, by decide⟩, ⟨1, by decide⟩, ⟨2, by decide⟩, ⟨3, by decide⟩] := by
  have hrunnable : (fun j => ((withChild x p ph).kernel.tm.tasks j).any Task.runnable) =
      fun j => decide (1 ≤ j.val ∧ j.val ≤ 4) := funext fun j => by fin_cases j <;> rfl
  rw [turns, hrunnable, show (withChild x p ph).hart = ⟨3, by decide⟩ from rfl]
  decide

end Sample

namespace System

open TaskManager

end System

end NekOS
