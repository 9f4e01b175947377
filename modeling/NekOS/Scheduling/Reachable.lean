import NekOS.Scheduling.Preservation

/-!
# The scheduler in every reachable state

`System.Scheduled` is the invariant of the scheduler between two events.  The boot establishes it
and every event keeps it, unless it takes a pid when the counter of pids is about to run over.

`StepView` is the form in which the proofs about IPC use a step: one effect on a task manager that
satisfies the invariant, with changes of the saved frame of the task on the hart around it.
-/

namespace NekOS

open TaskManager

/-- Taking the slot out of the frame to restore. -/
abbrev FramePtr.resume (next : FramePtr) (hart : Fin maxTasks) : Fin maxTasks := next.getD hart

/-- The events that may take a pid. -/
def Event.takesPid : Event → Bool
  | .ecall tf => decide (Sysno.decode tf.a7 = some .fork)
  | .spawn _ => true
  | _ => false

namespace System

/-- An event that may take a pid finds one that no task has. -/
def FreshPid (s : System) (ev : Event) : Prop := ev.takesPid = true → s.kernel.tm.PidFree

/-- The invariant of the scheduler between two events. -/
structure Scheduled (s : System) : Prop where
  core : Core s.kernel.tm
  runs : s.kernel.tm.RunsIn s.hart

/-- The hart runs the current task. -/
lemma Scheduled.onHart {s : System} (hs : s.Scheduled) : s.OnHart := by
  obtain ⟨a, ha, hcur, -⟩ := hs.runs
  refine ⟨hs.core.currentIndex_eq ha hcur, fun huser hidle => ?_⟩
  rw [hcur, Option.some.injEq] at hidle
  have := (hs.core.idle_of_pid ha hidle).1
  simp [inUser, this] at huser

/-- Writing a frame keeps the invariant of the scheduler. -/
lemma Framed.core {m m' : TaskManager} {i j : Fin maxTasks} (h : Framed i m m') (hm : Core m)
    (hj : m.RunsIn j) : Core m' ∧ m'.RunsIn j := by
  rcases h with rfl | ⟨tf, rfl⟩
  · exact ⟨hm, hj⟩
  · exact ⟨hm.updateTask_of_key fun _ => rfl, hj.updateTask fun _ => rfl⟩

/-- Writing a frame takes no pid. -/
lemma Framed.pidFree {m m' : TaskManager} {i : Fin maxTasks} (h : Framed i m m')
    (hm : m.PidFree) : m'.PidFree := by
  rcases h with rfl | ⟨tf, rfl⟩
  · exact hm
  · intro j t ht
    obtain ⟨u, hu, hpid, -⟩ := exists_of_key
      (keys_updateTask m i (f := fun t => { t with trapFrame := tf }) fun _ => rfl) ht
    rw [← hpid]
    exact hm j u hu

/-- A step, seen from the task manager. -/
structure StepView (s : System) (ev : Event) (t : System) (before after : TaskManager)
    (label : Label) (next : FramePtr) : Prop where
  framed : Framed s.hart s.kernel.tm before
  core : Core before
  runs : before.RunsIn s.hart
  effect : Effect before label next after
  core' : Core after
  runs' : after.RunsIn t.hart
  resumes : Resumes s t after next
  shows' : Shows s label ev
  entered : Entered s before label next after ev

/-- Only events that may take a pid do so. -/
lemma takesPid_of_shows {s : System} {label : Label} {ev : Event} (h : Shows s label ev)
    (hlabel : label = .create) : ev.takesPid = true := by
  cases ev with
  | ecall tf => simpa [Event.takesPid] using h.create hlabel
  | spawn name => rfl
  | timer tf => exact absurd (h.symm.trans hlabel) (by simp)
  | external irq tf => exact absurd (h.symm.trans hlabel) (by simp)
  | store va byte => exact absurd (h.symm.trans hlabel) (by simp)

/-- Every step has a view. -/
theorem Scheduled.view {s t : System} {ev : Event} (hs : s.Scheduled) (hok : s.FreshPid ev)
    (h : s.step ev = some t) : ∃ m₁ m₂ label next, StepView s ev t m₁ m₂ label next := by
  obtain ⟨m₁, m₂, label, next, hframed, heff, hres, hshows, hent⟩ := step_effect hs.onHart h
  obtain ⟨hcore, hruns⟩ := hframed.core hs.core hs.runs
  obtain ⟨hcore', hruns'⟩ := hcore.effect hruns
    (fun hlabel => hframed.pidFree (hok (takesPid_of_shows hshows hlabel))) heff
  refine ⟨m₁, m₂, label, next, ?_⟩
  have hhart : t.hart = next.getD s.hart := by
    rcases hres with ⟨rfl, -⟩ | ⟨rfl, hhart, -⟩
    · rfl
    · exact hhart
  exact ⟨hframed, hcore, hruns, heff, hcore', by rw [hhart]; exact hruns', hres, hshows, hent⟩

section StepView

variable {s t : System} {ev : Event} {m₁ m₂ : TaskManager} {label : Label} {next : FramePtr}

/-- After the effect at most the saved frame of the task on the hart is written. -/
lemma StepView.framed' (h : StepView s ev t m₁ m₂ label next) :
    Framed t.hart m₂ t.kernel.tm := by
  rcases h.resumes with ⟨-, htm⟩ | ⟨-, hhart, hframed⟩
  · exact Or.inl htm
  · rwa [hhart]

/-- The state after a step is scheduled. -/
lemma StepView.scheduled (h : StepView s ev t m₁ m₂ label next) : t.Scheduled := by
  obtain ⟨hcore, hruns⟩ := h.framed'.core h.core' h.runs'
  exact ⟨hcore, hruns⟩

/-- Writing a frame leaves the endpoints alone. -/
lemma Framed.endpoints {m m' : TaskManager} {i : Fin maxTasks} (h : Framed i m m') :
    m'.endpoints = m.endpoints := by
  rcases h with rfl | ⟨tf, rfl⟩ <;> rfl

/-- Writing a frame keeps the current pid. -/
lemma Framed.currentPid {m m' : TaskManager} {i : Fin maxTasks} (h : Framed i m m') :
    m'.currentPid = m.currentPid := by
  rcases h with rfl | ⟨tf, rfl⟩ <;> rfl

/-- Writing a frame leaves the other tasks alone. -/
lemma Framed.tasks {m m' : TaskManager} {i j : Fin maxTasks} (h : Framed i m m') (hj : j ≠ i) :
    m'.tasks j = m.tasks j := by
  rcases h with rfl | ⟨tf, rfl⟩
  · rfl
  · exact Slots.set_of_ne hj _

end StepView

end System

/-! ### Boot -/

namespace TaskManager

variable {m : TaskManager}

/-- The task manager before the first task runs: all tasks are ready and without a parent, and the
endpoints are new. -/
structure Fresh (m : TaskManager) : Prop extends Core m where
  pid_lt : ∀ i t, m.tasks i = some t → t.pid < m.nextPid
  ready : ∀ i t, m.tasks i = some t → t.state = .ready
  new : ∀ e ep, m.endpoints e = some ep → ep = Endpoint.new ep.owner
  current : m.currentPid = none
  parent : ∀ i t, m.tasks i = some t → t.parentPid = none

/-- No task runs before the first one is entered. -/
lemma Fresh.noRunning (hm : Fresh m) : NoRunning m := fun i t ht => by
  rw [hm.ready i t ht]
  simp

/-- The idle task is created first. -/
lemma fresh_idle {i : Fin maxTasks} (hi : new.tasks.firstFree = some i)
    (entry kernelStack pagetable : ℕ) :
    Fresh (new.setTask i (some (Kernel.idleTask entry kernelStack pagetable))) := by
  have hslot : new.tasks.firstFree = some System.idleSlot := rfl
  obtain rfl : System.idleSlot = i := Option.some.inj (hslot.symm.trans hi)
  have hget : ∀ {j t}, (new.setTask System.idleSlot
      (some (Kernel.idleTask entry kernelStack pagetable))).tasks j = some t →
      j = System.idleSlot ∧ t = Kernel.idleTask entry kernelStack pagetable := by
    intro j t ht
    simp only [setTask, new, Slots.set_apply] at ht
    split at ht
    · exact ⟨‹_›, (Option.some.inj ht).symm⟩
    · simp at ht
  refine ⟨⟨?_, ⟨_, rfl, rfl, Or.inl rfl⟩, ?_, ?_, ?_, by simp [setTask, new]⟩, ?_, ?_,
    by simp [setTask, new], rfl, ?_⟩
  · exact fun j₁ j₂ t₁ t₂ h₁ h₂ _ => (hget h₁).1.trans (hget h₂).1.symm
  · intro j t ht hrun
    rw [(hget ht).2] at hrun
    simp [Kernel.idleTask] at hrun
  · intro j t ht
    rw [(hget ht).2]
    simp [Kernel.idleTask]
  · have hempty : Slots.count new.tasks Task.runnable = 0 := Slots.count_none _
    have hset := Slots.count_set_eq (s := new.tasks) (i := System.idleSlot)
      (o := some (Kernel.idleTask entry kernelStack pagetable)) (p := Task.runnable) rfl
    exact (hset.trans hempty).symm
  · intro j t ht
    rw [(hget ht).2]
    exact Nat.zero_lt_one
  · intro j t ht
    rw [(hget ht).2]
    rfl
  · intro j t ht
    rw [(hget ht).2]
    rfl

/-- A task is created before the first one is entered. -/
lemma Fresh.create (hm : Fresh m) {i : Fin maxTasks} (hfree : m.tasks i = none) {t : Task}
    (hpid : t.pid = m.nextPid) (hready : t.state = .ready) (hwait : t.waitingFor = none)
    (hparent : t.parentPid = m.currentPid) (hpids : m.nextPid + 1 < 2 ^ 32) :
    Fresh (m.bumpPid.setTask i (some t)).incRunnable := by
  have hnext : (m.bumpPid.setTask i (some t)).incRunnable.nextPid = m.nextPid + 1 :=
    Nat.mod_eq_of_lt hpids
  have hfresh : m.PidFree := fun j u hu => Nat.ne_of_lt (hm.pid_lt j u hu)
  refine ⟨hm.toCore.create hfree hpid hready hwait hfresh, fun j u hu => ?_, fun j u hu => ?_,
    hm.new, hm.current, fun j u hu => ?_⟩
  · rw [hnext]
    rcases tasks_of_set rfl hu with ⟨-, rfl⟩ | ⟨-, hu⟩
    · exact hpid.trans_lt (Nat.lt_succ_self _)
    · exact (hm.pid_lt j u hu).trans (Nat.lt_succ_self _)
  · rcases tasks_of_set rfl hu with ⟨-, rfl⟩ | ⟨-, hu⟩
    · exact hready
    · exact hm.ready j u hu
  · rcases tasks_of_set rfl hu with ⟨-, rfl⟩ | ⟨-, hu⟩
    · exact hparent.trans hm.current
    · exact hm.parent j u hu

/-- An endpoint is registered before the first task is entered. -/
lemma Fresh.register (hm : Fresh m) (e : Fin maxEndpoints) (owner : ℕ) :
    Fresh { m with endpoints := m.endpoints.set e (some (Endpoint.new owner)) } := by
  have hnot : ∀ pid e', ¬ m.Awaits pid e' := by
    rintro pid e' ⟨j, t, ht, -, hs, -⟩
    rw [hm.ready j t ht] at hs
    simp at hs
  constructor
  · refine ⟨hm.unique, hm.idle, hm.running, hm.waiting, hm.count, ?_⟩
    intro e' ep pid hep
    refine iff_of_false ?_ fun h => hnot pid e' h.2
    simp only [Slots.set_apply] at hep
    split at hep
    · rw [← Option.some.inj hep]
      simp [Endpoint.new]
    · rw [hm.new e' ep hep]
      simp [Endpoint.new]
  · exact hm.pid_lt
  · exact hm.ready
  · intro e' ep hep
    simp only [Slots.set_apply] at hep
    split at hep
    · rw [← Option.some.inj hep]
      rfl
    · exact hm.new e' ep hep
  · exact hm.current
  · exact hm.parent

/-- `spawn` before the first task is entered. -/
lemma Fresh.spawn {k k' : Kernel} {name : String} {o : Option ℕ} (hm : Fresh k.tm)
    (hpids : k.tm.nextPid + 1 < 2 ^ 32) (hrun : Kernel.spawn name k = some (o, k')) :
    Fresh k'.tm ∧ k'.tm.nextPid ≤ k.tm.nextPid + 1 := by
  have hbump : k.tm.bumpPid.nextPid = k.tm.nextPid + 1 := Nat.mod_eq_of_lt hpids
  rcases Kernel.spawn_cases hrun with ⟨-, h⟩ | ⟨image, ph, -, h⟩
  · rcases Kernel.load_cases h with ⟨-, rfl, -⟩ | ⟨_, ph, -, -, rfl⟩
    · exact ⟨hm, Nat.le_succ _⟩
    · exact ⟨hm, Nat.le_succ _⟩
  · rcases Kernel.createUserImage_cases h with
      ⟨-, ph', rfl, -⟩ | ⟨-, -, -, slot, _, ph', hslot, -, rfl⟩
    · exact ⟨hm, Nat.le_succ _⟩
    · exact ⟨hm.create (Slots.firstFree_eq_some hslot) rfl rfl rfl rfl hpids, hbump.le⟩

/-- `create_idle`. -/
lemma createIdle_fresh {k k' : Kernel} {entry : ℕ} {o : ℕ} (hk : k.tm = new)
    (hrun : Kernel.createIdle entry k = some (some o, k')) :
    Fresh k'.tm ∧ k'.tm.nextPid = 1 := by
  rw [Kernel.createIdle, Kernel.readTm_bind] at hrun
  rcases Fallible.guard_cases hrun with ⟨-, hnone, -⟩ | ⟨-, hrun⟩
  · simp at hnone
  rcases Fallible.ofOption_bind_cases hrun with ⟨-, hnone, -⟩ | ⟨slot, hslot, hrun⟩
  · simp at hnone
  obtain ⟨⟨kernelStack, pagetable⟩, k₁, h, hset⟩ := Fallible.bind_eq_some.mp hrun
  obtain ⟨ph, -, rfl⟩ := Kernel.onPhys_eq_some.mp h
  obtain ⟨-, rfl⟩ := by simpa using hset
  rw [hk] at hslot
  simp only [hk]
  exact ⟨fresh_idle hslot _ _ _, rfl⟩

/-- `grant_uart` before the first task is entered. -/
lemma Fresh.grantUart {k k' : Kernel} {pid : ℕ} {o : Option Unit} (hm : Fresh k.tm)
    (hrun : Kernel.grantUart pid k = some (o, k')) :
    Fresh k'.tm ∧ k'.tm.nextPid = k.tm.nextPid := by
  rw [Kernel.grantUart, Kernel.readTm_bind] at hrun
  rcases Fallible.guard_cases hrun with ⟨-, rfl, rfl⟩ | ⟨-, hrun⟩
  · exact ⟨hm, rfl⟩
  rcases Fallible.ofOption_bind_cases hrun with ⟨-, rfl, rfl⟩ | ⟨t, -, hrun⟩
  · exact ⟨hm, rfl⟩
  rcases Fallible.bind_eq_iff.mp hrun with ⟨rfl, h⟩ | ⟨_, k₁, h, hset⟩
  · obtain ⟨ph, -, rfl⟩ := Kernel.onPhys_eq_some.mp h
    exact ⟨hm, rfl⟩
  · obtain ⟨ph, -, rfl⟩ := Kernel.onPhys_eq_some.mp h
    obtain ⟨-, rfl⟩ := by simpa using hset
    exact ⟨⟨⟨hm.unique, hm.idle, hm.running, hm.waiting, hm.count, hm.receiver⟩,
      hm.pid_lt, hm.ready, hm.new, hm.current, hm.parent⟩, rfl⟩

/-- `register_endpoint` before the first task is entered. -/
lemma Fresh.registerEndpoint {k k' : Kernel} {endpoint owner : ℕ} {o : Option Unit}
    (hm : Fresh k.tm) (hrun : Kernel.registerEndpoint endpoint owner k = some (o, k')) :
    Fresh k'.tm ∧ k'.tm.nextPid = k.tm.nextPid := by
  rw [Kernel.registerEndpoint, Kernel.readTm_bind] at hrun
  split at hrun
  · rcases Fallible.guard_cases hrun with ⟨-, rfl, rfl⟩ | ⟨-, hrun⟩
    · exact ⟨hm, rfl⟩
    rcases Fallible.guard_cases hrun with ⟨-, rfl, rfl⟩ | ⟨-, hrun⟩
    · exact ⟨hm, rfl⟩
    obtain ⟨-, rfl⟩ := by simpa using hrun
    exact ⟨hm.register _ _, rfl⟩
  · obtain ⟨-, rfl⟩ := by simpa using hrun
    exact ⟨hm, rfl⟩

end TaskManager

namespace Config

/-- When `kernel_main` goes through, the first task has been entered from a fresh task manager. -/
lemma kernelMain_fresh {c : Config} {k k' : Kernel} {hart : Fin maxTasks}
    (hk : k.tm = TaskManager.new) (h : c.kernelMain k = some (some hart, k')) :
    ∃ m t, Fresh m ∧ m.tasks hart = some t ∧ k'.tm = m.runSlot hart ∧ m.nextPid ≤ 4 := by
  unfold kernelMain at h
  obtain ⟨_, k₁, hinit, h⟩ := Fallible.bind_eq_some.mp h
  obtain ⟨_, k₂, hidle, h⟩ := Fallible.bind_eq_some.mp h
  obtain ⟨console, k₃, hconsole, h⟩ := Fallible.bind_eq_some.mp h
  obtain ⟨_, k₄, hgrant, h⟩ := Fallible.bind_eq_some.mp h
  obtain ⟨_, k₅, hregister, h⟩ := Fallible.bind_eq_some.mp h
  obtain ⟨fs, k₆, hfs, h⟩ := Fallible.bind_eq_some.mp h
  obtain ⟨_, k₇, hregister', h⟩ := Fallible.bind_eq_some.mp h
  obtain ⟨shell, k₈, hshell, henter⟩ := Fallible.bind_eq_some.mp h
  obtain ⟨_, -, hinit⟩ := Fallible.expect_eq_some.mp hinit
  obtain ⟨_, -, hidle⟩ := Fallible.expect_eq_some.mp hidle
  obtain ⟨_, -, hconsole⟩ := Fallible.expect_eq_some.mp hconsole
  obtain ⟨_, -, hgrant⟩ := Fallible.expect_eq_some.mp hgrant
  obtain ⟨_, -, hregister⟩ := Fallible.expect_eq_some.mp hregister
  obtain ⟨_, -, hfs⟩ := Fallible.expect_eq_some.mp hfs
  obtain ⟨_, -, hregister'⟩ := Fallible.expect_eq_some.mp hregister'
  obtain ⟨_, -, hshell⟩ := Fallible.expect_eq_some.mp hshell
  obtain ⟨ph, -, rfl⟩ := Kernel.onPhys_eq_some.mp hinit
  obtain ⟨hfresh₂, hnext₂⟩ := createIdle_fresh (k := { k with phys := ph }) hk hidle
  obtain ⟨hfresh₃, hnext₃⟩ := hfresh₂.spawn (by omega) hconsole
  obtain ⟨hfresh₄, hnext₄⟩ := hfresh₃.grantUart hgrant
  obtain ⟨hfresh₅, hnext₅⟩ := hfresh₄.registerEndpoint hregister
  obtain ⟨hfresh₆, hnext₆⟩ := hfresh₅.spawn (by omega) hfs
  obtain ⟨hfresh₇, hnext₇⟩ := hfresh₆.registerEndpoint hregister'
  obtain ⟨hfresh₈, hnext₈⟩ := hfresh₇.spawn (by omega) hshell
  rw [Kernel.enterTask, Kernel.readTm_bind] at henter
  obtain ⟨i, hi, hret⟩ := Fallible.unwrap_bind_cases henter
  obtain ⟨rfl, rfl⟩ : i = hart ∧ { k₈ with tm := k₈.tm.runSlot i } = k' := by simpa using hret
  obtain ⟨t, ht, -⟩ := findPid_eq_some hi
  exact ⟨k₈.tm, t, hfresh₈, ht, rfl, by omega⟩

/-- When the boot goes through, the first task has been entered from a fresh task manager, which has
handed out no pid above three. -/
lemma boot_entered {c : Config} {s : System} (h : c.boot = some s) :
    ∃ m t, Fresh m ∧ m.tasks s.hart = some t ∧ s.kernel.tm = m.runSlot s.hart ∧
      m.nextPid ≤ 4 := by
  obtain ⟨⟨_ | hart, k⟩, hmain, h⟩ := Option.bind_eq_some_iff.mp h
  · simp at h
  · obtain rfl : (⟨k, hart⟩ : System) = s := by simpa using h
    exact kernelMain_fresh rfl hmain

/-- When the boot goes through, the first task has been entered from a fresh task manager. -/
theorem boot_fresh {c : Config} {s : System} (h : c.boot = some s) :
    ∃ m t, Fresh m ∧ m.tasks s.hart = some t ∧ s.kernel.tm = m.runSlot s.hart := by
  obtain ⟨m, t, hm, ht, htm, -⟩ := boot_entered h
  exact ⟨m, t, hm, ht, htm⟩

end Config

namespace System

/-- The first state is scheduled. -/
lemma scheduled_boot {c : Config} {s : System} (h : c.boot = some s) : s.Scheduled := by
  obtain ⟨m, t, hm, ht, htm⟩ := Config.boot_fresh h
  obtain ⟨hcore, hruns⟩ := hm.toCore.runSlot hm.noRunning ht (hm.ready _ _ ht)
  exact ⟨by rw [htm]; exact hcore, by rw [htm]; exact hruns⟩

/-- **Run lemma.**  Every state that is reached with fresh pids is scheduled. -/
theorem scheduled_of_reaches {s : System} (h : nekos.Reaches FreshPid s) : s.Scheduled := by
  refine h.invariant (fun s hs => ?_) fun s ev t hs hok hstep => ?_
  · obtain ⟨c, hc⟩ := hs
    exact scheduled_boot hc
  · obtain ⟨_, _, _, _, hview⟩ := hs.view hok hstep
    exact hview.scheduled

/-- **Invariant rule for the task manager.**  A property of a fresh task manager whose first task
has been entered, which no frame matters to and every effect keeps, holds in every state
reached. -/
theorem invariant_of_effects {ok : System → Event → Prop} {P : TaskManager → Prop}
    (hfresh : ∀ s ev, ok s ev → s.FreshPid ev)
    (hboot : ∀ m i t, Fresh m → m.tasks i = some t → P (m.runSlot i))
    (hframe : ∀ m m' i, Framed i m m' → P m → P m')
    (heffect : ∀ s ev t m₁ m₂ label next, s.Scheduled → ok s ev →
      StepView s ev t m₁ m₂ label next → P s.kernel.tm → P m₁ → P m₂)
    {s : System} (h : nekos.Reaches ok s) : s.Scheduled ∧ P s.kernel.tm := by
  refine h.invariant (I := fun s => s.Scheduled ∧ P s.kernel.tm) (fun s hs => ?_) ?_
  · obtain ⟨c, hc⟩ := hs
    obtain ⟨m, t, hm, ht, htm⟩ := Config.boot_fresh hc
    exact ⟨scheduled_boot hc, by rw [htm]; exact hboot m _ t hm ht⟩
  · rintro s ev t ⟨hs, hP⟩ hok hstep
    obtain ⟨m₁, m₂, label, next, hview⟩ := hs.view (hfresh s ev hok) hstep
    have h₁ := hframe _ _ _ hview.framed hP
    exact ⟨hview.scheduled,
      hframe _ _ _ hview.framed' (heffect s ev t m₁ m₂ label next hs hok hview hP h₁)⟩

end System

end NekOS
