import NekOS.Scheduling.Waiting

/-!
# Pids

An effect moves the counter of pids only when it takes a pid, and never changes the owner of the UART.
All pids are 32-bit numbers, and as long as the counter has not run over, every task has a pid below
it, so that a pid that is handed out is new.
-/

namespace NekOS

namespace TaskManager

variable {m m₁ m' : TaskManager} {i : Fin maxTasks}

/-- The counter of pids and the owner of the UART stay. -/
structure SameRegistry (m m' : TaskManager) : Prop where
  nextPid : m'.nextPid = m.nextPid
  uartOwner : m'.uartOwner = m.uartOwner

namespace SameRegistry

/-- No change. -/
lemma refl (m : TaskManager) : SameRegistry m m := ⟨rfl, rfl⟩

/-- One change after the other. -/
lemma trans (h₁ : SameRegistry m m₁) (h₂ : SameRegistry m₁ m') : SameRegistry m m' :=
  ⟨h₂.nextPid.trans h₁.nextPid, h₂.uartOwner.trans h₁.uartOwner⟩

/-- A frame is written. -/
lemma framed (h : System.Framed i m m') : SameRegistry m m' := by
  rcases h with rfl | ⟨tf, rfl⟩
  · exact refl _
  · exact ⟨rfl, rfl⟩

/-- The address space of the current task changes. -/
lemma touched (h : Touched m m') : SameRegistry m m' := by
  rcases h with rfl | ⟨i, f, -, -, rfl⟩
  · exact refl _
  · exact ⟨rfl, rfl⟩

/-- `schedule`. -/
lemma resched (tf : TrapFrame) (m : TaskManager) : SameRegistry m (m.resched tf) := by
  have hpreempt : SameRegistry m (m.reaped.preempt tf) := by
    unfold TaskManager.preempt
    split <;> exact ⟨rfl, rfl⟩
  have hchosen : SameRegistry (m.reaped.preempt tf) (m.resched tf) := by
    unfold TaskManager.resched runChosen
    split <;> exact ⟨rfl, rfl⟩
  exact hpreempt.trans hchosen

/-- The UART wakes its owner. -/
lemma wakeUart (m : TaskManager) : SameRegistry m m.wakeUart := by
  unfold TaskManager.wakeUart
  induction List.finRange maxTasks generalizing m with
  | nil => exact refl m
  | cons j slots ih =>
    have hslot : SameRegistry m (m.wakeUartSlot j) := by
      unfold wakeUartSlot
      split <;> exact ⟨rfl, rfl⟩
    exact hslot.trans (ih (m.wakeUartSlot j))

/-- The current task exits. -/
lemma retire (code : ℤ) (m : TaskManager) : SameRegistry m (m.retire code) := by
  unfold TaskManager.retire
  split
  · exact refl m
  · split
    · exact refl m
    · split
      · exact ⟨rfl, rfl⟩
      · unfold notifyParent
        split
        · exact ⟨rfl, rfl⟩
        · split
          · dsimp only
            split <;> exact ⟨rfl, rfl⟩
          · exact ⟨rfl, rfl⟩

end SameRegistry

/-- An effect that takes no pid leaves the counter and the owner of the UART alone. -/
lemma Effect.registry {label : Label} {next : FramePtr} (h : Effect m label next m')
    (hlabel : label ≠ .create) : SameRegistry m m' := by
  have hresched : ∀ tf {n : TaskManager}, SameRegistry m n → SameRegistry m (n.resched tf) :=
    fun tf n hn => hn.trans (.resched tf n)
  cases h with
  | touch h => exact .touched h
  | bump => exact absurd rfl hlabel
  | create => exact absurd rfl hlabel
  | reap => exact ⟨rfl, rfl⟩
  | yield tf => exact .resched tf m
  | uart tf => exact hresched tf (.wakeUart m)
  | sleep tf => exact hresched tf ⟨rfl, rfl⟩
  | exit code => exact (SameRegistry.retire code m).trans ⟨rfl, rfl⟩
  | stage => exact ⟨rfl, rfl⟩
  | callQueued words payload tf => exact hresched tf ⟨rfl, rfl⟩
  | callDirect words payload tf => exact hresched tf ⟨rfl, rfl⟩
  | recvPop => exact ⟨rfl, rfl⟩
  | recvBlock tf => exact hresched tf ⟨rfl, rfl⟩
  | reply => exact ⟨rfl, rfl⟩
  | scribble => exact ⟨rfl, rfl⟩

/-- An effect that takes a pid moves the counter by one. -/
lemma Effect.registry_create {next : FramePtr} (h : Effect m .create next m') :
    m'.uartOwner = m.uartOwner ∧ m'.nextPid = (m.nextPid + 1) % 2 ^ 32 := by
  cases h with
  | bump => exact ⟨rfl, rfl⟩
  | create => exact ⟨rfl, rfl⟩

/-- All pids are 32-bit numbers. -/
structure PidsFit (m : TaskManager) : Prop where
  task : ∀ i t, m.tasks i = some t → t.pid < 2 ^ 32
  next : m.nextPid < 2 ^ 32

/-- A task after an effect has a pid that a task in its slot had, or the pid that has been taken. -/
lemma Effect.pid_cases (hm : Core m) (hi : m.RunsIn i) {label : Label} {next : FramePtr}
    (h : Effect m label next m') {j : Fin maxTasks} {b : Task} (hb : m'.tasks j = some b) :
    (∃ a, m.tasks j = some a ∧ b.pid = a.pid) ∨
      (label = .create ∧ m.tasks j = none ∧ b.pid = m.nextPid) := by
  have hstems : label ≠ .create → ∃ a, m.tasks j = some a ∧ b.pid = a.pid := fun hlabel => by
    obtain ⟨a, ha, hpid, -⟩ := h.stems hm hi hlabel j b hb
    exact ⟨a, ha, hpid⟩
  cases h with
  | bump => exact Or.inl ⟨b, hb, rfl⟩
  | create hfree hpid =>
    rcases tasks_of_set rfl hb with ⟨rfl, rfl⟩ | ⟨-, hb⟩
    · exact Or.inr ⟨rfl, hfree, hpid⟩
    · exact Or.inl ⟨b, hb, rfl⟩
  | _ => exact Or.inl (hstems (by simp))

/-- An effect hands out 32-bit pids. -/
lemma PidsFit.effect (hf : PidsFit m) (hm : Core m) (hi : m.RunsIn i) {label : Label}
    {next : FramePtr} (h : Effect m label next m') : PidsFit m' := by
  constructor
  · intro j b hb
    rcases h.pid_cases hm hi hb with ⟨a, ha, hpid⟩ | ⟨-, -, hpid⟩
    · rw [hpid]
      exact hf.task j a ha
    · rw [hpid]
      exact hf.next
  · by_cases hlabel : label = .create
    · subst hlabel
      rw [h.registry_create.2]
      exact Nat.mod_lt _ (by decide)
    · rw [(h.registry hlabel).nextPid]
      exact hf.next

end TaskManager

namespace System

open TaskManager

variable {s t : System} {ev : Event} {m₁ m₂ : TaskManager} {label : Label} {next : FramePtr}

/-- Writing a frame leaves the pids alone. -/
lemma Framed.pidsFit {m m' : TaskManager} {i : Fin maxTasks} (h : Framed i m m')
    (hm : PidsFit m) : PidsFit m' := by
  constructor
  · intro j b hb
    obtain ⟨a, ha, hs⟩ := (Calm.framed h).back j b hb
    rw [hs.pid]
    exact hm.task j a ha
  · rw [(SameRegistry.framed h).nextPid]
    exact hm.next

/-- A step hands out 32-bit pids. -/
lemma StepView.pidsFit (h : StepView s ev t m₁ m₂ label next) (hm : PidsFit s.kernel.tm) :
    PidsFit t.kernel.tm :=
  h.framed'.pidsFit ((h.framed.pidsFit hm).effect h.core h.runs h.effect)

/-- All pids are 32-bit numbers in the first state. -/
lemma pidsFit_boot {c : Config} (h : c.boot = some s) : PidsFit s.kernel.tm := by
  obtain ⟨m, t, hm, -, htm, hnext⟩ := Config.boot_entered h
  rw [htm]
  constructor
  · intro j b hb
    obtain ⟨a, ha, hs⟩ := (Calm.runSlot m s.hart).back j b hb
    rw [hs.pid]
    have hlt := hm.pid_lt j a ha
    omega
  · exact hnext.trans_lt (by decide)

/-- All pids are 32-bit numbers, in every state reached. -/
theorem pidsFit_of_reaches (h : nekos.Reaches FreshPid s) : PidsFit s.kernel.tm := by
  have hinv : s.Scheduled ∧ PidsFit s.kernel.tm := by
    refine h.invariant (I := fun s => s.Scheduled ∧ PidsFit s.kernel.tm) ?_ ?_
    · rintro s ⟨c, hc⟩
      exact ⟨scheduled_boot hc, pidsFit_boot hc⟩
    · rintro s ev t ⟨hs, hfit⟩ hok hstep
      obtain ⟨_, _, _, _, hview⟩ := hs.view hok hstep
      exact ⟨hview.scheduled, hview.pidsFit hfit⟩
  exact hinv.2

/-! ### Before the counter wraps -/

/-- The number of pids that an event takes: one when the counter moves. -/
def pidsTaken (s : System) (ev : Event) : ℕ :=
  match s.step ev with
  | some t => if t.kernel.tm.nextPid = s.kernel.tm.nextPid then 0 else 1
  | none => 0

/-- What a step that goes through takes. -/
lemma pidsTaken_of_step (h : s.step ev = some t) : s.pidsTaken ev =
    if t.kernel.tm.nextPid = s.kernel.tm.nextPid then 0 else 1 := by
  rw [pidsTaken, h]

/-- The pids in the table have been handed out before. -/
def PidsBelow (m : TaskManager) : Prop := ∀ i t, m.tasks i = some t → t.pid < m.nextPid

/-- The next pid is not in use when all pids have been handed out before. -/
lemma PidsBelow.freshPid (h : PidsBelow s.kernel.tm) (ev : Event) : s.FreshPid ev :=
  fun _ i t ht => Nat.ne_of_lt (h i t ht)

/-- A step before the counter wraps moves it by the pids taken. -/
lemma StepView.pidsBelow (h : StepView s ev t m₁ m₂ label next) (hstep : s.step ev = some t)
    (hb : PidsBelow s.kernel.tm) (hlt : s.kernel.tm.nextPid + s.pidsTaken ev < 2 ^ 32) :
    PidsBelow t.kernel.tm ∧ t.kernel.tm.nextPid = s.kernel.tm.nextPid + s.pidsTaken ev := by
  have hbefore : m₁.nextPid = s.kernel.tm.nextPid := (SameRegistry.framed h.framed).nextPid
  have hafter : t.kernel.tm.nextPid = m₂.nextPid := (SameRegistry.framed h.framed').nextPid
  have hnext : t.kernel.tm.nextPid = s.kernel.tm.nextPid + s.pidsTaken ev ∧
      (label = .create → s.pidsTaken ev = 1) := by
    rw [pidsTaken_of_step hstep] at hlt ⊢
    by_cases hlabel : label = .create
    · have heffect := h.effect
      rw [hlabel] at heffect
      have hmoved := heffect.registry_create.2
      rw [← hafter, hbefore] at hmoved
      have hne : t.kernel.tm.nextPid ≠ s.kernel.tm.nextPid := fun heq => by
        rw [heq] at hmoved
        omega
      rw [if_neg hne] at hlt ⊢
      rw [Nat.mod_eq_of_lt hlt] at hmoved
      exact ⟨hmoved, fun _ => rfl⟩
    · have hkept := (h.effect.registry hlabel).nextPid
      rw [← hafter, hbefore] at hkept
      rw [if_pos hkept]
      exact ⟨hkept, fun hcreate => absurd hcreate hlabel⟩
  refine ⟨fun i b hb' => ?_, hnext.1⟩
  obtain ⟨b₂, hb₂, hs₂⟩ := (Calm.framed h.framed').back i b hb'
  rw [hs₂.pid, hnext.1]
  rcases h.effect.pid_cases h.core h.runs hb₂ with ⟨a, ha, hpid⟩ | ⟨hcreate, -, hpid⟩
  · obtain ⟨a₁, ha₁, hs₁⟩ := (Calm.framed h.framed).back i a ha
    have hlt' := hb i a₁ ha₁
    rw [hpid, hs₁.pid]
    omega
  · rw [hpid, hbefore, hnext.2 hcreate]
    omega

/-- **Before the counter wraps**, every pid that is handed out is new. -/
theorem pidsBelow_of_run {es : List Event} (hs : s.Scheduled) (hb : PidsBelow s.kernel.tm)
    (hrun : nekos.run s es = some t)
    (hlt : s.kernel.tm.nextPid + nekos.total pidsTaken s es < 2 ^ 32) :
    nekos.RunOk FreshPid s es ∧ PidsBelow t.kernel.tm ∧
      t.kernel.tm.nextPid = s.kernel.tm.nextPid + nekos.total pidsTaken s es := by
  induction es generalizing s with
  | nil =>
    cases hrun
    exact ⟨trivial, hb, rfl⟩
  | cons ev es ih =>
    obtain ⟨u, hstep, hrest⟩ := Machine.run_cons_eq_some.mp hrun
    have htotal : nekos.total pidsTaken s (ev :: es) =
        s.pidsTaken ev + nekos.total pidsTaken u es := by
      rw [Machine.total, hstep, Option.elim_some]
    rw [htotal] at hlt ⊢
    obtain ⟨_, _, _, _, hview⟩ := hs.view (hb.freshPid ev) hstep
    obtain ⟨hb', hnext⟩ := hview.pidsBelow hstep hb (by omega)
    obtain ⟨hok, hbt, hnext'⟩ := ih hview.scheduled hb' hrest (by omega)
    refine ⟨⟨hb.freshPid ev, fun v hv => ?_⟩, hbt, by omega⟩
    obtain rfl := Option.some.inj (hstep.symm.trans hv)
    exact hok

/-- The boot hands out the pids up to three. -/
lemma pidsBelow_boot {c : Config} (h : c.boot = some s) :
    PidsBelow s.kernel.tm ∧ s.kernel.tm.nextPid ≤ 4 := by
  obtain ⟨m, t, hm, -, htm, hnext⟩ := Config.boot_entered h
  rw [htm]
  refine ⟨fun j b hb => ?_, hnext⟩
  obtain ⟨a, ha, hs⟩ := (Calm.runSlot m s.hart).back j b hb
  rw [hs.pid]
  exact hm.pid_lt j a ha

end System

end NekOS
