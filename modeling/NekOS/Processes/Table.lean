import NekOS.AddressSpace.Startup
import NekOS.Ipc.Receipts
import NekOS.Scheduling.Pids
import NekOS.Scheduling.RoundRobin

/-!
# The process table in every reachable state

Three invariants of the process table: what the scheduler keeps (`scheduler_invariant`), the process
tree (`process_tree`), and that a pid denotes one task only (`pids_denote_one_task`).  The first two
hold as long as every pid that is handed out is one that no task has; the third shows that this is so
until the 32-bit counter has run over.
-/

namespace NekOS

namespace TaskManager

variable {m m' : TaskManager} {i : Fin maxTasks}

/-! ### The pids that are recorded -/

/-- The pids that are recorded outside the task table have been handed out. -/
structure Recorded (m : TaskManager) : Prop where
  /-- The owners of the endpoints. -/
  owner : ∀ e ep, m.endpoints e = some ep → ep.owner < m.nextPid
  /-- The senders of the pending messages. -/
  sender : ∀ e ep, m.endpoints e = some ep → ∀ message ∈ ep.pending.toList,
    message.sender < m.nextPid
  /-- The owner of the UART. -/
  uart : ∀ pid, m.uartOwner = some pid → pid < m.nextPid

/-- A change of the tasks alone, which does not move the counter back. -/
lemma Recorded.of_same (h : Recorded m) (hends : m'.endpoints = m.endpoints)
    (huart : m'.uartOwner = m.uartOwner) (hnext : m.nextPid ≤ m'.nextPid) : Recorded m' where
  owner e ep hep := (h.owner e ep (hends ▸ hep)).trans_le hnext
  sender e ep hep message hmem := (h.sender e ep (hends ▸ hep) message hmem).trans_le hnext
  uart pid hpid := (h.uart pid (huart ▸ hpid)).trans_le hnext

/-- An effect records at most the pid of the current task. -/
lemma Recorded.effect (h : Recorded m) (hb : System.PidsBelow m) (hm : Core m) (hi : m.RunsIn i)
    {label : Label} {next : FramePtr} (heff : Effect m label next m') (hnext : m.nextPid ≤ m'.nextPid) :
    Recorded m' := by
  have hstep : ∀ e ep', m'.endpoints e = some ep' → ep'.owner < m.nextPid ∧
      ∀ message ∈ ep'.pending.toList, message.sender < m.nextPid := by
    intro e ep' hep'
    cases hep : m.endpoints e with
    | none =>
      rw [(heff.noEndpoint hep).1] at hep'
      cases hep'
    | some ep =>
      obtain ⟨ep₁, hep₁, howner, hstep⟩ := heff.endpoint hep
      obtain rfl := Option.some.inj (hep₁.symm.trans hep')
      refine ⟨howner ▸ h.owner e ep hep, fun message hmem => ?_⟩
      cases hstep with
      | keep _ hpending => exact h.sender e ep hep message (hpending ▸ hmem)
      | hand _ hpending => exact h.sender e ep hep message (hpending ▸ hmem)
      | take _ hpop =>
        exact h.sender e ep hep message (RingBuffer.pop_eq_some hpop ▸ List.mem_cons_of_mem _ hmem)
      | @queue sender words payload _ hfull hpending =>
        rw [hpending, toList_pushOk hfull, List.mem_append, List.mem_singleton] at hmem
        rcases hmem with hmem | rfl
        · exact h.sender e ep hep message hmem
        · obtain ⟨a, ha, hcur, -⟩ := id hi
          rw [← Option.some.inj (hcur.symm.trans (heff.caller hm hi rfl).1)]
          exact hb _ a ha
  refine ⟨fun e ep hep => (hstep e ep hep).1.trans_le hnext,
    fun e ep hep message hmem => ((hstep e ep hep).2 message hmem).trans_le hnext, fun pid hpid => ?_⟩
  refine (h.uart pid ?_).trans_le hnext
  by_cases hlabel : label = .create
  · subst hlabel
    rwa [← heff.registry_create.1]
  · rwa [← (heff.registry hlabel).uartOwner]

/-- `create_idle` records no pid. -/
lemma recorded_createIdle {k k' : Kernel} {entry o : ℕ} (hk : k.tm = new)
    (hrun : Kernel.createIdle entry k = some (some o, k')) : Recorded k'.tm := by
  rw [Kernel.createIdle, Kernel.readTm_bind] at hrun
  rcases Fallible.guard_cases hrun with ⟨-, hnone, -⟩ | ⟨-, hrun⟩
  · simp at hnone
  rcases Fallible.ofOption_bind_cases hrun with ⟨-, hnone, -⟩ | ⟨slot, -, hrun⟩
  · simp at hnone
  obtain ⟨⟨kernelStack, pagetable⟩, k₁, h, hset⟩ := Fallible.bind_eq_some.mp hrun
  obtain ⟨ph, -, rfl⟩ := Kernel.onPhys_eq_some.mp h
  obtain ⟨-, rfl⟩ := by simpa using hset
  constructor <;> simp [hk, setTask, new]

/-- `spawn` keeps what is recorded. -/
lemma Recorded.spawn {k k' : Kernel} {name : String} {o : Option ℕ} (h : Recorded k.tm)
    (hpids : k.tm.nextPid + 1 < 2 ^ 32) (hrun : Kernel.spawn name k = some (o, k')) :
    Recorded k'.tm := by
  have hbump : k.tm.bumpPid.nextPid = k.tm.nextPid + 1 := Nat.mod_eq_of_lt hpids
  rcases Kernel.spawn_cases hrun with ⟨-, hload⟩ | ⟨image, ph, -, hcreate⟩
  · rcases Kernel.load_cases hload with ⟨-, rfl, -⟩ | ⟨_, ph, -, -, rfl⟩
    · exact h
    · exact h
  · rcases Kernel.createUserImage_cases hcreate with
      ⟨-, ph', rfl, -⟩ | ⟨-, -, -, slot, _, ph', -, -, rfl⟩
    · exact h
    · exact h.of_same rfl rfl ((Nat.le_succ _).trans hbump.ge)

/-- The UART is granted to a task. -/
lemma Recorded.grantUart {k k' : Kernel} {pid : ℕ} {o : Option Unit} (h : Recorded k.tm)
    (hfresh : Fresh k.tm) (hrun : Kernel.grantUart pid k = some (o, k')) : Recorded k'.tm := by
  rw [Kernel.grantUart, Kernel.readTm_bind] at hrun
  rcases Fallible.guard_cases hrun with ⟨-, rfl, rfl⟩ | ⟨-, hrun⟩
  · exact h
  rcases Fallible.ofOption_bind_cases hrun with ⟨-, rfl, rfl⟩ | ⟨t, ht, hrun⟩
  · exact h
  obtain ⟨i, hi, -⟩ := Option.bind_eq_some_iff.mp ht
  obtain ⟨u, hu, hpid⟩ := findPid_eq_some hi
  rcases Fallible.bind_eq_iff.mp hrun with ⟨rfl, hset⟩ | ⟨_, k₁, hset, hdone⟩
  · obtain ⟨ph, -, rfl⟩ := Kernel.onPhys_eq_some.mp hset
    exact h
  · obtain ⟨ph, -, rfl⟩ := Kernel.onPhys_eq_some.mp hset
    obtain ⟨-, rfl⟩ := by simpa using hdone
    refine ⟨h.owner, h.sender, fun p hp => ?_⟩
    obtain rfl : pid = p := Option.some.inj hp
    rw [← hpid]
    exact hfresh.pid_lt i u hu

/-- An endpoint is registered for a task. -/
lemma Recorded.registerEndpoint {k k' : Kernel} {endpoint owner : ℕ} {o : Option Unit}
    (h : Recorded k.tm) (hfresh : Fresh k.tm)
    (hrun : Kernel.registerEndpoint endpoint owner k = some (o, k')) : Recorded k'.tm := by
  rw [Kernel.registerEndpoint, Kernel.readTm_bind] at hrun
  split at hrun
  · rcases Fallible.guard_cases hrun with ⟨-, rfl, rfl⟩ | ⟨-, hrun⟩
    · exact h
    rcases Fallible.guard_cases hrun with ⟨-, rfl, rfl⟩ | ⟨hfound, hrun⟩
    · exact h
    obtain ⟨-, rfl⟩ := by simpa using hrun
    obtain ⟨i, hi⟩ : ∃ i, k.tm.findPid owner = some i := by
      cases hf : k.tm.findPid owner with
      | none => simp [hf] at hfound
      | some i => exact ⟨i, rfl⟩
    obtain ⟨u, hu, hpid⟩ := findPid_eq_some hi
    refine ⟨fun e ep hep => ?_, fun e ep hep message hmem => ?_, h.uart⟩
    · simp only [Slots.set_apply] at hep
      split at hep
      · obtain rfl := Option.some.inj hep
        rw [show (Endpoint.new owner).owner = owner from rfl, ← hpid]
        exact hfresh.pid_lt i u hu
      · exact h.owner e ep hep
    · simp only [Slots.set_apply] at hep
      split at hep
      · obtain rfl := Option.some.inj hep
        simp [Endpoint.new, MsgQueue.new] at hmem
      · exact h.sender e ep hep message hmem
  · obtain ⟨-, rfl⟩ := by simpa using hrun
    exact h

/-! ### The process tree -/

/-- The task with the pid `c` knows the pid `p` as that of its parent. -/
def ChildOf (m : TaskManager) (c p : ℕ) : Prop :=
  ∃ i t, m.tasks i = some t ∧ t.pid = c ∧ t.parentPid = some p

/-- There is a rank that grows from parents to children. -/
def Ranked (m : TaskManager) : Prop :=
  ∃ rank : ℕ → ℕ, ∀ c p, m.ChildOf c p → rank p < rank c

/-- Where no task gets a new parent the rank stays. -/
lemma Ranked.stems (h : Ranked m) (hs : Stems m m') : Ranked m' := by
  obtain ⟨rank, hrank⟩ := h
  refine ⟨rank, fun c p => ?_⟩
  rintro ⟨i, t', ht', rfl, hp⟩
  obtain ⟨t, ht, hpid, hparent⟩ := hs i t' ht'
  exact hrank _ _ ⟨i, t, ht, hpid.symm, hparent p hp⟩

/-- A new task is a leaf of the tree. -/
lemma Ranked.create (h : Ranked m) (hf : Family m) (hi : m.RunsIn i) (hfree : m.PidFree)
    {slot : Fin maxTasks} {t : Task} (hpid : t.pid = m.nextPid) (hparent : t.parentPid = m.currentPid)
    (htasks : m'.tasks = m.tasks.set slot (some t)) : Ranked m' := by
  obtain ⟨rank, hrank⟩ := h
  obtain ⟨a, ha, hcur, -⟩ := hi
  refine ⟨Function.update rank m.nextPid (rank a.pid + 1), fun c p => ?_⟩
  rintro ⟨j, u, hu, rfl, hp⟩
  rcases tasks_of_set htasks hu with ⟨-, rfl⟩ | ⟨-, hu⟩
  · obtain rfl : a.pid = p := Option.some.inj (hcur.symm.trans (hparent.symm.trans hp))
    rw [hpid, Function.update_self, Function.update_of_ne (hfree _ a ha)]
    exact Nat.lt_succ_self _
  · obtain ⟨l, v, hv, rfl, -⟩ := hf.parent j u p hu hp
    rw [Function.update_of_ne (hfree j u hu), Function.update_of_ne (hfree l v hv)]
    exact hrank _ _ ⟨j, u, hu, rfl, hp⟩

/-- **Step lemma.**  Every effect that takes a fresh pid, if any, keeps the rank. -/
lemma Ranked.effect (h : Ranked m) (hf : Family m) (hm : Core m) (hi : m.RunsIn i) {label : Label}
    {next : FramePtr} (hfree : label = .create → m.PidFree) (heff : Effect m label next m') :
    Ranked m' := by
  by_cases hlabel : label = .create
  · subst hlabel
    cases heff with
    | bump => exact h
    | create _ hpid _ _ hparent => exact h.create hf hi (hfree rfl) hpid hparent rfl
  · exact h.stems (heff.stems hm hi hlabel)

/-- Ancestors have a smaller rank. -/
lemma rank_lt_of_descends {rank : ℕ → ℕ} (hrank : ∀ c p, m.ChildOf c p → rank p < rank c) {c p : ℕ}
    (h : Relation.TransGen m.ChildOf c p) : rank p < rank c := by
  induction h with
  | single h => exact hrank _ _ h
  | tail _ h ih => exact (hrank _ _ h).trans ih

/-- A task that waits for a child has a living descendant that waits for none. -/
lemma Family.waits_end (hf : Family m) (h : Ranked m) {t : Task} {c : ℕ} (ht : m.tasks i = some t)
    (hc : t.awaited = some c) : ∃ j u, m.tasks j = some u ∧ u.state ≠ .zombie ∧ u.awaited = none ∧
      Relation.TransGen m.ChildOf u.pid t.pid := by
  obtain ⟨rank, hrank⟩ := h
  let bound := Finset.univ.sup fun j => (m.tasks j).elim 0 fun u => rank u.pid
  have hle : ∀ j u, m.tasks j = some u → rank u.pid ≤ bound := fun j u hu => by
    have := Finset.le_sup (f := fun j => (m.tasks j).elim 0 fun u => rank u.pid) (Finset.mem_univ j)
    simpa [hu] using this
  -- The induction goes down the tree, along which the rank grows up to its bound.
  induction hd : bound - rank t.pid using Nat.strong_induction_on generalizing i t c with
  | _ d ih =>
    obtain ⟨j, u, hu, rfl, hz, hparent⟩ := hf.child i t c ht hc
    have hchild : m.ChildOf u.pid t.pid := ⟨j, u, hu, rfl, hparent⟩
    cases hwait : u.awaited with
    | none => exact ⟨j, u, hu, hz, hwait, .single hchild⟩
    | some c' =>
      have hlt := hrank _ _ hchild
      have hle' := hle j u hu
      obtain ⟨l, v, hv, hvz, hvwait, hdesc⟩ := ih _ (by omega) hu hwait rfl
      exact ⟨l, v, hv, hvz, hvwait, hdesc.tail hchild⟩

/-! ### Every mention of a pid -/

/-- The kernel has the pid on record: as that of a task or of its parent, of a child that is waited
for, of the current task, of an owner or a blocked receiver of an endpoint, of the sender of a
pending message, or of the owner of the UART. -/
def Mentions (m : TaskManager) (p : ℕ) : Prop :=
  (∃ i t, m.tasks i = some t ∧ (t.pid = p ∨ t.parentPid = some p ∨ t.awaited = some p)) ∨
    m.currentPid = some p ∨
    (∃ e ep, m.endpoints e = some ep ∧ (ep.owner = p ∨ ep.waitingReceiver = some p ∨
      ∃ message ∈ ep.pending.toList, message.sender = p)) ∨
    m.uartOwner = some p

/-- Every pid on record has been handed out. -/
lemma Recorded.mentions_lt (h : Recorded m) (hb : System.PidsBelow m) (hf : Family m) (hm : Core m)
    (hi : m.RunsIn i) {p : ℕ} (hp : m.Mentions p) : p < m.nextPid := by
  rcases hp with ⟨j, t, ht, rfl | hparent | hc⟩ | hcur | ⟨e, ep, hep, rfl | hwait | hsender⟩ | huart
  · exact hb j t ht
  · obtain ⟨l, u, hu, rfl, -⟩ := hf.parent j t p ht hparent
    exact hb l u hu
  · obtain ⟨l, u, hu, rfl, -⟩ := hf.child j t p ht hc
    exact hb l u hu
  · obtain ⟨a, ha, hcur', -⟩ := hi
    rw [← Option.some.inj (hcur'.symm.trans hcur)]
    exact hb _ a ha
  · exact h.owner e ep hep
  · rw [((hm.receiver e ep p hep).mp hwait).1]
    exact h.owner e ep hep
  · obtain ⟨message, hmem, rfl⟩ := hsender
    exact h.sender e ep hep message hmem
  · exact h.uart p huart

end TaskManager

namespace Config

open TaskManager

/-- The boot records pids of the tasks that it has created. -/
lemma boot_recorded {c : Config} {s : System} (h : c.boot = some s) : Recorded s.kernel.tm := by
  obtain ⟨⟨_ | hart, k⟩, hmain, h⟩ := Option.bind_eq_some_iff.mp h
  · simp at h
  obtain rfl : (⟨k, hart⟩ : System) = s := by simpa using h
  unfold kernelMain at hmain
  obtain ⟨_, k₁, hinit, hmain⟩ := Fallible.bind_eq_some.mp hmain
  obtain ⟨_, k₂, hidle, hmain⟩ := Fallible.bind_eq_some.mp hmain
  obtain ⟨console, k₃, hconsole, hmain⟩ := Fallible.bind_eq_some.mp hmain
  obtain ⟨_, k₄, hgrant, hmain⟩ := Fallible.bind_eq_some.mp hmain
  obtain ⟨_, k₅, hregister, hmain⟩ := Fallible.bind_eq_some.mp hmain
  obtain ⟨fs, k₆, hfs, hmain⟩ := Fallible.bind_eq_some.mp hmain
  obtain ⟨_, k₇, hregister', hmain⟩ := Fallible.bind_eq_some.mp hmain
  obtain ⟨shell, k₈, hshell, henter⟩ := Fallible.bind_eq_some.mp hmain
  obtain ⟨_, -, hinit⟩ := Fallible.expect_eq_some.mp hinit
  obtain ⟨_, -, hidle⟩ := Fallible.expect_eq_some.mp hidle
  obtain ⟨_, -, hconsole⟩ := Fallible.expect_eq_some.mp hconsole
  obtain ⟨_, -, hgrant⟩ := Fallible.expect_eq_some.mp hgrant
  obtain ⟨_, -, hregister⟩ := Fallible.expect_eq_some.mp hregister
  obtain ⟨_, -, hfs⟩ := Fallible.expect_eq_some.mp hfs
  obtain ⟨_, -, hregister'⟩ := Fallible.expect_eq_some.mp hregister'
  obtain ⟨_, -, hshell⟩ := Fallible.expect_eq_some.mp hshell
  obtain ⟨ph, -, rfl⟩ := Kernel.onPhys_eq_some.mp hinit
  obtain ⟨hfresh₂, hnext₂⟩ := createIdle_fresh (k := { c.powerOn with phys := ph }) rfl hidle
  have hrecorded₂ := recorded_createIdle (k := { c.powerOn with phys := ph }) rfl hidle
  have hrecorded₃ := hrecorded₂.spawn (by omega) hconsole
  obtain ⟨hfresh₃, hnext₃⟩ := hfresh₂.spawn (by omega) hconsole
  have hrecorded₄ := hrecorded₃.grantUart hfresh₃ hgrant
  obtain ⟨hfresh₄, hnext₄⟩ := hfresh₃.grantUart hgrant
  have hrecorded₅ := hrecorded₄.registerEndpoint hfresh₄ hregister
  obtain ⟨hfresh₅, hnext₅⟩ := hfresh₄.registerEndpoint hregister
  have hrecorded₆ := hrecorded₅.spawn (by omega) hfs
  obtain ⟨hfresh₆, hnext₆⟩ := hfresh₅.spawn (by omega) hfs
  have hrecorded₇ := hrecorded₆.registerEndpoint hfresh₆ hregister'
  obtain ⟨hfresh₇, hnext₇⟩ := hfresh₆.registerEndpoint hregister'
  have hrecorded₈ := hrecorded₇.spawn (by omega) hshell
  rw [Kernel.enterTask, Kernel.readTm_bind] at henter
  obtain ⟨i, hi, hret⟩ := Fallible.unwrap_bind_cases henter
  obtain ⟨rfl, rfl⟩ : i = hart ∧ { k₈ with tm := k₈.tm.runSlot i } = k := by simpa using hret
  exact hrecorded₈.of_same rfl rfl le_rfl

end Config

namespace System

open TaskManager

variable {s t : System} {ev : Event} {m₁ m₂ : TaskManager} {label : Label} {next : FramePtr}

/-! ### The scheduler -/

/-- What the scheduler keeps between two events. -/
structure SchedulerInvariant (m : TaskManager) : Prop where
  /-- Some task is running. -/
  exists_running : ∃ i t, m.tasks i = some t ∧ t.state = .running
  /-- No two tasks are running. -/
  running_unique : ∀ i j a b, m.tasks i = some a → m.tasks j = some b → a.state = .running →
    b.state = .running → i = j
  /-- The running task is the current one. -/
  running_current : ∀ i t, m.tasks i = some t → (t.state = .running ↔ m.currentPid = some t.pid)
  /-- A task sleeps exactly when it waits on a channel. -/
  sleeping : ∀ i t, m.tasks i = some t → (t.state = .sleeping ↔ t.waitingFor.isSome = true)
  /-- An endpoint lists its owner as receiver exactly when the owner sleeps in a receive operation
  on it. -/
  receiver : ∀ e ep p, m.endpoints e = some ep → (ep.waitingReceiver = some p ↔
    p = ep.owner ∧ ∃ i t, m.tasks i = some t ∧ t.pid = p ∧ t.state = .sleeping ∧
      t.waitingFor = some (.ipcRecv e))
  /-- The counter is the number of ready and running tasks other than the idle one. -/
  count : m.runnableCount = m.tasks.count fun t =>
    decide (t.pid ≠ idlePid) && (decide (t.state = .ready) || decide (t.state = .running))
  /-- The decrement of `exit_current` does not underflow. -/
  exit_count : m.currentPid ≠ some idlePid → 0 < m.runnableCount

/-! ### The process tree -/

/-- The process tree is kept. -/
lemma tree_of_reaches (h : nekos.Reaches FreshPid s) :
    s.Scheduled ∧ Family s.kernel.tm ∧ Ranked s.kernel.tm := by
  refine invariant_of_effects (P := fun m => Family m ∧ Ranked m) (fun _ _ hok => hok)
    (fun m i t hm ht => ⟨?_, ?_⟩) (fun m m' i hf hP => ?_) (fun s ev t m₁ m₂ label next hs hok hview
      _ hP => ?_) h
  · refine ⟨fun j b p hb hp => ?_, fun j b c hb hc => ?_⟩
    · obtain ⟨a, ha, hs⟩ := (Calm.runSlot m i).back j b hb
      rw [hs.parentPid, hm.parent j a ha] at hp
      cases hp
    · obtain ⟨a, ha, hs⟩ := (Calm.runSlot m i).back j b hb
      have hwait := hm.waiting j a ha
      have hnone : a.waitingFor = none := by simpa [hm.ready j a ha] using hwait
      have hc' := hs.awaited c hc
      simp [Task.awaited, hnone] at hc'
  · refine ⟨id, ?_⟩
    rintro c p ⟨j, b, hb, -, hp⟩
    obtain ⟨a, ha, hs⟩ := (Calm.runSlot m i).back j b hb
    rw [hs.parentPid, hm.parent j a ha] at hp
    cases hp
  · exact ⟨hP.1.calm (.framed hf), hP.2.stems (Calm.framed hf).kin.stems⟩
  · refine ⟨hP.1.effect hview.core hview.runs hview.effect,
      hP.2.effect hP.1 hview.core hview.runs (fun hlabel => ?_) hview.effect⟩
    exact hview.framed.pidFree (hok (takesPid_of_shows hview.shows' hlabel))

/-- What holds of parents, children and exited tasks between two events. -/
structure ProcessTree (k : Kernel) : Prop where
  /-- A parent that is on record has not exited. -/
  parent : ∀ i t p, k.tm.tasks i = some t → t.parentPid = some p → k.tm.Alive p
  /-- No task is its own ancestor. -/
  acyclic : ∀ p, ¬ Relation.TransGen k.tm.ChildOf p p
  /-- The child that a task waits for is its own and has not exited. -/
  child : ∀ i t c, k.tm.tasks i = some t → t.waitingFor = some (.child c) → k.tm.HasChild t.pid c
  /-- Among the descendants of a task that waits for a child there is one that has not exited and
  waits for no child. -/
  waits : ∀ i t c, k.tm.tasks i = some t → t.waitingFor = some (.child c) →
    ∃ j u, k.tm.tasks j = some u ∧ u.state ≠ .zombie ∧ (∀ d, u.waitingFor ≠ some (.child d)) ∧
      Relation.TransGen k.tm.ChildOf u.pid t.pid
  /-- The next call of `schedule` leaves only such zombies whose parent can still wait for them. -/
  zombies : ∀ tf o k', Kernel.schedule tf k = some (o, k') → ∀ i t, k'.tm.tasks i = some t →
    t.state = .zombie → ∃ p, t.parentPid = some p ∧ k'.tm.Alive p

/-! ### Pids denote one task -/

/-- What the kernel has on record stays below the counter, and no pid below it passes on to another
task. -/
lemma lasting_of_run {es : List Event} {n : ℕ} (hs : s.Scheduled) (hb : PidsBelow s.kernel.tm)
    (hf : Family s.kernel.tm) (hr : Recorded s.kernel.tm) (hn : n ≤ s.kernel.tm.nextPid)
    (hrun : nekos.run s es = some t)
    (hlt : s.kernel.tm.nextPid + nekos.total pidsTaken s es < 2 ^ 32) :
    t.Scheduled ∧ PidsBelow t.kernel.tm ∧ Family t.kernel.tm ∧ Recorded t.kernel.tm ∧
      ∀ i b, t.kernel.tm.tasks i = some b → b.pid < n →
        ∃ a, s.kernel.tm.tasks i = some a ∧ a.pid = b.pid := by
  induction es generalizing s with
  | nil =>
    cases hrun
    exact ⟨hs, hb, hf, hr, fun i b h _ => ⟨b, h, rfl⟩⟩
  | cons ev es ih =>
    obtain ⟨u, hstep, hrest⟩ := Machine.run_cons_eq_some.mp hrun
    rw [Machine.total, hstep, Option.elim_some] at hlt
    obtain ⟨m₁, m₂, label, next, hview⟩ := hs.view (hb.freshPid ev) hstep
    obtain ⟨hb', hnext⟩ := hview.pidsBelow hstep hb (by omega)
    have hf₁ := hf.calm (.framed hview.framed)
    have hb₁ : PidsBelow m₁ := fun i b hb₁ => by
      obtain ⟨a, ha, hsettled⟩ := (Calm.framed hview.framed).back i b hb₁
      rw [hsettled.pid, (SameRegistry.framed hview.framed).nextPid]
      exact hb i a ha
    have hnext₁ : m₁.nextPid = s.kernel.tm.nextPid := (SameRegistry.framed hview.framed).nextPid
    have hnext₂ : u.kernel.tm.nextPid = m₂.nextPid := (SameRegistry.framed hview.framed').nextPid
    have hr₁ : Recorded m₁ := hr.of_same hview.framed.endpoints
      (SameRegistry.framed hview.framed).uartOwner hnext₁.ge
    have hr₂ := hr₁.effect hb₁ hview.core hview.runs hview.effect (by omega)
    have hr' : Recorded u.kernel.tm := hr₂.of_same hview.framed'.endpoints
      (SameRegistry.framed hview.framed').uartOwner hnext₂.ge
    have hf' := (hf₁.effect hview.core hview.runs hview.effect).calm (.framed hview.framed')
    obtain ⟨ht, hbt, hft, hrt, hlasting⟩ := ih hview.scheduled hb' hf' hr' (by omega) hrest (by omega)
    refine ⟨ht, hbt, hft, hrt, fun i b hb hlow => ?_⟩
    obtain ⟨c, hc, hpid⟩ := hlasting i b hb hlow
    obtain ⟨c₂, hc₂, hsettled₂⟩ := (Calm.framed hview.framed').back i c hc
    rcases hview.effect.pid_cases hview.core hview.runs hc₂ with ⟨c₁, hc₁, hpid₁⟩ | ⟨-, -, hnew⟩
    · obtain ⟨a, ha, hsettled₁⟩ := (Calm.framed hview.framed).back i c₁ hc₁
      exact ⟨a, ha, by rw [← hpid, hsettled₂.pid, hpid₁, hsettled₁.pid]⟩
    · rw [← hpid, hsettled₂.pid, hnew, hnext₁] at hlow
      omega

/-- Between a state and a later one no pid changes hands. -/
structure PidsLast (s t : TaskManager) : Prop where
  /-- No two tasks have the same pid. -/
  unique : ∀ i j a b, t.tasks i = some a → t.tasks j = some b → a.pid = b.pid → i = j
  /-- The idle pid is that of the task in the first slot. -/
  idle : ∀ i a, t.tasks i = some a → (a.pid = idlePid ↔ i = System.idleSlot)
  /-- The pids that the kernel has on record are among those that have been handed out. -/
  mentioned : ∀ p, s.Mentions p → p < s.nextPid
  /-- A task that has one of these later is the task that had it before. -/
  lasting : ∀ p < s.nextPid, ∀ i b, t.tasks i = some b → b.pid = p →
    ∃ a, s.tasks i = some a ∧ a.pid = p

end System

end NekOS
