import NekOS.Ipc.Sleepers

/-!
# Parents and children

A task knows its parent by pid until the parent exits or has been told the exit code.  `Family`
says that the parent of a task is alive, and that a task which waits for a child has that child and
the child has not exited.  So no wake-up is lost: the exit that a parent waits for is still to come.
-/

namespace NekOS

/-- The child that a task waits for. -/
def Task.awaited (t : Task) : Option ℕ :=
  match t.waitingFor with
  | some (.child pid) => some pid
  | _ => none

/-- The child that a task waits for depends on its wait channel alone. -/
lemma Task.awaited_congr {t t' : Task} (h : t'.waitingFor = t.waitingFor) :
    t'.awaited = t.awaited := by
  rw [Task.awaited, Task.awaited, h]

namespace TaskManager

variable {m m' m₁ : TaskManager} {i : Fin maxTasks}

/-- A task that has not exited has the pid. -/
def Alive (m : TaskManager) (pid : ℕ) : Prop :=
  ∃ i t, m.tasks i = some t ∧ t.pid = pid ∧ t.state ≠ .zombie

/-- The parent has a child with the pid, which has not exited. -/
def HasChild (m : TaskManager) (parent pid : ℕ) : Prop :=
  ∃ i t, m.tasks i = some t ∧ t.pid = pid ∧ t.state ≠ .zombie ∧ t.parentPid = some parent

/-- The process tree. -/
structure Family (m : TaskManager) : Prop where
  /-- The parent of a task is alive. -/
  parent : ∀ i t p, m.tasks i = some t → t.parentPid = some p → m.Alive p
  /-- A task waits for a child of its own that has not exited. -/
  child : ∀ i t c, m.tasks i = some t → t.awaited = some c → m.HasChild t.pid c

/-! ### Changes within the family -/

/-- A change of a task that keeps its place in the family: it keeps its pid and parent, does not
exit, and waits for no new child. -/
structure Settled (t t' : Task) : Prop where
  pid : t'.pid = t.pid
  parentPid : t'.parentPid = t.parentPid
  alive : t.state ≠ .zombie → t'.state ≠ .zombie
  awaited : ∀ c, t'.awaited = some c → t.awaited = some c

/-- No change. -/
lemma Settled.refl (t : Task) : Settled t t := ⟨rfl, rfl, id, fun _ => id⟩

/-- A change of the table in which every task keeps its place and at most zombies go. -/
structure Calm (m m' : TaskManager) : Prop where
  back : ∀ i t', m'.tasks i = some t' → ∃ t, m.tasks i = some t ∧ Settled t t'
  forth : ∀ i t, m.tasks i = some t → t.state ≠ .zombie →
    ∃ t', m'.tasks i = some t' ∧ Settled t t'

/-- The table is not changed. -/
lemma Calm.of_tasks (h : m'.tasks = m.tasks) : Calm m m' where
  back i t' ht := ⟨t', by rw [← h, ht], .refl t'⟩
  forth i t ht _ := ⟨t, by rw [h, ht], .refl t⟩

/-- One change after the other. -/
lemma Calm.trans (h₁ : Calm m m₁) (h₂ : Calm m₁ m') : Calm m m' where
  back i t' ht := by
    obtain ⟨t₁, ht₁, hs₂⟩ := h₂.back i t' ht
    obtain ⟨t, ht, hs₁⟩ := h₁.back i t₁ ht₁
    exact ⟨t, ht, hs₂.pid.trans hs₁.pid, hs₂.parentPid.trans hs₁.parentPid,
      fun h => hs₂.alive (hs₁.alive h), fun c h => hs₁.awaited c (hs₂.awaited c h)⟩
  forth i t ht hz := by
    obtain ⟨t₁, ht₁, hs₁⟩ := h₁.forth i t ht hz
    obtain ⟨t', ht', hs₂⟩ := h₂.forth i t₁ ht₁ (hs₁.alive hz)
    exact ⟨t', ht', hs₂.pid.trans hs₁.pid, hs₂.parentPid.trans hs₁.parentPid,
      fun h => hs₂.alive (hs₁.alive h), fun c h => hs₁.awaited c (hs₂.awaited c h)⟩

/-- One task changes. -/
lemma Calm.update {f : Task → Task} (hf : ∀ t, m.tasks i = some t → Settled t (f t)) :
    Calm m (m.updateTask i f) where
  back j t' ht := by
    by_cases hj : j = i
    · subst hj
      simp only [updateTask, setTask, Slots.set_self, Option.map_eq_some_iff] at ht
      obtain ⟨t, ht, rfl⟩ := ht
      exact ⟨t, ht, hf t ht⟩
    · rw [tasks_updateTask_of_ne hj] at ht
      exact ⟨t', ht, .refl t'⟩
  forth j t ht _ := by
    by_cases hj : j = i
    · subst hj
      exact ⟨f t, by rw [tasks_updateTask ht, Slots.set_self], hf t ht⟩
    · exact ⟨t, by rw [tasks_updateTask_of_ne hj, ht], .refl t⟩

/-- The family is kept when every task keeps at most the relations that it had, or finds the child
that it waits for. -/
lemma Family.mono (hm : Family m)
    (hback : ∀ i t', m'.tasks i = some t' → ∃ t, m.tasks i = some t ∧ t'.pid = t.pid ∧
      (∀ p, t'.parentPid = some p → t.parentPid = some p) ∧
      ∀ c, t'.awaited = some c → t.awaited = some c ∨ m.HasChild t.pid c)
    (hforth : ∀ i t, m.tasks i = some t → t.state ≠ .zombie → ∃ t', m'.tasks i = some t' ∧
      t'.pid = t.pid ∧ t'.state ≠ .zombie ∧ t'.parentPid = t.parentPid) : Family m' := by
  constructor
  · intro i t' p ht' hp
    obtain ⟨t, ht, -, hparent, -⟩ := hback i t' ht'
    obtain ⟨j, u, hu, hpid, hz⟩ := hm.parent i t p ht (hparent p hp)
    obtain ⟨u', hu', hpid', hz', -⟩ := hforth j u hu hz
    exact ⟨j, u', hu', hpid'.trans hpid, hz'⟩
  · intro i t' c ht' hc
    obtain ⟨t, ht, hpid, -, hawaited⟩ := hback i t' ht'
    obtain ⟨j, u, hu, hpidu, hz, hparent⟩ : m.HasChild t.pid c :=
      (hawaited c hc).elim (hm.child i t c ht) id
    obtain ⟨u', hu', hpidu', hz', hparent'⟩ := hforth j u hu hz
    exact ⟨j, u', hu', hpidu'.trans hpidu, hz', by rw [hparent', hparent, hpid]⟩

/-- Changes within the family keep it. -/
lemma Family.calm (hm : Family m) (h : Calm m m') : Family m' := by
  refine hm.mono (fun i t' ht' => ?_) fun i t ht hz => ?_
  · obtain ⟨t, ht, hs⟩ := h.back i t' ht'
    exact ⟨t, ht, hs.pid, fun p hp => by rwa [← hs.parentPid], fun c hc =>
      Or.inl (hs.awaited c hc)⟩
  · obtain ⟨t', ht', hs⟩ := h.forth i t ht hz
    exact ⟨t', ht', hs.pid, hs.alive hz, hs.parentPid⟩

/-- Writing frames keeps the family. -/
lemma Calm.framed (h : System.Framed i m m') : Calm m m' := by
  rcases h with rfl | ⟨tf, rfl⟩
  · exact .of_tasks rfl
  · exact .update fun t _ => ⟨rfl, rfl, id, fun _ => id⟩

/-- A change of data of the current task. -/
lemma Calm.touched (h : Touched m m') : Calm m m' := by
  rcases h with rfl | ⟨i, f, hf, -, rfl⟩
  · exact .of_tasks rfl
  · refine .update fun t _ => ⟨(hf t).pid, (hf t).parentPid, fun hz => ?_, fun c hc => ?_⟩
    · rwa [(hf t).state]
    · rwa [Task.awaited_congr (hf t).waitingFor] at hc

/-- Waking a task. -/
lemma Calm.wake (g : TrapFrame → TrapFrame) : Calm m (m.wake i g) :=
  (Calm.update (f := Task.woken g) fun t _ =>
    ⟨rfl, rfl, fun _ => by simp [Task.woken], fun c hc => by simp [Task.woken, Task.awaited] at hc⟩).trans
    (.of_tasks rfl)

/-- A task blocks on a channel that is no child, or on a child it has. -/
lemma Family.block (hm : Family m) {a : Task} (ha : m.tasks i = some a) (channel : WaitChannel)
    (hchannel : ∀ c, channel = .child c → m.HasChild a.pid c) (tf : TrapFrame) :
    Family (m.block i channel tf) := by
  have htasks := tasks_block ha channel tf
  refine hm.mono (fun j t' ht' => ?_) fun j t ht hz => ?_
  · rcases tasks_of_set htasks ht' with ⟨rfl, rfl⟩ | ⟨-, ht⟩
    · refine ⟨a, ha, rfl, fun p hp => hp, fun c hc => Or.inr (hchannel c ?_)⟩
      cases channel <;> simp_all [Task.awaited, Task.asleep]
    · exact ⟨t', ht, rfl, fun p hp => hp, fun c hc => Or.inl hc⟩
  · by_cases hj : j = i
    · subst hj
      obtain rfl := Option.some.inj (ha.symm.trans ht)
      exact ⟨a.asleep channel tf, by rw [htasks, Slots.set_self], rfl, by simp [Task.asleep], rfl⟩
    · exact ⟨t, by rw [htasks, Slots.set_of_ne hj, ht], rfl, hz, rfl⟩

/-- A zombie goes. -/
lemma Calm.remove {c : Fin maxTasks} {a : Task} (ha : m.tasks c = some a) (hz : a.state = .zombie) :
    Calm m (m.setTask c none) where
  back j t' ht := by
    simp only [setTask, Slots.set_apply] at ht
    split at ht
    · simp at ht
    · exact ⟨t', ht, .refl t'⟩
  forth j t ht hnz := by
    have hj : j ≠ c := by
      rintro rfl
      rw [ha, Option.some.injEq] at ht
      exact hnz (ht ▸ hz)
    exact ⟨t, (Slots.set_of_ne hj none).trans ht, .refl t⟩

/-- The detached zombies go. -/
lemma Calm.reaped (m : TaskManager) : Calm m m.reaped where
  back j t' ht := ⟨t', (Option.filter_eq_some_iff.mp ht).1, .refl t'⟩
  forth j t ht hz := ⟨t, by simp [TaskManager.reaped, ht, detached, hz], .refl t⟩

/-- The current task stops running. -/
lemma Calm.preempt (tf : TrapFrame) (m : TaskManager) : Calm m (m.preempt tf) := by
  unfold TaskManager.preempt
  split
  · exact .of_tasks rfl
  · refine .update fun t _ => ⟨rfl, rfl, fun hz => ?_, fun _ => id⟩
    dsimp only
    split
    · simp
    · exact hz

/-- A task runs. -/
lemma Calm.runSlot (m : TaskManager) (i : Fin maxTasks) : Calm m (m.runSlot i) :=
  (Calm.update (f := fun t => { t with state := .running }) fun t _ =>
    ⟨rfl, rfl, fun _ => by simp, fun _ => id⟩).trans (.of_tasks rfl)

/-- `schedule`. -/
lemma Calm.resched (tf : TrapFrame) (m : TaskManager) : Calm m (m.resched tf) := by
  refine ((Calm.reaped m).trans (.preempt tf _)).trans ?_
  unfold TaskManager.resched runChosen
  split
  · exact .of_tasks rfl
  · exact .runSlot _ _

/-- `wake_uart`. -/
lemma Calm.wakeUart (m : TaskManager) : Calm m m.wakeUart := by
  unfold TaskManager.wakeUart
  induction List.finRange maxTasks generalizing m with
  | nil => exact .of_tasks rfl
  | cons i slots ih =>
    refine Calm.trans ?_ (ih _)
    unfold wakeUartSlot
    split
    · exact .wake _
    · exact .of_tasks rfl

/-! ### Exit -/

/-- What the exit of the task `a` does to another task: it is orphaned when it is a child of `a`, and
woken when it waits for `a`. -/
structure Bereaved (a t t' : Task) : Prop where
  pid : t'.pid = t.pid
  parentPid : t'.parentPid = if t.parentPid = some a.pid then none else t.parentPid
  alive : t.state ≠ .zombie → t'.state ≠ .zombie
  awaited : ∀ c, t'.awaited = some c → t.awaited = some c ∧
    ¬ (c = a.pid ∧ a.parentPid = some t.pid)

/-- A free slot stays free when the current task exits. -/
lemma Core.tasks_retire_none (hm : Core m) (hi : m.RunsIn i) (code : ℤ) {j : Fin maxTasks}
    (ht : m.tasks j = none) : (m.retire code).tasks j = none := by
  obtain ⟨a, ha, -, -⟩ := id hi
  have hbury : (m.bury i code).tasks j = none := by
    rw [tasks_bury_eq ha, ht]
    rfl
  have hji : j ≠ i := by
    rintro rfl
    simp [ha] at ht
  rcases hm.retire_eq hi ha code with ⟨-, heq⟩ | ⟨q, u, -, hu, -, -, heq⟩
  · rw [heq, hbury]
  · have hjq : j ≠ q := by
      rintro rfl
      simp [hu] at ht
    rw [heq, tasks_updateTask_of_ne hji, tasks_wake_of_ne hjq, hbury]

/-- The task in a slot after the current task has exited. -/
lemma Core.tasks_retire (hm : Core m) (hi : m.RunsIn i) {a : Task} (ha : m.tasks i = some a)
    (code : ℤ) {j : Fin maxTasks} {t : Task} (ht : m.tasks j = some t) :
    ∃ t', (m.retire code).tasks j = some t' ∧ ((j ≠ i ∧ Bereaved a t t') ∨
      (j = i ∧ t'.pid = a.pid ∧ t'.state = .zombie ∧ t'.awaited = none ∧
        (∀ p, t'.parentPid = some p → a.parentPid = some p ∧ p ≠ a.pid) ∧
        (m.handsOver a = true → t'.parentPid = none))) := by
  obtain ⟨a', ha', hcur, hrun⟩ := id hi
  obtain rfl := Option.some.inj (ha.symm.trans ha')
  have hawaited : a.awaited = none := by
    have hwait := hm.waiting i a ha
    rw [hrun] at hwait
    have : a.waitingFor = none := by simpa using hwait
    rw [Task.awaited, this]
  have hbury : (m.bury i code).tasks j = some
      ((if j = i then t.buried code else t).orphaned (some a.pid)) := by
    rw [tasks_bury_eq ha, ht]
    rfl
  -- A task that waits for `a`, its child, is found asleep.
  have hands : a.parentPid = some t.pid → t.awaited = some a.pid → m.handsOver a = true := by
    intro hp hc
    have hwait : t.waitingFor = some (.child a.pid) := by
      unfold Task.awaited at hc
      split at hc <;> simp_all
    have hsleep : t.state = .sleeping := (hm.waiting j t ht).mpr (by simp [hwait])
    simp [handsOver, hp, hm.findPid_eq ht, ht, hwait, hsleep]
  obtain ⟨hpid, hparent, hstate, hwaits⟩ :=
    orphaned_spec a.pid (if j = i then t.buried code else t)
  -- The table when no parent is woken.
  have hquiet : m.handsOver a = false → (m.retire code).tasks j = (m.bury i code).tasks j →
      ∃ t', (m.retire code).tasks j = some t' ∧ ((j ≠ i ∧ Bereaved a t t') ∨
      (j = i ∧ t'.pid = a.pid ∧ t'.state = .zombie ∧ t'.awaited = none ∧
        (∀ p, t'.parentPid = some p → a.parentPid = some p ∧ p ≠ a.pid) ∧
        (m.handsOver a = true → t'.parentPid = none))) := by
    intro hno htasks
    refine ⟨_, htasks.trans hbury, ?_⟩
    by_cases hj : j = i
    · subst hj
      obtain rfl := Option.some.inj (ha.symm.trans ht)
      rw [if_pos rfl] at hpid hparent hstate hwaits ⊢
      refine Or.inr ⟨rfl, hpid, hstate, (Task.awaited_congr hwaits).trans hawaited,
        fun p hp => ?_, by simp [hno]⟩
      rw [hparent] at hp
      split at hp
      · simp at hp
      · rename_i hne
        exact ⟨hp, fun h => hne (by rw [← h]; exact hp)⟩
    · rw [if_neg hj] at hpid hparent hstate hwaits ⊢
      refine Or.inl ⟨hj, hpid, hparent, fun hz => by rwa [hstate], fun c hc => ?_⟩
      rw [Task.awaited_congr hwaits] at hc
      refine ⟨hc, ?_⟩
      rintro ⟨rfl, hp⟩
      rw [hands hp hc] at hno
      simp at hno
  rcases hm.retire_eq hi ha code with ⟨hno, heq⟩ | ⟨q, u, hyes, hu, hp, hqi, heq⟩
  · exact hquiet hno (by rw [heq])
  · rw [heq]
    by_cases hj : j = i
    · subst hj
      obtain rfl := Option.some.inj (ha.symm.trans ht)
      rw [if_pos rfl] at hbury hpid hstate hwaits
      refine ⟨{ (a.buried code).orphaned (some a.pid) with parentPid := none }, ?_,
        Or.inr ⟨rfl, hpid, hstate, ?_, by simp, fun _ => rfl⟩⟩
      · rw [tasks_updateTask ((tasks_wake_of_ne (Ne.symm hqi) _).trans hbury), Slots.set_self]
      · exact (Task.awaited_congr hwaits).trans hawaited
    rw [if_neg hj] at hbury hpid hparent hstate hwaits
    by_cases hjq : j = q
    · subst hjq
      refine ⟨Task.woken (fun tf => { tf with a0 := asUsize code }) (t.orphaned (some a.pid)), ?_,
        Or.inl ⟨hj, hpid, hparent, fun _ => by simp [Task.woken], fun c hc => ?_⟩⟩
      · rw [tasks_updateTask_of_ne hj, tasks_wake hbury, Slots.set_self]
      · simp [Task.awaited, Task.woken] at hc
    · refine ⟨t.orphaned (some a.pid), ?_,
        Or.inl ⟨hj, hpid, hparent, fun hz => by rwa [hstate], fun c hc => ?_⟩⟩
      · rw [tasks_updateTask_of_ne hj, tasks_wake_of_ne hjq, hbury]
      · rw [Task.awaited_congr hwaits] at hc
        refine ⟨hc, ?_⟩
        rintro ⟨-, hp'⟩
        rw [hp, Option.some.injEq] at hp'
        exact hjq (hm.unique j q t u ht hu hp'.symm)

/-- The exit of the current task keeps the family. -/
lemma Family.retire (hf : Family m) (hm : Core m) (hi : m.RunsIn i) (code : ℤ) :
    Family (m.retire code) := by
  obtain ⟨a, ha, hcur, hrun⟩ := id hi
  -- The tasks other than the exiting one are bereaved, and that one has become a zombie.
  have hback : ∀ j t', (m.retire code).tasks j = some t' → ∃ t, m.tasks j = some t ∧
      ((j ≠ i ∧ Bereaved a t t') ∨ (t = a ∧ t'.pid = a.pid ∧ t'.awaited = none ∧
        ∀ p, t'.parentPid = some p → a.parentPid = some p ∧ p ≠ a.pid)) := by
    intro j t' ht'
    obtain ht | ⟨t, ht⟩ := Option.eq_none_or_eq_some (m.tasks j)
    · simp [hm.tasks_retire_none hi code ht] at ht'
    obtain ⟨u, hu, h⟩ := hm.tasks_retire hi ha code ht
    obtain rfl := Option.some.inj (hu.symm.trans ht')
    refine ⟨t, ht, h.imp_right ?_⟩
    rintro ⟨rfl, hpid, -, hawaited, hparent, -⟩
    exact ⟨Option.some.inj (ht.symm.trans ha), hpid, hawaited, hparent⟩
  have hforth : ∀ j t, m.tasks j = some t → t.state ≠ .zombie → t.pid ≠ a.pid →
      ∃ t', (m.retire code).tasks j = some t' ∧ Bereaved a t t' := by
    intro j t ht hz hne
    obtain ⟨t', ht', ⟨-, h⟩ | ⟨rfl, -⟩⟩ := hm.tasks_retire hi ha code ht
    · exact ⟨t', ht', h⟩
    · exact absurd (congrArg Task.pid (Option.some.inj (ht.symm.trans ha))) hne
  constructor
  · intro j t' p ht' hp
    obtain ⟨t, ht, h⟩ := hback j t' ht'
    obtain ⟨hpt, hpa⟩ : t.parentPid = some p ∧ p ≠ a.pid := by
      rcases h with ⟨-, h⟩ | ⟨rfl, -, -, h⟩
      · rw [h.parentPid] at hp
        split at hp
        · simp at hp
        · rename_i hne
          exact ⟨hp, fun heq => hne (by rw [hp, heq])⟩
      · exact h p hp
    obtain ⟨l, u, hu, rfl, hz⟩ := hf.parent j t p ht hpt
    obtain ⟨u', hu', h'⟩ := hforth l u hu hz hpa
    exact ⟨l, u', hu', h'.pid, h'.alive hz⟩
  · intro j t' c ht' hc
    obtain ⟨t, ht, ⟨hj, h⟩ | ⟨rfl, -, hnone, -⟩⟩ := hback j t' ht'
    · obtain ⟨hct, hno⟩ := h.awaited c hc
      obtain ⟨l, u, hu, rfl, hz, hparent⟩ := hf.child j t c ht hct
      have hne : u.pid ≠ a.pid := by
        intro heq
        obtain rfl := hm.unique l i u a hu ha heq
        obtain rfl := Option.some.inj (hu.symm.trans ha)
        exact hno ⟨rfl, hparent⟩
      obtain ⟨u', hu', h'⟩ := hforth l u hu hz hne
      have htne : t.pid ≠ a.pid := fun heq => hj (hm.unique j i t a ht ha heq)
      refine ⟨l, u', hu', h'.pid, h'.alive hz, ?_⟩
      rw [h'.parentPid, hparent, if_neg (by simpa using htne), h.pid]
    · simp [hnone] at hc

/-! ### Effects -/

/-- A new child joins the family. -/
lemma Family.create (hf : Family m) (hi : m.RunsIn i) {slot : Fin maxTasks} {t : Task}
    (hslot : m.tasks slot = none) (hparent : t.parentPid = m.currentPid)
    (hwait : t.waitingFor = none) (htasks : m'.tasks = m.tasks.set slot (some t)) : Family m' := by
  obtain ⟨a, ha, hcur, hrun⟩ := hi
  have hkeep : ∀ {j u}, m.tasks j = some u → m'.tasks j = some u := fun {j u} hu => by
    have hj : j ≠ slot := by
      rintro rfl
      simp [hslot] at hu
    rw [htasks, Slots.set_of_ne hj, hu]
  constructor
  · intro j u p hu hp
    rcases tasks_of_set htasks hu with ⟨-, rfl⟩ | ⟨-, hu⟩
    · rw [hparent, hcur, Option.some.injEq] at hp
      exact ⟨i, a, hkeep ha, hp, by simp [hrun]⟩
    · obtain ⟨l, v, hv, hpid, hz⟩ := hf.parent j u p hu hp
      exact ⟨l, v, hkeep hv, hpid, hz⟩
  · intro j u c hu hc
    rcases tasks_of_set htasks hu with ⟨-, rfl⟩ | ⟨-, hu⟩
    · simp [Task.awaited, hwait] at hc
    · obtain ⟨l, v, hv, hrest⟩ := hf.child j u c hu hc
      exact ⟨l, v, hkeep hv, hrest⟩

/-- The current task blocks after a change of an endpoint. -/
lemma Family.blockAt (hf : Family m) {a : Task} (ha : m.tasks i = some a) (e : Fin maxEndpoints)
    (f : Endpoint → Endpoint) (channel : WaitChannel) (hchannel : ∀ c, channel ≠ .child c)
    (tf : TrapFrame) : Family ((m.updateEndpoint e f).block i channel tf) := by
  have hend : Family (m.updateEndpoint e f) := hf.calm (.of_tasks rfl)
  exact hend.block ha channel (fun c hc => absurd hc (hchannel c)) tf

/-- **Step lemma.**  Every effect keeps the family. -/
theorem Family.effect (hf : Family m) (hm : Core m) (hi : m.RunsIn i) {label : Label}
    {next : FramePtr} (h : Effect m label next m') : Family m' := by
  obtain ⟨a, ha, hcur, -⟩ := id hi
  cases h with
  | touch h => exact hf.calm (.touched h)
  | bump => exact hf.calm (.of_tasks rfl)
  | create hslot _ _ hwait hparent => exact hf.create hi hslot hparent hwait rfl
  | reap hc hz => exact hf.calm (.remove hc hz)
  | yield tf => exact hf.calm (.resched tf m)
  | uart tf => exact hf.calm ((Calm.wakeUart m).trans (.resched tf _))
  | sleep tf _ hj hch =>
    obtain rfl := hm.current_eq hi hj
    refine (hf.block ha _ (fun c hc => ?_) tf).calm (.resched tf _)
    subst hc
    obtain ⟨l, child, hchild, hpid, hparent, hz⟩ := hch
    exact ⟨l, child, hchild, hpid, hz, hparent.trans hcur⟩
  | exit code =>
    exact ((hf.retire hm hi code).calm (.of_tasks rfl)).calm (.runSlot _ _)
  | stage => exact hf.calm (.of_tasks rfl)
  | @callQueued sender e _ j f words payload tf _ hsender hj =>
    obtain rfl := hm.current_eq hi (j := j) (by rw [currentIndex, hsender]; exact hj)
    have hblock := hf.blockAt ha e f (.ipcCall e) (by simp) tf
    have henqueue : Family (((m.updateEndpoint e f).block j (.ipcCall e) tf).enqueue e
        ⟨sender, words, payload.length⟩) := hblock.calm (.of_tasks rfl)
    exact henqueue.calm (.resched tf _)
  | @callDirect _ e _ j r f u g _ _ tf _ hsender hj =>
    obtain rfl := hm.current_eq hi (j := j) (by rw [currentIndex, hsender]; exact hj)
    have hwake := (hf.blockAt ha e f (.ipcCall e) (by simp) tf).calm (Calm.wake (i := r) g)
    have hrelease : Family ((((m.updateEndpoint e f).block j (.ipcCall e) tf).wake r
        g).updateEndpoint e u) := hwake.calm (.of_tasks rfl)
    exact hrelease.calm (.resched tf _)
  | recvPop => exact hf.calm (.of_tasks rfl)
  | @recvBlock e _ j u tf _ _ hj =>
    obtain rfl := hm.current_eq hi hj
    exact (hf.blockAt ha e u (.ipcRecv e) (by simp) tf).calm (.resched tf _)
  | reply g => exact hf.calm (.wake g)
  | scribble g => exact hf.calm (.update fun t _ => ⟨rfl, rfl, id, fun _ => id⟩)

end TaskManager

end NekOS
