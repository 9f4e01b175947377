import NekOS.Scheduling.Family

/-!
# The process tree and exit codes

The invariant of the process tree in every reachable state, and how often an exit code is handed to a
parent.  A child whose parent may still ask for its exit code is *owed*; handing the code over ends
that, and only the creation of a task begins it.
-/

namespace NekOS

namespace TaskManager

variable {m m₁ m' : TaskManager} {i : Fin maxTasks}

/-- The number of tasks with a pid whose exit code a parent may still ask for. -/
def owed (c : ℕ) (m : TaskManager) : ℕ :=
  m.tasks.count fun t => decide (t.pid = c) && t.parentPid.isSome

/-- Every task was there, and its parent is no new one. -/
def Stems (m m' : TaskManager) : Prop :=
  ∀ i t', m'.tasks i = some t' → ∃ t, m.tasks i = some t ∧ t'.pid = t.pid ∧
    ∀ p, t'.parentPid = some p → t.parentPid = some p

/-- Every task was there, with the same parent. -/
def Kin (m m' : TaskManager) : Prop :=
  ∀ i t', m'.tasks i = some t' → ∃ t, m.tasks i = some t ∧ t'.pid = t.pid ∧
    t'.parentPid = t.parentPid

/-- One change after the other. -/
lemma Stems.trans (h₁ : Stems m m₁) (h₂ : Stems m₁ m') : Stems m m' := by
  intro i t' ht'
  obtain ⟨t₁, ht₁, hpid₁, hparent₁⟩ := h₂ i t' ht'
  obtain ⟨t, ht, hpid, hparent⟩ := h₁ i t₁ ht₁
  exact ⟨t, ht, hpid₁.trans hpid, fun p h => hparent p (hparent₁ p h)⟩

/-- One change after the other. -/
lemma Kin.trans (h₁ : Kin m m₁) (h₂ : Kin m₁ m') : Kin m m' := by
  intro i t' ht'
  obtain ⟨t₁, ht₁, hpid₁, hparent₁⟩ := h₂ i t' ht'
  obtain ⟨t, ht, hpid, hparent⟩ := h₁ i t₁ ht₁
  exact ⟨t, ht, hpid₁.trans hpid, hparent₁.trans hparent⟩

/-- Tasks with the same parent have no new one. -/
lemma Kin.stems (h : Kin m m') : Stems m m' := by
  intro i t' ht'
  obtain ⟨t, ht, hpid, hparent⟩ := h i t' ht'
  exact ⟨t, ht, hpid, fun p hp => by rwa [← hparent]⟩

/-- Changes within the family. -/
lemma Calm.kin (h : Calm m m') : Kin m m' := by
  intro i t' ht'
  obtain ⟨t, ht, hs⟩ := h.back i t' ht'
  exact ⟨t, ht, hs.pid, hs.parentPid⟩

/-- Blocking. -/
lemma kin_block (m : TaskManager) (i : Fin maxTasks) (channel : WaitChannel) (tf : TrapFrame) :
    Kin m (m.block i channel tf) := by
  intro j t' ht'
  by_cases hj : j = i
  · subst hj
    simp only [block, satDecRunnable, updateTask, setTask, Slots.set_self,
      Option.map_eq_some_iff] at ht'
    obtain ⟨t, ht, rfl⟩ := ht'
    exact ⟨t, ht, rfl, rfl⟩
  · rw [tasks_block_of_ne hj] at ht'
    exact ⟨t', ht', rfl, rfl⟩

/-- The number of owed tasks does not grow. -/
lemma Stems.owed_le (h : Stems m m') (c : ℕ) : m'.owed c ≤ m.owed c := by
  refine Slots.count_mono fun i hi => ?_
  obtain ⟨t', ht', hp⟩ := (Option.any_eq_true ..).mp hi
  obtain ⟨t, ht, hpid, hparent⟩ := h i t' ht'
  simp only [Bool.and_eq_true, decide_eq_true_eq] at hp
  obtain ⟨p, hp'⟩ := Option.isSome_iff_exists.mp hp.2
  simp [ht, ← hpid, hp.1, hparent p hp']

/-- What an exit leaves of the tasks. -/
lemma Core.stems_retire (hm : Core m) (hi : m.RunsIn i) (code : ℤ) : Stems m (m.retire code) := by
  intro j t' ht'
  obtain ⟨a, ha, -, -⟩ := id hi
  obtain ht | ⟨t, ht⟩ := Option.eq_none_or_eq_some (m.tasks j)
  · simp [hm.tasks_retire_none hi code ht] at ht'
  obtain ⟨u, hu, h⟩ := hm.tasks_retire hi ha code ht
  obtain rfl := Option.some.inj (hu.symm.trans ht')
  refine ⟨t, ht, ?_⟩
  rcases h with ⟨-, h⟩ | ⟨rfl, hpid, -, -, hparent, -⟩
  · refine ⟨h.pid, fun p hp => ?_⟩
    rw [h.parentPid] at hp
    split at hp
    · simp at hp
    · exact hp
  · obtain rfl := Option.some.inj (ha.symm.trans ht)
    exact ⟨hpid, fun p hp => (hparent p hp).1⟩

/-- An exit code that is handed over is no longer owed. -/
lemma Core.owed_handsOver (hm : Core m) (hi : m.RunsIn i) {a : Task} (ha : m.tasks i = some a)
    (hands : m.handsOver a = true) (code : ℤ) : (m.retire code).owed a.pid < m.owed a.pid := by
  refine Slots.count_lt (fun j hj => ?_) (i := i) ?_ ?_
  · obtain ⟨t', ht', hp⟩ := (Option.any_eq_true ..).mp hj
    obtain ⟨t, ht, hpid, hparent⟩ := hm.stems_retire hi code j t' ht'
    simp only [Bool.and_eq_true, decide_eq_true_eq] at hp
    obtain ⟨p, hp'⟩ := Option.isSome_iff_exists.mp hp.2
    simp [ht, ← hpid, hp.1, hparent p hp']
  · obtain ⟨p, hp⟩ : ∃ p, a.parentPid = some p := by
      cases hp : a.parentPid with
      | none => simp [handsOver, hp] at hands
      | some p => exact ⟨p, rfl⟩
    simp [ha, hp]
  · obtain ⟨t', ht', ⟨hj, -⟩ | ⟨-, -, -, -, -, hnone⟩⟩ := hm.tasks_retire hi ha code ha
    · exact absurd rfl hj
    · simp [ht', hnone hands]

/-- Only the creation of a task adds one, and only the exit of a task changes the parents of
others. -/
lemma Effect.kin {label : Label} {next : FramePtr} (h : Effect m label next m')
    (hlabel : label ≠ .create) : Kin m m' ∨ ∃ code n, m.Exits code ∧
      m' = ({ m.retire code with currentPid := none } : TaskManager).runSlot n := by
  cases h with
  | touch h => exact Or.inl (Calm.touched h).kin
  | bump => exact absurd rfl hlabel
  | create => exact absurd rfl hlabel
  | reap hc hz => exact Or.inl (Calm.remove hc hz).kin
  | yield tf => exact Or.inl (Calm.resched tf m).kin
  | uart tf => exact Or.inl ((Calm.wakeUart m).trans (.resched tf _)).kin
  | sleep tf => exact Or.inl ((kin_block m _ _ tf).trans (Calm.resched tf _).kin)
  | @exit next code _ _ hexits => exact Or.inr ⟨code, next, hexits, rfl⟩
  | stage => exact Or.inl (Calm.of_tasks rfl).kin
  | @callQueued sender e _ j f words payload tf =>
    have henqueue : Kin m (((m.updateEndpoint e f).block j (.ipcCall e) tf).enqueue e
        ⟨sender, words, payload.length⟩) := kin_block (m.updateEndpoint e f) j (.ipcCall e) tf
    exact Or.inl (henqueue.trans (Calm.resched tf _).kin)
  | @callDirect _ e _ j r f u g _ _ tf =>
    have hblock : Kin m ((m.updateEndpoint e f).block j (.ipcCall e) tf) :=
      kin_block (m.updateEndpoint e f) j (.ipcCall e) tf
    have hrelease : Kin m ((((m.updateEndpoint e f).block j (.ipcCall e) tf).wake r
        g).updateEndpoint e u) := hblock.trans (Calm.wake g).kin
    exact Or.inl (hrelease.trans (Calm.resched tf _).kin)
  | recvPop => exact Or.inl (Calm.of_tasks rfl).kin
  | @recvBlock e _ j u tf =>
    have hblock : Kin m ((m.updateEndpoint e u).block j (.ipcRecv e) tf) :=
      kin_block (m.updateEndpoint e u) j (.ipcRecv e) tf
    exact Or.inl (hblock.trans (Calm.resched tf _).kin)
  | reply g => exact Or.inl (Calm.wake g).kin
  | @scribble _ _ index _ g =>
    have hupdate : Calm m (m.updateTask index fun t => { t with trapFrame := g t.trapFrame }) :=
      .update fun t _ => ⟨rfl, rfl, id, fun _ => id⟩
    exact Or.inl hupdate.kin

/-- Only the creation of a task adds one or gives it a parent. -/
theorem Effect.stems (hm : Core m) (hi : m.RunsIn i) {label : Label} {next : FramePtr}
    (h : Effect m label next m') (hlabel : label ≠ .create) : Stems m m' := by
  rcases h.kin hlabel with hkin | ⟨code, n, -, rfl⟩
  · exact hkin.stems
  · have hretire : Stems m { m.retire code with currentPid := none } := hm.stems_retire hi code
    exact hretire.trans (Calm.runSlot _ n).kin.stems

/-- Only the creation of a task owes an exit code anew. -/
lemma Effect.owed_le (hm : Core m) (hi : m.RunsIn i) {label : Label} {next : FramePtr}
    (h : Effect m label next m') (hlabel : label ≠ .create) (c : ℕ) : m'.owed c ≤ m.owed c :=
  (h.stems hm hi hlabel).owed_le c

/-- A slot does not pass from one task to another in one effect. -/
lemma Effect.pid_eq (hm : Core m) (hi : m.RunsIn i) {label : Label} {next : FramePtr}
    (h : Effect m label next m') {j : Fin maxTasks} {a b : Task} (ha : m.tasks j = some a)
    (hb : m'.tasks j = some b) : b.pid = a.pid := by
  have hstems : label ≠ .create → b.pid = a.pid := fun hlabel => by
    obtain ⟨c, hc, hpid, -⟩ := h.stems hm hi hlabel j b hb
    obtain rfl := Option.some.inj (ha.symm.trans hc)
    exact hpid
  cases h with
  | bump =>
    obtain rfl := Option.some.inj (ha.symm.trans hb)
    rfl
  | @create slot t hfree =>
    have hj : j ≠ slot := by
      rintro rfl
      rw [ha] at hfree
      cases hfree
    have hkept : (m.bumpPid.setTask slot (some t)).incRunnable.tasks j = some a :=
      (Slots.set_of_ne hj _).trans ha
    obtain rfl := Option.some.inj (hkept.symm.trans hb)
    rfl
  | _ => exact hstems (by simp)

/-- No exit code of a pid is owed twice. -/
lemma Core.owed_le_one (hm : Core m) (c : ℕ) : m.owed c ≤ 1 := by
  refine Slots.count_le_one fun i j a b ha hb hpa hpb => hm.unique i j a b ha hb ?_
  simp only [Bool.and_eq_true, decide_eq_true_eq] at hpa hpb
  rw [hpa.1, hpb.1]

/-- No exit code is owed for a pid that no task has. -/
lemma owed_eq_zero {c : ℕ} (h : (m.findPid c).isSome = false) : m.owed c = 0 := by
  rw [owed, Slots.count]
  refine Finset.sum_eq_zero fun i _ => if_neg fun hi => ?_
  obtain ⟨t, ht, hp⟩ := (Option.any_eq_true ..).mp hi
  simp only [Bool.and_eq_true, decide_eq_true_eq] at hp
  obtain ⟨j, hj⟩ := Slots.position_isSome (p := fun t => decide (t.pid = c)) ht (by simp [hp.1])
  rw [show m.findPid c = some j from hj] at h
  simp at h

end TaskManager

end NekOS
