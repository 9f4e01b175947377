import NekOS.Scheduling.Bystanders

/-!
# What happens to a sleeping task

A task that sleeps is changed by other tasks only.  `Sleeps` and `Woken` describe what one effect
does to it: it sleeps on with the same registers (a failing reply may write those of a client that
waits in a call), or it is woken, and then the label of the effect says why when it waited in an
IPC operation.
-/

namespace NekOS

namespace TaskManager

variable {m m' : TaskManager} {i j : Fin maxTasks} {a : Task}

/-- The task in the slot sleeps on.  Its registers are kept unless it waits in a call. -/
def SleepsOn (m' : TaskManager) (j : Fin maxTasks) (a : Task) : Prop :=
  ∃ b, m'.tasks j = some b ∧ b.key = a.key ∧
    ((∀ e, a.waitingFor ≠ some (.ipcCall e)) → b.trapFrame = a.trapFrame)

/-- Why the task in the slot has been woken. -/
inductive WokenBy (m m' : TaskManager) (j : Fin maxTasks) (a : Task) : Label → Prop
  /-- Its child has exited, or the UART has input. -/
  | other {label : Label} : (∀ e, a.waitingFor ≠ some (.ipcCall e)) →
      (∀ e, a.waitingFor ≠ some (.ipcRecv e)) → WokenBy m m' j a label
  /-- A message has been handed to it. -/
  | call {e : Fin maxEndpoints} {ep : Endpoint} {sender : ℕ} {words : Words}
      {payload : List UInt8} {b : Task} :
      m.endpoints e = some ep → ep.receiverWaiting = true → a.pid = ep.owner → a.awaits e →
      m'.tasks j = some b → b.state ≠ .sleeping → messageOf b.trapFrame = (sender, words) →
      WokenBy m m' j a (.call e sender words payload)
  /-- The owner of the endpoint it has called has replied. -/
  | reply {e : Fin maxEndpoints} {ep : Endpoint} : a.waitingFor = some (.ipcCall e) →
      m.endpoints e = some ep → m.currentPid = some ep.owner → WokenBy m m' j a (.reply a.pid)

/-! ### Scheduling -/

/-- What `schedule` does to a task that is not a zombie. -/
lemma Core.tasks_resched (hm : Core m) (ha : m.tasks j = some a) (hz : a.state ≠ .zombie)
    (tf : TrapFrame) : ∃ b, (m.resched tf).tasks j = some b ∧ b.pid = a.pid ∧
      b.waitingFor = a.waitingFor ∧ (b.state = .sleeping ↔ a.state = .sleeping) ∧
      (some a.pid ≠ m.currentPid → b.trapFrame = a.trapFrame) := by
  have hreaped : m.reaped.tasks j = some a := by
    simp [TaskManager.reaped, ha, detached, hz]
  obtain ⟨hcore, hno⟩ := hm.reaped.preempt tf
  obtain ⟨b, hb, hpid, hwait, hs, hframe⟩ : ∃ b, (m.reaped.preempt tf).tasks j = some b ∧
      b.pid = a.pid ∧ b.waitingFor = a.waitingFor ∧ (b.state = .sleeping ↔ a.state = .sleeping) ∧
      (some a.pid ≠ m.currentPid → b.trapFrame = a.trapFrame) := by
    unfold TaskManager.preempt
    cases hl : m.reaped.currentIndex with
    | none => exact ⟨a, hreaped, rfl, rfl, Iff.rfl, fun _ => rfl⟩
    | some l =>
      obtain ⟨u, hu, hcur⟩ := currentIndex_eq_some hl
      by_cases hj : j = l
      · subst hj
        obtain rfl : a = u := Option.some.inj (hreaped.symm.trans hu)
        refine ⟨{ a with
          trapFrame := tf, state := if a.state = .running then .ready else a.state },
          by simp only [tasks_updateTask hu, Slots.set_self], rfl, rfl, ?_,
          fun hne => absurd hcur.symm hne⟩
        split <;> simp_all
      · exact ⟨a, by simp only [tasks_updateTask hu, Slots.set_of_ne hj]; exact hreaped, rfl, rfl,
          Iff.rfl, fun _ => rfl⟩
  obtain ⟨n, c, hchoose, hc, hready⟩ := hcore.choose hno (m.reaped.preempt tf).visitOrder
  have hresched : m.resched tf = (m.reaped.preempt tf).runSlot n := by
    rw [TaskManager.resched, scheduled, hchoose]
    rfl
  have htasks : (m.resched tf).tasks =
      (m.reaped.preempt tf).tasks.set n (some { c with state := .running }) := by
    rw [hresched]
    exact tasks_updateTask hc
  by_cases hj : j = n
  · subst hj
    obtain rfl : b = c := Option.some.inj (hb.symm.trans hc)
    refine ⟨{ b with state := .running }, by rw [htasks, Slots.set_self], hpid, hwait, ?_, hframe⟩
    rw [← hs, hready]
    simp
  · exact ⟨b, by rw [htasks, Slots.set_of_ne hj, hb], hpid, hwait, hs, hframe⟩

/-- A task that rests while it sleeps sleeps on. -/
lemma Rests.sleepsOn {current : Option ℕ} {b : Task} (h : Rests current a b)
    (hs : a.state = .sleeping) (hb : m'.tasks j = some b) : SleepsOn m' j a := by
  have hstate : b.state = a.state := h.state.resolve_right fun hr => by cases hs.symm.trans hr.1
  exact ⟨b, hb, by rw [Task.key, Task.key, h.pid, hstate, h.waitingFor], fun _ => h.trapFrame⟩

/-- **Inversion.**  What an effect does to a sleeping task. -/
theorem Effect.sleeper (hm : Core m) (hi : m.RunsIn i) {label : Label} {next : FramePtr}
    (h : Effect m label next m') (ha : m.tasks j = some a) (hs : a.state = .sleeping) :
    SleepsOn m' j a ∨ WokenBy m m' j a label := by
  have hj : j ≠ i := by
    obtain ⟨c, hc, -, hrun⟩ := hi
    rintro rfl
    obtain rfl := Option.some.inj (hc.symm.trans ha)
    rw [hs] at hrun
    cases hrun
  cases h.fate hm hi hj ha with
  | freed _ hz =>
    rw [hs] at hz
    cases hz
  | rests hb hrests => exact Or.inl (hrests.sleepsOn hs hb)
  | exitCode _ hwait =>
    have hchild : ∃ pid, a.waitingFor = some (.child pid) := by
      obtain ⟨c, -, hcur, -⟩ := hi
      exact ⟨c.pid, by rw [hwait, hcur]; rfl⟩
    obtain ⟨pid, hchild⟩ := hchild
    exact Or.inr (.other (by simp [hchild]) (by simp [hchild]))
  | input _ hwait => exact Or.inr (.other (by simp [hwait]) (by simp [hwait]))
  | message hep hwait hpid haw hg hb hrests =>
    refine Or.inr (.call hep hwait hpid haw hb (fun hsleep => ?_) ?_)
    · rcases hrests.state with hstate | ⟨-, hstate⟩
      · cases hsleep.symm.trans hstate
      · cases hsleep.symm.trans hstate
    · rw [hrests.trapFrame]
      exact hg.messageOf_eq _
  | answer _ hwait hep hcur => exact Or.inr (.reply hwait hep hcur)
  | @scribble b e _ g _ hwait _ _ _ hb hrests =>
    have hstate : b.state = .sleeping := by
      rcases hrests.state with hstate | ⟨hready, -⟩
      · exact hstate.trans hs
      · cases hs.symm.trans hready
    exact Or.inl ⟨b, hb, by rw [Task.key, Task.key, hrests.pid, hstate, hrests.waitingFor, hs],
      fun h => absurd hwait (h e)⟩

/-- The caller of an accepted call sleeps until the reply. -/
theorem Effect.caller (hm : Core m) (hi : m.RunsIn i) {label : Label} {next : FramePtr}
    (h : Effect m label next m') {e : Fin maxEndpoints} {sender : ℕ} {words : Words}
    {payload : List UInt8} (hlabel : label = .call e sender words payload) :
    m.currentPid = some sender ∧ ∃ b, m'.tasks i = some b ∧ b.pid = sender ∧
      b.state = .sleeping ∧ b.waitingFor = some (.ipcCall e) := by
  obtain ⟨c, hc, hcur, hrun⟩ := id hi
  cases h with
  | @callQueued sender' e' ep l f words' payload' tf hidle hsender hl _ _ _ _ hf _ =>
    simp only [Label.call.injEq] at hlabel
    obtain ⟨rfl, rfl, rfl, rfl⟩ := hlabel
    obtain rfl := hm.current_eq hi (j := l) (by rw [currentIndex, hsender]; exact hl)
    have hcore := (hm.blockCall hi hidle e' hf.1 tf).enqueue e' ⟨sender', words', payload'.length⟩
    have hblocked : (((m.updateEndpoint e' f).block l (.ipcCall e') tf).enqueue e'
        ⟨sender', words', payload'.length⟩).tasks l = some (c.asleep (.ipcCall e') tf) := by
      change ((m.updateEndpoint e' f).block l (.ipcCall e') tf).tasks l = _
      rw [tasks_block (m := m.updateEndpoint e' f) hc, Slots.set_self]
    obtain ⟨b, hb, hpid, hwait, hstate, -⟩ :=
      hcore.tasks_resched hblocked (by simp [Task.asleep]) tf
    refine ⟨hsender, b, hb, ?_, hstate.mpr rfl, hwait⟩
    rw [hpid]
    exact Option.some.inj (hcur.symm.trans hsender)
  | @callDirect sender' e' ep l r f u g words' payload' tf hidle hsender hl hep _ hwait hr hf hu
      hg =>
    simp only [Label.call.injEq] at hlabel
    obtain ⟨rfl, rfl, rfl, rfl⟩ := hlabel
    obtain rfl := hm.current_eq hi (j := l) (by rw [currentIndex, hsender]; exact hl)
    have hcore := hm.blockCall hi hidle e' hf.1 tf
    have hend := endpoints_blockCall hep f l (.ipcCall e') tf
    obtain ⟨b, hb, hbpid, haw⟩ := hcore.receiver_found hend
      (by rw [hf.1.receiverWaiting, hwait]) (by rw [hf.1.owner, hr])
    have hdeliver := hcore.deliver hb hend hbpid haw hu g
    have hblocked : ((m.updateEndpoint e' f).block l (.ipcCall e') tf).tasks l =
        some (c.asleep (.ipcCall e') tf) := by
      rw [tasks_block (m := m.updateEndpoint e' f) hc, Slots.set_self]
    have hlr : l ≠ r := by
      rintro rfl
      obtain rfl := Option.some.inj (hblocked.symm.trans hb)
      simp [Task.awaits, Task.asleep] at haw
    have hkept : ((((m.updateEndpoint e' f).block l (.ipcCall e') tf).wake r g).updateEndpoint e'
        u).tasks l = some (c.asleep (.ipcCall e') tf) := by
      change (((m.updateEndpoint e' f).block l (.ipcCall e') tf).wake r g).tasks l = _
      rw [tasks_wake_of_ne hlr, hblocked]
    obtain ⟨b', hb', hpid, hwait', hstate, -⟩ :=
      hdeliver.tasks_resched hkept (by simp [Task.asleep]) tf
    refine ⟨hsender, b', hb', ?_, hstate.mpr rfl, hwait'⟩
    rw [hpid]
    exact Option.some.inj (hcur.symm.trans hsender)
  | _ => simp at hlabel

end TaskManager

end NekOS
