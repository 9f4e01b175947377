import NekOS.Ipc.Sleepers

/-!
# What happens to an endpoint

An effect changes the queue of an endpoint only when its label says so: a call is queued or handed
to the blocked owner, or the owner takes the oldest message (`EndpointStep`).  No other operation
touches the queue or the flag that protects the staging buffer.
-/

namespace NekOS

namespace TaskManager

variable {m m' : TaskManager} {i : Fin maxTasks}

/-- The endpoint that the label is about. -/
def Label.endpoint : Label → Option (Fin maxEndpoints)
  | .call e _ _ _ => some e
  | .take e _ _ => some e
  | _ => none

/-- How an effect with a label changes an endpoint. -/
inductive EndpointStep (e : Fin maxEndpoints) (ep ep' : Endpoint) : Label → Prop
  /-- The queue stays as it is.  The owner may have started to wait when the queue is empty, and a
  failing call may have written to the staging buffer when no queued message needs it. -/
  | keep {label : Label} : label.endpoint ≠ some e → ep'.pending = ep.pending →
      ep'.hasBuffered = ep.hasBuffered →
      (ep'.receiverWaiting = true → ep.receiverWaiting = true ∨ ep.pending.pop = none) →
      (ep'.copyBuf = ep.copyBuf ∨ (ep.hasBuffered = true → ep.receiverWaiting = true)) →
      EndpointStep e ep ep' label
  /-- A call is queued. -/
  | queue {sender : ℕ} {words : Words} {payload : List UInt8} : ep.receiverWaiting = false →
      ep.pending.isFull = false →
      ep'.pending = ep.pending.pushOk ⟨sender, words, payload.length⟩ →
      ep'.receiverWaiting = false →
      ep'.hasBuffered = (ep.hasBuffered || decide (0 < payload.length)) →
      (ep'.copyBuf = ep.copyBuf ∧ payload = [] ∨ ep.hasBuffered = false) →
      (∀ i (h : i < payload.length), ep'.copyBuf i = payload.get ⟨i, h⟩) →
      EndpointStep e ep ep' (.call e sender words payload)
  /-- A call is handed to the blocked owner. -/
  | hand {sender : ℕ} {words : Words} {payload : List UInt8} : ep.receiverWaiting = true →
      ep'.pending = ep.pending → ep'.receiverWaiting = false →
      ep'.hasBuffered = ep.hasBuffered → EndpointStep e ep ep' (.call e sender words payload)
  /-- The owner takes the oldest message. -/
  | take {message : Message} (plain : Bool) : ep.pending.pop = some (message, ep'.pending) →
      ep'.receiverWaiting = ep.receiverWaiting → ep'.copyBuf = ep.copyBuf →
      ep'.hasBuffered = (ep.hasBuffered && (plain || decide (message.bufLen = 0))) →
      EndpointStep e ep ep' (.take e message plain)

/-- `schedule` leaves the endpoints alone. -/
lemma endpoints_resched (m : TaskManager) (tf : TrapFrame) :
    (m.resched tf).endpoints = m.endpoints := by
  have hpreempt : (m.reaped.preempt tf).endpoints = m.endpoints := by
    unfold TaskManager.preempt
    split <;> rfl
  unfold TaskManager.resched runChosen
  split <;> exact hpreempt

/-- The UART leaves the endpoints alone. -/
lemma endpoints_wakeUart (m : TaskManager) : m.wakeUart.endpoints = m.endpoints := by
  unfold TaskManager.wakeUart
  induction List.finRange maxTasks generalizing m with
  | nil => rfl
  | cons l slots ih =>
    rw [List.foldl_cons, ih]
    unfold wakeUartSlot
    split <;> rfl

/-- Handing over the exit code leaves the endpoints alone. -/
lemma endpoints_notifyParent (m : TaskManager) (childPid parentPid : ℕ) (code : ℤ) :
    (m.notifyParent childPid parentPid code).endpoints = m.endpoints := by
  unfold TaskManager.notifyParent
  cases m.findPid parentPid with
  | none => rfl
  | some p =>
    dsimp only
    split
    · split <;> rfl
    · rfl

/-- The exit of a task leaves the endpoints alone. -/
lemma endpoints_retire (m : TaskManager) (code : ℤ) : (m.retire code).endpoints = m.endpoints := by
  unfold TaskManager.retire
  cases m.currentIndex with
  | none => rfl
  | some j =>
    dsimp only
    split
    · rfl
    · split
      · rfl
      · exact endpoints_notifyParent ..

/-- An endpoint after an update of one. -/
lemma endpoints_updateEndpoint (e e' : Fin maxEndpoints) (f : Endpoint → Endpoint) :
    (m.updateEndpoint e f).endpoints e' =
      if e' = e then (m.endpoints e).map f else m.endpoints e' :=
  Slots.set_apply ..

/-- The endpoint stays as it is. -/
lemma EndpointStep.refl {e : Fin maxEndpoints} {ep : Endpoint} {label : Label}
    (h : label.endpoint ≠ some e) : EndpointStep e ep ep label :=
  .keep h rfl rfl Or.inl (Or.inl rfl)

/-- The endpoint that an effect updates. -/
structure Updates (m m' : TaskManager) (label : Label) (e : Fin maxEndpoints)
    (f : Endpoint → Endpoint) : Prop where
  endpoints : m'.endpoints = (m.updateEndpoint e f).endpoints
  owner : ∀ ep, (f ep).owner = ep.owner
  subject : ∀ l, label.endpoint = some l → l = e ∧ (m.endpoints e).isSome = true
  step : ∀ ep, m.endpoints e = some ep → EndpointStep e ep (f ep) label

/-- An effect on tasks only. -/
lemma updates_of_same {label : Label} (hends : m'.endpoints = m.endpoints)
    (hlabel : label.endpoint = none) : ∃ e f, Updates m m' label e f := by
  obtain ⟨e⟩ : Nonempty (Fin maxEndpoints) := ⟨⟨0, by decide⟩⟩
  refine ⟨e, id, ?_, fun _ => rfl, by simp [hlabel], fun _ _ => .refl (by simp [hlabel])⟩
  rw [hends, updateEndpoint_of_id e m (f := id) fun _ => rfl]

/-- Every effect updates at most one endpoint. -/
lemma Effect.updates {label : Label} {next : FramePtr} (h : Effect m label next m') :
    ∃ e f, Updates m m' label e f := by
  cases h with
  | touch h =>
    rcases h with rfl | ⟨l, f, -, -, rfl⟩
    · exact updates_of_same rfl rfl
    · exact updates_of_same rfl rfl
  | bump => exact updates_of_same rfl rfl
  | create => exact updates_of_same rfl rfl
  | reap => exact updates_of_same rfl rfl
  | yield tf => exact updates_of_same (endpoints_resched m tf) rfl
  | uart tf => exact updates_of_same ((endpoints_resched m.wakeUart tf).trans (endpoints_wakeUart m)) rfl
  | @sleep l channel tf => exact updates_of_same (endpoints_resched (m.block l channel tf) tf) rfl
  | exit code => exact updates_of_same (endpoints_retire m code) rfl
  | @stage e ep f hep hbuf hf =>
    refine ⟨e, f, rfl, hf.owner, by simp [Label.endpoint], fun ep' hep' => ?_⟩
    obtain rfl := Option.some.inj (hep.symm.trans hep')
    have hwait := hf.receiverWaiting ep
    obtain ⟨buf, len, hfep⟩ := hf ep
    refine .keep (by simp [Label.endpoint]) (by rw [hfep]) (by rw [hfep]) ?_ (Or.inr hbuf)
    rw [hwait]
    exact Or.inl
  | @callQueued sender e ep l f words payload tf _ _ _ hep _ hfull hwait hf hbuf =>
    refine ⟨e, fun ep =>
      { f ep with
        hasBuffered := (f ep).hasBuffered || decide (0 < payload.length)
        pending := (f ep).pending.pushOk ⟨sender, words, payload.length⟩ }, ?_, hf.1.owner,
      by simp [Label.endpoint, hep], fun ep' hep' => ?_⟩
    · rw [endpoints_resched, ← updateEndpoint_updateEndpoint e f fun ep =>
        { ep with
          hasBuffered := ep.hasBuffered || decide (0 < payload.length)
          pending := ep.pending.pushOk ⟨sender, words, payload.length⟩ }]
      rfl
    · obtain rfl := Option.some.inj (hep.symm.trans hep')
      have hbytes := hf.2 ep
      obtain ⟨buf, len, hfep⟩ := hf.1 ep
      refine .queue hwait hfull (by rw [hfep]) ?_ (by rw [hfep]) ?_ hbytes
      · rw [hfep]
        exact hwait
      · rcases hbuf with ⟨rfl, rfl⟩ | hfree
        · exact Or.inl ⟨rfl, rfl⟩
        · exact Or.inr hfree
  | @callDirect sender e ep l r f u g words payload tf _ _ _ hep _ hwait _ hf hu _ =>
    refine ⟨e, fun ep => u (f ep), ?_, fun ep => ?_, by simp [Label.endpoint, hep],
      fun ep' hep' => ?_⟩
    · rw [endpoints_resched, ← updateEndpoint_updateEndpoint e f u]
      rfl
    · obtain ⟨addr, cap, huep⟩ := hu (f ep)
      rw [huep]
      exact hf.1.owner ep
    · obtain rfl := Option.some.inj (hep.symm.trans hep')
      obtain ⟨buf, len, hfep⟩ := hf.1 ep
      obtain ⟨addr, cap, huep⟩ := hu (f ep)
      exact .hand hwait (by rw [huep, hfep]) (by rw [huep]; rfl) (by rw [huep, hfep])
  | @recvPop e ep message pending plain _ hep hpop =>
    refine ⟨e, _, rfl, fun _ => rfl, by simp [Label.endpoint, hep], fun ep' hep' => ?_⟩
    obtain rfl := Option.some.inj (hep.symm.trans hep')
    exact .take plain hpop rfl rfl rfl
  | @recvBlock e ep l u tf _ howner _ hep hpop hu =>
    refine ⟨e, u, endpoints_resched _ tf, fun ep => ?_, by simp [Label.endpoint],
      fun ep' hep' => ?_⟩
    · obtain ⟨addr, cap, huep⟩ := hu ep
      rw [huep]
    · obtain rfl := Option.some.inj (hep.symm.trans hep')
      obtain ⟨addr, cap, huep⟩ := hu ep
      exact .keep (by simp [Label.endpoint]) (by rw [huep]) (by rw [huep])
        (fun _ => Or.inr hpop) (Or.inl (by rw [huep]))
  | reply => exact updates_of_same rfl rfl
  | scribble => exact updates_of_same rfl rfl

/-- **Inversion.**  What an effect does to an endpoint. -/
theorem Effect.endpoint {label : Label} {next : FramePtr} (h : Effect m label next m')
    {e : Fin maxEndpoints} {ep : Endpoint} (hep : m.endpoints e = some ep) :
    ∃ ep', m'.endpoints e = some ep' ∧ ep'.owner = ep.owner ∧ EndpointStep e ep ep' label := by
  obtain ⟨l, f, hu⟩ := h.updates
  rw [hu.endpoints, endpoints_updateEndpoint]
  by_cases he : e = l
  · subst he
    exact ⟨f ep, by rw [if_pos rfl, hep]; rfl, hu.owner ep, hu.step ep hep⟩
  · exact ⟨ep, by rw [if_neg he, hep], rfl, .refl fun h => he (hu.subject _ h).1⟩

/-- Effects are about endpoints that exist, and endpoints do not come into being. -/
lemma Effect.noEndpoint {label : Label} {next : FramePtr} (h : Effect m label next m')
    {e : Fin maxEndpoints} (hep : m.endpoints e = none) :
    m'.endpoints e = none ∧ label.endpoint ≠ some e := by
  obtain ⟨l, f, hu⟩ := h.updates
  rw [hu.endpoints, endpoints_updateEndpoint]
  constructor
  · split
    · rename_i he
      rw [← he, hep]
      rfl
    · exact hep
  · intro hlabel
    obtain ⟨rfl, hsome⟩ := hu.subject e hlabel
    simp [hep] at hsome

end TaskManager

end NekOS
