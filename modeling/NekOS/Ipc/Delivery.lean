import NekOS.AddressSpace.Startup
import NekOS.Ipc.Endpoints

/-!
# No request is lost, duplicated or reordered

A message reaches the owner of an endpoint in two ways: it is written into the frame of the
blocked owner, or it waits in the queue until the owner takes it.  Along every run the messages
delivered, followed by those still queued, are the calls accepted, in the order of acceptance
(`delivery`).  The reason is that a blocked owner finds its queue empty (`QueueInv`).
-/

namespace NekOS

open TaskManager

namespace TaskManager

variable {m m' n n' : TaskManager} {i j : Fin maxTasks} {e : Fin maxEndpoints}

/-- A task may be asked whether it waits for an endpoint. -/
instance (t : Task) (e : Fin maxEndpoints) : Decidable (t.awaits e) :=
  inferInstanceAs (Decidable (_ ∧ _))

/-- The pending messages of an endpoint: senders and words, oldest first. -/
def pendingAt (e : Fin maxEndpoints) (m : TaskManager) : List (ℕ × Words) :=
  match m.endpoints e with
  | none => []
  | some ep => ep.pending.toList.map fun message => (message.sender, message.words)

/-- The message that a task has been woken with. -/
def handedFrom (e : Fin maxEndpoints) : Option Task → Option Task → Option (ℕ × Words)
  | some a, some b => if a.awaits e ∧ ¬ b.awaits e then some (messageOf b.trapFrame) else none
  | _, _ => none

/-- The messages handed to tasks that were blocked in a receive operation on an endpoint. -/
def handedAt (e : Fin maxEndpoints) (m m' : TaskManager) : List (ℕ × Words) :=
  (List.finRange maxTasks).filterMap fun i => handedFrom e (m.tasks i) (m'.tasks i)

/-- The part of an observation that belongs to an endpoint. -/
def atEndpoint (e : Fin maxEndpoints) : Option (ℕ × ℕ × Words) → List (ℕ × Words)
  | some (endpoint, message) => if endpoint = e then [message] else []
  | none => []

/-- A blocked owner finds its queue empty. -/
def QueueInv (m : TaskManager) : Prop :=
  ∀ e ep, m.endpoints e = some ep → ep.receiverWaiting = true → ep.pending.toList = []

/-! ### The queue -/

/-- Pushing onto a queue that is not full appends the message. -/
lemma toList_pushOk {q : MsgQueue} (h : q.isFull = false) (message : Message) :
    (q.pushOk message).toList = q.toList ++ [message] := by
  obtain ⟨q', hpush, hlist⟩ := RingBuffer.push_of_not_isFull h message
  rw [MsgQueue.pushOk, hpush, Option.getD_some, hlist]

/-- A step of an endpoint keeps the queue of a blocked owner empty. -/
lemma EndpointStep.queue_empty {ep ep' : Endpoint} {label : Label}
    (h : EndpointStep e ep ep' label)
    (hempty : ep.receiverWaiting = true → ep.pending.toList = [])
    (hwait' : ep'.receiverWaiting = true) : ep'.pending.toList = [] := by
  cases h with
  | keep _ hpending _ hreceiver _ =>
    rw [hpending]
    rcases hreceiver hwait' with hwait | hpop
    · exact hempty hwait
    · exact RingBuffer.pop_eq_none_iff.mp hpop
  | queue _ _ _ hwait => simp [hwait] at hwait'
  | hand _ _ hwait _ => simp [hwait] at hwait'
  | take _ hpop hwait _ _ =>
    rw [hwait] at hwait'
    have := RingBuffer.pop_eq_some hpop
    rw [hempty hwait'] at this
    simp at this

/-- An effect keeps the queue of a blocked owner empty. -/
lemma QueueInv.effect (hm : QueueInv m) {label : Label} {next : FramePtr}
    (h : Effect m label next m') : QueueInv m' := by
  intro e ep' hep' hwait'
  cases hep : m.endpoints e with
  | none =>
    rw [(h.noEndpoint hep).1] at hep'
    simp at hep'
  | some ep =>
    obtain ⟨ep'', hep'', -, hstep⟩ := h.endpoint hep
    obtain rfl := Option.some.inj (hep''.symm.trans hep')
    exact hstep.queue_empty (hm e ep hep) hwait'

/-! ### The messages handed over -/

/-- The messages handed over depend on the slots of the waiting tasks alone. -/
lemma handedAt_congr
    (h : ∀ i, handedFrom e (m.tasks i) (m'.tasks i) = handedFrom e (n.tasks i) (n'.tasks i)) :
    handedAt e m m' = handedAt e n n' := by
  simp only [handedAt, h]

/-- Nothing is handed over when no waiting task is woken. -/
lemma handedAt_eq_nil (h : ∀ i, handedFrom e (m.tasks i) (m'.tasks i) = none) :
    handedAt e m m' = [] := by
  simp [handedAt, h]

/-- What one effect hands over from one slot. -/
lemma Effect.handedFrom_cases (hm : Core m) (hi : m.RunsIn i) {label : Label} {next : FramePtr}
    (h : Effect m label next m') (j : Fin maxTasks) :
    handedFrom e (m.tasks j) (m'.tasks j) = none ∨ ∃ ep sender words payload a,
      label = .call e sender words payload ∧ m.endpoints e = some ep ∧ ep.receiverWaiting = true ∧
      m.tasks j = some a ∧ a.pid = ep.owner ∧
      handedFrom e (m.tasks j) (m'.tasks j) = some (sender, words) := by
  cases ha : m.tasks j with
  | none => exact Or.inl rfl
  | some a =>
    by_cases haw : a.awaits e
    · rcases h.sleeper hm hi ha haw.1 with ⟨b, hb, hkey, -⟩ | hwoken
      · left
        simp only [Task.key, Prod.mk.injEq] at hkey
        have hbw : b.awaits e := ⟨hkey.2.1.trans haw.1, hkey.2.2.trans haw.2⟩
        simp [handedFrom, hb, hbw]
      · cases hwoken with
        | other _ hrecv => exact absurd haw.2 (hrecv e)
        | @call e' ep sender words payload b hep hwait hpid haw' hb hst hmessage =>
          obtain rfl : e = e' := by
            have := haw.2.symm.trans haw'.2
            simp only [Option.some.injEq, WaitChannel.ipcRecv.injEq] at this
            exact Fin.ext this
          refine Or.inr ⟨ep, sender, words, payload, a, rfl, hep, hwait, rfl, hpid, ?_⟩
          have hbw : ¬ b.awaits e := fun h => hst h.1
          simp [handedFrom, hb, haw, hbw, hmessage]
        | reply hcall =>
          have := haw.2.symm.trans hcall
          simp at this
    · left
      cases m'.tasks j <;> simp [handedFrom, haw]

/-- A label about another endpoint shows nothing at this one. -/
lemma atEndpoint_of_ne {label : Label} (h : label.endpoint ≠ some e) :
    atEndpoint e label.accepted = [] ∧ atEndpoint e label.received = [] := by
  cases label with
  | call e' sender words payload =>
    have hne : (e' : ℕ) ≠ e := fun heq => h (by rw [Label.endpoint, Fin.ext heq])
    simp [Label.accepted, Label.received, atEndpoint, hne]
  | take e' message plain =>
    have hne : (e' : ℕ) ≠ e := fun heq => h (by rw [Label.endpoint, Fin.ext heq])
    simp [Label.accepted, Label.received, atEndpoint, hne]
  | _ => simp [Label.accepted, Label.received, atEndpoint]

/-- An effect hands over a message exactly when a call finds the owner blocked. -/
lemma Effect.handedAt_eq (hm : Core m) (hi : m.RunsIn i) (hm' : Core m') {label : Label}
    {next : FramePtr} (h : Effect m label next m') {ep : Endpoint}
    (hep : m.endpoints e = some ep) {ep' : Endpoint} (hep' : m'.endpoints e = some ep')
    (howner : ep'.owner = ep.owner) (hstep : EndpointStep e ep ep' label) :
    handedAt e m m' = if ep.receiverWaiting then atEndpoint e label.accepted else [] := by
  have hfrom := fun j => h.handedFrom_cases (e := e) hm hi j
  have hnone : (∀ sender words payload, label = .call e sender words payload →
      ep.receiverWaiting = false) → handedAt e m m' = [] := fun hno => by
    refine handedAt_eq_nil fun j => (hfrom j).resolve_right ?_
    rintro ⟨ep₁, sender, words, payload, a, hlabel, hep₁, hwait, -⟩
    obtain rfl := Option.some.inj (hep.symm.trans hep₁)
    rw [hno sender words payload hlabel] at hwait
    simp at hwait
  cases hstep with
  | keep hlabel _ _ _ _ =>
    rw [(atEndpoint_of_ne hlabel).1, ite_self]
    exact hnone fun sender words payload heq => absurd (by rw [heq]; rfl) hlabel
  | queue hwait _ _ _ _ _ _ =>
    rw [hwait]
    exact hnone fun _ _ _ _ => hwait
  | @hand sender words payload hwait _ hwait' _ =>
    obtain ⟨-, j, a, ha, hpid, haw⟩ := (hm.receiver e ep ep.owner hep).mp (by
      simpa [Endpoint.receiverWaiting] using hwait)
    have hj : handedFrom e (m.tasks j) (m'.tasks j) = some (sender, words) := by
      rcases h.sleeper hm hi ha haw.1 with ⟨b, hb, hkey, -⟩ | hwoken
      · -- the endpoint no longer lists its owner as receiver, so the owner cannot sleep on
        simp only [Task.key, Prod.mk.injEq] at hkey
        have hreceiver := (hm'.receiver e ep' ep'.owner hep').mpr
          ⟨rfl, j, b, hb, by rw [hkey.1, hpid, howner],
            hkey.2.1.trans haw.1, hkey.2.2.trans haw.2⟩
        simp [Endpoint.receiverWaiting, hreceiver] at hwait'
      · rcases hfrom j with hnot | ⟨_, sender', words', _, _, hlabel, -, -, -, -, hsome⟩
        · cases hwoken with
          | other _ hrecv => exact absurd haw.2 (hrecv e)
          | @call e' _ _ _ _ b _ _ _ _ hb hst hmessage =>
            have hbw : ¬ b.awaits e := fun h => hst h.1
            simp [handedFrom, ha, hb, haw, hbw] at hnot
        · simp only [Label.call.injEq] at hlabel
          rw [hsome, hlabel.2.1, hlabel.2.2.1]
    rw [if_pos hwait, handedAt, Slots.filterMap_eq_singleton hj]
    · simp [Label.accepted, atEndpoint]
    · intro l hl
      refine (hfrom l).resolve_right ?_
      rintro ⟨ep₁, _, _, _, b, -, hep₁, -, hb, hpid₁, -⟩
      obtain rfl := Option.some.inj (hep.symm.trans hep₁)
      exact hl (hm.unique _ _ _ _ hb ha (hpid₁.trans hpid.symm))
  | @take message plain _ _ _ _ =>
    have hat : atEndpoint e (Label.take e message plain).accepted = [] := rfl
    rw [hat, ite_self]
    exact hnone fun _ _ _ h => by simp at h

/-- **Step lemma.**  What is pending before an effect, with the call that it accepts, is what it
delivers, with what is pending after it. -/
theorem Effect.conserves (hm : Core m) (hi : m.RunsIn i) (hm' : Core m') (hq : QueueInv m)
    {label : Label} {next : FramePtr} (h : Effect m label next m') (e : Fin maxEndpoints) :
    pendingAt e m ++ atEndpoint e label.accepted =
      (atEndpoint e label.received ++ handedAt e m m') ++ pendingAt e m' := by
  cases hep : m.endpoints e with
  | none =>
    obtain ⟨hep', hlabel⟩ := h.noEndpoint hep
    have hhanded : handedAt e m m' = [] := by
      refine handedAt_eq_nil fun j => (h.handedFrom_cases hm hi j).resolve_right ?_
      rintro ⟨_, _, _, _, _, -, hep₁, -⟩
      rw [hep] at hep₁
      simp at hep₁
    simp [hhanded, pendingAt, hep, hep', atEndpoint_of_ne hlabel]
  | some ep =>
    obtain ⟨ep', hep', howner, hstep⟩ := h.endpoint hep
    rw [h.handedAt_eq hm hi hm' hep hep' howner hstep]
    simp only [pendingAt, hep, hep']
    cases hstep with
    | keep hlabel hpending _ _ _ =>
      simp [hpending, atEndpoint_of_ne hlabel]
    | queue hwait hfull hpending _ _ _ _ =>
      rw [hpending, toList_pushOk hfull]
      simp [hwait, Label.accepted, Label.received, atEndpoint]
    | hand hwait hpending _ _ =>
      rw [hpending, hq e ep hep hwait]
      simp [hwait, Label.accepted, Label.received, atEndpoint]
    | take _ hpop _ _ _ =>
      rw [RingBuffer.pop_eq_some hpop]
      simp [Label.accepted, Label.received, atEndpoint]

end TaskManager

namespace System

/-- The calls to an endpoint that the kernel accepts in an event. -/
def acceptedAt (e : Fin maxEndpoints) (s : System) : Event → List (ℕ × Words)
  | .ecall tf => atEndpoint e (Kernel.accepted tf (s.entry tf))
  | _ => []

/-- The messages that the owner of an endpoint takes from the queue in an event. -/
def takenAt (e : Fin maxEndpoints) (s : System) : Event → List (ℕ × Words)
  | .ecall tf => atEndpoint e (Kernel.received tf (s.entry tf))
  | _ => []

/-- The messages delivered to the owner of an endpoint in an event: taken from the queue, or
written into the frame of the owner while it was blocked. -/
def deliveredAt (e : Fin maxEndpoints) (s : System) (ev : Event) : List (ℕ × Words) :=
  takenAt e s ev ++ (s.step ev).elim [] fun t => handedAt e s.kernel.tm t.kernel.tm

/-- Writing a frame leaves the queues alone. -/
lemma Framed.queueInv {m m' : TaskManager} {i : Fin maxTasks} (h : Framed i m m')
    (hq : QueueInv m) : QueueInv m' := by
  unfold QueueInv
  rw [h.endpoints]
  exact hq

section StepView

variable {s t : System} {ev : Event} {m₁ m₂ : TaskManager} {label : Label} {next : FramePtr}

/-- The label shows the accepted and the taken messages. -/
lemma StepView.shown (h : StepView s ev t m₁ m₂ label next) (e : Fin maxEndpoints) :
    acceptedAt e s ev = atEndpoint e label.accepted ∧
      takenAt e s ev = atEndpoint e label.received := by
  have hshows := h.shows'
  cases ev with
  | ecall tf => exact ⟨by rw [← hshows.accepted]; rfl, by rw [← hshows.received]; rfl⟩
  | spawn name => rcases hshows with rfl | rfl <;> exact ⟨rfl, rfl⟩
  | timer tf => rw [show label = .silent from hshows]; exact ⟨rfl, rfl⟩
  | external irq tf => rw [show label = .silent from hshows]; exact ⟨rfl, rfl⟩
  | store va byte => rw [show label = .silent from hshows]; exact ⟨rfl, rfl⟩

/-- The task on the hart does not wait for an endpoint. -/
lemma not_awaits_of_runs {m : TaskManager} {i : Fin maxTasks} (hi : m.RunsIn i)
    (e : Fin maxEndpoints) (o : Option Task) : handedFrom e (m.tasks i) o = none := by
  obtain ⟨a, ha, -, hrun⟩ := hi
  have haw : ¬ a.awaits e := fun h => by
    have := h.1
    rw [hrun] at this
    simp at this
  cases o <;> simp [handedFrom, ha, haw]

/-- The frames written around an effect hand over nothing. -/
lemma StepView.handedAt_eq (h : StepView s ev t m₁ m₂ label next) (hs : s.Scheduled)
    (e : Fin maxEndpoints) : handedAt e s.kernel.tm t.kernel.tm = handedAt e m₁ m₂ := by
  refine handedAt_congr fun i => ?_
  by_cases hi : i = s.hart
  · rw [hi, not_awaits_of_runs hs.runs, not_awaits_of_runs h.runs]
  · rw [h.framed.tasks hi]
    rcases h.resumes with ⟨-, htm⟩ | ⟨-, -, hframed⟩
    · rw [htm]
    · rw [hframed.tasks hi]

/-- **Step lemma.**  What is pending before an event, with the calls it accepts, is what it
delivers, with what is pending after it. -/
theorem StepView.conserves (h : StepView s ev t m₁ m₂ label next) (hs : s.Scheduled)
    (hq : QueueInv s.kernel.tm) (hstep : s.step ev = some t) (e : Fin maxEndpoints) :
    pendingAt e s.kernel.tm ++ acceptedAt e s ev =
      deliveredAt e s ev ++ pendingAt e t.kernel.tm := by
  have hpending : pendingAt e s.kernel.tm = pendingAt e m₁ := by
    unfold pendingAt
    rw [h.framed.endpoints]
  have hpending' : pendingAt e t.kernel.tm = pendingAt e m₂ := by
    unfold pendingAt
    rw [h.framed'.endpoints]
  rw [deliveredAt, hstep, Option.elim_some, (h.shown e).1, (h.shown e).2, h.handedAt_eq hs,
    hpending, hpending']
  exact h.effect.conserves h.core h.runs h.core' (h.framed.queueInv hq) e

end StepView

/-- A blocked owner finds its queue empty, in every state reached. -/
theorem queueInv_of_reaches {s : System} (h : nekos.Reaches FreshPid s) :
    s.Scheduled ∧ QueueInv s.kernel.tm := by
  refine invariant_of_effects (fun _ _ hok => hok) (fun m i t hm _ e ep hep hwait => ?_)
    (fun m m' i hf hP => hf.queueInv hP) (fun s ev t m₁ m₂ label next _ _ hview _ hP => ?_) h
  · rw [hm.new e ep hep]
    rfl
  · exact hP.effect hview.effect

/-- What was pending and what is accepted along a run is what is delivered and what is pending
after it. -/
theorem delivery {s t : System} {es : List Event} (hs : nekos.Reaches FreshPid s)
    (hok : nekos.RunOk FreshPid s es) (hrun : nekos.run s es = some t) (e : Fin maxEndpoints) :
    nekos.collect (deliveredAt e) s es ++ pendingAt e t.kernel.tm =
      pendingAt e s.kernel.tm ++ nekos.collect (acceptedAt e) s es := by
  refine Machine.conservation (I := fun s => s.Scheduled ∧ QueueInv s.kernel.tm)
    (q := fun s => pendingAt e s.kernel.tm) ?_ (queueInv_of_reaches hs) hok hrun
  rintro s ev t ⟨hsched, hq⟩ hfresh hstep
  obtain ⟨m₁, m₂, label, next, hview⟩ := hsched.view hfresh hstep
  refine ⟨⟨hview.scheduled, ?_⟩, hview.conserves hsched hq hstep e⟩
  exact hview.framed'.queueInv ((hview.framed.queueInv hq).effect hview.effect)

/-- Nothing is pending in the first state. -/
lemma pendingAt_init {s : System} (hs : nekos.init s) (e : Fin maxEndpoints) :
    pendingAt e s.kernel.tm = [] := by
  obtain ⟨c, hc⟩ := hs
  obtain ⟨m, u, hm, -, htm⟩ := Config.boot_fresh hc
  have hends : s.kernel.tm.endpoints e = m.endpoints e := by rw [htm]; rfl
  unfold pendingAt
  rw [hends]
  cases hep : m.endpoints e with
  | none => rfl
  | some ep =>
    rw [hm.new e ep hep]
    rfl

/-- A call that is accepted while the owner is not blocked is pushed onto the queue, and the push
succeeds. -/
theorem StepView.pushed {s t : System} {ev : Event} {m₁ m₂ : TaskManager} {label : Label}
    {next : FramePtr} (h : StepView s ev t m₁ m₂ label next) {e : Fin maxEndpoints}
    {ep : Endpoint} (hep : s.kernel.tm.endpoints e = some ep)
    (haccepted : acceptedAt e s ev ≠ []) (hwait : ep.receiverWaiting = false) :
    ∃ message q ep', acceptedAt e s ev = [(message.sender, message.words)] ∧
      ep.pending.push message = some q ∧ t.kernel.tm.endpoints e = some ep' ∧
      ep'.pending = q := by
  rw [← h.framed.endpoints] at hep
  obtain ⟨ep', hep', -, hstep⟩ := h.effect.endpoint hep
  rw [(h.shown e).1] at haccepted ⊢
  cases hstep with
  | keep hlabel _ _ _ _ => exact absurd (atEndpoint_of_ne hlabel).1 haccepted
  | @queue sender words payload _ hfull hpending _ _ _ _ =>
    obtain ⟨q, hpush, -⟩ := RingBuffer.push_of_not_isFull hfull ⟨sender, words, payload.length⟩
    refine ⟨⟨sender, words, payload.length⟩, q, ep', ?_, hpush, ?_, ?_⟩
    · simp [Label.accepted, atEndpoint]
    · rw [h.framed'.endpoints, hep']
    · rw [hpending, MsgQueue.pushOk, hpush, Option.getD_some]
  | hand hwait' _ _ _ => simp [hwait] at hwait'
  | take _ _ _ _ _ => exact absurd rfl haccepted

end System

end NekOS
