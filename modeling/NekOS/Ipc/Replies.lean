import NekOS.Ipc.Delivery

/-!
# Replies and the callers they wake

A reply is checked against the channel on which the client sleeps and the owner of the endpoint,
not against the queue.  In runs in which owners reply only to clients whose message has left the
queue, the senders of queued messages sleep in their calls and no sender is queued twice
(`RingInv`).
-/

namespace NekOS

open TaskManager

/-- The task sleeps in a call to an endpoint. -/
def Task.callsTo (t : Task) (e : Fin maxEndpoints) : Prop :=
  t.state = .sleeping ∧ t.waitingFor = some (.ipcCall e)

namespace TaskManager

variable {m m' : TaskManager} {i : Fin maxTasks} {e : Fin maxEndpoints}

/-- A task with the pid sleeps in a call to an endpoint. -/
def CallsTo (m : TaskManager) (pid : ℕ) (e : Fin maxEndpoints) : Prop :=
  ∃ j t, m.tasks j = some t ∧ t.pid = pid ∧ t.callsTo e

/-- The senders of queued messages sleep in their calls, and no sender is queued twice. -/
def RingInv (m : TaskManager) : Prop :=
  ∀ e ep, m.endpoints e = some ep →
    (∀ message ∈ ep.pending.toList, m.CallsTo message.sender e) ∧
      (ep.pending.toList.map Message.sender).Nodup

/-- A reply is not to a client whose message is still queued at an endpoint of the replier. -/
def Label.AfterReceive (m : TaskManager) (label : Label) : Prop :=
  ∀ client, label = .reply client → ∀ e ep, m.endpoints e = some ep →
    m.currentPid = some ep.owner → ∀ message ∈ ep.pending.toList, message.sender ≠ client

/-- A caller sleeps on unless the owner of the endpoint replies. -/
lemma Effect.callsTo (hm : Core m) (hi : m.RunsIn i) {label : Label} {next : FramePtr}
    (h : Effect m label next m') {pid : ℕ} (hcall : m.CallsTo pid e) :
    m'.CallsTo pid e ∨ label = .reply pid ∧ ∃ ep, m.endpoints e = some ep ∧
      m.currentPid = some ep.owner := by
  obtain ⟨j, a, ha, rfl, hs, hwait⟩ := hcall
  rcases h.sleeper hm hi ha hs with ⟨b, hb, hkey, -⟩ | hwoken
  · simp only [Task.key, Prod.mk.injEq] at hkey
    exact Or.inl ⟨j, b, hb, hkey.1, hkey.2.1.trans hs, hkey.2.2.trans hwait⟩
  · cases hwoken with
    | other hcall _ => exact absurd hwait (hcall e)
    | call _ _ _ haw _ _ _ =>
      have := hwait.symm.trans haw.2
      simp at this
    | @reply e' ep hwait' hep howner =>
      obtain rfl : e = e' := by
        have := hwait.symm.trans hwait'
        simp only [Option.some.injEq, WaitChannel.ipcCall.injEq] at this
        exact Fin.ext this
      exact Or.inr ⟨rfl, ep, hep, howner⟩

/-- A caller is not the running task. -/
lemma Core.not_callsTo_current (hm : Core m) (hi : m.RunsIn i) {pid : ℕ}
    (hcur : m.currentPid = some pid) : ¬ m.CallsTo pid e := by
  rintro ⟨j, a, ha, hpid, hs, -⟩
  obtain ⟨c, hc, hcur', hrun⟩ := hi
  have heq : a.pid = c.pid := hpid.trans (Option.some.inj (hcur.symm.trans hcur'))
  obtain rfl := hm.unique _ _ _ _ ha hc heq
  obtain rfl := Option.some.inj (ha.symm.trans hc)
  rw [hs] at hrun
  simp at hrun

/-- **Step lemma.**  Effects that are no early replies keep the senders asleep and distinct. -/
theorem RingInv.effect (hring : RingInv m) (hm : Core m) (hi : m.RunsIn i) {label : Label}
    {next : FramePtr} (h : Effect m label next m') (hafter : label.AfterReceive m) :
    RingInv m' := by
  intro e ep' hep'
  cases hep : m.endpoints e with
  | none =>
    rw [(h.noEndpoint hep).1] at hep'
    simp at hep'
  | some ep =>
    obtain ⟨ep'', hep'', -, hstep⟩ := h.endpoint hep
    obtain rfl := Option.some.inj (hep''.symm.trans hep')
    obtain ⟨hcalls, hnodup⟩ := hring e ep hep
    have hkept : ∀ message ∈ ep.pending.toList, m'.CallsTo message.sender e := by
      intro message hmem
      refine (h.callsTo hm hi (hcalls message hmem)).resolve_right ?_
      rintro ⟨hlabel, ep₁, hep₁, howner⟩
      exact hafter _ hlabel e ep₁ hep₁ howner message (by
        rwa [Option.some.inj (hep₁.symm.trans hep)]) rfl
    cases hstep with
    | keep _ hpending _ _ _ =>
      rw [hpending]
      exact ⟨hkept, hnodup⟩
    | hand _ hpending _ _ =>
      rw [hpending]
      exact ⟨hkept, hnodup⟩
    | @queue sender words payload _ hfull hpending _ _ _ _ =>
      obtain ⟨hcur, b, hb, hpid, hs, hwait⟩ := h.caller hm hi rfl
      rw [hpending, toList_pushOk hfull]
      constructor
      · intro message hmem
        rcases List.mem_append.mp hmem with hold | hnew
        · exact hkept message hold
        · rw [List.mem_singleton.mp hnew]
          exact ⟨i, b, hb, hpid, hs, hwait⟩
      · rw [List.map_append, List.nodup_append]
        refine ⟨hnodup, by simp, ?_⟩
        rintro pid hold pid' hnew rfl
        obtain ⟨message, hmem, hsender⟩ := List.mem_map.mp hold
        have hpid' : pid = sender := by simpa using hnew
        refine hm.not_callsTo_current (e := e) hi hcur ?_
        rw [← hpid', ← hsender]
        exact hcalls message hmem
    | take _ hpop _ _ _ =>
      have hlist := RingBuffer.pop_eq_some hpop
      rw [hlist] at hkept hnodup
      exact ⟨fun message hmem => hkept message (List.mem_cons_of_mem _ hmem),
        (List.nodup_cons.mp hnodup).2⟩

end TaskManager

namespace System

/-- The event is a reply to a client whose message is still queued at an endpoint of the
replier. -/
def RepliesEarly (s : System) (ev : Event) : Prop :=
  ∃ tf e ep message, ev = .ecall tf ∧
    (Sysno.decode tf.a7 = some .ipcReply ∨ Sysno.decode tf.a7 = some .ipcReplyBuf) ∧
    s.kernel.tm.endpoints (e : Fin maxEndpoints) = some ep ∧
    s.kernel.tm.currentPid = some ep.owner ∧ message ∈ ep.pending.toList ∧
    message.sender = tf.a0 % 2 ^ 32

/-- The side condition for replies: none is early. -/
def RepliesAfterReceive (s : System) (ev : Event) : Prop :=
  s.FreshPid ev ∧ ¬ s.RepliesEarly ev

/-- The client of a reply is the one that the system call names. -/
lemma answered_client {tf : TrapFrame} {k : Kernel} {client : ℕ}
    (h : Kernel.answered tf k = some client) : client = tf.a0 % 2 ^ 32 ∧
      (Sysno.decode tf.a7 = some .ipcReply ∨ Sysno.decode tf.a7 = some .ipcReplyBuf) := by
  have hreplies : ∀ {f : Fallible Kernel Unit}, Kernel.replies tf f k = some client →
      client = tf.a0 % 2 ^ 32 := by
    intro f hf
    unfold Kernel.replies at hf
    generalize f k = r at hf
    rcases r with _ | ⟨_ | _, k'⟩ <;> simp_all
  unfold Kernel.answered at h
  generalize hcall : Sysno.decode tf.a7 = call at h
  rcases call with _ | call
  · simp at h
  · cases call <;> first | exact ⟨hreplies h, by simp⟩ | simp at h

section StepView

variable {s t : System} {ev : Event} {m₁ m₂ : TaskManager} {label : Label} {next : FramePtr}

/-- The condition on the event is one on the label. -/
lemma StepView.afterReceive (h : StepView s ev t m₁ m₂ label next)
    (hok : s.RepliesAfterReceive ev) : label.AfterReceive m₁ := by
  rintro client rfl e ep hep howner message hmem rfl
  rw [h.framed.endpoints] at hep
  rw [h.framed.currentPid] at howner
  have hshows := h.shows'
  cases ev with
  | ecall tf =>
    obtain ⟨hclient, hcall⟩ := answered_client (hshows.answered.trans rfl)
    exact hok.2 ⟨tf, e, ep, message, rfl, hcall, hep, howner, hmem, hclient⟩
  | spawn name => rcases hshows with h | h <;> simp at h
  | timer tf => exact absurd hshows (by simp [Shows])
  | external irq tf => exact absurd hshows (by simp [Shows])
  | store va byte => exact absurd hshows (by simp [Shows])

/-- Writing the frame of the running task leaves the callers alone. -/
lemma Framed.callsTo {m m' : TaskManager} {i : Fin maxTasks} (h : Framed i m m') (pid : ℕ)
    (e : Fin maxEndpoints) (hcall : m.CallsTo pid e) : m'.CallsTo pid e := by
  obtain ⟨j, a, ha, hpid, haw⟩ := hcall
  rcases h with rfl | ⟨tf, rfl⟩
  · exact ⟨j, a, ha, hpid, haw⟩
  · by_cases hj : j = i
    · subst hj
      exact ⟨j, { a with trapFrame := tf }, by rw [tasks_updateTask ha, Slots.set_self], hpid, haw⟩
    · exact ⟨j, a, by rw [tasks_updateTask_of_ne hj, ha], hpid, haw⟩

/-- Writing a frame leaves the senders asleep. -/
lemma Framed.ringInv {m m' : TaskManager} {i : Fin maxTasks} (h : Framed i m m')
    (hm : RingInv m) : RingInv m' := by
  intro e ep hep
  rw [h.endpoints] at hep
  obtain ⟨hcalls, hnodup⟩ := hm e ep hep
  exact ⟨fun message hmem => h.callsTo _ _ (hcalls message hmem), hnodup⟩

/-- Writing a frame creates no callers. -/
lemma Framed.callsTo_of {m m' : TaskManager} {i : Fin maxTasks} (h : Framed i m m') (pid : ℕ)
    (e : Fin maxEndpoints) (hcall : m'.CallsTo pid e) : m.CallsTo pid e := by
  obtain ⟨j, a, ha, hpid, haw⟩ := hcall
  rcases h with rfl | ⟨tf, rfl⟩
  · exact ⟨j, a, ha, hpid, haw⟩
  · by_cases hj : j = i
    · subst hj
      simp only [updateTask, setTask, Slots.set_self, Option.map_eq_some_iff] at ha
      obtain ⟨b, hb, rfl⟩ := ha
      exact ⟨j, b, hb, hpid, haw⟩
    · exact ⟨j, a, by rwa [tasks_updateTask_of_ne hj] at ha, hpid, haw⟩

/-- A reply that succeeds is to a client that sleeps in a call to an endpoint of the replier. -/
lemma StepView.replied (h : StepView s ev t m₁ m₂ label next) {client : ℕ}
    (hlabel : label = .reply client) : ∃ e ep, s.kernel.tm.CallsTo client e ∧
      s.kernel.tm.endpoints e = some ep ∧ s.kernel.tm.currentPid = some ep.owner := by
  have heffect := h.effect
  rw [← h.framed.endpoints, ← h.framed.currentPid]
  cases heffect with
  | @reply replier client' index task _ g hreplier htarget hs =>
    simp only [Label.reply.injEq] at hlabel
    subst hlabel
    obtain ⟨hfind, htask, endpoint, e, ep, hwait, hep, howner⟩ :=
      Kernel.replyTarget_eq_some htarget
    obtain ⟨rfl, hget⟩ := endpointAt_eq_some.mp hep
    obtain ⟨b, hb, hpid⟩ := findPid_eq_some hfind
    obtain rfl := Option.some.inj (hb.symm.trans htask)
    exact ⟨e, ep, h.framed.callsTo_of _ _ ⟨index, b, hb, hpid, hs, hwait⟩, hget,
      by rw [hreplier, howner]⟩
  | _ => simp at hlabel

end StepView

end System

end NekOS
