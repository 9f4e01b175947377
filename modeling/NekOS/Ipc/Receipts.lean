import NekOS.Ipc.Delivery
import NekOS.Scheduling.Asleep

/-!
# The message that a receive operation returns with

A task that makes a receive operation on an endpoint, and is on the hart again later, has one message
of that endpoint delivered in between, the one in its registers, or none when the operation fails
(`receive_returns`).
-/

namespace NekOS

namespace TaskManager

variable {m m' : TaskManager} {i : Fin maxTasks}

/-- A task that waits for a message of an endpoint owns it. -/
def Receivers (m : TaskManager) : Prop :=
  ∀ i t (e : Fin maxEndpoints), m.tasks i = some t → t.awaits e →
    ∃ ep, m.endpoints e = some ep ∧ ep.owner = t.pid

/-- The owner of an endpoint stays. -/
lemma Effect.owner {label : Label} {next : FramePtr} (h : Effect m label next m')
    {e : Fin maxEndpoints} {ep : Endpoint} (hep : m.endpoints e = some ep) :
    ∃ ep', m'.endpoints e = some ep' ∧ ep'.owner = ep.owner := by
  obtain ⟨ep', hep', howner, -⟩ := h.endpoint hep
  exact ⟨ep', hep', howner⟩

/-- An effect lets only owners wait for messages. -/
lemma Receivers.effect (hr : Receivers m) (hm : Core m) (hi : m.RunsIn i) {label : Label}
    {next : FramePtr} (h : Effect m label next m') : Receivers m' := by
  intro j b e hb haw
  rcases h.asleep hm hi hb haw.1 with ⟨a, ha, hpid, hsleep, hwait⟩ | ⟨hcur, channel, hch, hfalls⟩
  · obtain ⟨ep, hep, howner⟩ := hr j a e ha ⟨hsleep, hwait.trans haw.2⟩
    obtain ⟨ep', hep', howner'⟩ := h.owner hep
    exact ⟨ep', hep', by rw [howner', howner, hpid]⟩
  · obtain rfl : channel = .ipcRecv e := Option.some.inj (hch.symm.trans haw.2)
    have hown : ∀ {e' : Fin maxEndpoints} {ep : Endpoint}, (e' : ℕ) = e →
        m.endpoints e' = some ep → m.currentPid = some ep.owner →
        ∃ ep', m'.endpoints e = some ep' ∧ ep'.owner = b.pid := by
      intro e' ep he hep howner
      obtain rfl := Fin.ext he
      obtain ⟨ep', hep', howner'⟩ := h.owner hep
      exact ⟨ep', hep', by rw [howner', ← Option.some.injEq, ← howner, hcur]⟩
    generalize hchannel : WaitChannel.ipcRecv e = channel at hfalls
    cases hfalls with
    | own hmay =>
      subst hchannel
      exact hmay.elim
    | recv hep howner => exact hown (WaitChannel.ipcRecv.inj hchannel).symm hep howner
    | call => cases hchannel

/-- A message is taken by the owner of the endpoint. -/
lemma Effect.taken {label : Label} {next : FramePtr} (h : Effect m label next m')
    {e : Fin maxEndpoints} {ep : Endpoint} (hep : m.endpoints e = some ep)
    (hne : atEndpoint e label.received ≠ []) : m.currentPid = some ep.owner := by
  cases h with
  | @recvPop e' ep' message pending plain howner hep' _ =>
    by_cases he : e' = e
    · subst he
      obtain rfl := Option.some.inj (hep.symm.trans hep')
      exact howner
    · have hval : (e' : ℕ) ≠ e := fun heq => he (Fin.ext heq)
      simp [Label.received, atEndpoint, hval] at hne
  | _ => exact absurd rfl hne

/-- No task sleeps when the first one is entered. -/
lemma Fresh.awake (hm : Fresh m) {a : Task} (ha : m.tasks i = some a) {j : Fin maxTasks} {b : Task}
    (hb : (m.runSlot i).tasks j = some b) : b.state ≠ .sleeping := by
  have hrun : (m.runSlot i).tasks i = some { a with state := .running } := by
    refine (congrFun (tasks_updateTask ha) i).trans ?_
    exact Slots.set_self ..
  by_cases hj : j = i
  · subst hj
    obtain rfl := Option.some.inj (hrun.symm.trans hb)
    simp
  · have hkept : m.tasks j = some b := (tasks_updateTask_of_ne hj _).symm.trans hb
    rw [hm.ready j b hkept]
    decide

end TaskManager

namespace System

open TaskManager

variable {s t u : System} {ev : Event} {m₁ m₂ : TaskManager} {label : Label} {next : FramePtr}
  {e : Fin maxEndpoints} {pid : ℕ} {j : Fin maxTasks} {a b : Task}

/-- Writing the frame of the task on the hart lets no one wait. -/
lemma Framed.receivers {m m' : TaskManager} {i : Fin maxTasks} (h : Framed i m m')
    (hm : Receivers m) : Receivers m' := by
  rcases h with rfl | ⟨tf, rfl⟩
  · exact hm
  · intro j b e hb haw
    obtain ⟨a, ha, hpid, hstate, hwait⟩ := exists_of_key
      (keys_updateTask m i (f := fun t => { t with trapFrame := tf }) fun _ => rfl) hb
    obtain ⟨ep, hep, howner⟩ := hm j a e ha ⟨hstate.trans haw.1, hwait.trans haw.2⟩
    exact ⟨ep, hep, howner.trans hpid⟩

/-- Only owners wait for messages, in every state reached. -/
theorem receivers_of_reaches (h : nekos.Reaches FreshPid s) : Receivers s.kernel.tm := by
  refine (invariant_of_effects (P := Receivers) (fun _ _ hok => hok) (fun m i t hm ht => ?_)
    (fun m m' i hf => hf.receivers) (fun s ev t m₁ m₂ label next _ _ hview _ hP => ?_) h).2
  · exact fun j b e hb haw => absurd haw.1 (hm.awake ht hb)
  · exact hP.effect hview.core hview.runs hview.effect

/-- The task in the slot waits for a message of the endpoint. -/
def AwaitsIn (e : Fin maxEndpoints) (pid : ℕ) (j : Fin maxTasks) (s : System) : Prop :=
  ∃ a, s.kernel.tm.tasks j = some a ∧ a.pid = pid ∧ a.awaits e

/-- The task in the slot has the message in its registers. -/
def HasReceived (message : ℕ × Words) (pid : ℕ) (j : Fin maxTasks) (s : System) : Prop :=
  ∃ a, s.kernel.tm.tasks j = some a ∧ a.pid = pid ∧ a.state ≠ .sleeping ∧ a.state ≠ .zombie ∧
    messageOf a.trapFrame = message

/-- The task with the pid owns the endpoint. -/
def Owns (e : Fin maxEndpoints) (pid : ℕ) (s : System) : Prop :=
  ∃ ep, s.kernel.tm.endpoints e = some ep ∧ ep.owner = pid

/-- The owner of an endpoint stays. -/
lemma StepView.owns (h : StepView s ev t m₁ m₂ label next) (hown : s.Owns e pid) :
    t.Owns e pid := by
  obtain ⟨ep, hep, howner⟩ := hown
  rw [← h.framed.endpoints] at hep
  obtain ⟨ep', hep', howner'⟩ := h.effect.owner hep
  rw [← h.framed'.endpoints] at hep'
  exact ⟨ep', hep', howner'.trans howner⟩

/-- An event that shows no accepted call hands over no message. -/
lemma StepView.handedAt_eq_nil (h : StepView s ev t m₁ m₂ label next) (hs : s.Scheduled)
    (hacc : acceptedAt e s ev = []) : handedAt e s.kernel.tm t.kernel.tm = [] := by
  rw [h.handedAt_eq hs]
  refine TaskManager.handedAt_eq_nil fun l =>
    (h.effect.handedFrom_cases h.core h.runs l).resolve_right ?_
  rintro ⟨_, sender, words, payload, _, rfl, -⟩
  rw [(h.shown e).1] at hacc
  simp [Label.accepted, atEndpoint] at hacc

/-- While the owner of an endpoint is not on the hart, what an event delivers to it is what it wakes
the owner with. -/
lemma StepView.deliveredAt_eq (h : StepView s ev t m₁ m₂ label next) (hs : s.Scheduled)
    (hstep : s.step ev = some t) (hj : s.hart ≠ j) (hown : s.Owns e pid)
    (ha : s.kernel.tm.tasks j = some a) (hpid : a.pid = pid) :
    deliveredAt e s ev = (handedFrom e (some a) (t.kernel.tm.tasks j)).toList := by
  obtain ⟨ep, hep, howner⟩ := hown
  rw [← h.framed.endpoints] at hep
  obtain ⟨htasks, htasks'⟩ := h.tasks_eq hj.symm
  obtain ⟨c, hc, hcur, hrun⟩ := id h.runs
  have htaken : takenAt e s ev = [] := by
    rw [(h.shown e).2]
    by_contra hne
    have hcurrent := h.effect.taken hep hne
    rw [hcur, Option.some.injEq, howner, ← hpid] at hcurrent
    exact hj (h.core.unique _ _ _ _ hc (htasks.trans ha) hcurrent)
  have hothers : ∀ l, l ≠ j → handedFrom e (s.kernel.tm.tasks l) (t.kernel.tm.tasks l) = none := by
    intro l hl
    by_cases hhart : l = s.hart
    · subst hhart
      exact not_awaits_of_runs hs.runs e _
    · obtain ⟨hm₁, hm₂⟩ := h.tasks_eq hhart
      rw [← hm₁, hm₂]
      refine (h.effect.handedFrom_cases h.core h.runs l).resolve_right ?_
      rintro ⟨ep', _, _, _, d, -, hep', -, hd, hdpid, -⟩
      obtain rfl := Option.some.inj (hep.symm.trans hep')
      exact hl (h.core.unique _ _ _ _ hd (htasks.trans ha) (by rw [hdpid, howner, hpid]))
  rw [deliveredAt, htaken, hstep, List.nil_append, Option.elim_some, ← ha]
  cases hfrom : handedFrom e (s.kernel.tm.tasks j) (t.kernel.tm.tasks j) with
  | none =>
    refine TaskManager.handedAt_eq_nil fun l => ?_
    by_cases hl : l = j
    · rw [hl, hfrom]
    · exact hothers l hl
  | some message => exact Slots.filterMap_eq_singleton hfrom hothers

/-- **Step lemma.**  An owner that waits for a message waits on, or the event delivers a message and
leaves it in the registers of the owner. -/
lemma StepView.receipt (h : StepView s ev t m₁ m₂ label next) (hs : s.Scheduled)
    (hstep : s.step ev = some t) (hj : s.hart ≠ j) (hown : s.Owns e pid)
    (hwait : s.AwaitsIn e pid j) : (deliveredAt e s ev = [] ∧ t.AwaitsIn e pid j) ∨
      ∃ message, deliveredAt e s ev = [message] ∧ t.HasReceived message pid j := by
  obtain ⟨a, ha, hpid, haw⟩ := hwait
  rw [h.deliveredAt_eq hs hstep hj hown ha hpid]
  have hon : ∀ {b : Task} {c : Task} {current : Option ℕ}, t.kernel.tm.tasks j = some b →
      Rests current c b → c.pid = a.pid → c.awaits e →
      (handedFrom e (some a) (t.kernel.tm.tasks j)).toList = [] ∧ t.AwaitsIn e pid j := by
    intro b c current hb hrests hcpid hc
    have hstate : b.state = .sleeping := by
      rcases hrests.state with hstate | ⟨hready, -⟩
      · exact hstate.trans hc.1
      · cases hc.1.symm.trans hready
    have hbw : b.awaits e := ⟨hstate, hrests.waitingFor.trans hc.2⟩
    exact ⟨by simp [handedFrom, hb, hbw], b, hb, by rw [hrests.pid, hcpid, hpid], hbw⟩
  have hrecv : ∀ {channel}, a.waitingFor = some channel → channel = .ipcRecv e :=
    fun hch => Option.some.inj (hch.symm.trans haw.2)
  cases h.fate hj.symm ha with
  | freed _ hz => cases haw.1.symm.trans hz
  | rests hb hrests => exact Or.inl (hon hb hrests rfl haw)
  | exitCode _ hchild =>
    obtain ⟨c, -, hcur, -⟩ := h.runs
    rw [hcur] at hchild
    cases hrecv hchild
  | input _ huart => cases hrecv huart
  | @message b _ _ _ _ _ g _ _ _ _ _ hb hrests =>
    have hready : b.state = .ready ∨ b.state = .running :=
      hrests.state.imp id And.right
    have hsleep : b.state ≠ .sleeping := by
      rcases hready with hstate | hstate <;> rw [hstate] <;> decide
    have hzombie : b.state ≠ .zombie := by
      rcases hready with hstate | hstate <;> rw [hstate] <;> decide
    have hbw : ¬ b.awaits e := fun h => hsleep h.1
    exact Or.inr ⟨messageOf b.trapFrame, by simp [handedFrom, hb, haw, hbw], b, hb,
      hrests.pid.trans hpid, hsleep, hzombie, rfl⟩
  | answer _ hcall => cases hrecv hcall
  | scribble _ hcall => cases hrecv hcall

/-- **Step lemma.**  An owner that has received a message keeps it, and no other one is delivered. -/
lemma StepView.hasReceived (h : StepView s ev t m₁ m₂ label next) (hs : s.Scheduled)
    (hstep : s.step ev = some t) (hj : s.hart ≠ j) (hown : s.Owns e pid) {message : ℕ × Words}
    (hreceived : s.HasReceived message pid j) :
    deliveredAt e s ev = [] ∧ t.HasReceived message pid j := by
  obtain ⟨a, ha, hpid, hsleep, hz, hmessage⟩ := hreceived
  rw [h.deliveredAt_eq hs hstep hj hown ha hpid]
  have hno : ∀ o, handedFrom e (some a) o = none := by
    intro o
    have haw : ¬ a.awaits e := fun h => hsleep h.1
    cases o <;> simp [handedFrom, haw]
  refine ⟨by rw [hno]; rfl, ?_⟩
  cases h.fate hj.symm ha with
  | freed _ hzombie => exact absurd hzombie hz
  | @rests b _ hb hrests =>
    refine ⟨b, hb, hrests.pid.trans hpid, ?_, ?_, by rw [hrests.trapFrame, hmessage]⟩
    · rcases hrests.state with hstate | ⟨-, hstate⟩
      · rwa [hstate]
      · simp [hstate]
    · rcases hrests.state with hstate | ⟨-, hstate⟩
      · rwa [hstate]
      · simp [hstate]
  | exitCode hs' => exact absurd hs' hsleep
  | input hs' => exact absurd hs' hsleep
  | message _ _ _ haw => exact absurd haw.1 hsleep
  | answer hs' => exact absurd hs' hsleep
  | scribble hs' => exact absurd hs' hsleep

/-- **Run lemma.**  What is delivered to the owner of an endpoint until it is on the hart: one message
when it waits, and none when it has received one. -/
lemma receipt_of_until {es : List Event} (h : nekos.Until (fun v => v.hart = j) s es u)
    (hs : s.Scheduled) (hok : nekos.RunOk FreshPid s es) (hown : s.Owns e pid) :
    (s.AwaitsIn e pid j → ∃ message, nekos.collect (deliveredAt e) s es = [message] ∧
      u.HasReceived message pid j) ∧
    ∀ message, s.HasReceived message pid j →
      nekos.collect (deliveredAt e) s es = [] ∧ u.HasReceived message pid j := by
  induction h with
  | @now s hhart =>
    refine ⟨?_, fun message hreceived => ⟨rfl, hreceived⟩⟩
    rintro ⟨a, ha, -, haw⟩
    obtain ⟨c, hc, -, hrun⟩ := hs.runs
    rw [hhart] at hc
    obtain rfl := Option.some.inj (hc.symm.trans ha)
    cases hrun.symm.trans haw.1
  | @later s t u ev es hhart hstep _ ih =>
    obtain ⟨m₁, m₂, label, next, hview⟩ := hs.view hok.1 hstep
    obtain ⟨hwaits, hreceives⟩ := ih hview.scheduled (hok.2 t hstep) (hview.owns hown)
    have hcollect : nekos.collect (deliveredAt e) s (ev :: es) =
        deliveredAt e s ev ++ nekos.collect (deliveredAt e) t es := by
      rw [Machine.collect, show nekos.step s ev = some t from hstep, Option.elim_some]
    rw [hcollect]
    refine ⟨fun hwait => ?_, fun message hreceived => ?_⟩
    · rcases hview.receipt hs hstep hhart hown hwait with ⟨hnil, hwait'⟩ | ⟨message, hone, hgot⟩
      · rw [hnil]
        exact hwaits hwait'
      · obtain ⟨hrest, hu⟩ := hreceives message hgot
        exact ⟨message, by rw [hone, hrest, List.append_nil], hu⟩
    · obtain ⟨hnil, hgot⟩ := hview.hasReceived hs hstep hhart hown hreceived
      rw [hnil]
      exact hreceives message hgot

/-- A receive operation of the task on the hart, and the further events until it is there again. -/
structure Receives (s : System) (e : Fin maxEndpoints) (tf : TrapFrame) (es : List Event)
    (u : System) : Prop where
  call : Sysno.decode tf.a7 = some .ipcRecv ∨ Sysno.decode tf.a7 = some .ipcRecvBuf
  endpoint : tf.a0 = e
  step : ∃ t, s.step (.ecall tf) = some t ∧ nekos.Until (fun v => v.hart = s.hart) t es u

/-- **What a receive operation returns with.**  When its caller is on the hart again, no message of
the endpoint has been delivered and the caller has the error value, or one message has been delivered,
and that is the message in the registers of the caller. -/
theorem receive_returns {tf : TrapFrame} {es : List Event} (hs : nekos.Reaches FreshPid s)
    (hok : nekos.RunOk FreshPid s (.ecall tf :: es)) (ha : s.kernel.tm.tasks s.hart = some a)
    (h : s.Receives e tf es u) : ∃ b, u.kernel.tm.tasks s.hart = some b ∧ b.pid = a.pid ∧
      ((nekos.collect (deliveredAt e) s (.ecall tf :: es) = [] ∧ b.trapFrame.a0 = usizeMax) ∨
        nekos.collect (deliveredAt e) s (.ecall tf :: es) = [messageOf b.trapFrame]) := by
  have hsched := scheduled_of_reaches hs
  obtain ⟨t, hstep, huntil⟩ := h.step
  obtain ⟨m₁, m₂, label, next, hview⟩ := hsched.view hok.1 hstep
  have haccepted : acceptedAt e s (.ecall tf) = [] := by
    have hnone : Kernel.accepted tf (s.entry tf) = none := by
      rcases h.call with hcall | hcall <;> simp [Kernel.accepted, hcall]
    rw [acceptedAt, hnone]
    rfl
  have hdelivered : deliveredAt e s (.ecall tf) =
      atEndpoint e (Kernel.received tf (s.entry tf)) := by
    rw [deliveredAt, hstep, Option.elim_some, hview.handedAt_eq_nil hsched haccepted,
      List.append_nil]
    rfl
  have hcollect : nekos.collect (deliveredAt e) s (.ecall tf :: es) =
      deliveredAt e s (.ecall tf) ++ nekos.collect (deliveredAt e) t es := by
    rw [Machine.collect, show nekos.step s (.ecall tf) = some t from hstep, Option.elim_some]
  rw [hcollect, hdelivered]
  -- an operation that answers at once leaves its caller on the hart
  have hat : t.hart = s.hart → es = [] ∧ u = t := fun hhart => by
    cases huntil with
    | now _ => exact ⟨rfl, rfl⟩
    | later hne => exact absurd hhart hne
  obtain ⟨call, next', tf', k', hcall, -, hends, ht⟩ := hsched.ecall_ends hstep ha
  have hrecv : call = .ipcRecv ∨ call = .ipcRecvBuf := by
    rcases h.call with hc | hc
    · exact Or.inl (Option.some.inj (hcall.symm.trans hc))
    · exact Or.inr (Option.some.inj (hcall.symm.trans hc))
  cases hends with
  | value v hreceived hv =>
    obtain ⟨hhart, b, hb, hpid, -, hframe⟩ := hsched.answered hok.1 hstep ha ht
    obtain ⟨rfl, rfl⟩ := hat hhart
    refine ⟨b, hb, hpid, Or.inl ⟨by rw [hreceived]; rfl, ?_⟩⟩
    rw [hframe]
    exact hv hrecv
  | @message _ message g _ hg hreceived =>
    obtain ⟨hhart, b, hb, hpid, -, hframe⟩ := hsched.answered hok.1 hstep ha ht
    obtain ⟨rfl, rfl⟩ := hat hhart
    refine ⟨b, hb, hpid, Or.inr ?_⟩
    have hmessage : messageOf b.trapFrame = (message.sender, message.words) := by
      rw [hframe]
      rcases hg with ⟨-, rfl⟩ | ⟨-, n, rfl⟩ <;> rfl
    simp [hreceived, hmessage, atEndpoint, h.endpoint, Machine.collect]
  | image _ hexec =>
    subst hexec
    simp at hrecv
  | @sleep _ channel _ _ hchannel hreceived hsleep =>
    obtain ⟨b, hb, hb'⟩ := suspended_of_putToSleep hsleep ht
    have hch : channel = .ipcRecv e := by
      rw [← h.endpoint]
      rcases hrecv with rfl | rfl <;> exact (Option.some.inj hchannel).symm
    have hwait : t.AwaitsIn e a.pid s.hart :=
      ⟨b, hb, hb'.pid, hb'.state, by rw [hb'.waitingFor, hch]⟩
    have hreach : nekos.Reaches FreshPid t := .step hs hok.1 hstep
    obtain ⟨ep, hep, howner⟩ := receivers_of_reaches hreach _ b e hb
      ⟨hb'.state, by rw [hb'.waitingFor, hch]⟩
    obtain ⟨message, hone, c, hc, hpid, -, -, hmessage⟩ := (receipt_of_until huntil hview.scheduled
      (hok.2 t hstep) ⟨ep, hep, howner.trans hb'.pid⟩).1 hwait
    refine ⟨c, hc, hpid, Or.inr ?_⟩
    rw [hreceived, hone, hmessage]
    rfl
  | yield hcall' =>
    subst hcall'
    simp at hrecv
  | exit hcall' =>
    subst hcall'
    simp at hrecv

end System

end NekOS
