import NekOS.AddressSpace.Startup
import NekOS.Ipc.Receipts

/-!
# Clients of a dead server

A client that sleeps in a call can be woken by the owner of the endpoint only.  The exit of an owner
leaves its endpoints and their clients alone, and a call to the endpoint of an owner that has exited is
accepted.  In a run without these two, the owner of an endpoint with a sleeping client is alive
(`clients_served`).
-/

namespace NekOS

namespace TaskManager

variable {m m₁ m' : TaskManager} {i : Fin maxTasks}

/-- Every task that sleeps in a call to an endpoint has called one whose owner is alive. -/
def Served (m : TaskManager) : Prop :=
  ∀ j a n, m.tasks j = some a → a.state = .sleeping → a.waitingFor = some (.ipcCall n) →
    ∃ (e : Fin maxEndpoints) (ep : Endpoint), e = n ∧ m.endpoints e = some ep ∧ m.Alive ep.owner

/-! ### Tasks stay alive -/

/-- The tasks that have not exited, but for those in one slot, are there after the change and have not
exited. -/
def Survive (i : Option (Fin maxTasks)) (m m' : TaskManager) : Prop :=
  ∀ j a, i ≠ some j → m.tasks j = some a → a.state ≠ .zombie →
    ∃ b, m'.tasks j = some b ∧ b.pid = a.pid ∧ b.state ≠ .zombie

/-- One change after the other. -/
lemma Survive.trans {o : Option (Fin maxTasks)} (h₁ : Survive o m m₁) (h₂ : Survive none m₁ m') :
    Survive o m m' := by
  intro j a hj ha hz
  obtain ⟨b, hb, hpid, hbz⟩ := h₁ j a hj ha hz
  obtain ⟨c, hc, hcpid, hcz⟩ := h₂ j b (by simp) hb hbz
  exact ⟨c, hc, hcpid.trans hpid, hcz⟩

/-- Changes within the family. -/
lemma Calm.survive (h : Calm m m') : Survive none m m' := by
  intro j a _ ha hz
  obtain ⟨b, hb, hs⟩ := h.forth j a ha hz
  exact ⟨b, hb, hs.pid, hs.alive hz⟩

/-- Blocking. -/
lemma survive_block (m : TaskManager) (l : Fin maxTasks) (channel : WaitChannel) (tf : TrapFrame) :
    Survive none m (m.block l channel tf) := by
  intro j a _ ha hz
  by_cases hj : j = l
  · subst hj
    exact ⟨a.asleep channel tf, by rw [tasks_block ha, Slots.set_self], rfl, by simp [Task.asleep]⟩
  · exact ⟨a, (tasks_block_of_ne hj channel tf).trans ha, rfl, hz⟩

/-- The current task exits. -/
lemma Core.survive_retire (hm : Core m) (hi : m.RunsIn i) (code : ℤ) :
    Survive (some i) m (m.retire code) := by
  intro j a hj ha hz
  obtain ⟨c, hc, -⟩ := id hi
  obtain ⟨b, hb, ⟨-, h⟩ | ⟨rfl, -⟩⟩ := hm.tasks_retire hi hc code ha
  · exact ⟨b, hb, h.pid, h.alive hz⟩
  · exact absurd rfl hj

/-- An effect other than an exit leaves all tasks alive. -/
lemma Effect.survive {label : Label} {next : FramePtr} (h : Effect m label next m') :
    Survive none m m' ∨ (label = .silent ∧ (∃ code, m.Exits code) ∧
      ∀ i, Core m → m.RunsIn i → Survive (some i) m m') := by
  have hblock : ∀ {f : Endpoint → Endpoint} {e l channel tf},
      Survive none m ((m.updateEndpoint e f).block l channel tf) := fun {f e l channel tf} =>
    survive_block (m.updateEndpoint e f) l channel tf
  cases h with
  | touch h => exact Or.inl (Calm.touched h).survive
  | bump => exact Or.inl (Calm.of_tasks rfl).survive
  | @create slot t hfree =>
    refine Or.inl fun j a _ ha hz => ⟨a, ?_, rfl, hz⟩
    refine (Slots.set_of_ne ?_ _).trans ha
    rintro rfl
    cases hfree.symm.trans ha
  | reap hc hz => exact Or.inl (Calm.remove hc hz).survive
  | yield tf => exact Or.inl (Calm.resched tf m).survive
  | uart tf => exact Or.inl ((Calm.wakeUart m).trans (.resched tf _)).survive
  | sleep tf => exact Or.inl ((survive_block m _ _ tf).trans (Calm.resched tf _).survive)
  | exit code _ _ hexits =>
    refine Or.inr ⟨rfl, ⟨code, hexits⟩, fun i hm hi => (hm.survive_retire hi code).trans ?_⟩
    have hcleared : Calm (m.retire code) { m.retire code with currentPid := none } := .of_tasks rfl
    exact (hcleared.trans (.runSlot _ _)).survive
  | stage => exact Or.inl (Calm.of_tasks rfl).survive
  | @callQueued sender e _ j f words payload tf =>
    have henqueue : Survive none m (((m.updateEndpoint e f).block j (.ipcCall e) tf).enqueue e
        ⟨sender, words, payload.length⟩) := hblock
    exact Or.inl (henqueue.trans (Calm.resched tf _).survive)
  | @callDirect _ e _ j r f u g _ _ tf =>
    have hwaits : Survive none m ((m.updateEndpoint e f).block j (.ipcCall e) tf) := hblock
    have hwake := hwaits.trans (Calm.wake (i := r) g).survive
    have hrelease : Survive none m ((((m.updateEndpoint e f).block j (.ipcCall e) tf).wake r
        g).updateEndpoint e u) := hwake
    exact Or.inl (hrelease.trans (Calm.resched tf _).survive)
  | recvPop => exact Or.inl (Calm.of_tasks rfl).survive
  | recvBlock tf => exact Or.inl (hblock.trans (Calm.resched tf _).survive)
  | reply g => exact Or.inl (Calm.wake g).survive
  | scribble g =>
    exact Or.inl (Calm.survive (.update fun t _ => ⟨rfl, rfl, id, fun _ => id⟩))

/-- A task is alive after an effect unless it exits. -/
lemma Effect.alive (hm : Core m) (hi : m.RunsIn i) {label : Label} {next : FramePtr}
    (h : Effect m label next m') {pid : ℕ} (hpid : m.Alive pid)
    (hexit : label = .silent → ∀ code, m.Exits code → m.currentPid ≠ some pid) : m'.Alive pid := by
  obtain ⟨j, a, ha, rfl, hz⟩ := hpid
  rcases h.survive with hsurvive | ⟨hlabel, ⟨code, hexits⟩, hsurvive⟩
  · obtain ⟨b, hb, hbpid, hbz⟩ := hsurvive j a (by simp) ha hz
    exact ⟨j, b, hb, hbpid, hbz⟩
  · have hj : some i ≠ some j := by
      intro hij
      obtain ⟨c, hc, hcur, -⟩ := hi
      obtain rfl := Option.some.inj hij
      obtain rfl := Option.some.inj (ha.symm.trans hc)
      exact hexit hlabel code hexits hcur
    obtain ⟨b, hb, hbpid, hbz⟩ := hsurvive i hm hi j a hj ha hz
    exact ⟨j, b, hb, hbpid, hbz⟩

/-! ### Clients -/

/-- The current task leaves no client behind when it exits: none sleeps in a call to an endpoint of
its own. -/
def LeavesNoClient (m : TaskManager) : Prop :=
  ∀ (e : Fin maxEndpoints) (ep : Endpoint) j a, m.endpoints e = some ep →
    m.currentPid = some ep.owner → m.tasks j = some a → a.state = .sleeping →
    a.waitingFor ≠ some (.ipcCall e)

/-- Events that are no system calls leave all tasks alive. -/
lemma Outside.survive {label : Label} {next : FramePtr} (h : Outside m label next m') :
    Survive none m m' := by
  cases h with
  | keep => exact (Calm.of_tasks rfl).survive
  | @create slot t hfree =>
    refine fun j a _ ha hz => ⟨a, (Slots.set_of_ne ?_ _).trans ha, rfl, hz⟩
    rintro rfl
    cases hfree.symm.trans ha
  | yield tf => exact (Calm.resched tf m).survive
  | uart tf => exact ((Calm.wakeUart m).trans (.resched tf _)).survive

/-- No client is stranded by an effect that leaves the owners of endpoints with clients alive. -/
lemma Served.effect (hserved : Served m) (hm : Core m) (hi : m.RunsIn i) {label : Label}
    {next : FramePtr} (h : Effect m label next m')
    (hstays : ∀ (e : Fin maxEndpoints) ep j a, m.endpoints e = some ep → m.tasks j = some a →
      a.state = .sleeping → a.waitingFor = some (.ipcCall e) → m.Alive ep.owner →
      m'.Alive ep.owner)
    (hcall : ∀ e ep sender words payload, label = .call e sender words payload →
      m.endpoints e = some ep → m'.Alive ep.owner) : Served m' := by
  intro j b n hb hs hwait
  have howner : ∀ (e : Fin maxEndpoints) (ep : Endpoint), m.endpoints e = some ep →
      m'.Alive ep.owner → ∃ ep', m'.endpoints e = some ep' ∧ m'.Alive ep'.owner := by
    intro e ep hep halive
    obtain ⟨ep', hep', howner⟩ := h.owner hep
    exact ⟨ep', hep', howner ▸ halive⟩
  rcases h.asleep hm hi hb hs with ⟨a, ha, -, hsleep, hawait⟩ | ⟨-, channel, hch, hfalls⟩
  · obtain ⟨e, ep, rfl, hep, halive⟩ := hserved j a n ha hsleep (hawait.trans hwait)
    obtain ⟨ep', hep', halive'⟩ :=
      howner e ep hep (hstays e ep j a hep ha hsleep (hawait.trans hwait) halive)
    exact ⟨e, ep', rfl, hep', halive'⟩
  · obtain rfl : channel = .ipcCall n := Option.some.inj (hch.symm.trans hwait)
    generalize hchannel : WaitChannel.ipcCall n = channel at hfalls
    cases hfalls with
    | own hmay =>
      subst hchannel
      exact hmay.elim
    | recv => cases hchannel
    | @call e sender words payload =>
      obtain rfl := WaitChannel.ipcCall.inj hchannel
      cases hep : m.endpoints e with
      | none => exact absurd rfl (h.noEndpoint hep).2
      | some ep =>
        obtain ⟨ep', hep', halive'⟩ :=
          howner e ep hep (hcall e ep sender words payload rfl hep)
        exact ⟨e, ep', rfl, hep', halive'⟩

end TaskManager

namespace Kernel

variable {k : Kernel} {tf : TrapFrame}

/-- The system call with the registers `tf` is a call that the endpoint takes: the caller is not its
owner, the queue is not full, and a payload fits the free staging buffer and can be read. -/
inductive Admits (k : Kernel) (tf : TrapFrame) (e : Fin maxEndpoints) (ep : Endpoint) : Sysno → Prop
  | call : k.tm.endpointAt tf.a0 = some (e, ep) → k.tm.currentPid ≠ some ep.owner →
      ep.pending.isFull = false → Admits k tf e ep .ipcCall
  | callBuf : k.tm.endpointAt tf.a0 = some (e, ep) → k.tm.currentPid ≠ some ep.owner →
      ep.pending.isFull = false → (ep.hasBuffered = true → ep.receiverWaiting = true) →
      tf.a6 ≤ ipcBufSize → k.Readable tf.a5 tf.a6 → Admits k tf e ep .ipcCallBuf

/-- A call that is accepted is one that the endpoint takes. -/
lemma admits_of_accepted {e : Fin maxEndpoints} {sender : ℕ} {words : Words}
    (h : accepted tf k = some (↑e, sender, words)) :
    ∃ call ep, Sysno.decode tf.a7 = some call ∧ k.Admits tf e ep call := by
  have hrun : ∀ {f}, accepts tf f k = some (↑e, sender, words) →
      tf.a0 = e ∧ ∃ r k', f k = some (some r, k') := fun {f} h => by
    unfold accepts at h
    split at h
    · rename_i r k' hrun
      obtain ⟨_, -, heq⟩ := Option.map_eq_some_iff.mp h
      exact ⟨(Prod.mk.inj heq).1, r, k', hrun⟩
    · cases h
  have hfound : ∀ {e' : Fin maxEndpoints} {ep : Endpoint}, tf.a0 = e →
      k.tm.endpointAt tf.a0 = some (e', ep) → k.tm.endpointAt tf.a0 = some (e, ep) :=
    fun {e' ep} he hep => by
      obtain rfl : e' = e := Fin.ext ((TaskManager.endpointAt_eq_some.mp hep).1.trans he)
      exact hep
  unfold accepted at h
  cases hcall : Sysno.decode tf.a7 with
  | none => simp [hcall] at h
  | some call =>
    simp only [hcall] at h
    cases call with
    | ipcCall =>
      obtain ⟨he, r, k', h⟩ := hrun h
      rcases ipcCall_cases h with ⟨hnone, -⟩ | ⟨sender, e', ep, _, _, hsender, hep, hne, hfull, -⟩
      · cases hnone
      · exact ⟨_, ep, rfl, .call (hfound he hep)
          (fun howner => hne (Option.some.inj (hsender.symm.trans howner))) hfull⟩
    | ipcCallBuf =>
      obtain ⟨he, r, k', h⟩ := hrun h
      obtain ⟨hsize, hread⟩ := ipcCallBuf_accepted h
      rcases ipcCallBuf_cases h with ⟨hnone, -⟩ | ⟨sender, e', ep, hsender, hep, hne, hfull, hfree, -⟩
      · cases hnone
      · exact ⟨_, ep, rfl, .callBuf (hfound he hep)
          (fun howner => hne (Option.some.inj (hsender.symm.trans howner))) hfull hfree hsize hread⟩
    | _ => cases h

end Kernel

namespace System

open TaskManager

variable {s t : System} {ev : Event}

/-- The event strands no client: a task that exits leaves no client behind, and no endpoint takes a
call while its owner is dead. -/
def StrandsNoClient (s : System) : Event → Prop
  | .ecall tf => (Sysno.decode tf.a7 = some .exit → LeavesNoClient (s.entry tf).tm) ∧
      ∀ call e ep, Sysno.decode tf.a7 = some call → (s.entry tf).Admits tf e ep call →
        (s.entry tf).tm.Alive ep.owner
  | _ => True

/-- Writing a frame wakes no client and kills no owner. -/
lemma Framed.served {m m' : TaskManager} {i : Fin maxTasks} (h : Framed i m m') (hm : Served m) :
    Served m' := by
  intro j b n hb hs hwait
  have hkeys : ∀ l, (m'.tasks l).map Task.key = (m.tasks l).map Task.key := fun l => by
    rcases h with rfl | ⟨tf, rfl⟩
    · rfl
    · exact keys_updateTask m i (f := fun t => { t with trapFrame := tf }) (fun _ => rfl) l
  obtain ⟨a, ha, -, hstate, hawait⟩ := exists_of_key hkeys hb
  obtain ⟨e, ep, he, hep, l, o, ho, hpid, hz⟩ := hm j a n ha (hstate.trans hs) (hawait.trans hwait)
  obtain ⟨o', ho', hpid', hz', -⟩ := exists_of_key (fun l => (hkeys l).symm) ho
  exact ⟨e, ep, he, by rw [h.endpoints, hep], l, o', ho', hpid'.trans hpid, by rwa [hz']⟩

/-- **Step lemma.**  An event that strands no client keeps every client served. -/
lemma StepView.served {m₁ m₂ : TaskManager} {label : Label} {next : FramePtr}
    (h : StepView s ev t m₁ m₂ label next) (hs : s.Scheduled) (hok : s.StrandsNoClient ev)
    (hm : Served m₁) : Served m₂ := by
  have hsurvive : Survive none m₁ m₂ → ∀ pid, m₁.Alive pid → m₂.Alive pid := by
    rintro hsurvive pid ⟨j, a, ha, hpid, hz⟩
    obtain ⟨b, hb, hbpid, hbz⟩ := hsurvive j a (by simp) ha hz
    exact ⟨j, b, hb, hbpid.trans hpid, hbz⟩
  have houtside : Outside m₁ label next m₂ → Served m₂ := fun hout => by
    refine hm.effect h.core h.runs h.effect (fun e ep _ _ _ _ _ _ => hsurvive hout.survive _) ?_
    rintro e ep sender words payload rfl
    cases hout
  have hent := h.entered
  cases ev with
  | ecall tf =>
    obtain rfl : m₁ = (s.entry tf).tm := hent
    obtain ⟨hexit, hcall⟩ := hok
    have hin : ∀ {call fr}, (s.entry tf).tm.InCall call fr → Sysno.decode tf.a7 = some call :=
      fun hcall => (hs.inCall hcall).2
    refine hm.effect h.core h.runs h.effect (fun e ep j a hep ha hsleep hwait halive => ?_) ?_
    · refine h.effect.alive h.core h.runs halive ?_
      rintro - code ⟨fr, hfr, -⟩ howner
      exact hexit (hin hfr) e ep j a hep howner ha hsleep hwait
    · rintro e ep sender words payload rfl hep
      have haccepted : Kernel.accepted tf (s.entry tf) = some (↑e, sender, words) :=
        h.shows'.accepted
      obtain ⟨call, ep', hdecode, hadmits⟩ := Kernel.admits_of_accepted haccepted
      have hep' : (s.entry tf).tm.endpointAt tf.a0 = some (e, ep') := by
        cases hadmits with
        | call h => exact h
        | callBuf h => exact h
      obtain rfl := Option.some.inj (hep.symm.trans (endpointAt_eq_some.mp hep').2)
      exact h.effect.alive h.core h.runs (hcall call e ep hdecode hadmits) fun h => nomatch h
  | timer tf => exact houtside hent
  | external irq tf => exact houtside hent
  | store va byte => exact houtside hent
  | spawn name => exact houtside hent

end System

end NekOS
