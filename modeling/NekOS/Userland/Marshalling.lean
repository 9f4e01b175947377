import NekOS.Ipc.Receipts
import NekOS.Scheduling.Pids
import NekOS.Userland.Registers

/-!
# Words from a request wrapper to a receive wrapper

The `n`-th call that is accepted at an endpoint is the `n`-th message that is delivered to its owner,
whichever of the two system calls comes first.  Every request wrapper puts its words where the kernel
reads them, and every receive wrapper but one takes them from where the kernel puts them:
`nekos_ipc_recv_buf` returns the last two words in the place of the first two.
-/

namespace NekOS

namespace System

open TaskManager

variable {s u : System} {es : List Event} {e : Fin maxEndpoints} {n pid : ℕ} {words : Words}

/-- In the run along the events, the call that is accepted at the endpoint after `n` others has been
made by a task with the pid, through the wrapper `q` and with these words. -/
inductive Sends (s : System) (es : List Event) (e : Fin maxEndpoints) (n pid : ℕ) (words : Words)
    (q : RequestWrapper) : Prop
  | intro (before after : List Event) (t : System) (a : Task) (buf bufLen : ℕ) (base : TrapFrame) :
      es = before ++ .ecall (q.frame e words buf bufLen base) :: after →
      nekos.run s before = some t → t.kernel.tm.tasks t.hart = some a → a.pid = pid →
      acceptedAt e t (.ecall (q.frame e words buf bufLen base)) ≠ [] →
      (nekos.collect (acceptedAt e) s before).length = n → Sends s es e n pid words q

/-- In the run along the events, which ends in `u`, a task calls the receive wrapper `r` after `n`
messages of the endpoint have been delivered, one more is delivered until the task is on the hart
again, and then it has the registers `tf`. -/
inductive Returned (s : System) (es : List Event) (u : System) (e : Fin maxEndpoints) (n : ℕ)
    (tf : TrapFrame) (r : ReceiveWrapper) : Prop
  | intro (before after : List Event) (t : System) (a b : Task) (buf capacity : ℕ)
      (base : TrapFrame) : es = before ++ .ecall (r.frame e buf capacity base) :: after →
      nekos.run s before = some t → t.kernel.tm.tasks t.hart = some a →
      t.Receives e (r.frame e buf capacity base) after u →
      nekos.collect (deliveredAt e) t (.ecall (r.frame e buf capacity base) :: after) ≠ [] →
      (nekos.collect (deliveredAt e) s before).length = n → u.kernel.tm.tasks t.hart = some b →
      b.trapFrame = tf → Returned s es u e n tf r

/-- A call that is accepted is one of the task on the hart, with the words in its registers. -/
lemma Scheduled.acceptedAt_eq (hs : s.Scheduled) {tf : TrapFrame} {a : Task}
    (ha : s.kernel.tm.tasks s.hart = some a) (hne : acceptedAt e s (.ecall tf) ≠ []) :
    acceptedAt e s (.ecall tf) = [(a.pid, Kernel.argWords tf)] := by
  obtain ⟨b, hb, hcur, -⟩ := hs.entry_current tf
  obtain rfl := Option.some.inj (ha.symm.trans hb)
  have haccepts : ∀ f, Kernel.accepts tf f (s.entry tf) = none ∨
      Kernel.accepts tf f (s.entry tf) = some (tf.a0, a.pid, Kernel.argWords tf) := by
    intro f
    unfold Kernel.accepts
    split
    · exact Or.inr (by rw [hcur]; rfl)
    · exact Or.inl rfl
  have hcases : Kernel.accepted tf (s.entry tf) = none ∨
      Kernel.accepted tf (s.entry tf) = some (tf.a0, a.pid, Kernel.argWords tf) := by
    unfold Kernel.accepted
    cases Sysno.decode tf.a7 with
    | none => exact Or.inl rfl
    | some call => cases call <;> first | exact haccepts _ | exact Or.inl rfl
  rw [acceptedAt] at hne ⊢
  rcases hcases with h | h
  · rw [h] at hne
    exact absurd rfl hne
  · rw [h] at hne ⊢
    unfold atEndpoint at hne ⊢
    dsimp only at hne ⊢
    split
    · rfl
    · rename_i hother
      exact absurd (if_neg hother) hne

/-- The words of a request wrapper are where the kernel reads them. -/
lemma argWords_frame (q : RequestWrapper) (endpoint : ℕ) (words : Words) (buf bufLen : ℕ)
    (base : TrapFrame) : Kernel.argWords (q.frame endpoint words buf bufLen base) = words := by
  cases q <;> rfl

/-- What a receive wrapper returns from the registers with a message. -/
lemma result_iff {r : ReceiveWrapper} {old : Words} {tf : TrapFrame}
    (h : messageOf tf = (pid, words)) (hpid : pid < 2 ^ 32) :
    r.result old tf = some (pid, words) ↔ (r = .nekosIpcRecvBuf →
      words.w0 = words.w2 ∧ words.w1 = words.w3 ∧ old.w2 = words.w2 ∧ old.w3 = words.w3) := by
  have hne : pid ≠ usizeMax := by
    have hmax : usizeMax = 2 ^ 64 - 1 := rfl
    omega
  obtain ⟨h0, rfl⟩ := Prod.mk.inj h
  cases r with
  | nekosIpcRecvBuf =>
    simp only [ReceiveWrapper.result, h0, if_neg hne, Nat.mod_eq_of_lt hpid, Option.some.injEq,
      Prod.mk.injEq, Words.mk.injEq, true_and, forall_const]
    exact ⟨fun ⟨h0, h1, h2, h3⟩ => ⟨h0.symm, h1.symm, h2, h3⟩,
      fun ⟨h0, h1, h2, h3⟩ => ⟨h0.symm, h1.symm, h2, h3⟩⟩
  | _ => simp [ReceiveWrapper.result, h0, hne, show pid % 4294967296 = pid from
      Nat.mod_eq_of_lt hpid]

/-- The call of the shell is accepted, and its message waits. -/
lemma call_waits {x : Sample} (hinit : nekos.init x.start) (words : Words) :
    acceptedAt ⟨1, by decide⟩ x.start (.ecall (Sample.callFrame words)) = [(3, words)] ∧
    nekos.collect (deliveredAt ⟨1, by decide⟩) x.start [.ecall (Sample.callFrame words)] = [] := by
  let e : Fin maxEndpoints := ⟨1, by decide⟩
  have haccepted : acceptedAt e x.start (.ecall (Sample.callFrame words)) = [(3, words)] := rfl
  have hpending : pendingAt e (x.waiting words).kernel.tm = [(3, words)] := rfl
  have hrun : nekos.run x.start [.ecall (Sample.callFrame words)] = some (x.waiting words) :=
    Machine.run_cons_eq_some.mpr ⟨_, x.step_waiting words, rfl⟩
  have hok : nekos.RunOk FreshPid x.start [.ecall (Sample.callFrame words)] :=
    ⟨Sample.callFrame_fresh _ _, fun _ _ => trivial⟩
  have hdelivery := delivery (.init hinit) hok hrun e
  have hcollect : nekos.collect (acceptedAt e) x.start [.ecall (Sample.callFrame words)] =
      acceptedAt e x.start (.ecall (Sample.callFrame words)) ++
        nekos.collect (acceptedAt e) (x.waiting words) [] :=
    Machine.collect_cons (x.step_waiting words) []
  rw [pendingAt_init hinit, hpending, hcollect, haccepted] at hdelivery
  exact ⟨haccepted, List.append_cancel_right (hdelivery.trans (List.nil_append _))⟩

/-- The words of the shell arrive at the console in the registers of its receive operation. -/
lemma exists_returned (words : Words) (r : ReceiveWrapper) (hr : r = .recvBuf ∨ r = .nekosIpcRecvBuf) :
    ∃ s es u tf, nekos.init s ∧ nekos.RunOk FreshPid s es ∧
      s.Sends es ⟨1, by decide⟩ 0 3 words .call ∧ s.Returned es u ⟨1, by decide⟩ 0 tf r ∧
      messageOf tf = (3, words) := by
  obtain ⟨x, hboot, -⟩ := Sample.exists_start []
  obtain ⟨u, hstep, hhart, hframe⟩ := x.exists_received words
  have hinit : nekos.init x.start := ⟨_, hboot⟩
  have hfresh : (x.waiting words).FreshPid (.ecall Sample.recvFrame) :=
    fun h => absurd h (by decide)
  have hreach : nekos.Reaches FreshPid (x.waiting words) :=
    .step (.init hinit) (Sample.callFrame_fresh _ _) (x.step_waiting words)
  have hrecv : (x.waiting words).Receives ⟨1, by decide⟩ Sample.recvFrame [] u :=
    ⟨Or.inr rfl, rfl, u, hstep, .now hhart⟩
  have hwrapper : r.frame consoleEndpoint (userStackTop - pageSize) pageSize TrapFrame.new =
      Sample.recvFrame := by
    rcases hr with rfl | rfl <;> rfl
  have hok : nekos.RunOk FreshPid x.start
      [.ecall (Sample.callFrame words), .ecall Sample.recvFrame] := by
    refine ⟨Sample.callFrame_fresh _ _, fun t ht => ?_⟩
    obtain rfl := Option.some.inj ((x.step_waiting words).symm.trans ht)
    exact ⟨hfresh, fun _ _ => trivial⟩
  obtain ⟨b, hb, -, hmessage⟩ :=
    receive_returns hreach (hok.2 _ (x.step_waiting words)) rfl hrecv
  change u.kernel.tm.tasks ⟨1, by decide⟩ = some b at hb
  rw [hb, Option.map_some, Option.some.injEq] at hframe
  have hword : messageOf b.trapFrame = (3, words) := by
    rw [hframe]
    rfl
  have hsender : b.trapFrame.a0 = 3 := congrArg Prod.fst hword
  have hdel := hmessage.resolve_left fun h => absurd (hsender.symm.trans h.2) (by decide)
  obtain ⟨haccepted, hnone⟩ := call_waits hinit words
  have hrun : nekos.run x.start [.ecall (Sample.callFrame words)] = some (x.waiting words) :=
    Machine.run_cons_eq_some.mpr ⟨_, x.step_waiting words, rfl⟩
  refine ⟨x.start, _, u, b.trapFrame, hinit, hok, ?_, ?_, hword⟩
  · refine .intro [] [.ecall Sample.recvFrame] x.start _ 0 0 TrapFrame.new rfl rfl rfl rfl ?_ rfl
    exact haccepted.symm ▸ List.cons_ne_nil _ _
  · refine .intro [.ecall (Sample.callFrame words)] [] (x.waiting words) _ b
      (userStackTop - pageSize) pageSize TrapFrame.new ?_ hrun rfl ?_ ?_ ?_ hb rfl
    · exact congrArg (fun fr => [Event.ecall (Sample.callFrame words), .ecall fr]) hwrapper.symm
    · exact hwrapper.symm ▸ hrecv
    · refine ne_of_eq_of_ne ?_ (List.cons_ne_nil (messageOf b.trapFrame) [])
      exact hwrapper.symm ▸ hdel
    · exact congrArg List.length hnone

end System

end NekOS
