import NekOS.Ipc.Delivery

/-!
# The staging buffer

All calls to an endpoint share one staging buffer, protected by the flag `hasBuffered`.  The flag
is meant to be set exactly while a message with a payload is queued (`StagingInv`), and then the
buffer holds the payload of that message.

`ipc_recv_buf` clears the flag when it takes such a message, the plain `ipc_recv` does not.  In
runs in which no plain receive takes a message with a payload the protection works
(`staging_invariant`).
-/

namespace NekOS

open TaskManager

/-- The queued messages with a payload. -/
def Endpoint.buffered (ep : Endpoint) : List Message :=
  ep.pending.toList.filter fun message => 0 < message.bufLen

/-- The queued messages with the payloads that the staging buffer holds for them. -/
def Endpoint.withPayloads (ep : Endpoint) : List (ℕ × Words × List UInt8) :=
  ep.pending.toList.map fun message =>
    (message.sender, message.words, (List.range message.bufLen).map ep.copyBuf)

/-- The flag of an endpoint says whether the one message with a payload is queued. -/
def Endpoint.Protected (ep : Endpoint) : Prop :=
  ep.buffered.length = if ep.hasBuffered then 1 else 0

namespace TaskManager

variable {m m' : TaskManager} {i : Fin maxTasks} {e : Fin maxEndpoints}

/-- The flag of every endpoint is right. -/
def StagingInv (m : TaskManager) : Prop :=
  ∀ e ep, m.endpoints e = some ep → ep.Protected

/-- The label is not the plain receive of a message with a payload. -/
def Label.Unstages (label : Label) : Prop :=
  ∀ e message, label = .take e message true → message.bufLen = 0

/-- The queued messages of an endpoint with their payloads. -/
def stagedAt (e : Fin maxEndpoints) (m : TaskManager) : List (ℕ × Words × List UInt8) :=
  (m.endpoints e).elim [] Endpoint.withPayloads

/-- The accepted call with its payload. -/
def Label.acceptedWith (e : Fin maxEndpoints) : Label → List (ℕ × Words × List UInt8)
  | .call e' sender words payload => if e' = e then [(sender, words, payload)] else []
  | _ => []

/-! ### One step of an endpoint -/

section Step

variable {ep ep' : Endpoint} {label : Label}

/-- Without the flag no queued message has a payload. -/
lemma bufLen_eq_zero (h : ep.Protected) (hflag : ep.hasBuffered = false) {message : Message}
    (hmem : message ∈ ep.pending.toList) : message.bufLen = 0 := by
  rw [Endpoint.Protected, hflag] at h
  have hnil : ep.buffered = [] := List.length_eq_zero_iff.mp (by simpa using h)
  by_contra hne
  have : message ∈ ep.buffered := List.mem_filter.mpr ⟨hmem, by simpa using Nat.pos_of_ne_zero hne⟩
  rw [hnil] at this
  simp at this

/-- A step of an endpoint keeps the flag right. -/
lemma EndpointStep.protected (h : EndpointStep e ep ep' label) (hep : ep.Protected)
    (hlabel : label.Unstages) : ep'.Protected := by
  unfold Endpoint.Protected Endpoint.buffered at *
  cases h with
  | keep _ hpending hflag _ _ => rw [hpending, hflag, hep]
  | hand _ hpending _ hflag => rw [hpending, hflag, hep]
  | @queue sender words payload _ hfull hpending _ hflag hbuf _ =>
    rw [hpending, toList_pushOk hfull, List.filter_append, List.length_append, hep, hflag]
    rcases Nat.eq_zero_or_pos payload.length with hlen | hlen
    · simp [hlen]
    · have hfree : ep.hasBuffered = false := by
        refine hbuf.resolve_left ?_
        rintro ⟨-, rfl⟩
        simp at hlen
      simp [hlen, hfree]
  | @take message plain hpop _ _ hflag =>
    rw [RingBuffer.pop_eq_some hpop, List.filter_cons] at hep
    rcases Nat.eq_zero_or_pos message.bufLen with hlen | hlen
    · simpa [hlen, hflag] using hep
    · have hplain : plain = false := by
        by_contra htrue
        rw [Bool.not_eq_false] at htrue
        subst htrue
        have := hlabel e message rfl
        omega
      have hset : ep.hasBuffered = true := by
        by_contra hfalse
        rw [Bool.not_eq_true] at hfalse
        simp [hlen, hfalse] at hep
      simp only [hlen, decide_true, if_true, List.length_cons, hset] at hep
      simp only [hflag, hplain, Nat.ne_of_gt hlen, decide_false, Bool.or_false, Bool.and_false]
      simpa using hep

/-- The payloads of messages do not depend on the staging buffer when there are none. -/
lemma withPayloads_congr (hpending : ep'.pending = ep.pending)
    (hbuf : ep'.copyBuf = ep.copyBuf ∨ ∀ message ∈ ep.pending.toList, message.bufLen = 0) :
    ep'.withPayloads = ep.withPayloads := by
  unfold Endpoint.withPayloads
  rw [hpending]
  rcases hbuf with hbuf | hzero
  · rw [hbuf]
  · refine List.map_congr_left fun message hmem => ?_
    simp [hzero message hmem]

/-- A step of an endpoint keeps the payloads of the queued messages, and adds that of a queued
call. -/
lemma EndpointStep.withPayloads (h : EndpointStep e ep ep' label) (hep : ep.Protected)
    (hempty : ep.receiverWaiting = true → ep.pending.toList = []) :
    ep'.withPayloads <:+ ep.withPayloads ++ label.acceptedWith e := by
  cases h with
  | keep hlabel hpending _ _ hbuf =>
    have hsame : ep'.withPayloads = ep.withPayloads := by
      refine withPayloads_congr hpending (hbuf.imp_right fun hwait message hmem => ?_)
      by_contra hne
      have hflag : ep.hasBuffered = true := by
        by_contra hfalse
        exact hne (bufLen_eq_zero hep (by simpa using hfalse) hmem)
      rw [hempty (hwait hflag)] at hmem
      simp at hmem
    have hnone : label.acceptedWith e = [] := by
      cases label with
      | call e' sender words payload =>
        have hne : e' ≠ e := fun heq => hlabel (by rw [Label.endpoint, heq])
        simp [Label.acceptedWith, hne]
      | _ => rfl
    rw [hsame, hnone, List.append_nil]
  | @queue sender words payload _ hfull hpending _ _ hbuf hbytes =>
    have hold : ep.pending.toList.map (fun message =>
        (message.sender, message.words, (List.range message.bufLen).map ep'.copyBuf)) =
        ep.withPayloads := by
      refine List.map_congr_left fun message hmem => ?_
      rcases hbuf with ⟨hsame, -⟩ | hflag
      · rw [hsame]
      · simp [bufLen_eq_zero hep hflag hmem]
    have hnew : (List.range payload.length).map ep'.copyBuf = payload := by
      refine List.ext_get (by simp) fun n h₁ h₂ => ?_
      simpa using hbytes n h₂
    rw [Endpoint.withPayloads, hpending, toList_pushOk hfull, List.map_append, hold]
    simp [hnew, Label.acceptedWith]
  | hand hwait hpending _ _ =>
    simp [Endpoint.withPayloads, hpending, hempty hwait]
  | take _ hpop _ hbuf _ =>
    rw [Endpoint.withPayloads, Endpoint.withPayloads, RingBuffer.pop_eq_some hpop, hbuf]
    simp [Label.acceptedWith]

end Step

/-! ### One effect -/

/-- An effect keeps the flags right. -/
lemma StagingInv.effect (hm : StagingInv m) {label : Label} {next : FramePtr}
    (h : Effect m label next m') (hlabel : label.Unstages) : StagingInv m' := by
  intro e ep' hep'
  cases hep : m.endpoints e with
  | none =>
    rw [(h.noEndpoint hep).1] at hep'
    simp at hep'
  | some ep =>
    obtain ⟨ep'', hep'', -, hstep⟩ := h.endpoint hep
    obtain rfl := Option.some.inj (hep''.symm.trans hep')
    exact hstep.protected (hm e ep hep) hlabel

/-- An effect keeps the payloads of the queued messages. -/
lemma StagingInv.stagedAt (hm : StagingInv m) (hq : QueueInv m) {label : Label}
    {next : FramePtr} (h : Effect m label next m') (e : Fin maxEndpoints) :
    stagedAt e m' <:+ stagedAt e m ++ label.acceptedWith e := by
  unfold TaskManager.stagedAt
  cases hep : m.endpoints e with
  | none =>
    rw [(h.noEndpoint hep).1]
    exact List.nil_suffix
  | some ep =>
    obtain ⟨ep', hep', -, hstep⟩ := h.endpoint hep
    rw [hep']
    exact hstep.withPayloads (hm e ep hep) (hq e ep hep)

end TaskManager

namespace System

/-- The event is a plain receive that takes a message with a payload. -/
def TakesPayloadPlainly (s : System) (ev : Event) : Prop :=
  ∃ tf e ep message pending, ev = .ecall tf ∧ Sysno.decode tf.a7 = some .ipcRecv ∧
    tf.a0 = (e : Fin maxEndpoints).val ∧ s.kernel.tm.endpoints e = some ep ∧
    s.kernel.tm.currentPid = some ep.owner ∧ ep.pending.pop = some (message, pending) ∧
    0 < message.bufLen

/-- The side condition for the staging buffer: no plain receive takes a message with a payload. -/
def KeepsStaging (s : System) (ev : Event) : Prop :=
  s.FreshPid ev ∧ ¬ s.TakesPayloadPlainly ev

/-- The calls to an endpoint that the kernel accepts in an event, with the bytes that the buffers
of the callers hold. -/
def acceptedWith (e : Fin maxEndpoints) (s : System) : Event → List (ℕ × Words × List UInt8)
  | .ecall tf =>
    (atEndpoint e (Kernel.accepted tf (s.entry tf))).map fun message =>
      (message.1, message.2, Kernel.payload tf (s.entry tf))
  | _ => []

/-- A received message comes from the endpoint that the operation names. -/
lemma receives_endpoint {tf : TrapFrame} {f : Fallible Kernel IpcResult} {k : Kernel}
    {endpoint : ℕ} {message : ℕ × Words}
    (h : Kernel.receives tf f k = some (endpoint, message)) : endpoint = tf.a0 := by
  unfold Kernel.receives at h
  generalize f k = r at h
  rcases r with _ | ⟨_ | ⟨tf' | next⟩, k'⟩ <;> simp_all

/-- A received message comes from the endpoint that the system call names. -/
lemma received_endpoint {tf : TrapFrame} {k : Kernel} {endpoint : ℕ} {message : ℕ × Words}
    (h : Kernel.received tf k = some (endpoint, message)) : endpoint = tf.a0 := by
  unfold Kernel.received at h
  generalize Sysno.decode tf.a7 = call at h
  rcases call with _ | call
  · simp at h
  · cases call <;> first | exact receives_endpoint h | simp at h

section StepView

variable {s t : System} {ev : Event} {m₁ m₂ : TaskManager} {label : Label} {next : FramePtr}

/-- The condition on the event is one on the label. -/
lemma StepView.unstages (h : StepView s ev t m₁ m₂ label next) (hok : s.KeepsStaging ev) :
    label.Unstages := by
  rintro e message rfl
  by_contra hne
  have heffect := h.effect
  have hshows := h.shows'
  cases heffect with
  | @recvPop _ ep _ pending _ howner hep hpop =>
    rw [h.framed.endpoints] at hep
    rw [h.framed.currentPid] at howner
    cases ev with
    | ecall tf =>
      have hreceived := hshows.received
      exact hok.2 ⟨tf, e, ep, message, pending, rfl, hshows.plain e message rfl,
        (received_endpoint (hreceived.trans rfl)).symm, hep, howner, hpop, Nat.pos_of_ne_zero hne⟩
    | spawn name => rcases hshows with h | h <;> simp at h
    | timer tf => exact absurd hshows (by simp [Shows])
    | external irq tf => exact absurd hshows (by simp [Shows])
    | store va byte => exact absurd hshows (by simp [Shows])

/-- The label shows the accepted call with its payload. -/
lemma StepView.shownWith (h : StepView s ev t m₁ m₂ label next) (e : Fin maxEndpoints) :
    acceptedWith e s ev = label.acceptedWith e := by
  have hshows := h.shows'
  cases ev with
  | ecall tf =>
    rw [acceptedWith, hshows.accepted]
    cases label with
    | call e' sender words payload =>
      rw [← hshows.payload e' sender words payload rfl]
      by_cases he : e' = e
      · subst he
        simp [Label.accepted, Label.acceptedWith, atEndpoint]
      · have hne : (e' : ℕ) ≠ e := fun heq => he (Fin.ext heq)
        simp [Label.accepted, Label.acceptedWith, atEndpoint, he, hne]
    | _ => rfl
  | spawn name => rcases hshows with rfl | rfl <;> rfl
  | timer tf => rw [show label = .silent from hshows]; rfl
  | external irq tf => rw [show label = .silent from hshows]; rfl
  | store va byte => rw [show label = .silent from hshows]; rfl

end StepView

/-- Writing a frame leaves the flags alone. -/
lemma Framed.stagingInv {m m' : TaskManager} {i : Fin maxTasks} (h : Framed i m m')
    (hm : StagingInv m) : StagingInv m' := by
  unfold StagingInv
  rw [h.endpoints]
  exact hm

/-- Writing a frame leaves the staging buffers alone. -/
lemma Framed.stagedAt {m m' : TaskManager} {i : Fin maxTasks} (h : Framed i m m')
    (e : Fin maxEndpoints) : stagedAt e m' = stagedAt e m := by
  unfold TaskManager.stagedAt
  rw [h.endpoints]

/-- The invariant of the staging buffers along a run. -/
def Staged (s : System) : Prop :=
  s.Scheduled ∧ QueueInv s.kernel.tm ∧ StagingInv s.kernel.tm

/-- **Step lemma.**  A step that is not the plain receive of a payload keeps the flags right and
the payloads of the queued messages. -/
lemma Staged.step {s t : System} {ev : Event} (hs : s.Staged) (hok : s.KeepsStaging ev)
    (hstep : s.step ev = some t) (e : Fin maxEndpoints) :
    t.Staged ∧ stagedAt e t.kernel.tm <:+ stagedAt e s.kernel.tm ++ acceptedWith e s ev := by
  obtain ⟨hsched, hq, hstaging⟩ := hs
  obtain ⟨m₁, m₂, label, next, hview⟩ := hsched.view hok.1 hstep
  have hq₁ := hview.framed.queueInv hq
  have hstaging₁ := hview.framed.stagingInv hstaging
  refine ⟨⟨hview.scheduled, hview.framed'.queueInv (hq₁.effect hview.effect),
    hview.framed'.stagingInv (hstaging₁.effect hview.effect (hview.unstages hok))⟩, ?_⟩
  rw [hview.framed'.stagedAt, ← hview.framed.stagedAt, hview.shownWith]
  exact hstaging₁.stagedAt hq₁ hview.effect e

/-- The staging buffers are unused after the boot. -/
lemma staged_init {s : System} (hs : nekos.init s) :
    s.Staged ∧ ∀ e, stagedAt e s.kernel.tm = [] := by
  have hreach := queueInv_of_reaches (.init hs)
  obtain ⟨c, hc⟩ := hs
  obtain ⟨m, t, hm, -, htm⟩ := Config.boot_fresh hc
  have hends : s.kernel.tm.endpoints = m.endpoints := by rw [htm]; rfl
  refine ⟨⟨hreach.1, hreach.2, fun e ep hep => ?_⟩, fun e => ?_⟩
  · rw [hends] at hep
    rw [hm.new e ep hep]
    rfl
  · unfold TaskManager.stagedAt
    rw [hends]
    cases hep : m.endpoints e with
    | none => rfl
    | some ep =>
      rw [hm.new e ep hep]
      rfl

end System

/-! ### A plain receive of a payload -/

namespace Sample

open Kernel

variable (x : Sample) (tf : TrapFrame)

/-- A buffer that can be read is staged. -/
lemma memCopyFromUser_run {root va n : ℕ} (e : Fin maxEndpoints) (k : Kernel)
    (h : ∀ i < n, (userByte k.phys root (wrap (va + i))).isSome = true) :
    ∃ log, memCopyFromUser root e va n k = some (some (), { k with
      tm := k.tm.updateEndpoint e fun ep =>
        { ep with copyBuf := stagedBytes k.phys root va n ep.copyBuf }
      accesses := log }) := by
  induction n with
  | zero =>
    refine ⟨k.accesses, ?_⟩
    simp only [stagedBytes_zero]
    rw [updateEndpoint_of_id e k.tm fun ep => rfl]
    rfl
  | succ n ih =>
    obtain ⟨log, hrun⟩ := ih fun i hi => h i (Nat.lt_succ_of_lt hi)
    obtain ⟨b, hb⟩ := Option.isSome_iff_exists.mp (h n (Nat.lt_succ_self n))
    obtain ⟨pa, hpa, rfl⟩ := Option.map_eq_some_iff.mp hb
    unfold memCopyFromUser at hrun ⊢
    have htrans : ∀ k' : Kernel, k'.phys = k.phys →
        translate root (wrap (va + n)) k' = some (some pa, k') := fun k' hk' => by
      rw [translate_apply, hk', hpa]
    have hset : (k.tm.updateEndpoint e fun ep =>
          { ep with copyBuf := stagedBytes k.phys root va (n + 1) ep.copyBuf }) =
        (k.tm.updateEndpoint e fun ep =>
          { ep with copyBuf := stagedBytes k.phys root va n ep.copyBuf }).updateEndpoint e fun ep =>
            { ep with copyBuf := Function.update ep.copyBuf n (k.phys.mem.byteAt pa) } := by
      rw [updateEndpoint_updateEndpoint]
      simp only [stagedBytes_succ _ _ _ _ _ hb]
    refine ⟨k.accessOf root (wrap (va + n)) pa false :: log, ?_⟩
    rw [hset, Fallible.forRange_succ, Fallible.bind_of_some hrun]
    exact Fallible.bind_of_some (htrans _ (by rfl))

/-- The shell calls the console with a payload. -/
lemma start_callBuf {n : ℕ} (h7 : tf.a7 = 15) (h0 : tf.a0 = consoleEndpoint) (h6 : tf.a6 = n)
    (hpos : 0 < n) (hle : n ≤ ipcBufSize)
    (h : ∀ i < n, (userByte x.phys x.shell.pagetable (wrap (tf.a5 + i))).isSome = true) :
    ∃ log, nekos.step x.start (.ecall tf) = some (x.called tf (consoleEnd ⟨3, argWords tf, n⟩
      (stagedBytes x.phys x.shell.pagetable tf.a5 n fun _ => 0)) log) := by
  obtain ⟨log, hcopy⟩ := memCopyFromUser_run ⟨1, by decide⟩
    (System.storeFrame ⟨3, by decide⟩ tf x.start.kernel) h
  let copyBuf : ℕ → UInt8 := stagedBytes x.phys x.shell.pagetable tf.a5 n fun _ => 0
  let message : Message := ⟨3, argWords tf, n⟩
  refine ⟨log, ?_⟩
  let m := ((System.storeFrame ⟨3, by decide⟩ tf x.start.kernel).tm.updateEndpoint ⟨1, by decide⟩
    fun ep => { ep with copyBuf := stagedBytes x.phys x.shell.pagetable tf.a5 n ep.copyBuf
      }).updateEndpoint ⟨1, by decide⟩ fun ep => { ep with copyLen := n }
  have hstage : stage ⟨1, by decide⟩ tf.a5 n (System.storeFrame ⟨3, by decide⟩ tf x.start.kernel) =
      some (some (), ⟨m, x.phys, x.files, log⟩) := by
    have hstart : stage ⟨1, by decide⟩ tf.a5 n (System.storeFrame ⟨3, by decide⟩ tf x.start.kernel) =
        (memCopyFromUser x.shell.pagetable ⟨1, by decide⟩ tf.a5 n >>= fun _ =>
          onTm (updateEndpoint ⟨1, by decide⟩ fun ep => { ep with copyLen := n }))
            (System.storeFrame ⟨3, by decide⟩ tf x.start.kernel) := by
      rw [stage, if_pos hpos]
      rfl
    rw [hstart, Fallible.bind_of_some hcopy]
    rfl
  have hm : (m.block ⟨3, by decide⟩ (.ipcCall consoleEndpoint) (advanced tf)).enqueue
      ⟨1, by decide⟩ message = x.calling tf (consoleEnd message copyBuf) := by
    refine Config.eq_fourTasks ⟨rfl, rfl, rfl, rfl⟩ (fun i => ?_) fun e => ?_
    · fin_cases i <;> rfl
    · fin_cases e <;> rfl
  have hsched := x.schedule_calling tf (consoleEnd message copyBuf) log
  rw [← hm] at hsched
  have hcall : ipcCallBuf consoleEndpoint (argWords tf) tf.a5 n (advanced tf)
      (System.storeFrame ⟨3, by decide⟩ tf x.start.kernel) =
      (schedule (advanced tf) >>= fun next => pure (IpcResult.blocked next))
        ⟨(m.block ⟨3, by decide⟩ (.ipcCall consoleEndpoint) (advanced tf)).enqueue ⟨1, by decide⟩
          message, x.phys, x.files, log⟩ := by
    have hlen : n % 2 ^ 16 = n := Nat.mod_eq_of_lt (hle.trans_lt (by decide))
    have hstart : ipcCallBuf consoleEndpoint (argWords tf) tf.a5 n (advanced tf)
        (System.storeFrame ⟨3, by decide⟩ tf x.start.kernel) =
        (if ipcBufSize < n then Fallible.fail else stage ⟨1, by decide⟩ tf.a5 n >>= fun _ => do
          onTm (block ⟨3, by decide⟩ (.ipcCall consoleEndpoint) (advanced tf))
          onTm (enqueue ⟨1, by decide⟩ ⟨3, argWords tf, n % 2 ^ 16⟩)
          let next ← schedule (advanced tf)
          return IpcResult.blocked next) (System.storeFrame ⟨3, by decide⟩ tf x.start.kernel) := rfl
    rw [hstart, if_neg (Nat.not_lt.mpr hle), hlen, Fallible.bind_of_some hstage]
    rfl
  rw [Fallible.bind_of_some hsched] at hcall
  have hhandle : handle tf = blocking (advanced tf)
      (ipcCallBuf tf.a0 (argWords tf) tf.a5 tf.a6 (advanced tf)) := by
    have hdecode : Sysno.decode tf.a7 = some .ipcCallBuf := by
      rw [h7]
      rfl
    rw [handle, hdecode]
    rfl
  have hdone : handle tf (System.storeFrame ⟨3, by decide⟩ tf x.start.kernel) =
      some (some (some ⟨1, by decide⟩, advanced tf),
        (x.called tf (consoleEnd message copyBuf) log).kernel) := by
    rw [hhandle, h0, h6, blocking, Fallible.attempt_bind, hcall]
    rfl
  exact System.step_ecall (s := x.start) x.start_user hdone

/-- The shell calls the console with a byte of its stack. -/
lemma exists_callBuf : ∃ (x : Sample) (tf : TrapFrame) (copyBuf : ℕ → UInt8) (log : List Access),
    nekos.init x.start ∧ tf.a7 = 15 ∧ argWords tf = ⟨0, 0, 0, 0⟩ ∧
    nekos.step x.start (.ecall tf) =
      some (x.called tf (consoleEnd ⟨3, ⟨0, 0, 0, 0⟩, 1⟩ copyBuf) log) := by
  obtain ⟨x, hboot, hbooted⟩ := exists_start []
  let tf : TrapFrame := { TrapFrame.new with
    a7 := 15, a0 := consoleEndpoint, a5 := userStackTop - pageSize, a6 := 1 }
  have hstack : ∀ i < 1, (userByte x.phys x.shell.pagetable (wrap (tf.a5 + i))).isSome = true := by
    intro i hi
    obtain rfl : i = 0 := Nat.lt_one_iff.mp hi
    have hnumber : pageNumber (wrap tf.a5) = stackPage := by decide
    have hleaf := hbooted.placed.stack
    rw [userByte, Option.isSome_map, PageTable.virtToPhys_eq, Option.isSome_map, Nat.add_zero, hnumber]
    exact Option.isSome_iff_exists.mpr ⟨_, hleaf⟩
  obtain ⟨log, hstep⟩ := x.start_callBuf tf rfl rfl rfl (by decide) (by decide) hstack
  exact ⟨x, tf, _, log, ⟨_, hboot⟩, rfl, rfl, hstep⟩

end Sample

namespace System

end System

end NekOS
