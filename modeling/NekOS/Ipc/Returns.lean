import NekOS.AddressSpace.Progress
import NekOS.Ipc.Stranding
import NekOS.Scheduling.Pids

/-!
# System calls return

Every `unwrap` of the task manager finds what it looks for: the invariant of the scheduler accounts
for the owners of endpoints and for the current task, and the payload of a queued message fits the
staging buffer.  As long as all tasks are housed, scheduling ends, so every system call does, and
the task whose frame is restored is in the table and runs.
-/

namespace NekOS

open Fallible TaskManager

/-! ### Payloads -/

/-- The payloads of the queued messages fit the staging buffer. -/
def Endpoint.PayloadsFit (ep : Endpoint) : Prop :=
  ∀ message ∈ ep.pending.toList, message.bufLen ≤ ipcBufSize

/-- The payloads of all queued messages fit the staging buffers. -/
def TaskManager.PayloadsFit (m : TaskManager) : Prop :=
  ∀ e ep, m.endpoints e = some ep → ep.PayloadsFit

/-- A step of an endpoint queues nothing but the payload of the call that is accepted. -/
lemma TaskManager.EndpointStep.payloadsFit {e : Fin maxEndpoints} {ep ep' : Endpoint} {label : Label}
    (h : EndpointStep e ep ep' label) (hep : ep.PayloadsFit)
    (hlabel : ∀ sender words payload, label = .call e sender words payload →
      payload.length ≤ ipcBufSize) : ep'.PayloadsFit := by
  intro message hmem
  cases h with
  | keep _ hpending => exact hep message (by rwa [hpending] at hmem)
  | @queue sender words payload _ hfull hpending =>
    rw [hpending, toList_pushOk hfull, List.mem_append] at hmem
    rcases hmem with hmem | hmem
    · exact hep message hmem
    · obtain rfl := List.mem_singleton.mp hmem
      exact hlabel sender words payload rfl
  | hand _ hpending => exact hep message (by rwa [hpending] at hmem)
  | take plain hpop =>
    refine hep message ?_
    rw [RingBuffer.pop_eq_some hpop]
    exact List.mem_cons_of_mem _ hmem

/-- The payload of a call that is accepted fits the staging buffer. -/
lemma Kernel.payload_fits {k : Kernel} {tf : TrapFrame} {e : Fin maxEndpoints} {sender : ℕ}
    {words : Words} (h : accepted tf k = some (↑e, sender, words)) :
    (payload tf k).length ≤ ipcBufSize := by
  obtain ⟨call, ep, hcall, hadmits⟩ := admits_of_accepted h
  cases hadmits with
  | call => simp [payload, hcall]
  | callBuf _ _ _ _ hsize => simpa [payload, hcall, userBytes] using hsize

namespace System

variable {s t : System}

/-- Writing a frame leaves the queues alone. -/
lemma Framed.payloadsFit {m m' : TaskManager} {i : Fin maxTasks} (h : Framed i m m')
    (hm : m.PayloadsFit) : m'.PayloadsFit := by
  unfold PayloadsFit
  rw [h.endpoints]
  exact hm

/-- The payloads of queued messages fit the staging buffers, in every state reached. -/
theorem payloadsFit_of_reaches (h : nekos.Reaches FreshPid s) : s.kernel.tm.PayloadsFit := by
  refine (invariant_of_effects (P := PayloadsFit) (fun _ _ hok => hok) ?_
    (fun m m' i hf => hf.payloadsFit) ?_ h).2
  · intro m i t hm _ e ep hep message hmem
    rw [hm.new e ep hep] at hmem
    exact absurd hmem (List.not_mem_nil)
  · intro s ev t m₁ m₂ label next _ _ hview _ hP e ep' hep'
    cases hep : m₁.endpoints e with
    | none =>
      rw [(hview.effect.noEndpoint hep).1] at hep'
      cases hep'
    | some ep =>
      obtain ⟨ep'', hep'', -, hends⟩ := hview.effect.endpoint hep
      obtain rfl := Option.some.inj (hep''.symm.trans hep')
      refine hends.payloadsFit (hP e ep hep) ?_
      rintro sender words payload rfl
      have hshows := hview.shows'
      cases ev with
      | ecall tf =>
        rw [hshows.payload e sender words payload rfl]
        exact Kernel.payload_fits hshows.accepted
      | spawn name => rcases hshows with h | h <;> simp at h
      | timer tf => exact absurd hshows (by simp [Shows])
      | external irq tf => exact absurd hshows (by simp [Shows])
      | store va byte => exact absurd hshows (by simp [Shows])

end System

namespace Kernel

variable {strict : Bool} {k : Kernel} {i : Fin maxTasks}

/-! ### Plain operations -/

/-- The owner that an endpoint lists as receiver is in the table. -/
lemma exists_receiver {m : TaskManager} (hm : Core m) {endpoint : ℕ} {e : Fin maxEndpoints}
    {ep : Endpoint} (hep : m.endpointAt endpoint = some (e, ep))
    (hwait : ep.receiverWaiting = true) :
    ∃ r b, m.findPid ep.owner = some r ∧ m.tasks r = some b := by
  have hlisted : ep.waitingReceiver = some ep.owner := by
    simpa [Endpoint.receiverWaiting] using hwait
  have hslot := (endpointAt_eq_some.mp hep).2
  obtain ⟨-, r, b, hb, hpid, -⟩ := (hm.receiver e ep ep.owner hslot).mp hlisted
  refine ⟨r, b, ?_, hb⟩
  rw [← hpid]
  exact hm.findPid_eq hb

/-- Putting a task to sleep keeps the pids. -/
lemma findPid_block (m : TaskManager) (i : Fin maxTasks) (channel : WaitChannel) (tf : TrapFrame)
    (pid : ℕ) : (m.block i channel tf).findPid pid = m.findPid pid :=
  System.findPid_updateTask (f := fun t =>
    { t with state := .sleeping, waitingFor := some channel, trapFrame := tf }) (fun _ => rfl) pid

/-- `ipc_call` ends. -/
lemma Housed.finishes_ipcCall (h : k.Housed strict) (hm : Core k.tm) (endpoint : ℕ) (words : Words)
    (tf : TrapFrame) : Finishes (Kernel.ipcCall endpoint words tf) k := by
  unfold Kernel.ipcCall
  rw [finishes_readTm_bind]
  refine Finishes.ofOption_bind fun sender _ => Finishes.ofOption_bind ?_
  rintro ⟨e, ep⟩ hep
  refine Finishes.guard fun _ => Finishes.ofOption_bind fun i _ => ?_
  rw [finishes_onTm_bind]
  have hblock := SameHomes.block (m := k.tm) i (.ipcCall endpoint) tf
  by_cases hwait : ep.receiverWaiting = true
  · obtain ⟨r, _, hr, -⟩ := exists_receiver hm hep hwait
    rw [← findPid_block k.tm i (.ipcCall endpoint) tf] at hr
    simp only [hwait, if_true]
    rw [finishes_readTm_bind]
    refine Finishes.unwrap_bind hr ?_
    have h₁ : Housed strict { k with
        tm := (k.tm.block i (.ipcCall endpoint) tf).deliver e r sender words } :=
      h.sameHomes (hblock.trans ((SameHomes.wake r _).trans (SameHomes.updateEndpoint ..))) rfl
    exact h₁.finishes_schedule_bind fun _ _ => Finishes.pure _
  · simp only [hwait, Bool.false_eq_true, if_false]
    have h₁ : Housed strict { k with
        tm := (k.tm.block i (.ipcCall endpoint) tf).enqueue e ⟨sender, words, 0⟩ } :=
      h.sameHomes (hblock.trans (SameHomes.updateEndpoint ..)) rfl
    exact h₁.finishes_schedule_bind fun _ _ => Finishes.pure _

/-- `ipc_recv` ends. -/
lemma Housed.finishes_ipcRecv (h : k.Housed strict) (endpoint : ℕ) (tf : TrapFrame) :
    Finishes (Kernel.ipcRecv endpoint tf) k := by
  unfold Kernel.ipcRecv
  rw [finishes_readTm_bind]
  refine Finishes.ofOption_bind fun receiver _ => Finishes.ofOption_bind ?_
  rintro ⟨e, ep⟩ -
  refine Finishes.guard fun _ => ?_
  cases hpop : ep.pending.pop with
  | some r => exact (Finishes.modify _).bind fun _ _ _ => Finishes.pure _
  | none =>
    dsimp only
    rw [finishes_onTm_bind]
    refine Finishes.ofOption_bind fun i _ => ?_
    have h₁ : Housed strict { k with
        tm := (k.tm.updateEndpoint e fun ep => { ep with waitingReceiver := some receiver }).block i
          (.ipcRecv endpoint) tf } :=
      h.sameHomes ((SameHomes.updateEndpoint ..).trans (SameHomes.block ..)) rfl
    exact h₁.finishes_schedule_bind fun _ _ => Finishes.pure _

/-- `ipc_reply` ends. -/
lemma finishes_ipcReply (client : ℕ) (words : Words) : Finishes (ipcReply client words) k := by
  unfold ipcReply
  rw [finishes_readTm_bind]
  refine Finishes.ofOption_bind fun replier _ => Finishes.ofOption_bind ?_
  rintro ⟨index, task⟩ -
  exact Finishes.guard fun _ => Finishes.modify _

/-! ### Messages with a payload -/

/-- A pid in the table has a page table. -/
lemma exists_lastPagetable {m : TaskManager} {j : Fin maxTasks} {b : Task}
    (hb : m.tasks j = some b) : ∃ r, m.lastPagetable b.pid = some r := by
  have hfound : (m.tasks.search (List.finRange maxTasks).reverse fun t =>
      decide (t.pid = b.pid)).isSome = true :=
    Slots.search_isSome (List.mem_reverse.mpr (List.mem_finRange j)) hb (by simp)
  obtain ⟨l, hl⟩ := Option.isSome_iff_exists.mp hfound
  obtain ⟨c, hc, -⟩ := Slots.search_eq_some hl
  exact ⟨c.pagetable, by rw [lastPagetable, hl, Option.bind_some, hc]; rfl⟩

/-- `ipc_reply_buf` ends. -/
lemma finishes_ipcReplyBuf (hi : k.tm.RunsIn i) (client : ℕ) (words : Words) (userBuf bufLen : ℕ) :
    Finishes (ipcReplyBuf client words userBuf bufLen) k := by
  unfold ipcReplyBuf
  rw [finishes_readTm_bind]
  refine Finishes.ofOption_bind fun replier hcur => Finishes.ofOption_bind ?_
  rintro ⟨index, task⟩ htarget
  refine Finishes.guard fun _ => ?_
  rw [finishes_onTm_bind]
  refine Finishes.ite (fun hcopy => ?_) fun _ => Finishes.modify _
  have hlen : 0 < bufLen := by
    rw [replyLen] at hcopy
    omega
  obtain ⟨a, ha, hpid, -⟩ := hi
  obtain rfl : a.pid = replier := Option.some.inj (hpid.symm.trans hcur)
  obtain ⟨hclient, htask, -⟩ := replyTarget_eq_some htarget
  obtain ⟨_, htask', rfl⟩ := findPid_eq_some hclient
  obtain ⟨replierPt, hreplier⟩ := exists_lastPagetable ha
  obtain ⟨callerPt, hcaller⟩ := exists_lastPagetable htask'
  refine Finishes.unwrap_bind (by rw [if_pos hlen, hreplier]) (Finishes.unwrap_bind hcaller ?_)
  exact (finishes_copyUserToUser ..).bind fun _ _ _ => Finishes.modify _

/-- Staging ends. -/
lemma finishes_stage (e : Fin maxEndpoints) (userBuf bufLen : ℕ) :
    Finishes (stage e userBuf bufLen) k := by
  unfold stage
  refine Finishes.ite (fun _ => ?_) fun _ => Finishes.modify _
  rw [finishes_readTm_bind]
  refine Finishes.ofOption_bind fun t _ => ?_
  exact (finishes_memCopyFromUser ..).bind fun _ _ _ => Finishes.modify _

/-- Handing a payload to a task in the table ends. -/
lemma finishes_handOver {e : Fin maxEndpoints} {ep : Endpoint} {r : Fin maxTasks} {b : Task}
    (hep : k.tm.endpoints e = some ep) (hb : k.tm.tasks r = some b) (bufLen : ℕ) :
    Finishes (handOver e r bufLen) k := by
  unfold handOver
  rw [finishes_readTm_bind]
  refine Finishes.unwrap_bind hep (Finishes.unwrap_bind hb ?_)
  refine Finishes.ite (fun _ => ?_) fun _ => Finishes.pure _
  exact (Finishes.attempt (finishes_memCopyToUser ..)).bind fun _ _ _ => Finishes.pure _

/-- `ipc_call_buf` ends, when a receiver that waits has left a buffer outside the pages of the
kernel. -/
lemma Housed.finishes_ipcCallBuf (h : k.Housed strict) (hm : Core k.tm) {endpoint bufLen : ℕ}
    (words : Words) (userBuf : ℕ) (tf : TrapFrame)
    (hclear : ∀ e ep, k.tm.endpointAt endpoint = some (e, ep) → ep.receiverWaiting = true →
      ep.recvBufAddr ≠ 0 → Avoids ep.recvBufAddr (min bufLen ep.recvBufCapacity)) :
    Finishes (Kernel.ipcCallBuf endpoint words userBuf bufLen tf) k := by
  unfold Kernel.ipcCallBuf
  rw [finishes_readTm_bind]
  refine Finishes.ofOption_bind fun sender _ => Finishes.ofOption_bind ?_
  rintro ⟨e, ep⟩ hep
  refine Finishes.guard fun _ => Finishes.guard fun _ => ?_
  refine (finishes_stage ..).bind fun _ k₁ hstage => ?_
  have h₁ := h.stage hstage
  have hends : ∃ ep₁, k₁.tm.endpoints e = some ep₁ := by
    rcases stage_cases hstage with ⟨hnone, -⟩ | ⟨_, _, _, -, -, -, -, -, rfl⟩
    · simp at hnone
    · have hep' := (endpointAt_eq_some.mp hep).2
      exact ⟨_, by simp only [staged, updateEndpoint, Slots.set_self, hep']; rfl⟩
  have htasks : k₁.tm.tasks = k.tm.tasks := by
    rcases stage_cases hstage with ⟨hnone, -⟩ | ⟨_, _, _, -, -, -, -, -, rfl⟩
    · simp at hnone
    · rfl
  obtain ⟨ep₁, hep₁⟩ := hends
  refine Finishes.ofOption_bind fun i _ => ?_
  rw [finishes_onTm_bind]
  have hblock := SameHomes.block (m := k₁.tm) i (.ipcCall endpoint) tf
  by_cases hwait : ep.receiverWaiting = true
  · obtain ⟨r, b, hr, hb⟩ := exists_receiver hm hep hwait
    have hr₁ : (k₁.tm.block i (.ipcCall endpoint) tf).findPid ep.owner = some r := by
      rw [findPid_block, findPid, htasks]
      exact hr
    obtain ⟨b₁, hb₁⟩ : ∃ b₁, (k₁.tm.block i (.ipcCall endpoint) tf).tasks r = some b₁ := by
      obtain ⟨b₁, hb₁, -⟩ := findPid_eq_some hr₁
      exact ⟨b₁, hb₁⟩
    simp only [hwait, if_true]
    rw [finishes_readTm_bind]
    refine Finishes.unwrap_bind hr₁ ?_
    have h₂ : Housed strict { k₁ with tm := k₁.tm.block i (.ipcCall endpoint) tf } :=
      h₁.sameHomes hblock rfl
    refine (finishes_handOver (k := { k₁ with tm := k₁.tm.block i (.ipcCall endpoint) tf })
      hep₁ hb₁ bufLen).bind fun copyLen k₂ hover => ?_
    have h₃ : Housed strict k₂ := by
      refine h₂.handOver (fun ep' hep' haddr => ?_) hover
      obtain ⟨ep₀, hep₀, haddr₀, hcap₀⟩ := stage_recvBuf hstage hep'
      obtain rfl : ep₀ = ep := Option.some.inj (hep₀.symm.trans (endpointAt_eq_some.mp hep).2)
      rw [← haddr₀, ← hcap₀]
      exact hclear e ep₀ hep hwait (by rwa [haddr₀])
    have h₄ : Housed strict { k₂ with tm := k₂.tm.deliverBuf e r sender words copyLen } :=
      h₃.sameHomes ((SameHomes.wake r _).trans (SameHomes.updateEndpoint ..)) rfl
    exact h₄.finishes_schedule_bind fun _ _ => Finishes.pure _
  · simp only [hwait, Bool.false_eq_true, if_false]
    have h₂ : Housed strict { k₁ with
        tm := (k₁.tm.block i (.ipcCall endpoint) tf).enqueue e
          ⟨sender, words, bufLen % 2 ^ 16⟩ } :=
      h₁.sameHomes (hblock.trans (SameHomes.updateEndpoint ..)) rfl
    exact h₂.finishes_schedule_bind fun _ _ => Finishes.pure _

/-- Copying a queued payload that fits the staging buffer ends. -/
lemma finishes_unstage {e : Fin maxEndpoints} {ep : Endpoint} {message : Message}
    (hep : k.tm.endpoints e = some ep) (hfit : message.bufLen ≤ ipcBufSize)
    (userBuf capacity : ℕ) : Finishes (unstage e message userBuf capacity) k := by
  unfold unstage
  rw [finishes_onTm_bind, finishes_readTm_bind]
  cases hcur : ({ k with tm := k.tm.updateEndpoint e fun ep =>
      { ep with hasBuffered := false } } : Kernel).tm.current with
  | none => exact Finishes.pure _
  | some t =>
    have hep' : (k.tm.updateEndpoint e fun ep => { ep with hasBuffered := false }).endpoints e =
        some { ep with hasBuffered := false } := by
      simp [updateEndpoint, hep]
    refine Finishes.unwrap_bind hep' ?_
    have hlen : ¬ ipcBufSize < min message.bufLen capacity := by omega
    rw [if_neg hlen]
    exact (Finishes.attempt (finishes_memCopyToUser ..)).bind fun _ _ _ => Finishes.pure _

/-- `ipc_recv_buf` ends. -/
lemma Housed.finishes_ipcRecvBuf (h : k.Housed strict) (hfit : PayloadsFit k.tm)
    (endpoint userBuf capacity : ℕ) (tf : TrapFrame) :
    Finishes (Kernel.ipcRecvBuf endpoint userBuf capacity tf) k := by
  unfold Kernel.ipcRecvBuf
  rw [finishes_readTm_bind]
  refine Finishes.ofOption_bind fun receiver _ => Finishes.ofOption_bind ?_
  rintro ⟨e, ep⟩ hep
  have hslot := (endpointAt_eq_some.mp hep).2
  refine Finishes.guard fun _ => ?_
  cases hpop : ep.pending.pop with
  | some r =>
    obtain ⟨message, pending⟩ := r
    have hmem : message ∈ ep.pending.toList := by
      rw [RingBuffer.pop_eq_some hpop]
      exact List.mem_cons_self ..
    dsimp only
    rw [finishes_onTm_bind]
    have hep' : (k.tm.updateEndpoint e fun ep => { ep with pending := pending }).endpoints e =
        some { ep with pending := pending } := by
      simp [updateEndpoint, hslot]
    have hsize := hfit e ep hslot message hmem
    refine Finishes.ite (fun _ => ?_) fun _ => Finishes.pure _
    refine Finishes.bind ?_ fun _ _ _ => Finishes.pure _
    exact finishes_unstage
      (k := { k with tm := k.tm.updateEndpoint e fun ep => { ep with pending := pending } })
      hep' hsize ..
  | none =>
    dsimp only
    rw [finishes_onTm_bind]
    refine Finishes.ofOption_bind fun i _ => ?_
    have h₁ : Housed strict { k with
        tm := (k.tm.updateEndpoint e fun ep =>
          { ep with
            waitingReceiver := some receiver
            recvBufAddr := userBuf
            recvBufCapacity := capacity }).block i (.ipcRecv endpoint) tf } :=
      h.sameHomes ((SameHomes.updateEndpoint ..).trans (SameHomes.block ..)) rfl
    exact h₁.finishes_schedule_bind fun _ _ => Finishes.pure _

/-! ### Processes -/

/-- `fork` ends. -/
lemma finishes_fork (tf : TrapFrame) : Finishes (fork tf) k := by
  unfold fork
  rw [finishes_readTm_bind]
  refine Finishes.guard fun _ => Finishes.ofOption_bind fun parent _ => ?_
  refine (finishes_onPhys (finishes_forkSpace parent _)).bind fun child _ _ => ?_
  rw [finishes_onTm_bind]
  refine Finishes.ofOption_bind fun slot _ => ?_
  exact (Finishes.modify _).bind fun _ _ _ => Finishes.pure _

/-- `sbrk` ends. -/
lemma finishes_sbrk (increment : ℤ) : Finishes (sbrk increment) k := by
  unfold sbrk
  rw [finishes_readTm_bind]
  refine Finishes.guard fun _ => Finishes.ofOption_bind fun i _ => ?_
  refine Finishes.ofOption_bind fun task _ => Finishes.ofOption_bind fun newEnd _ => ?_
  refine Finishes.guard fun _ => Finishes.ofOption_bind fun _ _ => ?_
  refine Finishes.ofOption_bind fun _ _ => ?_
  refine (finishes_onPhys (finishes_resizeHeap ..)).bind fun _ _ _ => ?_
  exact (Finishes.modify _).bind fun _ _ _ => Finishes.pure _

/-- `waitpid` ends. -/
lemma Housed.finishes_waitpid (h : k.Housed strict) (pid : ℕ) (tf : TrapFrame) :
    Finishes (Kernel.waitpid pid tf) k := by
  unfold Kernel.waitpid
  rw [finishes_readTm_bind]
  refine Finishes.guard fun _ => Finishes.ofOption_bind fun parentPid _ => ?_
  refine Finishes.ofOption_bind fun c hc => ?_
  obtain ⟨child, hchild, -⟩ := Slots.position_eq_some hc
  refine Finishes.unwrap_bind hchild (Finishes.ite (fun _ => ?_) fun _ => ?_)
  · rw [finishes_onTm_bind]
    refine Finishes.bind ?_ fun _ _ _ => Finishes.pure _
    exact finishes_onPhys (k := { k with tm := k.tm.setTask c none }) (h.finishes_freeTask hchild)
  · refine Finishes.ofOption_bind fun i _ => ?_
    have h₁ : Housed strict { k with tm := k.tm.block i (.child pid) tf } :=
      h.sameHomes (SameHomes.block ..) rfl
    exact h₁.finishes_schedule_bind fun _ _ => Finishes.pure _

/-- `exit_current` ends, as there is always a task to run. -/
lemma finishes_exitCurrent (hm : Core k.tm) (hi : k.tm.RunsIn i)
    (hidle : k.tm.currentPid ≠ some idlePid) (code : ℤ) : Finishes (exitCurrent code) k := by
  unfold exitCurrent
  rw [finishes_readTm_bind, if_neg hidle, finishes_onTm_bind, finishes_readTm_bind]
  obtain ⟨hcore, hno⟩ := hm.retire hi hidle code
  obtain ⟨next, -, hnext, -⟩ := (hcore.setCurrent hno none).choose hno (List.finRange maxTasks)
  exact Finishes.unwrap_bind hnext ((Finishes.modify _).bind fun _ _ _ => Finishes.pure _)

/-- `wait_uart_irq` ends. -/
lemma Housed.finishes_waitUartIrq (h : k.Housed strict) (tf : TrapFrame) :
    Finishes (Kernel.waitUartIrq tf) k := by
  unfold Kernel.waitUartIrq
  rw [finishes_readTm_bind]
  refine Finishes.guard fun _ => Finishes.ofOption_bind fun i _ => ?_
  have h₁ : Housed strict { k with tm := k.tm.block i .uartRx tf } :=
    h.sameHomes (SameHomes.block ..) rfl
  obtain ⟨next, k', hrun⟩ := h₁.schedule_returns tf
  exact ⟨_, hrun⟩

/-! ### System calls -/

/-- A system call that returns a value ends when the operation does. -/
lemma finishes_returning {tf : TrapFrame} {f : Fallible Kernel ℕ} (h : Finishes f k) :
    Finishes (returning tf f) k := by
  unfold returning
  exact h.attempt.bind fun o _ _ => by cases o <;> exact Finishes.pure _

/-- A system call without a value ends when the operation does. -/
lemma finishes_succeeding {tf : TrapFrame} {f : Fallible Kernel Unit} (h : Finishes f k) :
    Finishes (succeeding tf f) k :=
  finishes_returning (h.bind fun _ _ _ => Finishes.pure _)

/-- An IPC operation that may block the caller ends as a system call when it does. -/
lemma finishes_blocking {tf : TrapFrame} {f : Fallible Kernel IpcResult} (h : Finishes f k) :
    Finishes (blocking tf f) k := by
  unfold blocking
  exact h.attempt.bind fun o _ _ => by rcases o with _ | ⟨_ | _⟩ <;> exact Finishes.pure _

/-- Every system call but `exec` and `shutdown` ends. -/
lemma Housed.finishes_handle (h : k.Housed strict) (hm : Core k.tm) (hi : k.tm.RunsIn i)
    (hidle : k.tm.currentPid ≠ some idlePid) (hfit : PayloadsFit k.tm) {tf : TrapFrame}
    (hclear : BuffersClear k.tm tf) {call : Sysno} (hcall : Sysno.decode tf.a7 = some call)
    (hexec : call ≠ .exec) (hshutdown : call ≠ .shutdown) : Finishes (Kernel.handle tf) k := by
  unfold Kernel.handle
  simp only [BuffersClear, hcall] at hclear ⊢
  cases call with
  | exit => exact (finishes_exitCurrent hm hi hidle _).bind fun _ _ _ => Finishes.pure _
  | yield => exact h.finishes_schedule_bind fun _ _ => Finishes.pure _
  | getpid => exact Finishes.pure _
  | fork => exact finishes_returning (finishes_fork _)
  | ps => exact Finishes.pure _
  | exec => exact absurd rfl hexec
  | waitpid =>
    refine (h.finishes_waitpid _ _).attempt.bind fun o _ _ => ?_
    rcases o with _ | ⟨_ | _⟩ <;> exact Finishes.pure _
  | ipcCall => exact finishes_blocking (h.finishes_ipcCall hm ..)
  | ipcRecv => exact finishes_blocking (h.finishes_ipcRecv ..)
  | ipcReply => exact finishes_succeeding (finishes_ipcReply ..)
  | irqWait =>
    refine Finishes.ite (fun _ => Finishes.pure _) fun _ => ?_
    refine (h.finishes_waitUartIrq _).attempt.bind fun o _ _ => ?_
    cases o <;> exact Finishes.pure _
  | sbrk => exact finishes_returning (finishes_sbrk _)
  | ipcCallBuf => exact finishes_blocking (h.finishes_ipcCallBuf hm _ _ _ hclear)
  | ipcRecvBuf => exact finishes_blocking (h.finishes_ipcRecvBuf hfit ..)
  | ipcReplyBuf => exact finishes_succeeding (finishes_ipcReplyBuf hi ..)
  | shutdown => exact absurd rfl hshutdown

end Kernel

/-! ### The machine -/

namespace System

variable {s t : System}

/-- A system call of the task on the hart ends in a step when its handler ends. -/
lemma Scheduled.step_of_finishes (hs : s.Scheduled) (huser : s.inUser = true) {tf : TrapFrame}
    (h : Finishes (Kernel.handle tf) (s.entry tf)) : ∃ t, s.step (.ecall tf) = some t := by
  obtain ⟨⟨o, k⟩, hrun⟩ := h
  have hframed : Framed s.hart s.kernel.tm (s.entry tf).tm := Or.inr ⟨tf, rfl⟩
  obtain ⟨hcore, a, ha, hcur, -⟩ := hframed.core hs.core hs.runs
  have hindex := hcore.currentIndex_eq ha hcur
  have hframe : ∃ a, (s.entry tf).tm.current = some a ∧ a.trapFrame = tf := by
    obtain ⟨b, hb, -⟩ := hs.runs
    refine ⟨{ b with trapFrame := tf }, ?_, rfl⟩
    rw [current, hindex, Option.bind_some]
    exact (congrFun (tasks_updateTask (f := fun a => { a with trapFrame := tf }) hb) _).trans
      (Slots.set_self ..)
  have hidle : (s.entry tf).tm.currentPid ≠ some idlePid := hs.onHart.user huser
  obtain ⟨label, next, tf', rfl, -⟩ := Kernel.handle_effect hidle hindex hframe hrun
  have hhart : s.hart ≠ idleSlot := by simpa [inUser] using huser
  exact ⟨_, step_ecall hhart hrun⟩

end System

end NekOS
