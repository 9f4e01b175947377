import NekOS.Scheduling.Waiting

/-!
# What a system call leaves for its caller

A system call either answers at once, with the result in the registers with which the caller
continues, or it puts its caller to sleep (`Ends`).  A caller that has been put to sleep finds the
registers it made the call with in its saved frame, and `schedule` keeps them.
-/

namespace NekOS

namespace TaskManager

variable {m : TaskManager} {i j : Fin maxTasks} {a : Task} {pid : ℕ} {channel : WaitChannel}

/-! ### The current task in `schedule` -/

/-- What `schedule` does to the current task, unless that has exited: its frame is saved. -/
lemma Core.resched_current (hm : Core m) (ha : m.tasks j = some a)
    (hcur : m.currentPid = some a.pid) (hz : a.state ≠ .zombie) (tf : TrapFrame) :
    ∃ b, (m.resched tf).tasks j = some b ∧ b.pid = a.pid ∧ b.waitingFor = a.waitingFor ∧
      b.trapFrame = tf ∧ b.state ≠ .zombie ∧ (b.state = .sleeping ↔ a.state = .sleeping) := by
  have hreaped : m.reaped.tasks j = some a := by
    simp [TaskManager.reaped, ha, detached, hz]
  have hindex : m.reaped.currentIndex = some j := hm.reaped.currentIndex_eq hreaped hcur
  obtain ⟨hcore, hno⟩ := hm.reaped.preempt tf
  let c : Task := { a with
    trapFrame := tf, state := if a.state = .running then .ready else a.state }
  have hc : (m.reaped.preempt tf).tasks j = some c := by
    unfold TaskManager.preempt
    simp only [hindex]
    rw [tasks_updateTask hreaped, Slots.set_self]
  have hcz : c.state ≠ .zombie := by
    intro h
    simp only [c] at h
    split at h
    · cases h
    · exact hz h
  have hcs : c.state = .sleeping ↔ a.state = .sleeping := by
    simp only [c]
    split <;> simp_all
  obtain ⟨n, d, hchoose, hd, hready⟩ := hcore.choose hno (m.reaped.preempt tf).visitOrder
  have hresched : m.resched tf = (m.reaped.preempt tf).runSlot n := by
    rw [TaskManager.resched, scheduled, hchoose]
    rfl
  rw [hresched]
  by_cases hj : j = n
  · subst hj
    obtain rfl := Option.some.inj (hc.symm.trans hd)
    refine ⟨{ c with state := .running }, ?_, rfl, rfl, rfl, by simp, ?_⟩
    · exact (congrFun (tasks_updateTask hc) j).trans (Slots.set_self ..)
    · rw [← hcs, hready]
      simp
  · exact ⟨c, (tasks_updateTask_of_ne hj _).trans hc, rfl, rfl, rfl, hcz, hcs⟩

/-- The current task has been put to sleep on the channel, and the next one is not chosen yet. -/
structure Suspended (m : TaskManager) (i : Fin maxTasks) (pid : ℕ) (channel : WaitChannel) :
    Prop where
  core : Core m
  current : m.currentPid = some pid
  task : ∃ a, m.tasks i = some a ∧ a.pid = pid ∧ a.state = .sleeping ∧ a.waitingFor = some channel

/-- The current task blocks. -/
lemma Core.suspended_block (hm : Core m) (hi : m.RunsIn i) (hidle : m.currentPid ≠ some idlePid)
    (hch : ∀ e, channel ≠ .ipcRecv e) (ha : m.currentPid = some pid) (tf : TrapFrame) :
    Suspended (m.block i channel tf) i pid channel := by
  obtain ⟨a, htask, hcur, hrun⟩ := hi
  have hne : a.pid ≠ idlePid := fun h => hidle (by rw [hcur, h])
  have hpid : a.pid = pid := Option.some.inj (hcur.symm.trans ha)
  refine ⟨hm.block htask hrun hne hch tf, ha, a.asleep channel tf, ?_, hpid, rfl, rfl⟩
  rw [tasks_block htask, Slots.set_self]

/-- The caller of a queued call. -/
lemma Core.suspended_queued (hm : Core m) (hi : m.RunsIn i) (hidle : m.currentPid ≠ some idlePid)
    (hcur : m.currentPid = some pid) (e : Fin maxEndpoints) {f : Endpoint → Endpoint}
    (hf : Staging f) (tf : TrapFrame) (message : Message) :
    Suspended (((m.updateEndpoint e f).block i (.ipcCall e) tf).enqueue e message) i pid
      (.ipcCall e) := by
  obtain ⟨a, htask, hrun⟩ := id hi
  have hpid : a.pid = pid := Option.some.inj (hrun.1.symm.trans hcur)
  refine ⟨(hm.blockCall hi hidle e hf tf).enqueue e message, hcur, a.asleep (.ipcCall e) tf, ?_,
    hpid, rfl, rfl⟩
  change ((m.updateEndpoint e f).block i (.ipcCall e) tf).tasks i = _
  rw [tasks_block (m := m.updateEndpoint e f) htask, Slots.set_self]

/-- The caller of a call that is handed to the blocked owner. -/
lemma Core.suspended_direct (hm : Core m) (hi : m.RunsIn i) (hidle : m.currentPid ≠ some idlePid)
    (hcur : m.currentPid = some pid) {e : Fin maxEndpoints} {ep : Endpoint}
    (hep : m.endpoints e = some ep) (hwait : ep.receiverWaiting = true) {f u : Endpoint → Endpoint}
    (hf : Staging f) (hu : Releasing u) (tf : TrapFrame) {r : Fin maxTasks}
    (hr : ((m.updateEndpoint e f).block i (.ipcCall e) tf).findPid ep.owner = some r)
    (g : TrapFrame → TrapFrame) :
    Suspended ((((m.updateEndpoint e f).block i (.ipcCall e) tf).wake r g).updateEndpoint e u) i
      pid (.ipcCall e) := by
  obtain ⟨a, htask, hrun⟩ := id hi
  have hpid : a.pid = pid := Option.some.inj (hrun.1.symm.trans hcur)
  have hcore := hm.blockCall hi hidle e hf tf
  have hend := endpoints_blockCall hep f i (.ipcCall e) tf
  obtain ⟨b, hb, hbpid, haw⟩ := hcore.receiver_found hend
    (by rw [hf.receiverWaiting, hwait]) (by rw [hf.owner, hr])
  have hblocked : ((m.updateEndpoint e f).block i (.ipcCall e) tf).tasks i =
      some (a.asleep (.ipcCall e) tf) := by
    rw [tasks_block (m := m.updateEndpoint e f) htask, Slots.set_self]
  have hir : i ≠ r := by
    rintro rfl
    obtain rfl := Option.some.inj (hblocked.symm.trans hb)
    simp [Task.awaits, Task.asleep] at haw
  refine ⟨hcore.deliver hb hend hbpid haw hu g, hcur, a.asleep (.ipcCall e) tf, ?_, hpid, rfl, rfl⟩
  change (((m.updateEndpoint e f).block i (.ipcCall e) tf).wake r g).tasks i = _
  rw [tasks_wake_of_ne hir, hblocked]

/-- The owner of an endpoint that waits for a message. -/
lemma Core.suspended_recv (hm : Core m) (hi : m.RunsIn i) (hidle : m.currentPid ≠ some idlePid)
    (hcur : m.currentPid = some pid) {e : Fin maxEndpoints} {ep : Endpoint}
    (hep : m.endpoints e = some ep) (howner : ep.owner = pid) {u : Endpoint → Endpoint}
    (hu : Awaiting pid u) (tf : TrapFrame) :
    Suspended ((m.updateEndpoint e u).block i (.ipcRecv e) tf) i pid (.ipcRecv e) := by
  obtain ⟨a, htask, hrun⟩ := id hi
  have hne : a.pid ≠ idlePid := fun h => hidle (by rw [hrun.1, h])
  have hpid : a.pid = pid := Option.some.inj (hrun.1.symm.trans hcur)
  rw [← howner] at hu
  refine ⟨hm.blockRecv htask hrun.2 hne hep (howner.trans hpid.symm) hu tf, hcur,
    a.asleep (.ipcRecv e) tf, ?_, hpid, rfl, rfl⟩
  rw [tasks_block (m := m.updateEndpoint e u) htask, Slots.set_self]

end TaskManager

/-- The task sleeps on the channel, with these registers in its frame. -/
structure Task.SleepsAt (b : Task) (pid : ℕ) (channel : WaitChannel) (tf : TrapFrame) : Prop where
  pid : b.pid = pid
  state : b.state = .sleeping
  waitingFor : b.waitingFor = some channel
  trapFrame : b.trapFrame = tf

namespace Kernel

open TaskManager

variable {k k' : Kernel} {i : Fin maxTasks} {pid : ℕ} {channel : WaitChannel} {tf : TrapFrame}

/-- The task in the slot has been put to sleep, and another one has been chosen. -/
def PutToSleep (i : Fin maxTasks) (pid : ℕ) (channel : WaitChannel) (tf : TrapFrame)
    (next : FramePtr) (k' : Kernel) : Prop :=
  next.isSome ∧ ∃ b, k'.tm.tasks i = some b ∧ b.SleepsAt pid channel tf

/-- `schedule` puts a suspended task to sleep. -/
lemma putToSleep_of_schedule {next : FramePtr} (hm : Suspended k.tm i pid channel)
    (h : schedule tf k = some (some next, k')) : PutToSleep i pid channel tf next k' := by
  obtain ⟨hnext, ph, -, rfl⟩ := schedule_cases h
  obtain ⟨a, ha, hpid, hs, hwait⟩ := hm.task
  obtain ⟨-, n, hn, -⟩ := hm.core.resched tf
  obtain ⟨b, hb, hbpid, hbwait, hframe, -, hbs⟩ :=
    hm.core.resched_current ha (by rw [hm.current, hpid]) (by rw [hs]; simp) tf
  rw [Option.some.injEq] at hnext
  refine ⟨by rw [hnext, hn]; rfl, b, hb, ?_⟩
  exact ⟨hbpid.trans hpid, hbs.mpr hs, hbwait.trans hwait, hframe⟩

section Blocking

variable (hm : Core k.tm) (hi : k.tm.RunsIn i) (hidle : k.tm.currentPid ≠ some idlePid)
  (hcur : k.tm.currentPid = some pid)

include hm hi hidle hcur

/-- `waitpid` that blocks. -/
lemma waitpid_blocked {child : ℕ} {next : FramePtr}
    (h : waitpid child tf k = some (some (.blocked next), k')) :
    PutToSleep i pid (.child child) tf next k' := by
  rcases waitpid_cases h with ⟨hnone, -⟩ | ⟨-, _, _, _, -, -, -, -, h⟩
  · simp at hnone
  rcases h with ⟨-, hsome, -⟩ | ⟨-, j, next', hj, hsome, h⟩
  · simp at hsome
  · obtain rfl : next = next' := by simpa using hsome
    obtain rfl := hm.current_eq hi hj
    exact putToSleep_of_schedule (hm.suspended_block hi hidle (by simp) hcur tf) h

/-- `wait_uart_irq` that blocks. -/
lemma waitUartIrq_blocked {next : FramePtr} (h : waitUartIrq tf k = some (some next, k')) :
    PutToSleep i pid .uartRx tf next k' := by
  rcases waitUartIrq_cases h with ⟨hnone, -⟩ | ⟨-, -, j, hj, h⟩
  · simp at hnone
  · obtain rfl := hm.current_eq hi hj
    exact putToSleep_of_schedule (hm.suspended_block hi hidle (by simp) hcur tf) h

/-- `ipc_call` that is accepted. -/
lemma ipcCall_blocked {endpoint : ℕ} {words : Words} {r : IpcResult}
    (hrun : ipcCall endpoint words tf k = some (some r, k')) :
    ∃ next, r = .blocked next ∧ PutToSleep i pid (.ipcCall endpoint) tf next k' := by
  rcases ipcCall_cases hrun with ⟨hnone, -⟩ | ⟨sender, e, ep, j, next, hsender, hep, -, -, hj, hr, h⟩
  · simp at hnone
  obtain rfl : r = .blocked next := by simpa using hr
  obtain rfl := hm.current_eq hi (j := j) (by rw [currentIndex, hsender]; exact hj)
  obtain ⟨rfl, hget⟩ := endpointAt_eq_some.mp hep
  have hid : k.tm.updateEndpoint e id = k.tm := updateEndpoint_of_id e k.tm fun _ => rfl
  have hstage : Staging id := stages_nil.1
  refine ⟨next, rfl, ?_⟩
  rcases h with ⟨-, h⟩ | ⟨hwait, r, hr, h⟩
  · have hsleep := hm.suspended_queued hi hidle hcur e hstage tf ⟨sender, words, 0⟩
    rw [hid] at hsleep
    exact putToSleep_of_schedule hsleep h
  · have hsleep := hm.suspended_direct hi hidle hcur hget hwait hstage
      (u := fun ep => { ep with waitingReceiver := none }) (fun ep => ⟨_, _, rfl⟩) tf
      (by rwa [hid]) (setMessage sender words)
    rw [hid] at hsleep
    exact putToSleep_of_schedule hsleep h

/-- `ipc_call_buf` that is accepted. -/
lemma ipcCallBuf_blocked {endpoint : ℕ} {words : Words} {userBuf bufLen : ℕ} {r : IpcResult}
    (hrun : ipcCallBuf endpoint words userBuf bufLen tf k = some (some r, k')) :
    ∃ next, r = .blocked next ∧ PutToSleep i pid (.ipcCall endpoint) tf next k' := by
  rcases ipcCallBuf_cases hrun with ⟨hnone, -⟩ | ⟨sender, e, ep, hsender, hep, -, -, -, -, st, k₁,
    hstage, h⟩
  · simp at hnone
  obtain ⟨rfl, hget⟩ := endpointAt_eq_some.mp hep
  rcases h with ⟨hnone, -⟩ | ⟨rfl, j, next, hj, hr, h⟩
  · simp at hnone
  obtain rfl : r = .blocked next := by simpa using hr
  obtain rfl := hm.current_eq hi (j := j) (by rw [currentIndex, hsender]; exact hj)
  refine ⟨next, rfl, ?_⟩
  rcases stage_cases hstage with ⟨hnone, -⟩ | ⟨root, n, log, -, -, -, -, -, rfl⟩
  · simp at hnone
  have hstaging := staging_staged k.phys root userBuf bufLen n
  rcases h with ⟨-, h⟩ | ⟨hwait, r, copyLen, k₂, hr, hcopy, h⟩
  · exact putToSleep_of_schedule (hm.suspended_queued hi hidle hcur e hstaging tf _) h
  · have htm := handOver_tm hcopy
    refine putToSleep_of_schedule ?_ h
    simp only [htm]
    exact hm.suspended_direct hi hidle hcur hget hwait hstaging
      (u := fun ep => { ep with recvBufAddr := 0, recvBufCapacity := 0, waitingReceiver := none })
      (fun ep => ⟨_, _, rfl⟩) tf hr fun tf => { setMessage sender words tf with a5 := copyLen }

/-- `ipc_recv` that blocks. -/
lemma ipcRecv_blocked {endpoint : ℕ} {next : FramePtr}
    (h : ipcRecv endpoint tf k = some (some (.blocked next), k')) :
    PutToSleep i pid (.ipcRecv endpoint) tf next k' := by
  rcases ipcRecv_cases h with ⟨hnone, -⟩ | ⟨hnone, -⟩ | ⟨receiver, e, ep, hreceiver, hep, howner, h⟩
  · simp at hnone
  · simp at hnone
  obtain ⟨rfl, hget⟩ := endpointAt_eq_some.mp hep
  obtain rfl := Option.some.inj (hreceiver.symm.trans hcur)
  rcases h with ⟨_, _, -, hsome, -⟩ | ⟨-, j, next', hj, hsome, h⟩
  · simp at hsome
  · obtain rfl : next = next' := by simpa using hsome
    obtain rfl := hm.current_eq hi hj
    exact putToSleep_of_schedule
      (hm.suspended_recv hi hidle hcur hget howner (fun ep => ⟨_, _, rfl⟩) tf) h

/-- `ipc_recv_buf` that blocks. -/
lemma ipcRecvBuf_blocked {endpoint userBuf capacity : ℕ} {next : FramePtr}
    (h : ipcRecvBuf endpoint userBuf capacity tf k = some (some (.blocked next), k')) :
    PutToSleep i pid (.ipcRecv endpoint) tf next k' := by
  rcases ipcRecvBuf_cases h with
    ⟨hnone, -⟩ | ⟨hnone, -⟩ | ⟨receiver, e, ep, hreceiver, hep, howner, h⟩
  · simp at hnone
  · simp at hnone
  obtain ⟨rfl, hget⟩ := endpointAt_eq_some.mp hep
  obtain rfl := Option.some.inj (hreceiver.symm.trans hcur)
  rcases h with ⟨_, _, _, -, hsome, -⟩ | ⟨-, j, next', hj, hsome, h⟩
  · simp at hsome
  · obtain rfl : next = next' := by simpa using hsome
    obtain rfl := hm.current_eq hi hj
    exact putToSleep_of_schedule
      (hm.suspended_recv hi hidle hcur hget howner (fun ep => ⟨_, _, rfl⟩) tf) h

end Blocking

/-! ### The end of a system call -/

/-- The channel on which a system call may put its caller to sleep. -/
def channelOf (tf : TrapFrame) : Sysno → Option WaitChannel
  | .waitpid => some (.child (tf.a0 % 2 ^ 32))
  | .ipcCall | .ipcCallBuf => some (.ipcCall tf.a0)
  | .ipcRecv | .ipcRecvBuf => some (.ipcRecv tf.a0)
  | .irqWait => some .uartRx
  | _ => none

/-- A receive operation of the current task finds this message in the queue. -/
def Queued (k : Kernel) (endpoint : ℕ) (message : Message) : Prop :=
  ∃ e ep pending, k.tm.endpointAt endpoint = some (e, ep) ∧ k.tm.currentPid = some ep.owner ∧
    ep.pending.pop = some (message, pending)

/-- What a receive operation writes into the registers of its caller. -/
def Fetches (call : Sysno) (message : Message) (g : TrapFrame → TrapFrame) : Prop :=
  (call = .ipcRecv ∧ g = setMessage message.sender message.words) ∨
    (call = .ipcRecvBuf ∧
      ∃ n, g = fun fr => { setMessage message.sender message.words fr with a5 := n })

/-- How a system call with the registers `tf` ends for its caller, the task with the pid in the
slot `i`. -/
inductive Ends (k : Kernel) (call : Sysno) (tf : TrapFrame) (i : Fin maxTasks) (pid : ℕ) :
    FramePtr → TrapFrame → Kernel → Prop
  /-- It answers with a value. -/
  | value {k' : Kernel} (v : ℕ) : received tf k = none →
      ((call = .ipcRecv ∨ call = .ipcRecvBuf) → v = usizeMax) →
      Ends k call tf i pid none { advanced tf with a0 := v } k'
  /-- It answers with a message. -/
  | message {k' : Kernel} {message : Message} {g : TrapFrame → TrapFrame} :
      k.Queued tf.a0 message → Fetches call message g →
      received tf k = some (tf.a0, message.sender, message.words) →
      Ends k call tf i pid none (g (advanced tf)) k'
  /-- Another program is started in place of the caller. -/
  | image {k' k₁ : Kernel} {fr : TrapFrame} (entry : ℕ) : call = .exec →
      sysExec tf.a0 tf.a1 (advanced tf) k = some (some fr, k₁) → Ends k call tf i pid none
      { advanced tf with sp := userStackTop, sepc := entry, a0 := 0, a1 := 0, a2 := 0 } k'
  /-- The caller has been put to sleep. -/
  | sleep {k' : Kernel} {channel : WaitChannel} {next : FramePtr} {tf' : TrapFrame} :
      channelOf tf call = some channel → received tf k = none →
      PutToSleep i pid channel (advanced tf) next k' → Ends k call tf i pid next tf' k'
  /-- The caller has given up the hart. -/
  | yield {k' : Kernel} {next : FramePtr} {tf' : TrapFrame} {b : Task} : call = .yield →
      next.isSome → k'.tm.tasks i = some b → b.pid = pid → b.state ≠ .sleeping →
      b.state ≠ .zombie → b.trapFrame = { advanced tf with a0 := 0 } →
      Ends k call tf i pid next tf' k'
  /-- The caller has exited. -/
  | exit {k' : Kernel} {next : FramePtr} {tf' : TrapFrame} : call = .exit →
      Ends k call tf i pid next tf' k'

/-- A message that `ipc_recv` returns with at once. -/
lemma ipcRecv_resumes {endpoint : ℕ} {fr : TrapFrame}
    (h : ipcRecv endpoint tf k = some (some (.resume fr), k')) :
    ∃ message, k.Queued endpoint message ∧ fr = setMessage message.sender message.words tf := by
  rcases ipcRecv_cases h with ⟨hnone, -⟩ | ⟨hnone, -⟩ | ⟨receiver, e, ep, hreceiver, hep, howner, h⟩
  · simp at hnone
  · simp at hnone
  rcases h with ⟨message, pending, hpop, hsome, -⟩ | ⟨-, _, _, -, hsome, -⟩
  · exact ⟨message, ⟨e, ep, pending, hep, by rw [howner, hreceiver], hpop⟩, by simpa using hsome⟩
  · simp at hsome

/-- A message that `ipc_recv_buf` returns with at once. -/
lemma ipcRecvBuf_resumes {endpoint userBuf capacity : ℕ} {fr : TrapFrame}
    (h : ipcRecvBuf endpoint userBuf capacity tf k = some (some (.resume fr), k')) :
    ∃ message n, k.Queued endpoint message ∧
      fr = { setMessage message.sender message.words tf with a5 := n } := by
  rcases ipcRecvBuf_cases h with
    ⟨hnone, -⟩ | ⟨hnone, -⟩ | ⟨receiver, e, ep, hreceiver, hep, howner, h⟩
  · simp at hnone
  · simp at hnone
  rcases h with ⟨message, pending, n, hpop, hsome, -⟩ | ⟨-, _, _, -, hsome, -⟩
  · exact ⟨message, n, ⟨e, ep, pending, hep, by rw [howner, hreceiver], hpop⟩,
      by simpa using hsome⟩
  · simp at hsome

/-- `exec` gives the caller the registers of a new program. -/
lemma sysExec_frame {va len : ℕ} {fr : TrapFrame}
    (h : sysExec va len tf k = some (some fr, k')) :
    ∃ entry, fr = { tf with sp := userStackTop, sepc := entry, a0 := 0, a1 := 0, a2 := 0 } := by
  obtain ⟨_, _, log, -, -, -, h⟩ := sysExec_cases h
  rcases h with ⟨hnone, -⟩ | ⟨-, name, h⟩
  · simp at hnone
  rcases exec_cases h with ⟨hnone, -⟩ | ⟨image, ph, -, h⟩
  · simp at hnone
  rcases replaceCurrent_cases h with ⟨hnone, -⟩ | ⟨hsome, -⟩
  · simp at hnone
  · exact ⟨_, Option.some.inj hsome⟩

/-- The end of a system call that answers with a value. -/
lemma Ends.returning {call : Sysno} (hcall : Sysno.decode tf.a7 = some call)
    (hno : call ≠ .ipcRecv ∧ call ≠ .ipcRecvBuf) {f : Fallible Kernel ℕ} {next : FramePtr}
    {tf' : TrapFrame} (h : returning (advanced tf) f k = some (some (next, tf'), k')) :
    Ends k call tf i pid next tf' k' := by
  have hreceived : received tf k = none := by
    unfold received
    cases call <;> simp_all
  obtain ⟨r, -, hr⟩ := returning_cases h
  obtain ⟨rfl, rfl⟩ := Prod.mk.inj (Option.some.inj hr)
  cases r with
  | none => exact .value usizeMax hreceived fun _ => rfl
  | some v => exact .value v hreceived fun h => absurd h (not_or.mpr hno)

/-- The end of a call. -/
lemma Ends.call {call : Sysno} (hcall : Sysno.decode tf.a7 = some call)
    (hno : call = .ipcCall ∨ call = .ipcCallBuf) {f : Fallible Kernel IpcResult} {next : FramePtr}
    {tf' : TrapFrame} (h : blocking (advanced tf) f k = some (some (next, tf'), k'))
    (hf : ∀ r, f k = some (some r, k') → ∃ next, r = .blocked next ∧
      PutToSleep i pid (.ipcCall tf.a0) (advanced tf) next k') :
    Ends k call tf i pid next tf' k' := by
  have hreceived : received tf k = none := by
    unfold received
    rcases hno with rfl | rfl <;> simp [hcall]
  have hvalue : ¬ (call = .ipcRecv ∨ call = .ipcRecvBuf) := by
    rcases hno with rfl | rfl <;> simp
  have hchannel : channelOf tf call = some (.ipcCall tf.a0) := by
    rcases hno with rfl | rfl <;> rfl
  obtain ⟨r, hrun, hr⟩ := blocking_cases h
  rcases r with _ | r
  · obtain ⟨rfl, rfl⟩ := Prod.mk.inj (Option.some.inj hr)
    exact .value usizeMax hreceived fun h => absurd h hvalue
  · obtain ⟨next', rfl, hsleep⟩ := hf r hrun
    obtain ⟨rfl, rfl⟩ := Prod.mk.inj (Option.some.inj hr)
    exact .sleep hchannel hreceived hsleep

/-- The end of a receive operation. -/
lemma Ends.recv {call : Sysno} {f : Fallible Kernel IpcResult} {next : FramePtr} {tf' : TrapFrame}
    (hreceived : received tf = receives tf f) (hchannel : channelOf tf call = some (.ipcRecv tf.a0))
    (h : blocking (advanced tf) f k = some (some (next, tf'), k'))
    (hf : ∀ next, f k = some (some (.blocked next), k') →
      PutToSleep i pid (.ipcRecv tf.a0) (advanced tf) next k')
    (hresume : ∀ fr, f k = some (some (.resume fr), k') → ∃ message g, k.Queued tf.a0 message ∧
      Fetches call message g ∧ fr = g (advanced tf)) :
    Ends k call tf i pid next tf' k' := by
  obtain ⟨r, hrun, hr⟩ := blocking_cases h
  rcases r with _ | ⟨fr | next'⟩
  · obtain ⟨rfl, rfl⟩ := Prod.mk.inj (Option.some.inj hr)
    exact .value usizeMax (by rw [hreceived, receives, hrun]) fun _ => rfl
  · obtain ⟨message, g, hqueued, hg, rfl⟩ := hresume fr hrun
    obtain ⟨rfl, rfl⟩ := Prod.mk.inj (Option.some.inj hr)
    refine .message hqueued hg ?_
    rw [hreceived, receives, hrun]
    rcases hg with ⟨-, rfl⟩ | ⟨-, n, rfl⟩ <;> rfl
  · obtain ⟨rfl, rfl⟩ := Prod.mk.inj (Option.some.inj hr)
    exact .sleep hchannel (by rw [hreceived, receives, hrun]) (hf _ hrun)

/-- **Inversion.**  How a system call of the current task ends for its caller. -/
theorem handle_ends (hm : Core k.tm) (hi : k.tm.RunsIn i) (hidle : k.tm.currentPid ≠ some idlePid)
    (hcur : k.tm.currentPid = some pid) {call : Sysno} (hcall : Sysno.decode tf.a7 = some call)
    {next : FramePtr} {tf' : TrapFrame} (hrun : handle tf k = some (some (next, tf'), k')) :
    Ends k call tf i pid next tf' k' := by
  simp only [handle, hcall] at hrun
  change dispatch call (advanced tf) k = some (some (next, tf'), k') at hrun
  have hvalue : (call ≠ .ipcRecv ∧ call ≠ .ipcRecvBuf) → ∀ v {k'' : Kernel},
      Ends k call tf i pid none { advanced tf with a0 := v } k'' := fun hno v k'' => by
    refine .value v ?_ fun h => absurd h (not_or.mpr hno)
    unfold received
    cases call <;> simp_all
  cases call with
  | exit => exact .exit rfl
  | yield =>
    obtain ⟨next', k₁, h, hret⟩ := noFail_schedule.bind_cases hrun
    obtain ⟨⟨rfl, -⟩, rfl⟩ := by simpa using hret
    obtain ⟨hnext, ph, -, rfl⟩ := schedule_cases h
    obtain ⟨a, ha, hacur, hrunning⟩ := hi
    obtain ⟨-, n, hn, -⟩ := hm.resched { advanced tf with a0 := 0 }
    obtain ⟨b, hb, hpid, -, hframe, hz, hs⟩ :=
      hm.resched_current ha hacur (by rw [hrunning]; simp) { advanced tf with a0 := 0 }
    rw [Option.some.injEq] at hnext
    refine .yield rfl (by rw [hnext]; exact hn ▸ rfl) hb
      (hpid.trans (Option.some.inj (hacur.symm.trans hcur))) ?_ hz hframe
    rw [Ne, hs, hrunning]
    simp
  | getpid =>
    obtain ⟨⟨rfl, rfl⟩, rfl⟩ : (none = next ∧ { advanced tf with a0 := getpid k.tm } = tf') ∧
        k = k' := by simpa [dispatch] using hrun
    exact hvalue (by simp) _
  | fork => exact .returning hcall (by simp) hrun
  | ps =>
    obtain ⟨⟨rfl, rfl⟩, rfl⟩ : (none = next ∧ { advanced tf with a0 := 0 } = tf') ∧ k = k' := by
      simpa [dispatch] using hrun
    exact hvalue (by simp) _
  | exec =>
    simp only [dispatch, Fallible.attempt_bind, Option.bind_eq_some_iff] at hrun
    obtain ⟨⟨r, k₁⟩, h, hret⟩ := hrun
    cases r with
    | none =>
      obtain ⟨⟨rfl, rfl⟩, rfl⟩ := by simpa using hret
      exact hvalue (by simp) usizeMax
    | some fr =>
      obtain ⟨⟨rfl, rfl⟩, rfl⟩ := by simpa using hret
      obtain ⟨entry, rfl⟩ := sysExec_frame h
      exact .image entry rfl h
  | waitpid =>
    simp only [dispatch, Fallible.attempt_bind, Option.bind_eq_some_iff] at hrun
    obtain ⟨⟨r, k₁⟩, h, hret⟩ := hrun
    rcases r with _ | ⟨code | next'⟩
    · obtain ⟨⟨rfl, rfl⟩, rfl⟩ := by simpa using hret
      exact hvalue (by simp) usizeMax
    · obtain ⟨⟨rfl, rfl⟩, rfl⟩ := by simpa using hret
      exact hvalue (by simp) _
    · obtain ⟨⟨rfl, rfl⟩, rfl⟩ := by simpa using hret
      exact .sleep rfl (by simp [received, hcall]) (waitpid_blocked hm hi hidle hcur h)
  | ipcCall => exact .call hcall (Or.inl rfl) hrun fun r h => ipcCall_blocked hm hi hidle hcur h
  | ipcRecv =>
    refine .recv (by simp only [received, hcall]; rfl) rfl hrun
      (fun next' h => ipcRecv_blocked hm hi hidle hcur h) fun fr h => ?_
    obtain ⟨message, hqueued, rfl⟩ := ipcRecv_resumes h
    exact ⟨message, _, hqueued, Or.inl ⟨rfl, rfl⟩, rfl⟩
  | ipcReply => exact .returning hcall (by simp) hrun
  | irqWait =>
    simp only [dispatch] at hrun
    by_cases hirq : (advanced tf).a0 ≠ uart0Irq
    · rw [if_pos hirq] at hrun
      obtain ⟨⟨rfl, rfl⟩, rfl⟩ := by simpa using hrun
      exact hvalue (by simp) usizeMax
    · rw [if_neg hirq, Fallible.attempt_bind, Option.bind_eq_some_iff] at hrun
      obtain ⟨⟨r, k₁⟩, h, hret⟩ := hrun
      cases r with
      | none =>
        obtain ⟨⟨rfl, rfl⟩, rfl⟩ := by simpa using hret
        exact hvalue (by simp) usizeMax
      | some next' =>
        obtain ⟨⟨rfl, rfl⟩, rfl⟩ := by simpa using hret
        exact .sleep rfl (by simp [received, hcall]) (waitUartIrq_blocked hm hi hidle hcur h)
  | sbrk => exact .returning hcall (by simp) hrun
  | ipcCallBuf =>
    exact .call hcall (Or.inr rfl) hrun fun r h => ipcCallBuf_blocked hm hi hidle hcur h
  | ipcRecvBuf =>
    refine .recv (by simp only [received, hcall]; rfl) rfl hrun
      (fun next' h => ipcRecvBuf_blocked hm hi hidle hcur h) fun fr h => ?_
    obtain ⟨message, n, hqueued, rfl⟩ := ipcRecvBuf_resumes h
    exact ⟨message, _, hqueued, Or.inr ⟨rfl, n, rfl⟩, rfl⟩
  | ipcReplyBuf => exact .returning hcall (by simp) hrun
  | shutdown => simp [dispatch] at hrun

end Kernel

namespace System

open TaskManager

variable {s t : System} {tf : TrapFrame}

/-- The kernel in which the handler of a system call starts satisfies the invariant. -/
lemma Scheduled.entry (hs : s.Scheduled) (tf : TrapFrame) :
    Core (s.entry tf).tm ∧ (s.entry tf).tm.RunsIn s.hart :=
  Framed.core (Or.inr ⟨tf, rfl⟩) hs.core hs.runs

/-- The current task when the handler of a system call starts. -/
lemma Scheduled.entry_current (hs : s.Scheduled) (tf : TrapFrame) :
    ∃ a, s.kernel.tm.tasks s.hart = some a ∧ (s.entry tf).tm.currentPid = some a.pid ∧
      (s.entry tf).tm.current = some { a with trapFrame := tf } := by
  obtain ⟨a, ha, hcur, -⟩ := hs.runs
  obtain ⟨hcore, -⟩ := hs.entry tf
  have hentry : (s.entry tf).tm.tasks s.hart = some { a with trapFrame := tf } := by
    simp [System.entry, storeFrame, updateTask, setTask, ha]
  refine ⟨a, ha, hcur, ?_⟩
  rw [current, hcore.currentIndex_eq hentry hcur, Option.bind_some, hentry]

/-- The system call in which the handler starts is the one that has been made. -/
lemma Scheduled.inCall (hs : s.Scheduled) {call : Sysno} {fr : TrapFrame}
    (h : (s.entry tf).tm.InCall call fr) : fr = tf ∧ Sysno.decode tf.a7 = some call := by
  obtain ⟨⟨u, hu, rfl⟩, hcall⟩ := h
  obtain ⟨a, -, -, hcur⟩ := hs.entry_current tf
  obtain rfl := Option.some.inj (hcur.symm.trans hu)
  exact ⟨rfl, hcall⟩

/-- **Inversion.**  How a system call ends for its caller. -/
theorem Scheduled.ecall_ends (hs : s.Scheduled) (hstep : s.step (.ecall tf) = some t) {a : Task}
    (ha : s.kernel.tm.tasks s.hart = some a) : ∃ call next tf' k',
      Sysno.decode tf.a7 = some call ∧ s.kernel.tm.currentPid = some a.pid ∧
      (s.entry tf).Ends call tf s.hart a.pid next tf' k' ∧ t = restore s.hart next tf' k' := by
  simp only [step] at hstep
  by_cases huser : s.inUser = true
  · rw [if_pos huser] at hstep
    obtain ⟨next, tf', k', hrun, rfl, -⟩ := trap_resumes hstep
    change Kernel.handle tf (s.entry tf) = some (some (next, tf'), k') at hrun
    obtain ⟨hcore, hruns⟩ := hs.entry tf
    obtain ⟨b, hb, hcur, -⟩ := hs.entry_current tf
    obtain rfl := Option.some.inj (ha.symm.trans hb)
    have hidle : (s.entry tf).tm.currentPid ≠ some idlePid := hs.onHart.user huser
    cases hcall : Sysno.decode tf.a7 with
    | none => simp [Kernel.handle, hcall] at hrun
    | some call =>
      exact ⟨call, next, tf', k', rfl, hcur,
        Kernel.handle_ends hcore hruns hidle hcur hcall hrun, rfl⟩
  · simp [huser] at hstep

/-- A slot does not pass from one task to another in one step. -/
lemma StepView.pid_eq {ev : Event} {m₁ m₂ : TaskManager} {label : Label} {next : FramePtr}
    (h : StepView s ev t m₁ m₂ label next) {j : Fin maxTasks} {a b : Task}
    (ha : s.kernel.tm.tasks j = some a) (hb : t.kernel.tm.tasks j = some b) : b.pid = a.pid := by
  have hframed : ∀ {i : Fin maxTasks} {m m' : TaskManager} {u v : Task}, Framed i m m' →
      m.tasks j = some u → m'.tasks j = some v → v.pid = u.pid := fun hf hu hv => by
    obtain ⟨u', hu', hs⟩ := (Calm.framed hf).back j _ hv
    obtain rfl := Option.some.inj (hu.symm.trans hu')
    exact hs.pid
  have hback : ∀ {i : Fin maxTasks} {m m' : TaskManager} {v : Task}, Framed i m m' →
      m'.tasks j = some v → ∃ u, m.tasks j = some u := fun hf hv => by
    obtain ⟨u, hu, -⟩ := (Calm.framed hf).back j _ hv
    exact ⟨u, hu⟩
  obtain ⟨d, hd⟩ := hback h.framed' hb
  obtain ⟨c, hc⟩ : ∃ c, m₁.tasks j = some c := by
    rcases h.framed with heq | ⟨fr, heq⟩
    · exact ⟨a, by rw [heq, ha]⟩
    · by_cases hj : j = s.hart
      · subst hj
        exact ⟨_, by rw [heq, tasks_updateTask ha, Slots.set_self]⟩
      · exact ⟨a, by rw [heq, tasks_updateTask_of_ne hj, ha]⟩
  rw [hframed h.framed' hd hb, h.effect.pid_eq h.core h.runs hc hd, hframed h.framed ha hc]

/-- What a system call that answers at once leaves in the slot of its caller. -/
lemma Scheduled.answered (hs : s.Scheduled) (hok : s.FreshPid (.ecall tf))
    (hstep : s.step (.ecall tf) = some t) {a : Task} (ha : s.kernel.tm.tasks s.hart = some a)
    {tf' : TrapFrame} {k' : Kernel} (ht : t = restore s.hart none tf' k') :
    t.hart = s.hart ∧ ∃ b, t.kernel.tm.tasks s.hart = some b ∧ b.pid = a.pid ∧
      b.state = .running ∧ b.trapFrame = tf' := by
  obtain ⟨m₁, m₂, label, next, hview⟩ := hs.view hok hstep
  obtain ⟨b, hb, -, hrun⟩ := hview.scheduled.runs
  have hhart : t.hart = s.hart := by rw [ht, restore]
  rw [hhart] at hb
  refine ⟨hhart, b, hb, hview.pid_eq ha hb, hrun, ?_⟩
  have htm : t.kernel.tm.tasks s.hart =
      (k'.tm.tasks s.hart).map fun u => { u with trapFrame := tf' } := by
    rw [ht]
    exact Slots.set_self ..
  rw [htm, Option.map_eq_some_iff] at hb
  obtain ⟨u, -, rfl⟩ := hb
  rfl

/-- What a system call that blocks leaves in the slot of its caller. -/
lemma suspended_of_putToSleep {next : FramePtr} {tf' : TrapFrame} {k' : Kernel} {i : Fin maxTasks}
    {pid : ℕ} {channel : WaitChannel} {fr : TrapFrame}
    (h : Kernel.PutToSleep i pid channel fr next k') (ht : t = restore s.hart next tf' k') :
    ∃ b, t.kernel.tm.tasks i = some b ∧ b.SleepsAt pid channel fr := by
  obtain ⟨hsome, b, hb, hsleep⟩ := h
  obtain ⟨n, rfl⟩ := Option.isSome_iff_exists.mp hsome
  exact ⟨b, by rw [ht]; exact hb, hsleep⟩

end System

end NekOS
