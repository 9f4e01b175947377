import NekOS.Kernel.SyscallSteps

/-!
# The effects on the task manager

`Effect m label next m'` lists everything one event can do to the task manager: `m` is the state
when the handler starts, `m'` the state when it ends, and `next` the slot whose frame is restored
(`none` when the interrupted task continues).  The label names what can be seen of the event from
outside.  Physical memory does not appear; whether an operation on it succeeds is left open.

`step_effect` connects the list with the machine: every step is one effect, before and after which
at most the saved frame of the current task is written.  Invariants of the task manager are proved
from this list alone.
-/

namespace NekOS

/-- Two versions of a task that agree in what scheduling and IPC depend on. -/
structure Task.SameCore (t u : Task) : Prop where
  pid : u.pid = t.pid
  state : u.state = t.state
  parentPid : u.parentPid = t.parentPid
  waitingFor : u.waitingFor = t.waitingFor

namespace TaskManager

/-- Only data of the current task changes, and nothing that scheduling and IPC depend on. -/
def Touched (m m' : TaskManager) : Prop :=
  m' = m ∨ ∃ i f, (∀ t, Task.SameCore t (f t)) ∧
    (∀ t, m.tasks i = some t → some t.pid = m.currentPid) ∧ m' = m.updateTask i f

/-- An update of an endpoint that changes at most the staging buffer. -/
def Staging (f : Endpoint → Endpoint) : Prop :=
  ∀ ep, ∃ buf len, f ep = { ep with copyBuf := buf, copyLen := len }

/-- An update of an endpoint that stages a payload. -/
def Stages (payload : List UInt8) (f : Endpoint → Endpoint) : Prop :=
  Staging f ∧ ∀ ep i (h : i < payload.length), (f ep).copyBuf i = payload.get ⟨i, h⟩

/-- An update of an endpoint that takes its receiver out, and possibly the buffer it declared. -/
def Releasing (f : Endpoint → Endpoint) : Prop :=
  ∀ ep, ∃ addr cap,
    f ep = { ep with waitingReceiver := none, recvBufAddr := addr, recvBufCapacity := cap }

/-- An update of an endpoint that makes a task its receiver, and possibly declares a buffer. -/
def Awaiting (receiver : ℕ) (f : Endpoint → Endpoint) : Prop :=
  ∀ ep, ∃ addr cap,
    f ep = { ep with waitingReceiver := some receiver, recvBufAddr := addr, recvBufCapacity := cap }

/-- The message in the registers of a receiver. -/
def messageOf (tf : TrapFrame) : ℕ × Words := (tf.a0, ⟨tf.a1, tf.a2, tf.a3, tf.a4⟩)

/-- The current task has made a system call with these registers. -/
def InCall (m : TaskManager) (call : Sysno) (tf : TrapFrame) : Prop :=
  (∃ t, m.current = some t ∧ t.trapFrame = tf) ∧ Sysno.decode tf.a7 = some call

/-- What a call of the current task writes into the frame of a blocked receiver: the message, and
the length of the payload when the call is a buffered one. -/
def HandsOver (m : TaskManager) (sender : ℕ) (words : Words) (g : TrapFrame → TrapFrame) : Prop :=
  g = setMessage sender words ∨
    ∃ tf n, m.InCall .ipcCallBuf tf ∧ g = fun fr => { setMessage sender words fr with a5 := n }

/-- The message is in the frame of the receiver. -/
lemma HandsOver.messageOf_eq {m : TaskManager} {sender : ℕ} {words : Words}
    {g : TrapFrame → TrapFrame} (h : m.HandsOver sender words g) (fr : TrapFrame) :
    messageOf (g fr) = (sender, words) := by
  rcases h with rfl | ⟨tf, n, -, rfl⟩ <;> rfl

/-- What a reply of the current task writes into the frame of a client: the words, and the length
of the payload when the reply is a buffered one. -/
def Answers (m : TaskManager) (call : Sysno) (client : ℕ) (task : Task)
    (g : TrapFrame → TrapFrame) : Prop :=
  ∃ tf, m.InCall call tf ∧ client = tf.a0 % 2 ^ 32 ∧
    (call = .ipcReply ∧ g = setReply (Kernel.argWords tf) ∨
      call = .ipcReplyBuf ∧ g = fun fr =>
        { setReply (Kernel.argWords tf) fr with a5 := Kernel.replyLen task tf.a6 })

/-- The current task has asked to exit with this code. -/
def Exits (m : TaskManager) (code : ℤ) : Prop := ∃ tf, m.InCall .exit tf ∧ code = asI32 tf.a0

/-- The current task waits for this child of its own. -/
def Reaps (m : TaskManager) (child : Task) : Prop :=
  child.parentPid = m.currentPid ∧ ∃ tf, m.InCall .waitpid tf ∧ child.pid = tf.a0 % 2 ^ 32

/-- What can be seen of an event from outside. -/
inductive Label
  /-- Nothing of the following. -/
  | silent
  /-- A pid is taken. -/
  | create
  /-- A call is accepted. -/
  | call (e : Fin maxEndpoints) (sender : ℕ) (words : Words) (payload : List UInt8)
  /-- A pending message is received, by a plain `ipc_recv` or by `ipc_recv_buf`. -/
  | take (e : Fin maxEndpoints) (message : Message) (plain : Bool)
  /-- A reply is made. -/
  | reply (client : ℕ)

/-- The accepted call: the endpoint, the sender and the words. -/
def Label.accepted : Label → Option (ℕ × ℕ × Words)
  | .call e sender words _ => some (e, sender, words)
  | _ => none

/-- The message taken from a queue: the endpoint, the sender and the words. -/
def Label.received : Label → Option (ℕ × ℕ × Words)
  | .take e message _ => some (e, message.sender, message.words)
  | _ => none

/-- The client of the reply. -/
def Label.answered : Label → Option ℕ
  | .reply client => some client
  | _ => none

/-- The current task may wait on the channel: for a child that has not exited, or for the UART. -/
def MayAwait (m : TaskManager) : WaitChannel → Prop
  | .child pid => ∃ c child, m.tasks c = some child ∧ child.pid = pid ∧
      child.parentPid = m.currentPid ∧ child.state ≠ .zombie
  | .uartRx => True
  | _ => False

/-- The current task does not wait for IPC in this way. -/
lemma MayAwait.not_ipc {m : TaskManager} {channel : WaitChannel} (h : m.MayAwait channel) (e : ℕ) :
    channel ≠ .ipcCall e ∧ channel ≠ .ipcRecv e := by
  constructor <;> rintro rfl <;> exact h

/-- What an event does to the task manager. -/
inductive Effect (m : TaskManager) : Label → FramePtr → TaskManager → Prop
  /-- Nothing, or a change of the address space of the current task. -/
  | touch {m' : TaskManager} : Touched m m' → Effect m .silent none m'
  /-- A pid is taken by a `fork` that fails. -/
  | bump : Effect m .create none m.bumpPid
  /-- A task is created. -/
  | create {slot : Fin maxTasks} {t : Task} : m.tasks slot = none → t.pid = m.nextPid →
      t.state = .ready → t.waitingFor = none → t.parentPid = m.currentPid →
      Effect m .create none (m.bumpPid.setTask slot (some t)).incRunnable
  /-- A zombie is freed by its parent. -/
  | reap {c : Fin maxTasks} {child : Task} : m.tasks c = some child → child.state = .zombie →
      m.Reaps child → Effect m .silent none (m.setTask c none)
  /-- The current task gives up the hart. -/
  | yield (tf : TrapFrame) : Effect m .silent (m.scheduled tf) (m.resched tf)
  /-- The UART wakes its owner. -/
  | uart (tf : TrapFrame) : Effect m .silent (m.wakeUart.scheduled tf) (m.wakeUart.resched tf)
  /-- The current task waits for a child or the UART. -/
  | sleep {i : Fin maxTasks} {channel : WaitChannel} (tf : TrapFrame) :
      m.currentPid ≠ some idlePid → m.currentIndex = some i → m.MayAwait channel →
      Effect m .silent ((m.block i channel tf).scheduled tf) ((m.block i channel tf).resched tf)
  /-- The current task exits. -/
  | exit {next : Fin maxTasks} (code : ℤ) : m.currentPid ≠ some idlePid →
      ({ m.retire code with currentPid := none } : TaskManager).choose (List.finRange maxTasks) =
        some next →
      m.Exits code →
      Effect m .silent (some next)
        (({ m.retire code with currentPid := none } : TaskManager).runSlot next)
  /-- A failing buffered call has written to the staging buffer. -/
  | stage {e : Fin maxEndpoints} {ep : Endpoint} {f : Endpoint → Endpoint} :
      m.endpoints e = some ep → (ep.hasBuffered = true → ep.receiverWaiting = true) → Staging f →
      Effect m .silent none (m.updateEndpoint e f)
  /-- A call is queued. -/
  | callQueued {sender : ℕ} {e : Fin maxEndpoints} {ep : Endpoint} {i : Fin maxTasks}
      {f : Endpoint → Endpoint} (words : Words) (payload : List UInt8) (tf : TrapFrame) :
      m.currentPid ≠ some idlePid → m.currentPid = some sender → m.findPid sender = some i →
      m.endpoints e = some ep → sender ≠ ep.owner → ep.pending.isFull = false →
      ep.receiverWaiting = false → Stages payload f →
      (f = id ∧ payload = [] ∨ ep.hasBuffered = false) →
      Effect m (.call e sender words payload)
        ((((m.updateEndpoint e f).block i (.ipcCall e) tf).enqueue e
          ⟨sender, words, payload.length⟩).scheduled tf)
        ((((m.updateEndpoint e f).block i (.ipcCall e) tf).enqueue e
          ⟨sender, words, payload.length⟩).resched tf)
  /-- A call is handed to the blocked owner. -/
  | callDirect {sender : ℕ} {e : Fin maxEndpoints} {ep : Endpoint} {i r : Fin maxTasks}
      {f u : Endpoint → Endpoint} {g : TrapFrame → TrapFrame} (words : Words)
      (payload : List UInt8) (tf : TrapFrame) :
      m.currentPid ≠ some idlePid → m.currentPid = some sender → m.findPid sender = some i →
      m.endpoints e = some ep → sender ≠ ep.owner → ep.receiverWaiting = true →
      ((m.updateEndpoint e f).block i (.ipcCall e) tf).findPid ep.owner = some r →
      Stages payload f → Releasing u → m.HandsOver sender words g →
      Effect m (.call e sender words payload)
        (((((m.updateEndpoint e f).block i (.ipcCall e) tf).wake r g).updateEndpoint e u).scheduled
          tf)
        (((((m.updateEndpoint e f).block i (.ipcCall e) tf).wake r g).updateEndpoint e u).resched
          tf)
  /-- The owner takes the oldest pending message.  A buffered receive frees the staging buffer when
  the message has a payload. -/
  | recvPop {e : Fin maxEndpoints} {ep : Endpoint} {message : Message} {pending : MsgQueue}
      (plain : Bool) : m.currentPid = some ep.owner → m.endpoints e = some ep →
      ep.pending.pop = some (message, pending) →
      Effect m (.take e message plain) none (m.updateEndpoint e fun ep =>
        { ep with
          pending := pending
          hasBuffered := ep.hasBuffered && (plain || decide (message.bufLen = 0)) })
  /-- The owner waits for a message. -/
  | recvBlock {e : Fin maxEndpoints} {ep : Endpoint} {i : Fin maxTasks} {u : Endpoint → Endpoint}
      (tf : TrapFrame) : m.currentPid ≠ some idlePid → m.currentPid = some ep.owner →
      m.currentIndex = some i → m.endpoints e = some ep → ep.pending.pop = none →
      Awaiting ep.owner u →
      Effect m .silent (((m.updateEndpoint e u).block i (.ipcRecv e) tf).scheduled tf)
        (((m.updateEndpoint e u).block i (.ipcRecv e) tf).resched tf)
  /-- A reply wakes a client of the current task. -/
  | reply {replier client : ℕ} {index : Fin maxTasks} {task : Task} {call : Sysno}
      (g : TrapFrame → TrapFrame) : m.currentPid = some replier →
      m.replyTarget replier client = some (index, task) → task.state = .sleeping →
      m.Answers call client task g →
      Effect m (.reply client) none (m.wake index g)
  /-- A failing reply has written to the frame of a client of the current task. -/
  | scribble {replier client : ℕ} {index : Fin maxTasks} {task : Task}
      (g : TrapFrame → TrapFrame) : m.currentPid = some replier →
      m.replyTarget replier client = some (index, task) → task.state = .sleeping →
      m.Answers .ipcReplyBuf client task g →
      Effect m .silent none (m.updateTask index fun t => { t with trapFrame := g t.trapFrame })

/-- The effects of the events that are no system calls. -/
inductive Outside (m : TaskManager) : Label → FramePtr → TaskManager → Prop
  /-- Nothing. -/
  | keep : Outside m .silent none m
  /-- The kernel creates a task. -/
  | create {slot : Fin maxTasks} {t : Task} : m.tasks slot = none → t.pid = m.nextPid →
      t.state = .ready → t.waitingFor = none → t.parentPid = m.currentPid →
      Outside m .create none (m.bumpPid.setTask slot (some t)).incRunnable
  /-- The timer takes the hart from the current task. -/
  | yield (tf : TrapFrame) : Outside m .silent (m.scheduled tf) (m.resched tf)
  /-- The UART wakes its owner. -/
  | uart (tf : TrapFrame) :
      Outside m .silent (m.wakeUart.scheduled tf) (m.wakeUart.resched tf)

/-- They are among the effects. -/
lemma Outside.effect {m m' : TaskManager} {label : Label} {next : FramePtr}
    (h : Outside m label next m') : Effect m label next m' := by
  cases h with
  | keep => exact .touch (Or.inl rfl)
  | create hslot hpid hready hwait hparent => exact .create hslot hpid hready hwait hparent
  | yield tf => exact .yield tf
  | uart tf => exact .uart tf

/-! ### The operations have these effects -/

/-- An endpoint found by its number. -/
lemma endpointAt_eq_some {m : TaskManager} {endpoint : ℕ} {e : Fin maxEndpoints} {ep : Endpoint} :
    m.endpointAt endpoint = some (e, ep) ↔ e.val = endpoint ∧ m.endpoints e = some ep := by
  unfold endpointAt
  split
  · rename_i h
    simp only [Option.map_eq_some_iff, Prod.mk.injEq]
    constructor
    · rintro ⟨ep', hep, rfl, rfl⟩
      exact ⟨rfl, hep⟩
    · rintro ⟨rfl, hep⟩
      exact ⟨ep, hep, rfl, rfl⟩
  · rename_i h
    simp only [reduceCtorEq, false_iff, not_and]
    rintro rfl
    exact absurd e.isLt h

/-- The slot found for a pid holds a task with that pid. -/
lemma findPid_eq_some {m : TaskManager} {pid : ℕ} {i : Fin maxTasks} (h : m.findPid pid = some i) :
    ∃ t, m.tasks i = some t ∧ t.pid = pid := by
  obtain ⟨t, ht, hpid⟩ := Slots.position_eq_some h
  exact ⟨t, ht, by simpa using hpid⟩

/-- The current slot holds the task with the current pid. -/
lemma currentIndex_eq_some {m : TaskManager} {i : Fin maxTasks} (h : m.currentIndex = some i) :
    ∃ t, m.tasks i = some t ∧ m.currentPid = some t.pid := by
  obtain ⟨pid, hpid, hi⟩ := Option.bind_eq_some_iff.mp h
  obtain ⟨t, ht, rfl⟩ := findPid_eq_some hi
  exact ⟨t, ht, hpid⟩

/-- A change of the task in the current slot. -/
lemma Touched.current {m : TaskManager} {i : Fin maxTasks} {f : Task → Task}
    (h : m.currentIndex = some i) (hf : ∀ t, Task.SameCore t (f t)) :
    Touched m (m.updateTask i f) := by
  obtain ⟨t, ht, hpid⟩ := currentIndex_eq_some h
  refine Or.inr ⟨i, f, hf, fun u hu => ?_, rfl⟩
  rw [ht, Option.some.injEq] at hu
  rw [← hu, hpid]

/-- Two updates of a task. -/
lemma updateTask_updateTask (m : TaskManager) (i : Fin maxTasks) (f g : Task → Task) :
    (m.updateTask i f).updateTask i g = m.updateTask i fun t => g (f t) := by
  simp [updateTask, setTask, Option.map_map, Function.comp_def]

end TaskManager

namespace Kernel

open TaskManager

variable {tf : TrapFrame} {k k' : Kernel}

/-- The effect of `schedule`. -/
lemma schedule_effect {P : FramePtr → TaskManager → Prop} {next : FramePtr}
    (h : schedule tf k = some (some next, k')) (heff : P (k.tm.scheduled tf) (k.tm.resched tf)) :
    P next k'.tm := by
  obtain ⟨hnext, ph, -, rfl⟩ := schedule_cases h
  rw [Option.some.injEq] at hnext
  rw [hnext]
  exact heff

/-- The effect of `fork`. -/
lemma fork_effect {o : Option ℕ} (hrun : fork tf k = some (o, k')) :
    Effect k.tm .silent none k'.tm ∨ Effect k.tm .create none k'.tm := by
  rcases fork_cases hrun with ⟨-, rfl, -⟩ | ⟨-, parent, child, ph, -, -, h⟩
  · exact Or.inl (.touch (Or.inl rfl))
  rcases h with ⟨-, -, rfl⟩ | ⟨-, -, -, rfl⟩ | ⟨-, space, slot, -, hslot, rfl⟩
  · exact Or.inl (.touch (Or.inl rfl))
  · exact Or.inr .bump
  · exact Or.inr (.create (Slots.firstFree_eq_some hslot) rfl rfl rfl rfl)

/-- The effect of `spawn`. -/
lemma spawn_effect {name : String} {o : Option ℕ} (hrun : spawn name k = some (o, k')) :
    Outside k.tm .silent none k'.tm ∨ Outside k.tm .create none k'.tm := by
  rcases spawn_cases hrun with ⟨-, h⟩ | ⟨image, ph, -, h⟩
  · rcases load_cases h with ⟨-, rfl, -⟩ | ⟨_, ph, -, -, rfl⟩
    · exact Or.inl .keep
    · exact Or.inl .keep
  · rcases createUserImage_cases h with ⟨-, ph', rfl, -⟩ | ⟨-, -, -, slot, _, ph', hslot, -, rfl⟩
    · exact Or.inl .keep
    · exact Or.inr (.create (Slots.firstFree_eq_some hslot) rfl rfl rfl rfl)

/-- The effect of `exec`. -/
lemma sysExec_effect {va len : ℕ} {o : Option TrapFrame}
    (hrun : sysExec va len tf k = some (o, k')) : Effect k.tm .silent none k'.tm := by
  obtain ⟨_, _, log, -, -, -, h⟩ := sysExec_cases hrun
  rcases h with ⟨-, rfl⟩ | ⟨-, name, h⟩
  · exact .touch (Or.inl rfl)
  rcases exec_cases h with ⟨-, h⟩ | ⟨image, ph, -, h⟩
  · rcases load_cases h with ⟨-, rfl, -⟩ | ⟨_, ph, -, -, rfl⟩
    · exact .touch (Or.inl rfl)
    · exact .touch (Or.inl rfl)
  · rcases replaceCurrent_cases h with ⟨-, rfl⟩ | ⟨-, -, -, i, old, ph', hi, -, -, rfl⟩
    · exact .touch (Or.inl rfl)
    · exact .touch (Touched.current hi fun t => ⟨rfl, rfl, rfl, rfl⟩)

/-- The effect of `sbrk`. -/
lemma sbrk_effect {increment : ℤ} {o : Option ℕ} (hrun : sbrk increment k = some (o, k')) :
    Effect k.tm .silent none k'.tm := by
  rcases sbrk_cases hrun with ⟨-, rfl⟩ | ⟨-, i, _, _, _, _, _, ph, hi, -, -, -, -, -, -, -, h⟩
  · exact .touch (Or.inl rfl)
  rcases h with ⟨-, -, rfl⟩ | ⟨-, -, rfl⟩
  · exact .touch (Or.inl rfl)
  · exact .touch (Touched.current hi fun t => ⟨rfl, rfl, rfl, rfl⟩)

/-- The slot to resume after `waitpid`. -/
def WaitResult.next : Option WaitResult → FramePtr
  | some (.blocked next) => next
  | _ => none

/-- The effect of `waitpid`. -/
lemma waitpid_effect {fr : TrapFrame} {o : Option WaitResult} (hcall : k.tm.InCall .waitpid fr)
    (hrun : waitpid (fr.a0 % 2 ^ 32) tf k = some (o, k')) :
    Effect k.tm .silent (WaitResult.next o) k'.tm := by
  rcases waitpid_cases hrun with ⟨rfl, rfl⟩ | ⟨hidle, _, c, child, hcur, hchild, hpid, hparent, h⟩
  · exact .touch (Or.inl rfl)
  rcases h with ⟨hz, rfl, ph, -, rfl⟩ | ⟨hz, i, next, hi, rfl, h⟩
  · exact .reap hchild hz ⟨hparent.trans hcur.symm, fr, hcall, hpid⟩
  · exact schedule_effect h
      (.sleep tf hidle hi ⟨c, child, hchild, hpid, hparent.trans hcur.symm, hz⟩)

/-- The effect of `wait_uart_irq`. -/
lemma waitUartIrq_effect {o : Option FramePtr} (hrun : waitUartIrq tf k = some (o, k')) :
    Effect k.tm .silent (o.getD none) k'.tm := by
  rcases waitUartIrq_cases hrun with ⟨rfl, rfl⟩ | ⟨hidle, -, i, hi, h⟩
  · exact .touch (Or.inl rfl)
  · cases o with
    | none => exact absurd h (noFail_schedule _ _)
    | some next => exact schedule_effect h (.sleep tf hidle hi trivial)

/-- The slot to resume after an IPC operation. -/
def IpcResult.next : Option IpcResult → FramePtr
  | some (.blocked next) => next
  | _ => none

/-- How a call ends: it is refused, or accepted from the current task. -/
def CallEffect (m : TaskManager) (endpoint : ℕ) (words : Words) (payload : List UInt8)
    (o : Option IpcResult) (m' : TaskManager) : Prop :=
  (o = none ∧ Effect m .silent none m') ∨
    ∃ e sender next, o = some (.blocked next) ∧ e.val = endpoint ∧ m.currentPid = some sender ∧
      Effect m (.call e sender words payload) next m'

/-- How a receive operation ends: without a message, or with one. -/
def RecvEffect (m : TaskManager) (endpoint : ℕ) (plain : Bool) (o : Option IpcResult)
    (m' : TaskManager) : Prop :=
  ((∀ tf, o ≠ some (.resume tf)) ∧ Effect m .silent (IpcResult.next o) m') ∨
    ∃ e message tf, o = some (.resume tf) ∧ e.val = endpoint ∧
      messageOf tf = (message.sender, message.words) ∧ Effect m (.take e message plain) none m'

/-- How a reply ends: it is refused, or made. -/
def ReplyEffect (m : TaskManager) (client : ℕ) (o : Option Unit) (m' : TaskManager) : Prop :=
  (o = none ∧ Effect m .silent none m') ∨ (o = some () ∧ Effect m (.reply client) none m')

/-- A plain message stages nothing. -/
lemma stages_nil : Stages [] id :=
  ⟨fun _ => ⟨_, _, rfl⟩, fun _ _ h => absurd h (Nat.not_lt_zero _)⟩

/-- The effect of `ipc_call`. -/
lemma ipcCall_effect {endpoint : ℕ} {words : Words} {o : Option IpcResult}
    (hidle : k.tm.currentPid ≠ some idlePid)
    (hrun : ipcCall endpoint words tf k = some (o, k')) :
    CallEffect k.tm endpoint words [] o k'.tm := by
  rcases ipcCall_cases hrun with ⟨rfl, rfl⟩ | ⟨sender, e, ep, i, next, hsender, hep, hne, hfull, hi,
    rfl, h⟩
  · exact Or.inl ⟨rfl, .touch (Or.inl rfl)⟩
  refine Or.inr ⟨e, sender, next, rfl, (endpointAt_eq_some.mp hep).1, hsender, ?_⟩
  obtain ⟨rfl, hget⟩ := endpointAt_eq_some.mp hep
  have hid : k.tm.updateEndpoint e id = k.tm := updateEndpoint_of_id e k.tm fun _ => rfl
  rcases h with ⟨hwait, h⟩ | ⟨hwait, r, hr, h⟩
  · have heff := Effect.callQueued (f := id) words [] tf hidle hsender hi hget hne hfull hwait
      stages_nil (Or.inl ⟨rfl, rfl⟩)
    rw [hid] at heff
    exact schedule_effect h heff
  · have heff := Effect.callDirect (f := id) (u := fun ep => { ep with waitingReceiver := none })
      (g := setMessage sender words) words [] tf hidle hsender hi hget hne hwait (by rwa [hid])
      stages_nil (fun ep => ⟨_, _, rfl⟩) (Or.inl rfl)
    rw [hid] at heff
    exact schedule_effect h heff

/-- The effect of `ipc_recv`. -/
lemma ipcRecv_effect {endpoint : ℕ} {o : Option IpcResult} {i : Fin maxTasks}
    (hidle : k.tm.currentPid ≠ some idlePid) (hcurrent : k.tm.currentIndex = some i)
    (hrun : ipcRecv endpoint tf k = some (o, k')) : RecvEffect k.tm endpoint true o k'.tm := by
  rcases ipcRecv_cases hrun with
    ⟨rfl, rfl, -⟩ | ⟨rfl, hnone, -⟩ | ⟨_, e, ep, hreceiver, hep, rfl, h⟩
  · exact Or.inl ⟨by simp, .touch (Or.inl rfl)⟩
  · simp [hcurrent] at hnone
  obtain ⟨rfl, hget⟩ := endpointAt_eq_some.mp hep
  rcases h with ⟨message, pending, hpop, rfl, rfl⟩ | ⟨hpop, i, next, hi, rfl, h⟩
  · refine Or.inr ⟨e, message, _, rfl, rfl, rfl, ?_⟩
    simpa using Effect.recvPop true hreceiver hget hpop
  · exact Or.inl ⟨by simp,
      schedule_effect h (.recvBlock tf hidle hreceiver hi hget hpop fun ep => ⟨_, _, rfl⟩)⟩

/-- The effect of `ipc_reply`. -/
lemma ipcReply_effect {o : Option Unit} (hcall : k.tm.InCall .ipcReply tf)
    (hrun : ipcReply (tf.a0 % 2 ^ 32) (argWords tf) k = some (o, k')) :
    ReplyEffect k.tm (tf.a0 % 2 ^ 32) o k'.tm := by
  rcases ipcReply_cases hrun with
    ⟨rfl, rfl⟩ | ⟨rfl, replier, index, task, hreplier, htarget, hstate, rfl⟩
  · exact Or.inl ⟨rfl, .touch (Or.inl rfl)⟩
  · exact Or.inr ⟨rfl, .reply _ hreplier htarget hstate ⟨tf, hcall, rfl, Or.inl ⟨rfl, rfl⟩⟩⟩

/-- Writing the frame of the client and then waking it. -/
lemma replied_wake (m : TaskManager) (index : Fin maxTasks) (words : Words) (n : ℕ) :
    (replied m index words n).wake index id =
      m.wake index fun tf => { setReply words tf with a5 := n } := by
  rw [replied, wake, updateTask_updateTask]
  rfl

/-- The effect of `ipc_reply_buf`. -/
lemma ipcReplyBuf_effect {o : Option Unit} (hcall : k.tm.InCall .ipcReplyBuf tf)
    (hrun : ipcReplyBuf (tf.a0 % 2 ^ 32) (argWords tf) tf.a5 tf.a6 k = some (o, k')) :
    ReplyEffect k.tm (tf.a0 % 2 ^ 32) o k'.tm := by
  rcases ipcReplyBuf_cases hrun with
    ⟨rfl, rfl, -⟩ | ⟨replier, index, task, hreplier, htarget, hstate, h⟩
  · exact Or.inl ⟨rfl, .touch (Or.inl rfl)⟩
  have hanswers : k.tm.Answers .ipcReplyBuf (tf.a0 % 2 ^ 32) task fun fr =>
      { setReply (argWords tf) fr with a5 := replyLen task tf.a6 } :=
    ⟨tf, hcall, rfl, Or.inr ⟨rfl, rfl⟩⟩
  rcases h with ⟨-, rfl, rfl⟩ | ⟨-, _, _, k₁, -, -, hcopy, h⟩
  · refine Or.inr ⟨rfl, ?_⟩
    simp only [replied_wake]
    exact .reply _ hreplier htarget hstate hanswers
  · obtain ⟨_, _, -, -, -, -, hwritten⟩ := copyUserToUser_cases hcopy
    have htm : k₁.tm = replied k.tm index (argWords tf) (replyLen task tf.a6) := hwritten.tm
    rcases h with ⟨rfl, rfl⟩ | ⟨rfl, rfl⟩
    · refine Or.inl ⟨rfl, ?_⟩
      rw [htm]
      exact .scribble _ hreplier htarget hstate hanswers
    · refine Or.inr ⟨rfl, ?_⟩
      simp only [htm, replied_wake]
      exact .reply _ hreplier htarget hstate hanswers

/-- Staging changes at most the staging buffer. -/
lemma staging_staged (ph : Phys) (root userBuf bufLen n : ℕ) :
    Staging fun ep =>
      { ep with
        copyBuf := stagedBytes ph root userBuf n ep.copyBuf
        copyLen := if n = bufLen then bufLen else ep.copyLen } :=
  fun _ => ⟨_, _, rfl⟩

/-- The bytes of a buffer of the current task. -/
def userBytes (k : Kernel) (userBuf len : ℕ) : List UInt8 :=
  (List.range len).map fun i =>
    (userByte k.phys ((k.tm.current.map Task.pagetable).getD 0) (wrap (userBuf + i))).getD 0

/-- A buffer that has been staged to its end. -/
lemma stages_staged {root : ℕ} (userBuf bufLen : ℕ)
    (hroot : 0 < bufLen → ∃ t, k.tm.current = some t ∧ root = t.pagetable) :
    Stages (userBytes k userBuf bufLen) fun ep =>
      { ep with
        copyBuf := stagedBytes k.phys root userBuf bufLen ep.copyBuf
        copyLen := if bufLen = bufLen then bufLen else ep.copyLen } := by
  refine ⟨staging_staged _ _ _ _ _, fun ep i h => ?_⟩
  have hi : i < bufLen := by simpa [userBytes] using h
  obtain ⟨t, ht, rfl⟩ := hroot (Nat.zero_lt_of_lt hi)
  simp [stagedBytes, hi, userBytes, ht]

/-- The effect of `ipc_call_buf`. -/
lemma ipcCallBuf_effect {endpoint : ℕ} {words : Words} {userBuf bufLen : ℕ} {fr : TrapFrame}
    {o : Option IpcResult} (hcall : k.tm.InCall .ipcCallBuf fr)
    (hidle : k.tm.currentPid ≠ some idlePid)
    (hrun : ipcCallBuf endpoint words userBuf bufLen tf k = some (o, k')) :
    CallEffect k.tm endpoint words (userBytes k userBuf bufLen) o k'.tm := by
  rcases ipcCallBuf_cases hrun with ⟨rfl, rfl⟩ | ⟨sender, e, ep, hsender, hep, hne, hfull, hbuffered,
    hsize, r, k₁, hstage, h⟩
  · exact Or.inl ⟨rfl, .touch (Or.inl rfl)⟩
  obtain ⟨rfl, hget⟩ := endpointAt_eq_some.mp hep
  rcases stage_cases hstage with ⟨rfl, -, rfl⟩ | ⟨root, n, log, hroot, -, hlen, -, -, rfl⟩
  · rcases h with ⟨rfl, rfl, -⟩ | ⟨hsome, -⟩
    · exact Or.inl ⟨rfl, .touch (Or.inl rfl)⟩
    · simp at hsome
  · rcases h with ⟨rfl, rfl, -⟩ | ⟨hr, i, next, hi, rfl, h⟩
    · exact Or.inl ⟨rfl, .stage hget hbuffered (staging_staged _ _ _ _ _)⟩
    obtain rfl := hlen.mp hr
    have hstages := stages_staged userBuf _ hroot
    have hsize : (userBytes k userBuf n).length = n % 2 ^ 16 := by
      rw [userBytes, List.length_map, List.length_range, Nat.mod_eq_of_lt]
      simp only [ipcBufSize] at hsize
      omega
    refine Or.inr ⟨e, sender, next, rfl, rfl, hsender, ?_⟩
    rcases h with ⟨hwait, h⟩ | ⟨hwait, r, copyLen, k₂, hr, hcopy, h⟩
    · have hfree : ep.hasBuffered = false := by
        by_contra hne
        rw [hbuffered (by simpa using hne)] at hwait
        simp at hwait
      rw [← hsize] at h
      exact schedule_effect h (.callQueued words _ tf hidle hsender hi hget hne hfull hwait
        hstages (Or.inr hfree))
    · rw [handOver_tm hcopy] at h
      have heff := Effect.callDirect
        (u := fun ep => { ep with recvBufAddr := 0, recvBufCapacity := 0, waitingReceiver := none })
        (g := fun tf => { setMessage sender words tf with a5 := copyLen }) words _ tf hidle hsender
        hi hget hne hwait hr hstages (fun ep => ⟨_, _, rfl⟩) (Or.inr ⟨fr, copyLen, hcall, rfl⟩)
      obtain ⟨hnext, ph, -, rfl⟩ := schedule_cases h
      rw [Option.some.injEq] at hnext
      rw [hnext]
      exact heff

/-- The effect of `ipc_recv_buf`. -/
lemma ipcRecvBuf_effect {endpoint userBuf capacity : ℕ} {o : Option IpcResult} {i : Fin maxTasks}
    (hidle : k.tm.currentPid ≠ some idlePid) (hcurrent : k.tm.currentIndex = some i)
    (hrun : ipcRecvBuf endpoint userBuf capacity tf k = some (o, k')) :
    RecvEffect k.tm endpoint false o k'.tm := by
  rcases ipcRecvBuf_cases hrun with
    ⟨rfl, rfl, -⟩ | ⟨rfl, hnone, -⟩ | ⟨_, e, ep, hreceiver, hep, rfl, h⟩
  · exact Or.inl ⟨by simp, .touch (Or.inl rfl)⟩
  · simp [hcurrent] at hnone
  obtain ⟨rfl, hget⟩ := endpointAt_eq_some.mp hep
  rcases h with ⟨message, pending, copyLen, hpop, rfl, h⟩ | ⟨hpop, i, next, hi, rfl, h⟩
  · refine Or.inr ⟨e, message, _, rfl, rfl, rfl, ?_⟩
    have heff := Effect.recvPop false hreceiver hget hpop
    rcases h with ⟨hlen, -, rfl⟩ | ⟨hlen, h⟩
    · simpa [hlen] using heff
    · obtain ⟨_, k₁, -, rfl, h⟩ := unstage_cases h
      have htm : k'.tm = k.tm.updateEndpoint e fun ep =>
          { ep with
            pending := pending
            hasBuffered := ep.hasBuffered && (false || decide (message.bufLen = 0)) } := by
        rcases h with ⟨-, -, rfl⟩ | ⟨_, _, _, -, -, -, hmem, -⟩
        · simp [hlen.ne']
        · obtain ⟨_, _, -, -, -, hwritten⟩ := memCopyToUser_cases hmem
          rw [hwritten.tm]
          simp [hlen.ne']
      rw [htm]
      exact heff
  · exact Or.inl ⟨by simp,
      schedule_effect h (.recvBlock tf hidle hreceiver hi hget hpop fun ep => ⟨_, _, rfl⟩)⟩

/-! ### What a system call shows -/

/-- The call that is accepted when the operation does not answer with an error: the endpoint, the
caller and the words. -/
def accepts (tf : TrapFrame) (f : Fallible Kernel IpcResult) (k : Kernel) :
    Option (ℕ × ℕ × Words) :=
  match f k with
  | some (some _, _) => k.tm.currentPid.map fun pid => (tf.a0, pid, argWords tf)
  | _ => none

/-- The message that the operation returns with at once: the endpoint, the sender and the words. -/
def receives (tf : TrapFrame) (f : Fallible Kernel IpcResult) (k : Kernel) :
    Option (ℕ × ℕ × Words) :=
  match f k with
  | some (some (.resume tf'), _) => some (tf.a0, messageOf tf')
  | _ => none

/-- The client of a reply that succeeds. -/
def replies (tf : TrapFrame) (f : Fallible Kernel Unit) (k : Kernel) : Option ℕ :=
  match f k with
  | some (some _, _) => some (tf.a0 % 2 ^ 32)
  | _ => none

/-- The registers with which the caller of a system call continues. -/
def advanced (tf : TrapFrame) : TrapFrame := { tf with sepc := wrap (tf.sepc + 4) }

/-- The call that the kernel accepts when a system call is made with these registers. -/
def accepted (tf : TrapFrame) : Kernel → Option (ℕ × ℕ × Words) :=
  match Sysno.decode tf.a7 with
  | some .ipcCall => accepts tf (ipcCall tf.a0 (argWords tf) (advanced tf))
  | some .ipcCallBuf => accepts tf (ipcCallBuf tf.a0 (argWords tf) tf.a5 tf.a6 (advanced tf))
  | _ => fun _ => none

/-- The message that the system call with these registers takes from a queue. -/
def received (tf : TrapFrame) : Kernel → Option (ℕ × ℕ × Words) :=
  match Sysno.decode tf.a7 with
  | some .ipcRecv => receives tf (ipcRecv tf.a0 (advanced tf))
  | some .ipcRecvBuf => receives tf (ipcRecvBuf tf.a0 tf.a1 tf.a2 (advanced tf))
  | _ => fun _ => none

/-- The client to which the system call with these registers replies. -/
def answered (tf : TrapFrame) : Kernel → Option ℕ :=
  match Sysno.decode tf.a7 with
  | some .ipcReply => replies tf (ipcReply (tf.a0 % 2 ^ 32) (argWords tf))
  | some .ipcReplyBuf =>
    replies tf (ipcReplyBuf (tf.a0 % 2 ^ 32) (argWords tf) tf.a5 tf.a6)
  | _ => fun _ => none

/-- The payload of a call made with these registers. -/
def payload (tf : TrapFrame) (k : Kernel) : List UInt8 :=
  if Sysno.decode tf.a7 = some .ipcCallBuf then userBytes k tf.a5 tf.a6 else []

/-- The label says what the system call with these registers shows. -/
structure Labelled (tf : TrapFrame) (k : Kernel) (label : Label) : Prop where
  accepted : accepted tf k = label.accepted
  received : received tf k = label.received
  answered : answered tf k = label.answered
  payload : ∀ e sender words bytes, label = .call e sender words bytes → bytes = payload tf k
  create : label = .create → Sysno.decode tf.a7 = some .fork
  plain : ∀ e message, label = .take e message true → Sysno.decode tf.a7 = some .ipcRecv

/-- A system call that is no IPC operation, or a refused one. -/
lemma labelled_silent (h₁ : accepted tf k = none) (h₂ : received tf k = none)
    (h₃ : answered tf k = none) : Labelled tf k .silent :=
  ⟨h₁, h₂, h₃, by simp, by simp, by simp⟩

/-- The label of a call. -/
lemma CallEffect.labelled {words : Words} {bytes : List UInt8} {o : Option IpcResult}
    {f : Fallible Kernel IpcResult} (heff : CallEffect k.tm tf.a0 words bytes o k'.tm)
    (hrun : f k = some (o, k')) (hwords : words = argWords tf) (hbytes : bytes = payload tf k)
    (h₁ : accepted tf = accepts tf f)
    (h₂ : received tf = fun _ => none) (h₃ : answered tf = fun _ => none) :
    ∃ label, Effect k.tm label (IpcResult.next o) k'.tm ∧ Labelled tf k label := by
  rcases heff with ⟨rfl, heff⟩ | ⟨e, sender, next, rfl, he, hsender, heff⟩
  · exact ⟨_, heff, labelled_silent (by simp [h₁, accepts, hrun]) (by simp [h₂]) (by simp [h₃])⟩
  · refine ⟨_, heff, ?_, ?_, ?_, ?_, by simp, by simp⟩
    · simp [h₁, accepts, hrun, hsender, Label.accepted, he, hwords]
    · simp [h₂, Label.received]
    · simp [h₃, Label.answered]
    · rintro e' sender' words' bytes' h
      simp only [Label.call.injEq] at h
      rw [← h.2.2.2, hbytes]

/-- The label of a receive operation. -/
lemma RecvEffect.labelled {plain : Bool} {o : Option IpcResult} {f : Fallible Kernel IpcResult}
    (heff : RecvEffect k.tm tf.a0 plain o k'.tm) (hrun : f k = some (o, k'))
    (h₁ : accepted tf = fun _ => none) (h₂ : received tf = receives tf f)
    (h₃ : answered tf = fun _ => none)
    (hplain : plain = true → Sysno.decode tf.a7 = some .ipcRecv) :
    ∃ label, Effect k.tm label (IpcResult.next o) k'.tm ∧ Labelled tf k label := by
  rcases heff with ⟨hno, heff⟩ | ⟨e, message, tf', rfl, he, hmessage, heff⟩
  · refine ⟨_, heff, labelled_silent (by simp [h₁]) ?_ (by simp [h₃])⟩
    rcases o with _ | ⟨tf' | next⟩
    · simp [h₂, receives, hrun]
    · exact absurd rfl (hno tf')
    · simp [h₂, receives, hrun]
  · refine ⟨_, heff, ?_, ?_, ?_, by simp, by simp, ?_⟩
    · simp [h₁, Label.accepted]
    · simp [h₂, receives, hrun, Label.received, he, hmessage]
    · simp [h₃, Label.answered]
    · rintro e' message' h
      simp only [Label.take.injEq] at h
      exact hplain h.2.2

/-- The label of a reply. -/
lemma ReplyEffect.labelled {o : Option Unit} {f : Fallible Kernel Unit}
    (heff : ReplyEffect k.tm (tf.a0 % 2 ^ 32) o k'.tm) (hrun : f k = some (o, k'))
    (h₁ : accepted tf = fun _ => none) (h₂ : received tf = fun _ => none)
    (h₃ : answered tf = replies tf f) :
    ∃ label, Effect k.tm label none k'.tm ∧ Labelled tf k label := by
  rcases heff with ⟨rfl, heff⟩ | ⟨rfl, heff⟩
  · exact ⟨_, heff, labelled_silent (by simp [h₁]) (by simp [h₂]) (by simp [h₃, replies, hrun])⟩
  · refine ⟨_, heff, ?_, ?_, ?_, by simp, by simp, by simp⟩
    · simp [h₁, Label.accepted]
    · simp [h₂, Label.received]
    · simp [h₃, replies, hrun, Label.answered]

/-- The effect of a system call made by the current task, and what it shows. -/
lemma handle_effect {o : Option (FramePtr × TrapFrame)} {i : Fin maxTasks}
    (hidle : k.tm.currentPid ≠ some idlePid) (hcurrent : k.tm.currentIndex = some i)
    (hframe : ∃ t, k.tm.current = some t ∧ t.trapFrame = tf)
    (hrun : handle tf k = some (o, k')) :
    ∃ label next tf', o = some (next, tf') ∧ Effect k.tm label next k'.tm ∧
      Labelled tf k label := by
  rw [handle] at hrun
  cases hcall : Sysno.decode tf.a7 with
  | none => simp [hcall] at hrun
  | some call =>
    simp only [hcall] at hrun
    change dispatch call (advanced tf) k = some (o, k') at hrun
    have hsilent : (∀ k, accepted tf k = none) → (∀ k, received tf k = none) →
        (∀ k, answered tf k = none) → Labelled tf k .silent := fun h₁ h₂ h₃ =>
      labelled_silent (h₁ k) (h₂ k) (h₃ k)
    cases call with
    | exit =>
      have hlabel := hsilent (by simp [accepted, hcall]) (by simp [received, hcall])
        (by simp [answered, hcall])
      rcases Fallible.bind_eq_iff.mp hrun with ⟨-, h⟩ | ⟨next, k₁, h, hret⟩
      · rcases exitCurrent_cases h with ⟨hpid, -⟩ | ⟨-, _, hnone, -⟩
        · exact absurd hpid hidle
        · simp at hnone
      · obtain ⟨rfl, rfl⟩ := by simpa using hret
        rcases exitCurrent_cases h with ⟨hpid, -⟩ | ⟨-, next, hnext, hchoose, rfl⟩
        · exact absurd hpid hidle
        · obtain rfl := Option.some.inj hnext
          exact ⟨_, _, _, rfl, .exit _ hidle hchoose ⟨tf, ⟨hframe, hcall⟩, rfl⟩, hlabel⟩
    | yield =>
      have hlabel := hsilent (by simp [accepted, hcall]) (by simp [received, hcall])
        (by simp [answered, hcall])
      obtain ⟨next, k₁, h, hret⟩ := noFail_schedule.bind_cases hrun
      obtain ⟨rfl, rfl⟩ := by simpa using hret
      exact ⟨_, _, _, rfl, schedule_effect h (.yield _), hlabel⟩
    | getpid =>
      have hlabel := hsilent (by simp [accepted, hcall]) (by simp [received, hcall])
        (by simp [answered, hcall])
      obtain ⟨rfl, rfl⟩ : some (none, { advanced tf with a0 := getpid k.tm }) = o ∧ k = k' := by
        simpa [dispatch] using hrun
      exact ⟨_, _, _, rfl, .touch (Or.inl rfl), hlabel⟩
    | fork =>
      obtain ⟨r, h, rfl⟩ := returning_cases hrun
      rcases fork_effect h with heff | heff
      · exact ⟨_, _, _, rfl, heff, hsilent (by simp [accepted, hcall]) (by simp [received, hcall])
          (by simp [answered, hcall])⟩
      · refine ⟨_, _, _, rfl, heff, ?_, ?_, ?_, by simp, fun _ => hcall, by simp⟩
        · simp [accepted, hcall, Label.accepted]
        · simp [received, hcall, Label.received]
        · simp [answered, hcall, Label.answered]
    | ps =>
      have hlabel := hsilent (by simp [accepted, hcall]) (by simp [received, hcall])
        (by simp [answered, hcall])
      obtain ⟨rfl, rfl⟩ : some (none, { advanced tf with a0 := 0 }) = o ∧ k = k' := by
        simpa [dispatch] using hrun
      exact ⟨_, _, _, rfl, .touch (Or.inl rfl), hlabel⟩
    | exec =>
      have hlabel := hsilent (by simp [accepted, hcall]) (by simp [received, hcall])
        (by simp [answered, hcall])
      simp only [dispatch, Fallible.attempt_bind, Option.bind_eq_some_iff] at hrun
      obtain ⟨⟨r, k₁⟩, h, hret⟩ := hrun
      cases r with
      | none =>
        obtain ⟨rfl, rfl⟩ := by simpa using hret
        exact ⟨_, _, _, rfl, sysExec_effect h, hlabel⟩
      | some tf' =>
        obtain ⟨rfl, rfl⟩ := by simpa using hret
        exact ⟨_, _, _, rfl, sysExec_effect h, hlabel⟩
    | waitpid =>
      have hlabel := hsilent (by simp [accepted, hcall]) (by simp [received, hcall])
        (by simp [answered, hcall])
      simp only [dispatch, Fallible.attempt_bind, Option.bind_eq_some_iff] at hrun
      obtain ⟨⟨r, k₁⟩, h, hret⟩ := hrun
      rcases r with _ | ⟨code | next⟩
      all_goals
        obtain ⟨rfl, rfl⟩ := by simpa using hret
        exact ⟨_, _, _, rfl, waitpid_effect ⟨hframe, hcall⟩ h, hlabel⟩
    | ipcCall =>
      obtain ⟨r, h, rfl⟩ := blocking_cases hrun
      have hcallEffect : CallEffect k.tm tf.a0 (argWords tf) [] r k'.tm := ipcCall_effect hidle h
      obtain ⟨label, heff, hlabel⟩ := hcallEffect.labelled h rfl (by simp [payload, hcall])
        (by simp [accepted, hcall]; rfl) (by simp [received, hcall]) (by simp [answered, hcall])
      rcases r with _ | ⟨tf' | next⟩
      all_goals exact ⟨label, _, _, rfl, heff, hlabel⟩
    | ipcRecv =>
      obtain ⟨r, h, rfl⟩ := blocking_cases hrun
      have hrecvEffect : RecvEffect k.tm tf.a0 true r k'.tm := ipcRecv_effect hidle hcurrent h
      obtain ⟨label, heff, hlabel⟩ := hrecvEffect.labelled h
        (by simp [accepted, hcall]) (by simp [received, hcall]; rfl) (by simp [answered, hcall])
        fun _ => hcall
      rcases r with _ | ⟨tf' | next⟩
      all_goals exact ⟨label, _, _, rfl, heff, hlabel⟩
    | ipcReply =>
      obtain ⟨r, h, rfl⟩ := succeeding_cases hrun
      have hreplyEffect : ReplyEffect k.tm (tf.a0 % 2 ^ 32) r k'.tm :=
        ipcReply_effect ⟨hframe, hcall⟩ h
      obtain ⟨label, heff, hlabel⟩ := hreplyEffect.labelled h
        (by simp [accepted, hcall]) (by simp [received, hcall]) (by simp [answered, hcall]; rfl)
      exact ⟨label, _, _, rfl, heff, hlabel⟩
    | irqWait =>
      have hlabel := hsilent (by simp [accepted, hcall]) (by simp [received, hcall])
        (by simp [answered, hcall])
      simp only [dispatch] at hrun
      by_cases hirq : (advanced tf).a0 ≠ uart0Irq
      · rw [if_pos hirq] at hrun
        obtain ⟨rfl, rfl⟩ := by simpa using hrun
        exact ⟨_, _, _, rfl, .touch (Or.inl rfl), hlabel⟩
      · rw [if_neg hirq, Fallible.attempt_bind, Option.bind_eq_some_iff] at hrun
        obtain ⟨⟨r, k₁⟩, h, hret⟩ := hrun
        cases r with
        | none =>
          obtain ⟨rfl, rfl⟩ := by simpa using hret
          exact ⟨_, _, _, rfl, waitUartIrq_effect h, hlabel⟩
        | some next =>
          obtain ⟨rfl, rfl⟩ := by simpa using hret
          exact ⟨_, _, _, rfl, waitUartIrq_effect h, hlabel⟩
    | sbrk =>
      have hlabel := hsilent (by simp [accepted, hcall]) (by simp [received, hcall])
        (by simp [answered, hcall])
      obtain ⟨r, h, rfl⟩ := returning_cases hrun
      exact ⟨_, _, _, rfl, sbrk_effect h, hlabel⟩
    | ipcCallBuf =>
      obtain ⟨r, h, rfl⟩ := blocking_cases hrun
      have hcallEffect : CallEffect k.tm tf.a0 (argWords tf) (userBytes k tf.a5 tf.a6) r k'.tm :=
        ipcCallBuf_effect ⟨hframe, hcall⟩ hidle h
      obtain ⟨label, heff, hlabel⟩ := hcallEffect.labelled h rfl (by simp [payload, hcall])
        (by simp [accepted, hcall]; rfl) (by simp [received, hcall]) (by simp [answered, hcall])
      rcases r with _ | ⟨tf' | next⟩
      all_goals exact ⟨label, _, _, rfl, heff, hlabel⟩
    | ipcRecvBuf =>
      obtain ⟨r, h, rfl⟩ := blocking_cases hrun
      have hrecvEffect : RecvEffect k.tm tf.a0 false r k'.tm :=
        ipcRecvBuf_effect hidle hcurrent h
      obtain ⟨label, heff, hlabel⟩ := hrecvEffect.labelled h
        (by simp [accepted, hcall]) (by simp [received, hcall]; rfl) (by simp [answered, hcall])
        (by simp)
      rcases r with _ | ⟨tf' | next⟩
      all_goals exact ⟨label, _, _, rfl, heff, hlabel⟩
    | ipcReplyBuf =>
      obtain ⟨r, h, rfl⟩ := succeeding_cases hrun
      have hreplyEffect : ReplyEffect k.tm (tf.a0 % 2 ^ 32) r k'.tm :=
        ipcReplyBuf_effect ⟨hframe, hcall⟩ h
      obtain ⟨label, heff, hlabel⟩ := hreplyEffect.labelled h
        (by simp [accepted, hcall]) (by simp [received, hcall]) (by simp [answered, hcall]; rfl)
      exact ⟨label, _, _, rfl, heff, hlabel⟩
    | shutdown => simp [dispatch] at hrun

end Kernel

namespace System

open TaskManager

/-- At most the saved frame of the task in a slot changes. -/
def Framed (i : Fin maxTasks) (m m' : TaskManager) : Prop :=
  m' = m ∨ ∃ tf, m' = m.updateTask i fun t => { t with trapFrame := tf }

/-- The hart runs the current task, and user programs are not the idle task. -/
structure OnHart (s : System) : Prop where
  /-- The task on the hart is the current one. -/
  index : s.kernel.tm.currentIndex = some s.hart
  /-- A user program does not have the pid of the idle task. -/
  user : s.inUser = true → s.kernel.tm.currentPid ≠ some idlePid

/-- The end of a step: the effect selects the next task, or the interrupted task continues. -/
def Resumes (s t : System) (m : TaskManager) (next : FramePtr) : Prop :=
  (next = some t.hart ∧ t.kernel.tm = m) ∨
    (next = none ∧ t.hart = s.hart ∧ Framed s.hart m t.kernel.tm)

/-- Writing the frame of a task keeps the pids. -/
lemma findPid_updateTask {m : TaskManager} {i : Fin maxTasks} {f : Task → Task}
    (hf : ∀ t, (f t).pid = t.pid) (pid : ℕ) : (m.updateTask i f).findPid pid = m.findPid pid := by
  unfold findPid Slots.position Slots.search
  congr 1
  funext j
  by_cases hj : j = i
  · subst hj
    cases h : m.tasks j <;> simp [updateTask, setTask, h, hf]
  · simp [updateTask, setTask, Slots.set_of_ne hj]

/-- The end of a trap. -/
lemma trap_resumes {s t : System} {tf : TrapFrame}
    {handler : Fallible Kernel (FramePtr × TrapFrame)} (h : trap tf handler s = some t) :
    ∃ next tf' k, handler (storeFrame s.hart tf s.kernel) = some (some (next, tf'), k) ∧
      t = restore s.hart next tf' k ∧ Resumes s t k.tm next := by
  unfold trap at h
  split at h
  · rename_i next tf' k hrun
    obtain rfl : restore s.hart next tf' k = t := by simpa using h
    refine ⟨next, tf', k, hrun, rfl, ?_⟩
    cases next with
    | none => exact Or.inr ⟨rfl, rfl, Or.inr ⟨tf', rfl⟩⟩
    | some i => exact Or.inl ⟨rfl, rfl⟩
  · simp at h

/-- The kernel in which the handler of a system call starts. -/
def entry (s : System) (tf : TrapFrame) : Kernel :=
  storeFrame s.hart tf { s.kernel with accesses := [] }

/-- The label says what an event shows: a system call what it returns, and any other event nothing
but the pid it may take. -/
def Shows (s : System) (label : TaskManager.Label) : Event → Prop
  | .ecall tf => Kernel.Labelled tf (s.entry tf) label
  | .spawn _ => label = .silent ∨ label = .create
  | _ => label = .silent

/-- How the effect of an event begins: a system call with its registers in the saved frame of the
task on the hart, and any other event without a system call. -/
def Entered (s : System) (m : TaskManager) (label : TaskManager.Label) (next : FramePtr)
    (m' : TaskManager) : Event → Prop
  | .ecall tf => m = (s.entry tf).tm
  | _ => Outside m label next m'

/-- **Refinement.**  Every step of the machine is one effect on the task manager, before and after
which at most the saved frame of the task on the hart is written. -/
theorem step_effect {s t : System} {ev : Event} (hs : s.OnHart) (h : s.step ev = some t) :
    ∃ m₁ m₂ label next, Framed s.hart s.kernel.tm m₁ ∧ Effect m₁ label next m₂ ∧
      Resumes s t m₂ next ∧ Shows s label ev ∧ Entered s m₁ label next m₂ ev := by
  have hindex : ∀ tf, (storeFrame s.hart tf s.kernel).tm.currentIndex = some s.hart := fun tf => by
    have hfind : (storeFrame s.hart tf s.kernel).tm.currentIndex = s.kernel.tm.currentIndex := by
      unfold TaskManager.currentIndex
      congr 1
      funext pid
      exact findPid_updateTask (f := fun t => { t with trapFrame := tf }) (fun _ => rfl) pid
    rw [hfind, hs.index]
  cases ev with
  | ecall tf =>
    simp only [step] at h
    by_cases huser : s.inUser = true
    · rw [if_pos huser] at h
      obtain ⟨next, tf', k, hrun, -, hres⟩ := trap_resumes h
      have hindex' : (s.entry tf).tm.currentIndex = some s.hart := hindex tf
      have hidle : (s.entry tf).tm.currentPid ≠ some idlePid := hs.user huser
      have hframe : ∃ t, (s.entry tf).tm.current = some t ∧ t.trapFrame = tf := by
        obtain ⟨a, ha, -⟩ := currentIndex_eq_some hs.index
        refine ⟨{ a with trapFrame := tf }, ?_, rfl⟩
        rw [current, hindex', Option.bind_some]
        simp [entry, storeFrame, updateTask, setTask, ha]
      obtain ⟨label, next', tf'', hnext, heff, hlabel⟩ :=
        Kernel.handle_effect hidle hindex' hframe hrun
      obtain ⟨rfl, rfl⟩ : next = next' ∧ tf' = tf'' := by simpa using hnext
      exact ⟨_, _, label, next, Or.inr ⟨tf, rfl⟩, heff, hres, hlabel, rfl⟩
    · simp [huser] at h
  | timer tf =>
    obtain ⟨next, tf', k, hrun, -, hres⟩ := trap_resumes h
    obtain ⟨next', k₁, hsched, hret⟩ := Kernel.noFail_schedule.bind_cases hrun
    obtain ⟨⟨rfl, rfl⟩, rfl⟩ : (next' = next ∧ tf = tf') ∧ k₁ = k := by simpa using hret
    have hout : Outside _ .silent next' _ :=
      Kernel.schedule_effect (P := Outside _ .silent) hsched (.yield tf)
    exact ⟨_, _, _, next', Or.inr ⟨tf, rfl⟩, hout.effect, hres, rfl, hout⟩
  | external irq tf =>
    obtain ⟨next, tf', k, hrun, -, hres⟩ := trap_resumes h
    unfold externalHandler at hrun
    by_cases hirq : irq = uart0Irq
    · rw [if_pos hirq, Kernel.onTm_bind] at hrun
      obtain ⟨next', k₁, hsched, hret⟩ := Kernel.noFail_schedule.bind_cases hrun
      obtain ⟨⟨rfl, rfl⟩, rfl⟩ : (next' = next ∧ tf = tf') ∧ k₁ = k := by simpa using hret
      have hout : Outside _ .silent next' _ :=
        Kernel.schedule_effect (P := Outside _ .silent) hsched (.uart tf)
      exact ⟨_, _, _, next', Or.inr ⟨tf, rfl⟩, hout.effect, hres, rfl, hout⟩
    · rw [if_neg hirq] at hrun
      obtain ⟨next', k₁, hsched, hret⟩ := Kernel.noFail_schedule.bind_cases hrun
      obtain ⟨⟨rfl, rfl⟩, rfl⟩ : (next' = next ∧ tf = tf') ∧ k₁ = k := by simpa using hret
      have hout : Outside _ .silent next' _ :=
        Kernel.schedule_effect (P := Outside _ .silent) hsched (.yield tf)
      exact ⟨_, _, _, next', Or.inr ⟨tf, rfl⟩, hout.effect, hres, rfl, hout⟩
  | store va byte =>
    simp only [step] at h
    by_cases huser : s.inUser = true
    · rw [if_pos huser, userStore] at h
      split at h
      · simp at h
      · split at h
        · simp at h
        · split at h
          · obtain rfl := Option.some.inj h
            exact ⟨_, _, _, none, Or.inl rfl, .touch (Or.inl rfl),
              Or.inr ⟨rfl, rfl, Or.inl rfl⟩, rfl, .keep⟩
          · simp at h
    · simp [huser] at h
  | spawn name =>
    simp only [step, Option.map_eq_some_iff] at h
    obtain ⟨⟨o, k⟩, hspawn, rfl⟩ := h
    rcases Kernel.spawn_effect hspawn with hout | hout
    · exact ⟨_, _, _, none, Or.inl rfl, hout.effect, Or.inr ⟨rfl, rfl, Or.inl rfl⟩, Or.inl rfl,
        hout⟩
    · exact ⟨_, _, _, none, Or.inl rfl, hout.effect, Or.inr ⟨rfl, rfl, Or.inl rfl⟩, Or.inr rfl,
        hout⟩

end System

end NekOS
