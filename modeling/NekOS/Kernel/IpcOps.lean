import NekOS.Kernel.Task

/-!
# The IPC operations

The six IPC operations of `kernel/task.rs` and the byte loops that copy payloads between the
address spaces of two tasks and the staging buffer of an endpoint.
-/

namespace NekOS

/-- `IpcResult`, apart from its error.  `resume` is `Continue` with the frame the caller resumes
with. -/
inductive IpcResult
  | resume (tf : TrapFrame)
  | blocked (next : FramePtr)

/-- The owner of an endpoint is blocked in a receive operation. -/
def Endpoint.receiverWaiting (ep : Endpoint) : Bool :=
  decide (ep.waitingReceiver = some ep.owner)

namespace TaskManager

/-- `endpoints.get(endpoint)`: the endpoint with its index. -/
def endpointAt (m : TaskManager) (endpoint : ℕ) : Option (Fin maxEndpoints × Endpoint) :=
  if h : endpoint < maxEndpoints then (m.endpoints ⟨endpoint, h⟩).map fun ep => (⟨endpoint, h⟩, ep)
  else none

/-- Queue a message; a payload occupies the staging buffer from now on. -/
def enqueue (e : Fin maxEndpoints) (message : Message) (m : TaskManager) : TaskManager :=
  m.updateEndpoint e fun ep =>
    { ep with
      hasBuffered := ep.hasBuffered || decide (0 < message.bufLen)
      pending := ep.pending.pushOk message }

/-- Hand a message to the owner of an endpoint, blocked in `ipc_recv` or `ipc_recv_buf` in the slot
`r`. -/
def deliver (e : Fin maxEndpoints) (r : Fin maxTasks) (sender : ℕ) (words : Words)
    (m : TaskManager) : TaskManager :=
  (m.wake r (setMessage sender words)).updateEndpoint e fun ep => { ep with waitingReceiver := none }

/-- Hand a message with the payload length to the owner of an endpoint.  The buffer that the owner
has declared is used up. -/
def deliverBuf (e : Fin maxEndpoints) (r : Fin maxTasks) (sender : ℕ) (words : Words)
    (copyLen : ℕ) (m : TaskManager) : TaskManager :=
  (m.wake r fun tf => { setMessage sender words tf with a5 := copyLen }).updateEndpoint e fun ep =>
    { ep with recvBufAddr := 0, recvBufCapacity := 0, waitingReceiver := none }

/-- The slot of the client that a reply is for: it waits in a call to an endpoint that the replier
owns. -/
def replyTarget (m : TaskManager) (replier client : ℕ) : Option (Fin maxTasks × Task) := do
  let index ← m.findPid client
  let task ← m.tasks index
  match task.waitingFor with
  | some (.ipcCall endpoint) =>
    let (_, ep) ← m.endpointAt endpoint
    if ep.owner = replier then some (index, task) else none
  | _ => none

/-- The page table of the last task in the table with a pid. -/
def lastPagetable (m : TaskManager) (pid : ℕ) : Option ℕ :=
  (m.tasks.search (List.finRange maxTasks).reverse fun t => t.pid = pid).bind fun i =>
    (m.tasks i).map Task.pagetable

end TaskManager

namespace Kernel

open TaskManager

/-! ### User memory -/

/-- The record of an access. -/
def accessOf (k : Kernel) (root va pa : ℕ) (write : Bool) : Access :=
  ⟨root, va, (PageTable.findPte k.phys root va).getD 0, pa, write⟩

/-- Read the byte at a physical address, reached through a virtual one. -/
def readAt (root va pa : ℕ) : Fallible Kernel UInt8 := do
  Fallible.modify fun k => { k with accesses := k.accessOf root va pa false :: k.accesses }
  Fallible.gets fun k => k.phys.mem.byteAt pa

/-- Write the byte at a physical address, reached through a virtual one. -/
def writeAt (root va pa : ℕ) (b : UInt8) : Fallible Kernel Unit :=
  Fallible.modify fun k =>
    { k with
      accesses := k.accessOf root va pa true :: k.accesses
      phys := k.phys.writeByte pa b }

/-- `virt_to_phys(..).ok_or(())?`. -/
def translate (root va : ℕ) : Fallible Kernel ℕ := do
  let ph ← Fallible.gets Kernel.phys
  Fallible.ofOption (PageTable.virtToPhys ph root va)

/-- `mem_copy_from_user` with the staging buffer of an endpoint as its destination. -/
def memCopyFromUser (root : ℕ) (e : Fin maxEndpoints) (userSrc len : ℕ) : Fallible Kernel Unit :=
  Fallible.forRange len fun i => do
    let pa ← translate root (wrap (userSrc + i))
    let b ← readAt root (wrap (userSrc + i)) pa
    onTm (updateEndpoint e fun ep => { ep with copyBuf := Function.update ep.copyBuf i b })

/-- `mem_copy_to_user`. -/
def memCopyToUser (root userDst : ℕ) (src : ℕ → UInt8) (len : ℕ) : Fallible Kernel Unit :=
  Fallible.forRange len fun i => do
    let pa ← translate root (wrap (userDst + i))
    writeAt root (wrap (userDst + i)) pa (src i)

/-- The copy loop of `ipc_reply_buf`, from one address space to another. -/
def copyUserToUser (srcRoot userSrc dstRoot userDst len : ℕ) : Fallible Kernel Unit :=
  Fallible.forRange len fun i => do
    let srcPa ← translate srcRoot (wrap (userSrc + i))
    let dstPa ← translate dstRoot (wrap (userDst + i))
    let b ← readAt srcRoot (wrap (userSrc + i)) srcPa
    writeAt dstRoot (wrap (userDst + i)) dstPa b

/-- `register_endpoint`. -/
def registerEndpoint (endpoint owner : ℕ) : Fallible Kernel Unit := do
  let m ← readTm
  if h : endpoint < maxEndpoints then
    if (m.endpoints ⟨endpoint, h⟩).isSome then Fallible.fail
    else if (m.findPid owner).isNone then Fallible.fail
    else onTm fun m =>
      { m with endpoints := m.endpoints.set ⟨endpoint, h⟩ (some (Endpoint.new owner)) }
  else Fallible.fail

/-! ### Plain messages -/

/-- `ipc_call`. -/
def ipcCall (endpoint : ℕ) (words : Words) (tf : TrapFrame) : Fallible Kernel IpcResult := do
  let m ← readTm
  let sender ← Fallible.ofOption m.currentPid
  let (e, ep) ← Fallible.ofOption (m.endpointAt endpoint)
  if sender = ep.owner ∨ ep.pending.isFull then Fallible.fail
  else
    let i ← Fallible.ofOption (m.findPid sender)
    onTm (block i (.ipcCall endpoint) tf)
    if ep.receiverWaiting then
      let m ← readTm
      let r ← Fallible.unwrap (m.findPid ep.owner)
      onTm (deliver e r sender words)
    else onTm (enqueue e ⟨sender, words, 0⟩)
    let next ← schedule tf
    return .blocked next

/-- `ipc_recv`. -/
def ipcRecv (endpoint : ℕ) (tf : TrapFrame) : Fallible Kernel IpcResult := do
  let m ← readTm
  let receiver ← Fallible.ofOption m.currentPid
  let (e, ep) ← Fallible.ofOption (m.endpointAt endpoint)
  if ep.owner ≠ receiver then Fallible.fail
  else
    match ep.pending.pop with
    | some (message, pending) =>
      onTm (updateEndpoint e fun ep => { ep with pending := pending })
      return .resume (setMessage message.sender message.words tf)
    | none =>
      onTm (updateEndpoint e fun ep => { ep with waitingReceiver := some receiver })
      let i ← Fallible.ofOption m.currentIndex
      onTm (block i (.ipcRecv endpoint) tf)
      let next ← schedule tf
      return .blocked next

/-- `ipc_reply`. -/
def ipcReply (client : ℕ) (words : Words) : Fallible Kernel Unit := do
  let m ← readTm
  let replier ← Fallible.ofOption m.currentPid
  let (index, task) ← Fallible.ofOption (m.replyTarget replier client)
  if task.state ≠ .sleeping then Fallible.fail
  else onTm (wake index (setReply words))

/-! ### Messages with a payload -/

/-- The number of bytes that `ipc_reply_buf` copies. -/
def replyLen (task : Task) (bufLen : ℕ) : ℕ := min (min bufLen task.trapFrame.a6) ipcBufSize

/-- `ipc_reply_buf`.  The frame of the client is written before the bytes are copied. -/
def ipcReplyBuf (client : ℕ) (words : Words) (userBuf bufLen : ℕ) : Fallible Kernel Unit := do
  let m ← readTm
  let replier ← Fallible.ofOption m.currentPid
  let (index, task) ← Fallible.ofOption (m.replyTarget replier client)
  let replierPt := if 0 < bufLen then m.lastPagetable replier else none
  if task.state ≠ .sleeping then Fallible.fail
  else
    let copyLen := replyLen task bufLen
    onTm (updateTask index fun t =>
      { t with trapFrame := { setReply words t.trapFrame with a5 := copyLen } })
    if 0 < copyLen then
      let replierPt ← Fallible.unwrap replierPt
      let callerPt ← Fallible.unwrap (m.lastPagetable client)
      copyUserToUser replierPt userBuf callerPt task.trapFrame.a5 copyLen
    onTm (wake index id)

/-- The part of `ipc_call_buf` that stages the payload. -/
def stage (e : Fin maxEndpoints) (userBuf bufLen : ℕ) : Fallible Kernel Unit :=
  if 0 < bufLen then do
    let m ← readTm
    let t ← Fallible.ofOption m.current
    memCopyFromUser t.pagetable e userBuf bufLen
    onTm (updateEndpoint e fun ep => { ep with copyLen := bufLen })
  else onTm (updateEndpoint e fun ep => { ep with copyLen := 0 })

/-- The part of `ipc_call_buf` that copies the staged payload to the blocked receiver in the slot
`r`, when it has left a buffer.  A payload that cannot be copied has length zero. -/
def handOver (e : Fin maxEndpoints) (r : Fin maxTasks) (bufLen : ℕ) : Fallible Kernel ℕ := do
  let m ← readTm
  let ep ← Fallible.unwrap (m.endpoints e)
  let receiver ← Fallible.unwrap (m.tasks r)
  if 0 < bufLen ∧ ep.recvBufAddr ≠ 0 then
    let copyLen := min bufLen ep.recvBufCapacity
    let copied ← Fallible.attempt (memCopyToUser receiver.pagetable ep.recvBufAddr ep.copyBuf copyLen)
    return if copied.isSome then copyLen else 0
  else return 0

/-- `ipc_call_buf`. -/
def ipcCallBuf (endpoint : ℕ) (words : Words) (userBuf bufLen : ℕ) (tf : TrapFrame) :
    Fallible Kernel IpcResult := do
  let m ← readTm
  let sender ← Fallible.ofOption m.currentPid
  let (e, ep) ← Fallible.ofOption (m.endpointAt endpoint)
  if sender = ep.owner ∨ ep.pending.isFull ∨ (ep.hasBuffered ∧ ¬ ep.receiverWaiting) then
    Fallible.fail
  else if ipcBufSize < bufLen then Fallible.fail
  else
    stage e userBuf bufLen
    let i ← Fallible.ofOption (m.findPid sender)
    onTm (block i (.ipcCall endpoint) tf)
    if ep.receiverWaiting then
      let m ← readTm
      let r ← Fallible.unwrap (m.findPid ep.owner)
      let copyLen ← handOver e r bufLen
      onTm (deliverBuf e r sender words copyLen)
    else onTm (enqueue e ⟨sender, words, bufLen % 2 ^ 16⟩)
    let next ← schedule tf
    return .blocked next

/-- The part of `ipc_recv_buf` that copies the payload of a queued message to the receiver.  The
result is the length it reports. -/
def unstage (e : Fin maxEndpoints) (message : Message) (userBuf capacity : ℕ) :
    Fallible Kernel ℕ := do
  onTm (updateEndpoint e fun ep => { ep with hasBuffered := false })
  let m ← readTm
  let copyLen := min message.bufLen capacity
  match m.current with
  | none => return 0
  | some t =>
    let ep ← Fallible.unwrap (m.endpoints e)
    if ipcBufSize < copyLen then Fallible.halt
    else
      let copied ← Fallible.attempt (memCopyToUser t.pagetable userBuf ep.copyBuf copyLen)
      return if copied.isSome then copyLen else 0

/-- `ipc_recv_buf`. -/
def ipcRecvBuf (endpoint userBuf capacity : ℕ) (tf : TrapFrame) : Fallible Kernel IpcResult := do
  let m ← readTm
  let receiver ← Fallible.ofOption m.currentPid
  let (e, ep) ← Fallible.ofOption (m.endpointAt endpoint)
  if ep.owner ≠ receiver then Fallible.fail
  else
    match ep.pending.pop with
    | some (message, pending) =>
      onTm (updateEndpoint e fun ep => { ep with pending := pending })
      let copyLen ← if 0 < message.bufLen then unstage e message userBuf capacity else pure 0
      return .resume { setMessage message.sender message.words tf with a5 := copyLen }
    | none =>
      onTm (updateEndpoint e fun ep =>
        { ep with
          waitingReceiver := some receiver
          recvBufAddr := userBuf
          recvBufCapacity := capacity })
      let i ← Fallible.ofOption m.currentIndex
      onTm (block i (.ipcRecv endpoint) tf)
      let next ← schedule tf
      return .blocked next

end Kernel

end NekOS
