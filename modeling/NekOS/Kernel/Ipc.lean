import NekOS.Foundation.RingBuffer
import NekOS.Kernel.Arch

/-!
# Endpoints

The data of the synchronous IPC interface (`kernel/ipc.rs`): messages, the bounded queue of
pending messages of an endpoint, and the endpoint with its single staging buffer.
-/

namespace NekOS

/-- `MAX_ENDPOINTS`. -/
def maxEndpoints : ℕ := 8

/-- `CONSOLE_ENDPOINT`. -/
def consoleEndpoint : ℕ := 1

/-- `FS_ENDPOINT`. -/
def fsEndpoint : ℕ := 2

/-- `MSG_QUEUE_SIZE`: the number of pending messages an endpoint can hold. -/
def msgQueueSize : ℕ := 8

/-- `IPC_BUF_SIZE`: the size of the staging buffer of an endpoint. -/
def ipcBufSize : ℕ := 4096

/-- `Message`. -/
structure Message where
  /-- The pid of the caller. -/
  sender : ℕ
  /-- The message words. -/
  words : Words
  /-- The length of the payload in the staging buffer, zero for a plain message (a `u16`). -/
  bufLen : ℕ
  deriving DecidableEq

/-- `MsgQueue`: the ring of pending messages. -/
abbrev MsgQueue := RingBuffer Message msgQueueSize

/-- `MsgQueue::new`. -/
def MsgQueue.new : MsgQueue := RingBuffer.new ⟨0, ⟨0, 0, 0, 0⟩, 0⟩ (by decide)

/-- `Endpoint`. -/
structure Endpoint where
  /-- The pid of the server. -/
  owner : ℕ
  /-- The owner, while it is blocked in a receive operation. -/
  waitingReceiver : Option ℕ
  /-- The messages not yet received. -/
  pending : MsgQueue
  /-- The staging buffer; its first `ipcBufSize` cells are used. -/
  copyBuf : ℕ → UInt8
  /-- The number of bytes staged last. -/
  copyLen : ℕ
  /-- The buffer of a receiver blocked in `ipc_recv_buf`. -/
  recvBufAddr : ℕ
  /-- The capacity of that buffer. -/
  recvBufCapacity : ℕ
  /-- A pending message has its payload in the staging buffer. -/
  hasBuffered : Bool

/-- The endpoint that `register_endpoint` installs. -/
def Endpoint.new (owner : ℕ) : Endpoint where
  owner := owner
  waitingReceiver := none
  pending := MsgQueue.new
  copyBuf _ := 0
  copyLen := 0
  recvBufAddr := 0
  recvBufCapacity := 0
  hasBuffered := false

/-- `push(msg).ok()`: append a message; a full queue stays as it is. -/
def MsgQueue.pushOk (q : MsgQueue) (m : Message) : MsgQueue := (q.push m).getD q

/-- `set_message`: the registers in which a receiver finds a message. -/
def setMessage (sender : ℕ) (words : Words) (frame : TrapFrame) : TrapFrame :=
  { frame with a0 := sender, a1 := words.w0, a2 := words.w1, a3 := words.w2, a4 := words.w3 }

/-- The registers in which a client finds the words of a reply. -/
def setReply (words : Words) (frame : TrapFrame) : TrapFrame :=
  { frame with a0 := words.w0, a1 := words.w1, a2 := words.w2, a3 := words.w3 }

end NekOS
