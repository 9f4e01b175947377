import NekOS.Kernel.Syscall

/-!
# The system call wrappers of user programs

The inline assembly of `userlib` (`syscall.rs`, `ipc.rs`) and of the C library (`nekos.c`,
`fd_table.c`).  A wrapper puts the number of the system call into `a7` and its arguments into the
other registers, and declares to the compiler the registers that the system call may change.  No
wrapper declares a clobbered register, so the outputs are all there is.

For the IPC wrappers the registers they set, and the values they return, are given in full.
-/

namespace NekOS

/-- A register of a trap frame. -/
inductive Reg
  | ra | sp | gp | tp | t0 | t1 | t2 | s0 | s1
  | a0 | a1 | a2 | a3 | a4 | a5 | a6 | a7
  | s2 | s3 | s4 | s5 | s6 | s7 | s8 | s9 | s10 | s11
  | t3 | t4 | t5 | t6 | sstatus | sepc
  deriving DecidableEq, Repr

/-- The value of a register. -/
def TrapFrame.get (tf : TrapFrame) : Reg → ℕ
  | .ra => tf.ra
  | .sp => tf.sp
  | .gp => tf.gp
  | .tp => tf.tp
  | .t0 => tf.t0
  | .t1 => tf.t1
  | .t2 => tf.t2
  | .s0 => tf.s0
  | .s1 => tf.s1
  | .a0 => tf.a0
  | .a1 => tf.a1
  | .a2 => tf.a2
  | .a3 => tf.a3
  | .a4 => tf.a4
  | .a5 => tf.a5
  | .a6 => tf.a6
  | .a7 => tf.a7
  | .s2 => tf.s2
  | .s3 => tf.s3
  | .s4 => tf.s4
  | .s5 => tf.s5
  | .s6 => tf.s6
  | .s7 => tf.s7
  | .s8 => tf.s8
  | .s9 => tf.s9
  | .s10 => tf.s10
  | .s11 => tf.s11
  | .t3 => tf.t3
  | .t4 => tf.t4
  | .t5 => tf.t5
  | .t6 => tf.t6
  | .sstatus => tf.sstatus
  | .sepc => tf.sepc

/-- A wrapper: the number of its system call and the registers it declares as outputs. -/
structure Wrapper where
  /-- The value of `a7`. -/
  number : ℕ
  /-- The outputs. -/
  outputs : List Reg
  deriving DecidableEq

/-! ### `userlib/src/syscall.rs` -/

namespace Syscall

/-- `exit`. -/
def exit : Wrapper := ⟨2, []⟩

/-- `yield_now`. -/
def yieldNow : Wrapper := ⟨4, []⟩

/-- `getpid`. -/
def getpid : Wrapper := ⟨5, [.a0]⟩

/-- `fork`. -/
def fork : Wrapper := ⟨6, [.a0]⟩

/-- `ps`. -/
def ps : Wrapper := ⟨7, []⟩

/-- `exec`. -/
def exec : Wrapper := ⟨8, [.a0]⟩

/-- `waitpid`. -/
def waitpid : Wrapper := ⟨9, [.a0]⟩

/-- `irq_wait`. -/
def irqWait : Wrapper := ⟨13, [.a0]⟩

/-- `sbrk`. -/
def sbrk : Wrapper := ⟨14, [.a0]⟩

/-- `ipc_call_buf`. -/
def ipcCallBuf : Wrapper := ⟨15, [.a0]⟩

/-- `ipc_recv_buf`. -/
def ipcRecvBuf : Wrapper := ⟨16, [.a0, .a5]⟩

end Syscall

/-! ### `userlib/src/ipc.rs` -/

namespace Ipc

/-- `call`. -/
def call : Wrapper := ⟨10, [.a0, .a1, .a2, .a3]⟩

/-- `recv`. -/
def recv : Wrapper := ⟨11, [.a0, .a1, .a2, .a3, .a4]⟩

/-- `reply`. -/
def reply : Wrapper := ⟨12, [.a0]⟩

/-- `call_buf`. -/
def callBuf : Wrapper := ⟨15, [.a0, .a1, .a2, .a3, .a4]⟩

/-- `recv_buf`. -/
def recvBuf : Wrapper := ⟨16, [.a0, .a1, .a2, .a3, .a4, .a5]⟩

/-- `reply_buf`. -/
def replyBuf : Wrapper := ⟨17, [.a0]⟩

end Ipc

/-! ### `libc/nekos.c` and `libc/fd_table.c` -/

namespace Libc

/-- `nekos_exit`. -/
def nekosExit : Wrapper := ⟨2, [.a0]⟩

/-- `nekos_yield`. -/
def nekosYield : Wrapper := ⟨4, [.a0]⟩

/-- `nekos_getpid`. -/
def nekosGetpid : Wrapper := ⟨5, [.a0]⟩

/-- `nekos_fork`. -/
def nekosFork : Wrapper := ⟨6, [.a0]⟩

/-- `nekos_ps`. -/
def nekosPs : Wrapper := ⟨7, [.a0]⟩

/-- `nekos_exec`. -/
def nekosExec : Wrapper := ⟨8, [.a0]⟩

/-- `nekos_waitpid`. -/
def nekosWaitpid : Wrapper := ⟨9, [.a0]⟩

/-- `nekos_irq_wait`. -/
def nekosIrqWait : Wrapper := ⟨13, [.a0]⟩

/-- `nekos_sbrk`. -/
def nekosSbrk : Wrapper := ⟨14, [.a0]⟩

/-- `nekos_ipc_call`. -/
def nekosIpcCall : Wrapper := ⟨10, [.a0, .a1, .a2, .a3]⟩

/-- `nekos_ipc_recv`. -/
def nekosIpcRecv : Wrapper := ⟨11, [.a0, .a1, .a2, .a3, .a4]⟩

/-- `nekos_ipc_reply`. -/
def nekosIpcReply : Wrapper := ⟨12, [.a0]⟩

/-- `nekos_shutdown`. -/
def nekosShutdown : Wrapper := ⟨18, []⟩

/-- `nekos_ipc_call_buf`. -/
def nekosIpcCallBuf : Wrapper := ⟨15, [.a0]⟩

/-- `nekos_ipc_recv_buf`. -/
def nekosIpcRecvBuf : Wrapper := ⟨16, [.a0, .a3, .a4, .a5, .a6]⟩

/-- `nekos_ipc_reply_buf`. -/
def nekosIpcReplyBuf : Wrapper := ⟨17, [.a0]⟩

/-- The buffered calls of `fd_table.c`, which all declare the same outputs. -/
def callBufWithPath : Wrapper := ⟨15, [.a0, .a1, .a2, .a3]⟩

end Libc

/-- The wrappers of user programs. -/
def wrappers : List Wrapper :=
  [Syscall.exit, Syscall.yieldNow, Syscall.getpid, Syscall.fork, Syscall.ps, Syscall.exec,
    Syscall.waitpid, Syscall.irqWait, Syscall.sbrk, Syscall.ipcCallBuf, Syscall.ipcRecvBuf,
    Ipc.call, Ipc.recv, Ipc.reply, Ipc.callBuf, Ipc.recvBuf, Ipc.replyBuf,
    Libc.nekosExit, Libc.nekosYield, Libc.nekosGetpid, Libc.nekosFork, Libc.nekosPs,
    Libc.nekosExec, Libc.nekosWaitpid, Libc.nekosIrqWait, Libc.nekosSbrk, Libc.nekosIpcCall,
    Libc.nekosIpcRecv, Libc.nekosIpcReply, Libc.nekosShutdown, Libc.nekosIpcCallBuf,
    Libc.nekosIpcRecvBuf, Libc.nekosIpcReplyBuf, Libc.callBufWithPath]

/-- Every wrapper makes a system call that exists. -/
lemma wrappers_defined : ∀ w ∈ wrappers, (Sysno.decode w.number).isSome := by
  decide

/-! ### Requests -/

/-- The wrappers that send a request. -/
inductive RequestWrapper
  /-- `ipc::call`. -/
  | call
  /-- `ipc::call_buf`. -/
  | callBuf
  /-- `nekos_ipc_call`. -/
  | nekosIpcCall
  /-- `nekos_ipc_call_buf`. -/
  | nekosIpcCallBuf
  deriving DecidableEq

/-- The registers with which a request is made.  The plain wrappers take no buffer. -/
def RequestWrapper.frame (endpoint : ℕ) (words : Words) (buf bufLen : ℕ) (base : TrapFrame) :
    RequestWrapper → TrapFrame
  | .call =>
    { base with
      a0 := endpoint, a1 := words.w0, a2 := words.w1, a3 := words.w2, a4 := words.w3, a7 := 10 }
  | .callBuf =>
    { base with
      a0 := endpoint, a1 := words.w0, a2 := words.w1, a3 := words.w2, a4 := words.w3,
      a5 := buf, a6 := bufLen, a7 := 15 }
  | .nekosIpcCall =>
    { base with
      a0 := endpoint, a1 := words.w0, a2 := words.w1, a3 := words.w2, a4 := words.w3, a7 := 10 }
  | .nekosIpcCallBuf =>
    { base with
      a0 := endpoint, a1 := words.w0, a2 := words.w1, a3 := words.w2, a4 := words.w3,
      a5 := buf, a6 := bufLen, a7 := 15 }

/-! ### Receiving -/

/-- The wrappers that receive a request. -/
inductive ReceiveWrapper
  /-- `ipc::recv`. -/
  | recv
  /-- `ipc::recv_buf`. -/
  | recvBuf
  /-- `nekos_ipc_recv`. -/
  | nekosIpcRecv
  /-- `nekos_ipc_recv_buf`. -/
  | nekosIpcRecvBuf
  deriving DecidableEq

/-- The registers with which a receive operation is made.  The plain wrappers take no buffer. -/
def ReceiveWrapper.frame (endpoint buf capacity : ℕ) (base : TrapFrame) :
    ReceiveWrapper → TrapFrame
  | .recv => { base with a0 := endpoint, a7 := 11 }
  | .recvBuf => { base with a0 := endpoint, a1 := buf, a2 := capacity, a7 := 16 }
  | .nekosIpcRecv => { base with a0 := endpoint, a7 := 11 }
  | .nekosIpcRecvBuf => { base with a0 := endpoint, a1 := buf, a2 := capacity, a7 := 16 }

/-- The client and the words that a wrapper returns, from the registers with which it continues;
`old` is what the array for the words holds before. -/
def ReceiveWrapper.result (old : Words) (tf : TrapFrame) : ReceiveWrapper → Option (ℕ × Words)
  | .recv =>
    if tf.a0 = usizeMax then none else some (tf.a0 % 2 ^ 32, ⟨tf.a1, tf.a2, tf.a3, tf.a4⟩)
  | .recvBuf =>
    if tf.a0 = usizeMax then none else some (tf.a0 % 2 ^ 32, ⟨tf.a1, tf.a2, tf.a3, tf.a4⟩)
  | .nekosIpcRecv =>
    if tf.a0 = usizeMax then none else some (tf.a0 % 2 ^ 32, ⟨tf.a1, tf.a2, tf.a3, tf.a4⟩)
  | .nekosIpcRecvBuf =>
    if tf.a0 = usizeMax then none else some (tf.a0 % 2 ^ 32, ⟨tf.a3, tf.a4, old.w2, old.w3⟩)

/-! ### Exit status -/

namespace Libc

/-- The registers with which `nekos_exit` makes its system call. -/
def exitFrame (code : ℤ) (base : TrapFrame) : TrapFrame := { base with a0 := asUsize code, a7 := 2 }

/-- The registers with which `nekos_waitpid` makes its system call. -/
def waitpidFrame (pid : ℕ) (base : TrapFrame) : TrapFrame := { base with a0 := pid, a7 := 9 }

/-- `waitpid`, with the result of `nekos_waitpid` in `a0`: the pid it returns and the status it
stores, or nothing when it returns an error. -/
def waitpid (pid options : ℤ) (a0 : ℕ) : Option (ℤ × ℤ) :=
  if pid ≤ 0 ∨ options ≠ 0 then none
  else if asIsize a0 < 0 then none
  else some (pid, asI32 a0 % 256 * 256)

/-- `WEXITSTATUS`. -/
def wexitstatus (status : ℤ) : ℤ := status / 256 % 256

end Libc

end NekOS
