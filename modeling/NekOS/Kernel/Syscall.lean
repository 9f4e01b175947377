import NekOS.Kernel.Exec
import NekOS.Foundation.Machine
import NekOS.Kernel.IpcOps

/-!
# System calls and the machine

`handle` dispatches a system call as `kernel/syscall.rs` does.  `System` adds the hart to the
kernel: the slot whose frame the last trap restored.  The events of the machine are the traps of
`kernel/trap.rs` and the stores of the running program; a kernel panic and a shutdown stop it.
`boot` is `kernel_main`.
-/

namespace NekOS

/-- The number of a system call is held in `a7`. -/
inductive Sysno
  | exit
  | yield
  | getpid
  | fork
  | ps
  | exec
  | waitpid
  | ipcCall
  | ipcRecv
  | ipcReply
  | irqWait
  | sbrk
  | ipcCallBuf
  | ipcRecvBuf
  | ipcReplyBuf
  | shutdown
  deriving DecidableEq, Repr

/-- The system call with a number. -/
def Sysno.decode : ℕ → Option Sysno
  | 2 => some .exit
  | 4 => some .yield
  | 5 => some .getpid
  | 6 => some .fork
  | 7 => some .ps
  | 8 => some .exec
  | 9 => some .waitpid
  | 10 => some .ipcCall
  | 11 => some .ipcRecv
  | 12 => some .ipcReply
  | 13 => some .irqWait
  | 14 => some .sbrk
  | 15 => some .ipcCallBuf
  | 16 => some .ipcRecvBuf
  | 17 => some .ipcReplyBuf
  | 18 => some .shutdown
  | _ => none

/-- `UART0_IRQ`. -/
def uart0Irq : ℕ := 10

namespace Kernel

open TaskManager

/-- `current_pid()`: the pid of the current task, zero when there is none. -/
def getpid (m : TaskManager) : ℕ := (m.current.map Task.pid).getD 0

/-- `translate_user` and the read that follows it in `sys_exec`. -/
def readUser (va : ℕ) : Fallible Kernel UInt8 := do
  let m ← readTm
  let t ← Fallible.ofOption m.current
  let pa ← translate t.pagetable va
  readAt t.pagetable va pa

/-- The loop of `sys_exec` that reads the file name. -/
def readName (va len : ℕ) : Fallible Kernel (List UInt8) :=
  Fallible.foldRange len (fun i bytes => do
    let b ← readUser (wrap (va + i))
    return bytes ++ [b]) []

/-- `sys_exec`, at most 63 bytes of the name. -/
def sysExec (filenameVa requestedLen : ℕ) (tf : TrapFrame) : Fallible Kernel TrapFrame := do
  let bytes ← readName filenameVa (min requestedLen 63)
  let name ← Fallible.ofOption (String.fromUTF8? ⟨bytes.toArray⟩)
  exec name tf

/-- The words of a message, in `a1` to `a4`. -/
def argWords (tf : TrapFrame) : Words := ⟨tf.a1, tf.a2, tf.a3, tf.a4⟩

/-- The frame of a system call that has failed. -/
def errorFrame (tf : TrapFrame) : TrapFrame := { tf with a0 := usizeMax }

/-- A system call that returns a value in `a0`, or the error value. -/
def returning (tf : TrapFrame) (f : Fallible Kernel ℕ) : Fallible Kernel (FramePtr × TrapFrame) := do
  match ← Fallible.attempt f with
  | some a => return (none, { tf with a0 := a })
  | none => return (none, errorFrame tf)

/-- A system call that returns zero, or the error value. -/
def succeeding (tf : TrapFrame) (f : Fallible Kernel Unit) :
    Fallible Kernel (FramePtr × TrapFrame) :=
  returning tf (f >>= fun _ => pure 0)

/-- An IPC operation that may block the caller. -/
def blocking (tf : TrapFrame) (f : Fallible Kernel IpcResult) :
    Fallible Kernel (FramePtr × TrapFrame) := do
  match ← Fallible.attempt f with
  | some (.resume tf) => return (none, tf)
  | some (.blocked next) => return (next, tf)
  | none => return (none, errorFrame tf)

/-- The system calls, on the frame with `sepc` already advanced.  The result is the frame to
restore and the contents of `*tf`. -/
def dispatch (call : Sysno) (tf : TrapFrame) : Fallible Kernel (FramePtr × TrapFrame) :=
  match call with
  | .exit => do
    let next ← exitCurrent (asI32 tf.a0)
    return (next, tf)
  | .yield => do
    let next ← schedule { tf with a0 := 0 }
    return (next, { tf with a0 := 0 })
  | .getpid => do
    let m ← readTm
    return (none, { tf with a0 := getpid m })
  | .fork => returning tf (fork tf)
  | .ps => return (none, { tf with a0 := 0 })
  | .exec => do
    match ← Fallible.attempt (sysExec tf.a0 tf.a1 tf) with
    | some tf => return (none, { tf with a0 := 0 })
    | none => return (none, errorFrame tf)
  | .waitpid => do
    match ← Fallible.attempt (waitpid (tf.a0 % 2 ^ 32) tf) with
    | some (.reaped exitCode) => return (none, { tf with a0 := asUsize exitCode })
    | some (.blocked next) => return (next, tf)
    | none => return (none, errorFrame tf)
  | .ipcCall => blocking tf (ipcCall tf.a0 (argWords tf) tf)
  | .ipcRecv => blocking tf (ipcRecv tf.a0 tf)
  | .ipcReply => succeeding tf (ipcReply (tf.a0 % 2 ^ 32) (argWords tf))
  | .irqWait =>
    if tf.a0 ≠ uart0Irq then pure (none, errorFrame tf)
    else do
      match ← Fallible.attempt (waitUartIrq tf) with
      | some next => return (next, tf)
      | none => return (none, errorFrame tf)
  | .sbrk => returning tf (sbrk (asIsize tf.a0))
  | .ipcCallBuf => blocking tf (ipcCallBuf tf.a0 (argWords tf) tf.a5 tf.a6 tf)
  | .ipcRecvBuf => blocking tf (ipcRecvBuf tf.a0 tf.a1 tf.a2 tf)
  | .ipcReplyBuf => succeeding tf (ipcReplyBuf (tf.a0 % 2 ^ 32) (argWords tf) tf.a5 tf.a6)
  | .shutdown => Fallible.halt

/-- `handle`: an unknown system call is a panic. -/
def handle (tf : TrapFrame) : Fallible Kernel (FramePtr × TrapFrame) :=
  match Sysno.decode tf.a7 with
  | some call => dispatch call { tf with sepc := wrap (tf.sepc + 4) }
  | none => Fallible.halt

end Kernel

/-! ### The machine -/

/-- The kernel and the hart it runs on. -/
structure System where
  /-- The kernel. -/
  kernel : Kernel
  /-- The slot whose frame the last trap restored. -/
  hart : Fin maxTasks

/-- What can happen while a task is on the hart. -/
inductive Event
  /-- The running program makes a system call with these registers. -/
  | ecall (tf : TrapFrame)
  /-- The timer interrupts the running task. -/
  | timer (tf : TrapFrame)
  /-- A device interrupts the running task. -/
  | external (irq : ℕ) (tf : TrapFrame)
  /-- The running program stores a byte. -/
  | store (va : ℕ) (byte : UInt8)
  /-- The kernel starts another program of the ramdisk. -/
  | spawn (name : String)

namespace System

/-- The slot of the idle task, which is created first. -/
def idleSlot : Fin maxTasks := ⟨0, by decide⟩

/-- The task on the hart is a user program.  The idle task only waits for interrupts: it makes no
system calls and stores nothing. -/
def inUser (s : System) : Bool := decide (s.hart ≠ idleSlot)

/-- Store registers in the frame of the task in a slot. -/
def storeFrame (hart : Fin maxTasks) (tf : TrapFrame) (k : Kernel) : Kernel :=
  { k with tm := k.tm.updateTask hart fun t => { t with trapFrame := tf } }

/-- Trap return: the frame to restore selects the task on the hart.  Without one the interrupted
task continues with the registers `tf`. -/
def restore (hart : Fin maxTasks) (next : FramePtr) (tf : TrapFrame) (k : Kernel) : System :=
  match next with
  | some i => ⟨k, i⟩
  | none => ⟨storeFrame hart tf k, hart⟩

/-- A trap: the registers are saved in the frame of the task on the hart, the handler runs, and a
frame is restored.  Handlers end without an error. -/
def trap (tf : TrapFrame) (handler : Fallible Kernel (FramePtr × TrapFrame)) (s : System) :
    Option System :=
  match handler (storeFrame s.hart tf s.kernel) with
  | some (some (next, tf'), k) => some (restore s.hart next tf' k)
  | _ => none

/-- The timer branch of `trap_handler`. -/
def timerHandler (tf : TrapFrame) : Fallible Kernel (FramePtr × TrapFrame) := do
  let next ← Kernel.schedule tf
  return (next, tf)

/-- The external interrupt branch of `trap_handler`. -/
def externalHandler (irq : ℕ) (tf : TrapFrame) : Fallible Kernel (FramePtr × TrapFrame) := do
  if irq = uart0Irq then Kernel.onTm TaskManager.wakeUart
  timerHandler tf

/-- A store by the running program: the entry must be valid, writable and open to user mode. -/
def userStore (va : ℕ) (byte : UInt8) (s : System) : Option System :=
  match s.kernel.tm.tasks s.hart with
  | none => none
  | some t =>
    match PageTable.findPte s.kernel.phys t.pagetable va with
    | none => none
    | some pte =>
      if hasFlag pte pteV && hasFlag pte pteU && hasFlag pte pteW then
        some { s with kernel := { s.kernel with
          phys := s.kernel.phys.writeByte (pteToPa pte + va % pageSize) byte } }
      else none

/-- The effect of an event. -/
def step (s : System) : Event → Option System
  | .ecall tf =>
    if s.inUser then
      trap tf (Kernel.handle tf) { s with kernel := { s.kernel with accesses := [] } }
    else none
  | .timer tf => trap tf (timerHandler tf) s
  | .external irq tf => trap tf (externalHandler irq tf) s
  | .store va byte => if s.inUser then userStore va byte s else none
  | .spawn name => (Kernel.spawn name s.kernel).map fun r => { s with kernel := r.2 }

end System

/-! ### Boot -/

/-- What the boot depends on. -/
structure Config where
  /-- `__kernel_end`. -/
  kernelEnd : ℕ
  /-- The address of `idle_main`. -/
  idleEntry : ℕ
  /-- The files of the initial ramdisk. -/
  files : List (String × List UInt8)
  /-- The contents of memory at power-on. -/
  mem : Memory
  /-- The kernel is linked at `kernelStart`. -/
  start_le : kernelStart ≤ kernelEnd
  /-- The kernel ends inside the 128 MB of memory. -/
  end_le : kernelEnd ≤ 0x88000000

namespace Config

/-- `aligned_end` of `page::init`. -/
def alignedEnd (c : Config) : ℕ := pageCeil c.kernelEnd

/-- `page::init` and `task::init`, with the files of the ramdisk. -/
def powerOn (c : Config) : Kernel where
  tm := TaskManager.new
  phys :=
    { page := PageAllocator.new c.alignedEnd
        ((128 * 1024 * 1024 - (c.alignedEnd - 0x80000000)) / pageSize)
      mem := c.mem }
  files := c.files
  accesses := []

/-- `kernel_main`: the slot of the first task. -/
def kernelMain (c : Config) : Fallible Kernel (Fin maxTasks) := do
  let _ ← Fallible.expect (Kernel.onPhys Vm.init)
  let _ ← Fallible.expect (Kernel.createIdle c.idleEntry)
  let consolePid ← Fallible.expect (Kernel.spawn "console")
  Fallible.expect (Kernel.grantUart consolePid)
  Fallible.expect (Kernel.registerEndpoint consoleEndpoint consolePid)
  let fsPid ← Fallible.expect (Kernel.spawn "fs-server")
  Fallible.expect (Kernel.registerEndpoint fsEndpoint fsPid)
  let shellPid ← Fallible.expect (Kernel.spawn "shell")
  Kernel.enterTask shellPid

/-- The state in which the first program starts, when the boot goes through. -/
def boot (c : Config) : Option System :=
  (c.kernelMain c.powerOn).bind fun r => r.1.map fun hart => ⟨r.2, hart⟩

end Config

/-- The machine. -/
def nekos : Machine System Event where
  init s := ∃ c : Config, c.boot = some s
  step := System.step

end NekOS
