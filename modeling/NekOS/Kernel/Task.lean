import NekOS.Foundation.Slots
import NekOS.Kernel.Ipc
import NekOS.Kernel.PageTable

/-!
# Tasks and the scheduler

The process manager of `kernel/task.rs`: the task table, scheduling, `fork`, `replace_current`,
`sbrk`, `waitpid`, `exit_current`, the UART interrupt and the creation of tasks.

`Kernel` holds the task manager together with physical memory and the files of the initial
ramdisk.  The saved trap frame of a task is a field of the task.  A trap hands the registers of the
interrupted task to the kernel as the argument `tf`; functions that pick the next task return the
slot whose saved frame is restored, or nothing when `tf` itself is.
-/

namespace NekOS

/-- `MAX_TASKS`. -/
def maxTasks : ℕ := 16

/-- `TaskState`. -/
inductive TaskState
  | unused
  | ready
  | running
  | sleeping
  | zombie
  deriving DecidableEq, Repr

/-- `WaitChannel`. -/
inductive WaitChannel
  | child (pid : ℕ)
  | uartRx
  | ipcCall (endpoint : ℕ)
  | ipcRecv (endpoint : ℕ)
  deriving DecidableEq, Repr

/-- `Task`. -/
structure Task where
  pid : ℕ
  state : TaskState
  /-- The saved registers, at the top of the kernel stack. -/
  trapFrame : TrapFrame
  kernelStack : ℕ
  userStack : ℕ
  entry : ℕ
  /-- The address of the root of the page table. -/
  pagetable : ℕ
  exitCode : ℤ
  imageBase : ℕ
  imageSize : ℕ
  heapBase : ℕ
  heapEnd : ℕ
  parentPid : Option ℕ
  waitingFor : Option WaitChannel

/-- One byte of user memory that the kernel has read or written on behalf of a system call.  The
record is kept for the statements about such accesses and is never read by the kernel. -/
structure Access where
  /-- The page table that translated the address. -/
  root : ℕ
  /-- The virtual address. -/
  va : ℕ
  /-- The last-level entry used. -/
  pte : ℕ
  /-- The physical address. -/
  pa : ℕ
  /-- The byte was written. -/
  write : Bool
  deriving DecidableEq

/-- `TaskManager`. -/
structure TaskManager where
  /-- The pid of the current task. -/
  currentPid : Option ℕ
  /-- The task table. -/
  tasks : Slots maxTasks Task
  /-- The next pid (a `u32`). -/
  nextPid : ℕ
  /-- The number of runnable tasks (a `u32`). -/
  runnableCount : ℕ
  /-- The endpoints. -/
  endpoints : Slots maxEndpoints Endpoint
  /-- The task that may use the UART. -/
  uartOwner : Option ℕ

/-- The state of the kernel. -/
structure Kernel where
  /-- The process manager. -/
  tm : TaskManager
  /-- Physical memory and its allocator. -/
  phys : Phys
  /-- The files of the initial ramdisk. -/
  files : List (String × List UInt8)
  /-- The accesses to user memory of the last system call, newest first. -/
  accesses : List Access

/-- The frame that a trap restores: the saved one of a slot, or (`none`) the frame `tf` the trap
came with. -/
abbrev FramePtr := Option (Fin maxTasks)

namespace TaskManager

/-- `IDLE_PID`. -/
def idlePid : ℕ := 0

/-- `HEAP_LIMIT`: the last page below the stack top is the stack, the one below it a guard. -/
def heapLimit : ℕ := userStackTop - 2 * pageSize

/-- `align_up`. -/
def alignUp (value : ℕ) : Option ℕ := (checkedAdd value (pageSize - 1)).map pageFloor

/-- `TaskManager::new`. -/
def new : TaskManager where
  currentPid := none
  tasks _ := none
  nextPid := 1
  runnableCount := 0
  endpoints _ := none
  uartOwner := none

/-- The slot of the first task with a pid. -/
def findPid (m : TaskManager) (pid : ℕ) : Option (Fin maxTasks) :=
  m.tasks.position fun t => t.pid = pid

/-- The slot of the current task (`current_mut`). -/
def currentIndex (m : TaskManager) : Option (Fin maxTasks) := m.currentPid.bind m.findPid

/-- `current`: the current task. -/
def current (m : TaskManager) : Option Task := m.currentIndex.bind m.tasks

/-- Change what a slot of the task table holds. -/
def setTask (i : Fin maxTasks) (o : Option Task) (m : TaskManager) : TaskManager :=
  { m with tasks := m.tasks.set i o }

/-- Change the task in a slot. -/
def updateTask (i : Fin maxTasks) (f : Task → Task) (m : TaskManager) : TaskManager :=
  m.setTask i ((m.tasks i).map f)

/-- Change an endpoint. -/
def updateEndpoint (e : Fin maxEndpoints) (f : Endpoint → Endpoint) (m : TaskManager) :
    TaskManager :=
  { m with endpoints := m.endpoints.set e ((m.endpoints e).map f) }

/-- `runnable_count += 1`. -/
def incRunnable (m : TaskManager) : TaskManager :=
  { m with runnableCount := (m.runnableCount + 1) % 2 ^ 32 }

/-- `runnable_count -= 1`, wrapping. -/
def decRunnable (m : TaskManager) : TaskManager :=
  { m with runnableCount := (m.runnableCount + (2 ^ 32 - 1)) % 2 ^ 32 }

/-- `runnable_count.saturating_sub(1)`. -/
def satDecRunnable (m : TaskManager) : TaskManager :=
  { m with runnableCount := m.runnableCount - 1 }

/-- `next_pid += 1`. -/
def bumpPid (m : TaskManager) : TaskManager := { m with nextPid := (m.nextPid + 1) % 2 ^ 32 }

/-- Put the task in a slot to sleep on a channel: its frame is saved and it no longer counts as
runnable. -/
def block (i : Fin maxTasks) (channel : WaitChannel) (tf : TrapFrame) (m : TaskManager) :
    TaskManager :=
  (m.updateTask i fun t =>
    { t with state := .sleeping, waitingFor := some channel, trapFrame := tf }).satDecRunnable

/-- Make the sleeping task in a slot ready, with the result of its system call in its frame. -/
def wake (i : Fin maxTasks) (result : TrapFrame → TrapFrame) (m : TaskManager) : TaskManager :=
  (m.updateTask i fun t =>
    { t with state := .ready, waitingFor := none, trapFrame := result t.trapFrame }).incRunnable

/-! ### Scheduling -/

/-- A zombie without a parent, which no one will wait for. -/
def detached (currentPid : Option ℕ) (t : Task) : Bool :=
  decide (t.state = .zombie) && t.parentPid.isNone && decide (some t.pid ≠ currentPid)

/-- Make the task in a slot the running one. -/
def runSlot (i : Fin maxTasks) (m : TaskManager) : TaskManager :=
  { m.updateTask i fun t => { t with state := .running } with
    currentPid := (m.tasks i).map Task.pid }

/-- The tasks that the scheduler chooses from before it turns to the idle task. -/
def selectable (t : Task) : Bool := decide (t.pid ≠ idlePid) && decide (t.state = .ready)

/-- The slot that the scheduler chooses when it visits the slots in a given order. -/
def choose (m : TaskManager) (order : List (Fin maxTasks)) : Option (Fin maxTasks) :=
  (m.tasks.search order selectable).or (m.findPid idlePid)

/-- Save the frame of the current task; a running one becomes ready. -/
def preempt (tf : TrapFrame) (m : TaskManager) : TaskManager :=
  match m.currentIndex with
  | none => m
  | some i => m.updateTask i fun t =>
    { t with trapFrame := tf, state := if t.state = .running then .ready else t.state }

/-- The order in which `schedule` visits the slots: from the one after the current task on. -/
def visitOrder (m : TaskManager) : List (Fin maxTasks) :=
  Slots.cyclicFrom (match m.currentIndex with
    | none => 0
    | some i => (i + 1) % maxTasks)

/-- Run the chosen slot, if there is one. -/
def runChosen (next : FramePtr) (m : TaskManager) : TaskManager :=
  match next with
  | none => m
  | some i => m.runSlot i

/-! ### Exit -/

/-- The part of `exit_current` that turns the current task into a zombie and its children into
orphans. -/
def bury (i : Fin maxTasks) (code : ℤ) (m : TaskManager) : TaskManager :=
  let m₁ := (m.updateTask i fun t => { t with state := .zombie, exitCode := code }).decRunnable
  { m₁ with tasks := fun j => (m₁.tasks j).map fun t =>
      if t.parentPid = (m.tasks i).map Task.pid then { t with parentPid := none } else t }

/-- The part of `exit_current` that hands the exit code to a parent blocked in `waitpid`. -/
def notifyParent (childPid parentPid : ℕ) (code : ℤ) (m : TaskManager) : TaskManager :=
  match m.findPid parentPid with
  | none => m
  | some p =>
    if (m.tasks p).any fun t =>
        decide (t.state = .sleeping) && decide (t.waitingFor = some (.child childPid)) then
      let m₁ := m.wake p fun tf => { tf with a0 := asUsize code }
      match m₁.findPid childPid with
      | none => m₁
      | some c => m₁.updateTask c fun t => { t with parentPid := none }
    else m

/-- The part of `exit_current` before the next task is chosen. -/
def retire (code : ℤ) (m : TaskManager) : TaskManager :=
  match m.currentIndex with
  | none => m
  | some i =>
    match m.tasks i with
    | none => m
    | some t =>
      match t.parentPid with
      | none => m.bury i code
      | some parentPid => (m.bury i code).notifyParent t.pid parentPid code

/-! ### The UART -/

/-- One iteration of `wake_uart`. -/
def wakeUartSlot (m : TaskManager) (i : Fin maxTasks) : TaskManager :=
  if (m.tasks i).any fun t =>
      decide (t.state = .sleeping) && decide (t.waitingFor = some .uartRx) then
    m.wake i fun tf => { tf with a0 := 0 }
  else m

/-- `wake_uart`. -/
def wakeUart (m : TaskManager) : TaskManager := (List.finRange maxTasks).foldl wakeUartSlot m

end TaskManager

namespace Kernel

open TaskManager

/-- Run a program on physical memory. -/
def onPhys {α : Type} (f : Fallible Phys α) : Fallible Kernel α :=
  Fallible.zoom Kernel.phys (fun ph k => { k with phys := ph }) f

/-- Change the task manager. -/
def onTm (f : TaskManager → TaskManager) : Fallible Kernel Unit :=
  Fallible.modify fun k => { k with tm := f k.tm }

/-- Read the task manager. -/
def readTm : Fallible Kernel TaskManager := Fallible.gets Kernel.tm

/-! ### Address spaces -/

/-- One iteration of the loops of `free_user_space`: free the page mapped at an address and clear
the entry. -/
def freeUserPage (pagetable va : ℕ) (ph : Phys) : Phys :=
  match PageTable.slotOf ph pagetable va with
  | none => ph
  | some (node, idx) =>
    if hasFlag (ph.entry node idx) pteV then
      (ph.freePage (pteToPa (ph.entry node idx))).setEntry node idx 0
    else ph

/-- Free the pages of an address range. -/
def freeUserRange (pagetable start stop : ℕ) : Fallible Phys Unit :=
  Fallible.forRange (pageSteps start stop) fun i =>
    Fallible.modify (freeUserPage pagetable (start + i * pageSize))

/-- `free_user_space`. -/
def freeUserSpace (pagetable userStack imageBase imageSize heapBase heapEnd : ℕ) :
    Fallible Phys Unit := do
  freeUserRange pagetable (pageFloor imageBase) (pageCeil (wrap (imageBase + imageSize)))
  freeUserRange pagetable heapBase ((alignUp heapEnd).getD heapBase)
  if userStack ≠ 0 then Fallible.modify fun ph => ph.freePage userStack
  PageTable.free pagetable

/-- `free_task`, with `free_address_space`. -/
def freeTask (t : Task) : Fallible Phys Unit := do
  freeUserSpace t.pagetable t.userStack t.imageBase t.imageSize t.heapBase t.heapEnd
  Fallible.modify fun ph => ph.freePage t.kernelStack

/-! ### Scheduling -/

/-- One iteration of `reap_detached_zombies`. -/
def reapSlot (i : Fin maxTasks) : Fallible Kernel Unit := do
  let m ← readTm
  match m.tasks i with
  | none => return ()
  | some t =>
    if detached m.currentPid t then
      onTm (setTask i none)
      onPhys (freeTask t)
    else return ()

/-- `reap_detached_zombies`. -/
def reapDetachedZombies : Fallible Kernel Unit :=
  Fallible.forEach (List.finRange maxTasks) reapSlot

/-- `TaskManager::schedule`. -/
def schedule (tf : TrapFrame) : Fallible Kernel FramePtr := do
  reapDetachedZombies
  onTm (preempt tf)
  let m ← readTm
  onTm (runChosen (m.choose m.visitOrder))
  return m.choose m.visitOrder

/-! ### Creating tasks -/

/-- The idle task. -/
def idleTask (entry kernelStack pagetable : ℕ) : Task where
  pid := idlePid
  state := .ready
  trapFrame :=
    { TrapFrame.new with
      sp := kernelStack + pageSize - 16
      sepc := entry
      sstatus := sstatusSpp ||| sstatusSpie }
  kernelStack := kernelStack
  userStack := 0
  entry := entry
  pagetable := pagetable
  exitCode := 0
  imageBase := 0
  imageSize := 0
  heapBase := 0
  heapEnd := 0
  parentPid := none
  waitingFor := none

/-- The pages of the idle task: its kernel stack and its page table.  What was taken is given back
when a step fails. -/
def idleSpace : Fallible Phys (ℕ × ℕ) := do
  let kernelStack ← allocPage
  match ← Fallible.attempt PageTable.create with
  | none =>
    Fallible.modify fun ph => ph.freePage kernelStack
    Fallible.fail
  | some pagetable =>
    match ← Fallible.attempt (Vm.mapKernel pagetable) with
    | none =>
      PageTable.free pagetable
      Fallible.modify fun ph => ph.freePage kernelStack
      Fallible.fail
    | some _ => return (kernelStack, pagetable)

/-- `create_idle`. -/
def createIdle (entry : ℕ) : Fallible Kernel ℕ := do
  let m ← readTm
  if (m.findPid idlePid).isSome then Fallible.fail
  else
    let slot ← Fallible.ofOption m.tasks.firstFree
    let (kernelStack, pagetable) ← onPhys idleSpace
    onTm (setTask slot (some (idleTask entry kernelStack pagetable)))
    return idlePid

/-- The task that `create_user_image` registers. -/
def imageTask (m : TaskManager) (pagetable userStack entry imageBase imageSize heapBase
    kernelStack : ℕ) : Task where
  pid := m.nextPid
  state := .ready
  trapFrame :=
    { TrapFrame.new with
      sp := userStackTop
      sepc := entry
      sstatus := sstatusSpie ||| sstatusSum }
  kernelStack := kernelStack
  userStack := userStack
  entry := entry
  pagetable := pagetable
  exitCode := 0
  imageBase := imageBase
  imageSize := imageSize
  heapBase := heapBase
  heapEnd := heapBase
  parentPid := m.currentPid
  waitingFor := none

/-- `create_user_image`.  A rejected address space is freed, except when the end of the image is
not a 64-bit value. -/
def createUserImage (pagetable userStack entry imageBase imageSize : ℕ) : Fallible Kernel ℕ := do
  let heapBase ← Fallible.ofOption (checkedAdd imageBase imageSize)
  let reject : Fallible Kernel ℕ := do
    onPhys (freeUserSpace pagetable userStack imageBase imageSize heapBase heapBase)
    Fallible.fail
  if heapLimit < heapBase ∨ heapBase % pageSize ≠ 0 then reject
  else
    let m ← readTm
    match m.tasks.firstFree with
    | none => reject
    | some slot =>
      match ← Fallible.attempt (onPhys allocPage) with
      | none => reject
      | some kernelStack =>
        onTm fun m => m.bumpPid.incRunnable
        onTm (setTask slot (some (imageTask m pagetable userStack entry imageBase imageSize
          heapBase kernelStack)))
        return m.nextPid

/-- `enter_task`: the slot of the first task to run. -/
def enterTask (pid : ℕ) : Fallible Kernel (Fin maxTasks) := do
  let m ← readTm
  let i ← Fallible.unwrap (m.findPid pid)
  onTm (runSlot i)
  return i

/-! ### Fork -/

/-- The value of the entry at an address when it is valid. -/
def validPte (ph : Phys) (pagetable va : ℕ) : Option ℕ :=
  (PageTable.findPte ph pagetable va).filter fun pte => hasFlag pte pteV

/-- Copy the page that an entry maps into a new page, and map that at an address with the
permissions of the entry. -/
def forkPage (childPt va sourcePte : ℕ) : Fallible Phys Unit := do
  let page ← allocPage
  Fallible.modify fun ph => ph.copyPage (pteToPa sourcePte) page
  PageTable.map childPt va page pageSize (sourcePte &&& 0x3fe)

/-- The loops of `fork` over a range of pages of the parent.  A page that is not mapped is passed
over in the image and is an error in the heap (`required`). -/
def forkRange (required : Bool) (parentPt childPt start stop : ℕ) : Fallible Phys Unit :=
  Fallible.forRange (pageSteps start stop) fun i => do
    match ← Fallible.gets fun ph => validPte ph parentPt (start + i * pageSize) with
    | none => if required then Fallible.fail else return ()
    | some pte => forkPage childPt (start + i * pageSize) pte

/-- The pages that `fork` gives to the child. -/
structure ChildSpace where
  kernelStack : ℕ
  userStack : ℕ
  pagetable : ℕ

/-- The part of `fork` that builds the address space of the child. -/
def forkSpace (parent : Task) : Fallible Phys ChildSpace := do
  let childKernelStack ← allocPage
  let childUserStack ← allocPage
  let childPt ← PageTable.create
  Vm.mapKernel childPt
  forkRange false parent.pagetable childPt (pageFloor parent.imageBase)
    (pageCeil (wrap (parent.imageBase + parent.imageSize)))
  let heapMappedEnd ← Fallible.ofOption (alignUp parent.heapEnd)
  forkRange true parent.pagetable childPt parent.heapBase heapMappedEnd
  Fallible.modify fun ph => ph.copyPage parent.userStack childUserStack
  PageTable.map childPt (userStackTop - pageSize) childUserStack pageSize (pteR ||| pteW ||| pteU)
  return ⟨childKernelStack, childUserStack, childPt⟩

/-- The task that `fork` registers. -/
def childTask (m : TaskManager) (parent : Task) (child : ChildSpace) (tf : TrapFrame) : Task where
  pid := m.nextPid
  state := .ready
  trapFrame := { tf with a0 := 0 }
  kernelStack := child.kernelStack
  userStack := child.userStack
  entry := parent.entry
  pagetable := child.pagetable
  exitCode := 0
  imageBase := parent.imageBase
  imageSize := parent.imageSize
  heapBase := parent.heapBase
  heapEnd := parent.heapEnd
  parentPid := m.currentPid
  waitingFor := none

/-- `TaskManager::fork`.  The pid is taken before the search for a free slot. -/
def fork (tf : TrapFrame) : Fallible Kernel ℕ := do
  let m ← readTm
  if m.currentPid = some idlePid then Fallible.fail
  else
    let parent ← Fallible.ofOption m.current
    let child ← onPhys (forkSpace parent)
    onTm bumpPid
    let slot ← Fallible.ofOption m.tasks.firstFree
    onTm fun m' => (m'.setTask slot (some (childTask m parent child tf))).incRunnable
    return m.nextPid

/-! ### Exec and sbrk -/

/-- `replace_current`: the current task continues in a new address space and the old one is freed.
Returns the frame it continues with. -/
def replaceCurrent (pagetable userStack entry imageBase imageSize : ℕ) (tf : TrapFrame) :
    Fallible Kernel TrapFrame := do
  let heapBase ← Fallible.ofOption (checkedAdd imageBase imageSize)
  if heapLimit < heapBase ∨ heapBase % pageSize ≠ 0 then Fallible.fail
  else
    let m ← readTm
    let i ← Fallible.ofOption m.currentIndex
    let old ← Fallible.ofOption (m.tasks i)
    onTm (updateTask i fun t =>
      { t with
        pagetable := pagetable
        userStack := userStack
        entry := entry
        imageBase := imageBase
        imageSize := imageSize
        heapBase := heapBase
        heapEnd := heapBase })
    onPhys (freeUserSpace old.pagetable old.userStack old.imageBase old.imageSize old.heapBase
      old.heapEnd)
    return { tf with sp := userStackTop, sepc := entry, a0 := 0, a1 := 0, a2 := 0 }

/-- The end of the loop by which `sbrk` grows the heap when iteration `i` cannot add its page: the
pages added so far are unmapped again. -/
def undoGrow (pagetable oldMappedEnd : ℕ) (i : ℕ) : Fallible Phys Unit := do
  if 0 < i then
    let _ ← Fallible.attempt (PageTable.unmap pagetable oldMappedEnd (i * pageSize) true)
    Fallible.fail
  else Fallible.fail

/-- One iteration of the loop by which `sbrk` grows the heap. -/
def growPage (pagetable oldMappedEnd : ℕ) (i : ℕ) : Fallible Phys Unit := do
  match ← Fallible.attempt allocPage with
  | none => undoGrow pagetable oldMappedEnd i
  | some page =>
    Fallible.modify fun ph => ph.zeroPage page
    match ← Fallible.attempt (PageTable.map pagetable (oldMappedEnd + i * pageSize) page pageSize
      (pteR ||| pteW ||| pteU)) with
    | none =>
      Fallible.modify fun ph => ph.freePage page
      undoGrow pagetable oldMappedEnd i
    | some _ => return ()

/-- The part of `sbrk` that maps or unmaps pages. -/
def resizeHeap (pagetable oldMappedEnd newMappedEnd : ℕ) : Fallible Phys Unit :=
  if oldMappedEnd < newMappedEnd then
    Fallible.forRange (pageSteps oldMappedEnd newMappedEnd) (growPage pagetable oldMappedEnd)
  else if newMappedEnd < oldMappedEnd then
    PageTable.unmap pagetable newMappedEnd (oldMappedEnd - newMappedEnd) true
  else pure ()

/-- `TaskManager::sbrk`. -/
def sbrk (increment : ℤ) : Fallible Kernel ℕ := do
  let m ← readTm
  if m.currentPid = some idlePid then Fallible.fail
  else
    let i ← Fallible.ofOption m.currentIndex
    let task ← Fallible.ofOption (m.tasks i)
    let newEnd ← Fallible.ofOption (checkedAddSigned task.heapEnd increment)
    if newEnd < task.heapBase ∨ heapLimit < newEnd then Fallible.fail
    else
      let oldMappedEnd ← Fallible.ofOption (alignUp task.heapEnd)
      let newMappedEnd ← Fallible.ofOption (alignUp newEnd)
      onPhys (resizeHeap task.pagetable oldMappedEnd newMappedEnd)
      onTm (updateTask i fun t => { t with heapEnd := newEnd })
      return task.heapEnd

/-! ### Waiting and exiting -/

/-- `WaitResult`, apart from its error. -/
inductive WaitResult
  | reaped (exitCode : ℤ)
  | blocked (next : FramePtr)

/-- `TaskManager::waitpid`. -/
def waitpid (pid : ℕ) (tf : TrapFrame) : Fallible Kernel WaitResult := do
  let m ← readTm
  if m.currentPid = some idlePid then Fallible.fail
  else
    let parentPid ← Fallible.ofOption m.currentPid
    let childIndex ← Fallible.ofOption
      (m.tasks.position fun t => t.pid = pid ∧ t.parentPid = some parentPid)
    let child ← Fallible.unwrap (m.tasks childIndex)
    if child.state = .zombie then
      onTm (setTask childIndex none)
      onPhys (freeTask child)
      return .reaped child.exitCode
    else
      let parentIndex ← Fallible.ofOption m.currentIndex
      onTm (block parentIndex (.child pid) tf)
      let next ← schedule tf
      return .blocked next

/-- `TaskManager::exit_current`.  Without a task to run the machine is shut down. -/
def exitCurrent (code : ℤ) : Fallible Kernel FramePtr := do
  let m ← readTm
  if m.currentPid = some idlePid then
    let i ← Fallible.unwrap m.currentIndex
    return some i
  else
    onTm fun m => { m.retire code with currentPid := none }
    let m ← readTm
    let next ← Fallible.unwrap (m.choose (List.finRange maxTasks))
    onTm (runSlot next)
    return some next

/-! ### The UART -/

/-- `grant_uart`. -/
def grantUart (pid : ℕ) : Fallible Kernel Unit := do
  let m ← readTm
  if m.uartOwner.isSome then Fallible.fail
  else
    let t ← Fallible.ofOption ((m.findPid pid).bind m.tasks)
    onPhys (PageTable.setFlags t.pagetable uartBase pageSize (pteR ||| pteW ||| pteU))
    onTm fun m => { m with uartOwner := some pid }

/-- `wait_uart_irq`. -/
def waitUartIrq (tf : TrapFrame) : Fallible Kernel FramePtr := do
  let m ← readTm
  if m.currentPid = some idlePid ∨ m.currentPid ≠ m.uartOwner then Fallible.fail
  else
    let i ← Fallible.ofOption m.currentIndex
    onTm (block i .uartRx tf)
    schedule tf

end Kernel

end NekOS
