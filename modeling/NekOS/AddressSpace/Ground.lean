import NekOS.AddressSpace.Retention

/-!
# What the kernel never changes

The ramdisk and the range of managed pages are fixed at power-on.  No operation of the kernel, whether
it succeeds or not, assigns them again.
-/

namespace NekOS

open Fallible

/-- A quantity of physical memory that writing, taking pages and giving them back leave alone. -/
class Stays {γ : Type} (g : Phys → γ) : Prop where
  mem : ∀ {ph ph' : Phys}, ph'.page = ph.page → g ph' = g ph
  alloc : ∀ {ph : Phys} {p : ℕ} {a : PageAllocator}, ph.page.alloc = some (p, a) → g { ph with page := a } = g ph
  free : ∀ (ph : Phys) (p : ℕ), g (ph.freePage p) = g ph

/-- The range of managed pages. -/
def Phys.ground (ph : Phys) : ℕ × ℕ := (ph.page.startAddr, ph.page.totalPages)

/-- The ramdisk and the range of managed pages. -/
def Kernel.ground (k : Kernel) : List (String × List UInt8) × ℕ × ℕ := (k.files, k.phys.ground)

instance : Stays Phys.ground where
  mem h := by rw [Phys.ground, Phys.ground, h]
  alloc h := by
    obtain ⟨-, -, hstart, htotal, -⟩ := PageAllocator.alloc_eq_some h
    exact Prod.ext hstart htotal
  free ph p := Prod.ext (ph.page.free_startAddr p) (ph.page.free_totalPages p)

/-- The difference between the free counter and the number of free pages. -/
def Phys.slack (ph : Phys) : ℤ := ph.page.slack

instance : Stays Phys.slack where
  mem h := by rw [Phys.slack, Phys.slack, h]
  alloc h := PageAllocator.slack_alloc h
  free ph p := ph.page.slack_free p

/-- The ramdisk, and a quantity of physical memory. -/
def Kernel.held {γ : Type} (g : Phys → γ) (k : Kernel) : List (String × List UInt8) × γ := (k.files, g k.phys)

section Stays

set_option linter.unusedSectionVars false

variable {γ : Type} {g : Phys → γ} [Stays g]

/-! ### Physical memory -/

/-- `page::alloc`. -/
lemma fixes_allocPage : Fixes g allocPage := Fixes.intro fun ph o ph' h => by
  unfold allocPage at h
  split at h
  · rename_i halloc
    obtain ⟨-, rfl⟩ := Prod.mk.inj (Option.some.inj h)
    exact Stays.alloc halloc
  · obtain ⟨-, rfl⟩ := Prod.mk.inj (Option.some.inj h)
    rfl

/-- `page::free`. -/
lemma fixes_freePage (pa : ℕ) : Fixes g (Fallible.modify fun ph => ph.freePage pa) :=
  Fixes.modify fun ph => Stays.free ph pa

/-- Writing to memory. -/
lemma fixes_mem {f : Phys → Phys} (h : ∀ ph, (f ph).page = ph.page) : Fixes g (Fallible.modify f) :=
  Fixes.modify fun ph => Stays.mem (h ph)

/-- Taking pages. -/
lemma Allocates.fixes {α : Type} {f : Fallible Phys α} (hf : Allocates f) : Fixes g f :=
  fun v => hf _ (fun _ _ hpage h => (Stays.mem hpage).trans h) (fixes_allocPage v)

namespace PageTable

/-- `set_flags`. -/
lemma fixes_setFlags (pt va size flags : ℕ) : Fixes g (setFlags pt va size flags) :=
  Fixes.ite Fixes.fail <| Fixes.forRange fun _ => (Allocates.walk _ _ _).fixes.bind fun _ =>
    (Fixes.gets _).bind fun _ => Fixes.ite Fixes.fail (fixes_mem fun _ => rfl)

/-- `unmap`. -/
lemma fixes_unmap (pt va size : ℕ) (freePage : Bool) :
    Fixes g (unmap pt va size freePage) :=
  Fixes.ite Fixes.fail <| Fixes.forRange fun _ => (Allocates.walk _ _ _).fixes.bind fun _ =>
    (Fixes.gets _).bind fun _ => Fixes.ite (Fixes.pure _) <|
      Fixes.ite (Fixes.bind (fixes_freePage _) fun _ => fixes_mem fun _ => rfl)
        (fixes_mem fun _ => rfl)

/-- `free_walk`. -/
lemma fixes_freeWalk (depth : ℕ) : ∀ pt, Fixes g (freeWalk depth pt) := by
  induction depth with
  | zero => exact fun _ => Fixes.halt
  | succ depth ih =>
    exact fun pt => Fixes.forEach fun _ => (Fixes.gets _).bind fun _ =>
      Fixes.ite ((ih _).bind fun _ => fixes_freePage _) (Fixes.pure _)

/-- `free`. -/
lemma fixes_free (pt : ℕ) : Fixes g (free pt) :=
  (fixes_freeWalk _ _).bind fun _ => fixes_freePage _

end PageTable

open PageTable

namespace Kernel

open TaskManager

/-! ### Address spaces -/

/-- `free_user_space`. -/
lemma fixes_freeUserSpace (pagetable userStack imageBase imageSize heapBase heapEnd : ℕ) :
    Fixes g
      (freeUserSpace pagetable userStack imageBase imageSize heapBase heapEnd) := by
  have hpage : ∀ va, Fixes g (Fallible.modify (freeUserPage pagetable va)) := fun va => by
    refine Fixes.modify fun ph => ?_
    unfold freeUserPage
    split
    · rfl
    · split
      · rename_i node idx _ _
        have hfree : g (ph.freePage (pteToPa (ph.entry node idx))) = g ph := Stays.free ..
        rw [← hfree]
        exact Stays.mem rfl
      · rfl
  exact Fixes.bind (Fixes.forRange fun _ => hpage _) fun _ =>
    Fixes.bind (Fixes.forRange fun _ => hpage _) fun _ =>
      Fixes.ite (Fixes.bind (fixes_freePage _) fun _ => fixes_free _) (fixes_free _)

/-- `free_task`. -/
lemma fixes_freeTask (t : Task) : Fixes g (freeTask t) :=
  (fixes_freeUserSpace _ _ _ _ _ _).bind fun _ => fixes_freePage _

/-- The pages of the idle task. -/
lemma fixes_idleSpace : Fixes g idleSpace :=
  fixes_allocPage.bind fun _ => Allocates.create.fixes.attempt.bind fun o => by
    cases o with
    | none => exact (fixes_freePage _).bind fun _ => Fixes.fail
    | some pagetable =>
      refine (Allocates.mapKernel _).fixes.attempt.bind fun o => ?_
      cases o with
      | none => exact (fixes_free _).bind fun _ => (fixes_freePage _).bind fun _ => Fixes.fail
      | some _ => exact Fixes.pure _

/-- The part of `sbrk` that maps or unmaps pages. -/
lemma fixes_resizeHeap (pagetable oldMappedEnd newMappedEnd : ℕ) :
    Fixes g (resizeHeap pagetable oldMappedEnd newMappedEnd) := by
  have hundo : ∀ i, Fixes g (undoGrow pagetable oldMappedEnd i) := fun i =>
    Fixes.ite ((fixes_unmap _ _ _ _).attempt.bind fun _ => Fixes.fail) Fixes.fail
  have hgrow : ∀ i, Fixes g (growPage pagetable oldMappedEnd i) := fun i =>
    fixes_allocPage.attempt.bind fun o => by
      cases o with
      | none => exact hundo i
      | some page =>
        refine Fixes.bind (fixes_mem fun _ => rfl) fun _ => (Allocates.map _ _ _ _ _).fixes.attempt.bind fun o => ?_
        cases o with
        | none => exact (fixes_freePage _).bind fun _ => hundo i
        | some _ => exact Fixes.pure _
  exact Fixes.ite (Fixes.forRange hgrow) (Fixes.ite (fixes_unmap _ _ _ _) (Fixes.pure _))

/-! ### Tasks -/

/-- A program on physical memory. -/
lemma fixes_onPhys {α : Type} {f : Fallible Phys α} (h : Fixes g f) :
    Fixes (held g) (onPhys f) := Fixes.intro fun k o k' hrun => by
  obtain ⟨ph, hrun', rfl⟩ := onPhys_eq_some.mp hrun
  exact Prod.ext rfl (h.of_run hrun')

/-- A change of the task manager. -/
lemma fixes_onTm (f : TaskManager → TaskManager) : Fixes (held g) (onTm f) :=
  Fixes.modify fun _ => rfl

/-- `schedule`. -/
lemma fixes_schedule (tf : TrapFrame) : Fixes (held g) (schedule tf) := by
  have hreap : ∀ i, Fixes (held g) (reapSlot i) := fun i => (Fixes.gets _).bind fun m => by
    cases m.tasks i with
    | none => exact Fixes.pure _
    | some t =>
      exact Fixes.ite ((fixes_onTm _).bind fun _ => fixes_onPhys (fixes_freeTask t)) (Fixes.pure _)
  exact (Fixes.forEach hreap).bind fun _ => (fixes_onTm _).bind fun _ => (Fixes.gets _).bind
    fun _ => (fixes_onTm _).bind fun _ => Fixes.pure _

/-- `create_idle`. -/
lemma Allocates.create.fixesIdle (entry : ℕ) : Fixes (held g) (createIdle entry) :=
  (Fixes.gets _).bind fun _ => Fixes.ite Fixes.fail <| (Fixes.ofOption _).bind fun _ =>
    (fixes_onPhys fixes_idleSpace).bind fun _ => (fixes_onTm _).bind fun _ => Fixes.pure _

/-- `create_user_image`. -/
lemma Allocates.create.fixesUserImage (pagetable userStack entry imageBase imageSize : ℕ) :
    Fixes (held g) (createUserImage pagetable userStack entry imageBase imageSize) :=
  (Fixes.ofOption _).bind fun heapBase => by
    have hreject : Fixes (held g) (do
        onPhys (freeUserSpace pagetable userStack imageBase imageSize heapBase heapBase)
        (Fallible.fail : Fallible Kernel ℕ)) :=
      (fixes_onPhys (fixes_freeUserSpace _ _ _ _ _ _)).bind fun _ => Fixes.fail
    refine Fixes.ite hreject <| (Fixes.gets _).bind fun m => ?_
    cases m.tasks.firstFree with
    | none => exact hreject
    | some slot =>
      refine (fixes_onPhys fixes_allocPage).attempt.bind fun o => ?_
      cases o with
      | none => exact hreject
      | some kernelStack =>
        exact (fixes_onTm _).bind fun _ => (fixes_onTm _).bind fun _ => Fixes.pure _

/-- `fork`. -/
lemma fixes_fork (tf : TrapFrame) : Fixes (held g) (fork tf) :=
  (Fixes.gets _).bind fun _ => Fixes.ite Fixes.fail <| (Fixes.ofOption _).bind fun _ =>
    (fixes_onPhys (Allocates.forkSpace _).fixes).bind fun _ => (fixes_onTm _).bind fun _ =>
      (Fixes.ofOption _).bind fun _ => (fixes_onTm _).bind fun _ => Fixes.pure _

/-- `replace_current`. -/
lemma fixes_replaceCurrent (pagetable userStack entry imageBase imageSize : ℕ) (tf : TrapFrame) :
    Fixes (held g) (replaceCurrent pagetable userStack entry imageBase imageSize tf) :=
  (Fixes.ofOption _).bind fun _ => Fixes.ite Fixes.fail <| (Fixes.gets _).bind fun _ =>
    (Fixes.ofOption _).bind fun _ => (Fixes.ofOption _).bind fun _ => (fixes_onTm _).bind fun _ =>
      (fixes_onPhys (fixes_freeUserSpace _ _ _ _ _ _)).bind fun _ => Fixes.pure _

/-- `sbrk`. -/
lemma fixes_sbrk (increment : ℤ) : Fixes (held g) (sbrk increment) :=
  (Fixes.gets _).bind fun _ => Fixes.ite Fixes.fail <| (Fixes.ofOption _).bind fun _ =>
    (Fixes.ofOption _).bind fun _ => (Fixes.ofOption _).bind fun _ => Fixes.ite Fixes.fail <|
      (Fixes.ofOption _).bind fun _ => (Fixes.ofOption _).bind fun _ =>
        (fixes_onPhys (fixes_resizeHeap _ _ _)).bind fun _ => (fixes_onTm _).bind fun _ =>
          Fixes.pure _

/-- `waitpid`. -/
lemma fixes_waitpid (pid : ℕ) (tf : TrapFrame) : Fixes (held g) (waitpid pid tf) :=
  (Fixes.gets _).bind fun _ => Fixes.ite Fixes.fail <| (Fixes.ofOption _).bind fun _ =>
    (Fixes.ofOption _).bind fun _ => (Fixes.unwrap _).bind fun child => Fixes.ite
      ((fixes_onTm _).bind fun _ => (fixes_onPhys (fixes_freeTask child)).bind fun _ => Fixes.pure _)
      ((Fixes.ofOption _).bind fun _ => (fixes_onTm _).bind fun _ => (fixes_schedule tf).bind
        fun _ => Fixes.pure _)

/-- `exit_current`. -/
lemma fixes_exitCurrent (code : ℤ) : Fixes (held g) (exitCurrent code) :=
  (Fixes.gets _).bind fun _ => Fixes.ite ((Fixes.unwrap _).bind fun _ => Fixes.pure _) <|
    (fixes_onTm _).bind fun _ => (Fixes.gets _).bind fun _ => (Fixes.unwrap _).bind fun _ =>
      (fixes_onTm _).bind fun _ => Fixes.pure _

/-- `wait_uart_irq`. -/
lemma fixes_waitUartIrq (tf : TrapFrame) : Fixes (held g) (waitUartIrq tf) :=
  (Fixes.gets _).bind fun _ => Fixes.ite Fixes.fail <| (Fixes.ofOption _).bind fun _ =>
    (fixes_onTm _).bind fun _ => fixes_schedule tf

/-! ### Messages -/

/-- Reading a byte of a program. -/
lemma fixes_readAt (root va pa : ℕ) : Fixes (held g) (readAt root va pa) :=
  Fixes.bind (Fixes.modify fun _ => rfl) fun _ => Fixes.gets _

/-- Writing a byte of a program. -/
lemma fixes_writeAt (root va pa : ℕ) (b : UInt8) : Fixes (held g) (writeAt root va pa b) :=
  Fixes.modify fun k => Prod.ext rfl (by exact Stays.mem rfl)

/-- Translating an address. -/
lemma fixes_translate (root va : ℕ) : Fixes (held g) (translate root va) :=
  (Fixes.gets _).bind fun _ => Fixes.ofOption _

/-- `mem_copy_to_user`. -/
lemma fixes_memCopyToUser (root userDst : ℕ) (src : ℕ → UInt8) (len : ℕ) :
    Fixes (held g) (memCopyToUser root userDst src len) :=
  Fixes.forRange fun _ => (fixes_translate _ _).bind fun _ => fixes_writeAt _ _ _ _

/-- The copy loop of `ipc_reply_buf`. -/
lemma fixes_copyUserToUser (srcRoot userSrc dstRoot userDst len : ℕ) :
    Fixes (held g) (copyUserToUser srcRoot userSrc dstRoot userDst len) :=
  Fixes.forRange fun _ => (fixes_translate _ _).bind fun _ => (fixes_translate _ _).bind fun _ =>
    (fixes_readAt _ _ _).bind fun _ => fixes_writeAt _ _ _ _

/-- `ipc_call`. -/
lemma fixes_ipcCall (endpoint : ℕ) (words : Words) (tf : TrapFrame) :
    Fixes (held g) (ipcCall endpoint words tf) := by
  have hblocked : Fixes (held g) (do
      let next ← schedule tf
      return IpcResult.blocked next) := (fixes_schedule tf).bind fun _ => Fixes.pure _
  refine (Fixes.gets _).bind fun _ => (Fixes.ofOption _).bind fun _ => (Fixes.ofOption _).bind
    fun _ => Fixes.ite Fixes.fail <| (Fixes.ofOption _).bind fun _ => (fixes_onTm _).bind fun _ =>
      Fixes.ite ?_ ((fixes_onTm _).bind fun _ => hblocked)
  exact (Fixes.gets _).bind fun _ => (Fixes.unwrap _).bind fun _ => (fixes_onTm _).bind fun _ =>
    hblocked

/-- `ipc_recv`. -/
lemma fixes_ipcRecv (endpoint : ℕ) (tf : TrapFrame) : Fixes (held g) (ipcRecv endpoint tf) :=
  (Fixes.gets _).bind fun _ => (Fixes.ofOption _).bind fun _ => (Fixes.ofOption _).bind fun r =>
    Fixes.ite Fixes.fail <| by
      cases r.2.pending.pop with
      | some r => exact (fixes_onTm _).bind fun _ => Fixes.pure _
      | none =>
        exact (fixes_onTm _).bind fun _ => (Fixes.ofOption _).bind fun _ => (fixes_onTm _).bind
          fun _ => (fixes_schedule tf).bind fun _ => Fixes.pure _

/-- `ipc_reply`. -/
lemma fixes_ipcReply (client : ℕ) (words : Words) : Fixes (held g) (ipcReply client words) :=
  (Fixes.gets _).bind fun _ => (Fixes.ofOption _).bind fun _ => (Fixes.ofOption _).bind fun _ =>
    Fixes.ite Fixes.fail (fixes_onTm _)

/-- `ipc_reply_buf`. -/
lemma fixes_ipcReplyBuf (client : ℕ) (words : Words) (userBuf bufLen : ℕ) :
    Fixes (held g) (ipcReplyBuf client words userBuf bufLen) :=
  (Fixes.gets _).bind fun _ => (Fixes.ofOption _).bind fun _ => (Fixes.ofOption _).bind fun _ =>
    Fixes.ite Fixes.fail <| (fixes_onTm _).bind fun _ => Fixes.ite
      ((Fixes.unwrap _).bind fun _ => (Fixes.unwrap _).bind fun _ =>
        (fixes_copyUserToUser _ _ _ _ _).bind fun _ => fixes_onTm _) (fixes_onTm _)

/-- `ipc_call_buf`. -/
lemma fixes_ipcCallBuf (endpoint : ℕ) (words : Words) (userBuf bufLen : ℕ) (tf : TrapFrame) :
    Fixes (held g) (ipcCallBuf endpoint words userBuf bufLen tf) := by
  have hfrom : ∀ root e, Fixes (held g) (memCopyFromUser root e userBuf bufLen) := fun _ _ =>
    Fixes.forRange fun _ => (fixes_translate _ _).bind fun _ => (fixes_readAt _ _ _).bind fun _ =>
      fixes_onTm _
  have hstage : ∀ e, Fixes (held g) (stage e userBuf bufLen) := fun e =>
    Fixes.ite ((Fixes.gets _).bind fun _ => (Fixes.ofOption _).bind fun _ => (hfrom _ e).bind
      fun _ => fixes_onTm _) (fixes_onTm _)
  have hover : ∀ e r, Fixes (held g) (handOver e r bufLen) := fun e r =>
    (Fixes.gets _).bind fun _ => (Fixes.unwrap _).bind fun _ => (Fixes.unwrap _).bind fun _ =>
      Fixes.ite ((fixes_memCopyToUser _ _ _ _).attempt.bind fun _ => Fixes.pure _) (Fixes.pure _)
  have hblocked : Fixes (held g) (do
      let next ← schedule tf
      return IpcResult.blocked next) := (fixes_schedule tf).bind fun _ => Fixes.pure _
  refine (Fixes.gets _).bind fun _ => (Fixes.ofOption _).bind fun _ => (Fixes.ofOption _).bind
    fun r => Fixes.ite Fixes.fail <| Fixes.ite Fixes.fail <| (hstage _).bind fun _ => ?_
  refine (Fixes.ofOption _).bind fun _ => (fixes_onTm _).bind fun _ => Fixes.ite ?_
    ((fixes_onTm _).bind fun _ => hblocked)
  exact (Fixes.gets _).bind fun _ => (Fixes.unwrap _).bind fun _ => (hover _ _).bind fun _ =>
    (fixes_onTm _).bind fun _ => hblocked

/-- `ipc_recv_buf`. -/
lemma fixes_ipcRecvBuf (endpoint userBuf capacity : ℕ) (tf : TrapFrame) :
    Fixes (held g) (ipcRecvBuf endpoint userBuf capacity tf) := by
  have hunstage : ∀ e message, Fixes (held g) (unstage e message userBuf capacity) := fun e _ =>
    (fixes_onTm _).bind fun _ => (Fixes.gets _).bind fun m => by
      cases m.current with
      | none => exact Fixes.pure _
      | some t =>
        exact (Fixes.unwrap _).bind fun _ => Fixes.ite Fixes.halt <|
          (fixes_memCopyToUser _ _ _ _).attempt.bind fun _ => Fixes.pure _
  refine (Fixes.gets _).bind fun _ => (Fixes.ofOption _).bind fun _ => (Fixes.ofOption _).bind
    fun r => Fixes.ite Fixes.fail ?_
  cases r.2.pending.pop with
  | some q =>
    exact (fixes_onTm _).bind fun _ =>
      Fixes.ite ((hunstage _ _).bind fun _ => Fixes.pure _) (Fixes.pure _)
  | none =>
    exact (fixes_onTm _).bind fun _ => (Fixes.ofOption _).bind fun _ => (fixes_onTm _).bind
      fun _ => (fixes_schedule tf).bind fun _ => Fixes.pure _

/-! ### Programs and system calls -/

/-- `load`. -/
lemma fixes_load (name : String) : Fixes (held g) (load name) :=
  (Fixes.gets _).bind fun _ => (Fixes.ofOption _).bind fun _ => fixes_onPhys (Allocates.loadFile _).fixes

/-- `spawn`. -/
lemma fixes_spawn (name : String) : Fixes (held g) (spawn name) :=
  (fixes_load name).bind fun _ => Allocates.create.fixesUserImage _ _ _ _ _

/-- `sys_exec`. -/
lemma fixes_sysExec (va len : ℕ) (tf : TrapFrame) : Fixes (held g) (sysExec va len tf) := by
  have hread : ∀ va, Fixes (held g) (readUser va) := fun _ =>
    (Fixes.gets _).bind fun _ => (Fixes.ofOption _).bind fun _ => (fixes_translate _ _).bind fun _ =>
      fixes_readAt _ _ _
  refine Fixes.bind (Fixes.foldRange fun _ _ => (hread _).bind fun _ => Fixes.pure _) fun _ =>
    (Fixes.ofOption _).bind fun name => ?_
  exact (fixes_load name).bind fun _ => fixes_replaceCurrent _ _ _ _ _ _

/-- A system call that returns a value. -/
lemma fixes_returning {f : Fallible Kernel ℕ} (tf : TrapFrame) (h : Fixes (held g) f) :
    Fixes (held g) (returning tf f) :=
  h.attempt.bind fun o => by cases o <;> exact Fixes.pure _

/-- An IPC operation that may block the caller. -/
lemma fixes_blocking {f : Fallible Kernel IpcResult} (tf : TrapFrame) (h : Fixes (held g) f) :
    Fixes (held g) (blocking tf f) :=
  h.attempt.bind fun o => by rcases o with _ | ⟨_ | _⟩ <;> exact Fixes.pure _

/-- The system calls. -/
lemma fixes_handle (tf : TrapFrame) : Fixes (held g) (handle tf) := by
  unfold handle
  cases Sysno.decode tf.a7 with
  | none => exact Fixes.halt
  | some call =>
    cases call with
    | exit => exact (fixes_exitCurrent _).bind fun _ => Fixes.pure _
    | yield => exact (fixes_schedule _).bind fun _ => Fixes.pure _
    | getpid => exact (Fixes.gets _).bind fun _ => Fixes.pure _
    | fork => exact fixes_returning _ (fixes_fork _)
    | ps => exact Fixes.pure _
    | exec => exact (fixes_sysExec _ _ _).attempt.bind fun o => by cases o <;> exact Fixes.pure _
    | waitpid =>
      exact (fixes_waitpid _ _).attempt.bind fun o => by
        rcases o with _ | ⟨_ | _⟩ <;> exact Fixes.pure _
    | ipcCall => exact fixes_blocking _ (fixes_ipcCall _ _ _)
    | ipcRecv => exact fixes_blocking _ (fixes_ipcRecv _ _)
    | ipcReply => exact fixes_returning _ ((fixes_ipcReply _ _).bind fun _ => Fixes.pure _)
    | irqWait =>
      exact Fixes.ite (Fixes.pure _) <| (fixes_waitUartIrq _).attempt.bind fun o => by
        cases o <;> exact Fixes.pure _
    | sbrk => exact fixes_returning _ (fixes_sbrk _)
    | ipcCallBuf => exact fixes_blocking _ (fixes_ipcCallBuf _ _ _ _ _)
    | ipcRecvBuf => exact fixes_blocking _ (fixes_ipcRecvBuf _ _ _ _)
    | ipcReplyBuf => exact fixes_returning _ ((fixes_ipcReplyBuf _ _ _ _).bind fun _ => Fixes.pure _)
    | shutdown => exact Fixes.halt

end Kernel

/-! ### The machine -/

namespace System

/-- A trap. -/
lemma trap_held {tf : TrapFrame} {handler : Fallible Kernel (FramePtr × TrapFrame)}
    {s t : System} (hfix : Fixes (Kernel.held g) handler) (h : trap tf handler s = some t) :
    t.kernel.held g = s.kernel.held g := by
  unfold trap at h
  split at h
  · rename_i next tf' k hrun
    obtain rfl := Option.some.inj h
    have hk : k.held g = (storeFrame s.hart tf s.kernel).held g := hfix.of_run hrun
    cases next <;> exact hk
  · simp at h

/-- No step of the machine changes the ramdisk or such a quantity. -/
theorem step_held (g : Phys → γ) [Stays g] {s t : System} {ev : Event} (h : s.step ev = some t) :
    t.kernel.held g = s.kernel.held g := by
  have htimer : ∀ tf, Fixes (Kernel.held g) (timerHandler tf) := fun tf =>
    (Kernel.fixes_schedule tf).bind fun _ => Fixes.pure _
  cases ev with
  | ecall tf =>
    simp only [step] at h
    split at h
    · exact (trap_held (g := g) (Kernel.fixes_handle tf) h :)
    · simp at h
  | timer tf => exact trap_held (htimer tf) h
  | external irq tf =>
    refine trap_held ?_ (show trap tf (externalHandler irq tf) s = some t from h)
    exact Fixes.ite ((Kernel.fixes_onTm _).bind fun _ => htimer tf) (htimer tf)
  | store va byte =>
    simp only [step, userStore] at h
    split at h
    · split at h
      · simp at h
      · split at h
        · simp at h
        · split at h
          · obtain rfl := Option.some.inj h
            exact Prod.ext rfl (by exact Stays.mem rfl)
          · simp at h
    · simp at h
  | spawn name =>
    simp only [step, Option.map_eq_some_iff] at h
    obtain ⟨⟨o, k⟩, hrun, rfl⟩ := h
    exact (Kernel.fixes_spawn name).of_run hrun

end System

/-- The boot keeps the ramdisk and such a quantity. -/
theorem Config.boot_held (g : Phys → γ) [Stays g] {c : Config} {s : System} (h : c.boot = some s) :
    s.kernel.held g = c.powerOn.held g := by
  unfold Config.boot at h
  obtain ⟨⟨o, k⟩, hrun, hs⟩ := Option.bind_eq_some_iff.mp h
  obtain ⟨hart, -, rfl⟩ := Option.map_eq_some_iff.mp hs
  have hexpect : ∀ {α : Type} {f : Fallible Kernel α}, Fixes (Kernel.held g) f →
      Fixes (Kernel.held g) (Fallible.expect f) := fun hf => Fixes.intro fun s o t hrun => by
    obtain ⟨a, rfl, hrun'⟩ := Fallible.expect_eq_some.mp hrun
    exact hf.of_run hrun'
  have hgrant : ∀ pid, Fixes (Kernel.held g) (Kernel.grantUart pid) := fun pid =>
    (Fixes.gets _).bind fun _ => Fixes.ite Fixes.fail <| (Fixes.ofOption _).bind fun _ =>
      (Kernel.fixes_onPhys (PageTable.fixes_setFlags _ _ _ _)).bind fun _ => Kernel.fixes_onTm _
  have hregister : ∀ endpoint pid, Fixes (Kernel.held g) (Kernel.registerEndpoint endpoint pid) :=
    fun endpoint pid => (Fixes.gets _).bind fun _ => by
      split
      · exact Fixes.ite Fixes.fail (Fixes.ite Fixes.fail (Kernel.fixes_onTm _))
      · exact Fixes.fail
  have hinit : Fixes g Vm.init :=
    Allocates.create.fixes.bind fun _ => (Allocates.mapKernel _).fixes.bind fun _ => Fixes.pure _
  have hmain : Fixes (Kernel.held g) c.kernelMain := by
    refine (hexpect (Kernel.fixes_onPhys hinit)).bind fun _ =>
      (hexpect (Kernel.Allocates.create.fixesIdle _)).bind fun _ => (hexpect (Kernel.fixes_spawn _)).bind
        fun _ => (hexpect (hgrant _)).bind fun _ => (hexpect (hregister _ _)).bind fun _ => ?_
    refine (hexpect (Kernel.fixes_spawn _)).bind fun _ => (hexpect (hregister _ _)).bind fun _ =>
      (hexpect (Kernel.fixes_spawn _)).bind fun _ => (Fixes.gets _).bind fun _ => ?_
    exact (Fixes.unwrap _).bind fun _ => (Kernel.fixes_onTm _).bind fun _ => Fixes.pure _
  exact hmain.of_run hrun

end Stays

/-- No step of the machine changes the ramdisk or the range of managed pages. -/
theorem System.step_ground {s t : System} {ev : Event} (h : s.step ev = some t) :
    t.kernel.ground = s.kernel.ground :=
  step_held Phys.ground h

/-- The boot keeps the ramdisk and the range of managed pages. -/
theorem Config.boot_ground {c : Config} {s : System} (h : c.boot = some s) :
    s.kernel.ground = c.powerOn.ground :=
  boot_held Phys.ground h

end NekOS
