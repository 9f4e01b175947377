import NekOS.AddressSpace.Startup
import NekOS.Kernel.Effect
import NekOS.AddressSpace.Ground

/-!
# Isolation

Messages with a payload and stores change pages of programs only, as long as no buffer reaches into
the pages of the kernel.  With the lemmas for the other operations this is the step lemma of
`Housed`; its run lemma holds all address spaces apart in every state that the machine reaches.
-/

namespace NekOS

open PageTable

/-! ### Registers of the UART -/

/-- The registers of the UART lie below the managed pages. -/
lemma Spaces.uart_free {ph : Phys} {own : ℕ → Role} (hS : Spaces ph own) : own uartBase = .free := by
  by_contra hne
  have hle := (hS.tables.allocated hne).start_le
  have hstart := hS.start_le
  simp only [kernelStart, uartBase] at hstart hle
  omega

/-- A leaf of the kernel that is open to user mode is that of the UART. -/
lemma KernelLeaf.pa_of_user {n e : ℕ} (he : KernelLeaf n e) (huser : hasFlag e pteU = true) :
    pteToPa e = uartBase := by
  rw [he.pa, he.user huser]
  rfl

namespace Kernel

open TaskManager

variable {strict : Bool} {k k' : Kernel}

/-! ### Messages with a payload -/

/-- The page table that an operation takes for a pid is that of a task. -/
lemma exists_of_lastPagetable {m : TaskManager} {pid r : ℕ} (h : m.lastPagetable pid = some r) :
    ∃ i t, m.tasks i = some t ∧ t.pid = pid ∧ t.pagetable = r := by
  obtain ⟨i, hi, hr⟩ := Option.bind_eq_some_iff.mp h
  obtain ⟨t, ht, rfl⟩ := Option.map_eq_some_iff.mp hr
  obtain ⟨t', ht', hpid⟩ := Slots.search_eq_some hi
  obtain rfl : t' = t := Option.some.inj (ht'.symm.trans ht)
  exact ⟨i, t', ht, of_decide_eq_true hpid, rfl⟩

/-- Staging changes no home. -/
lemma Housed.stage {e : Fin maxEndpoints} {userBuf bufLen : ℕ} {o : Option Unit}
    (h : k.Housed strict) (hrun : stage e userBuf bufLen k = some (o, k')) : k'.Housed strict := by
  rcases stage_cases hrun with ⟨-, -, rfl⟩ | ⟨root, n, log, -, -, -, -, -, rfl⟩
  · exact h
  · exact h.sameHomes (SameHomes.updateEndpoint ..) rfl

/-- Staging keeps the buffer that a receiver has left. -/
lemma stage_recvBuf {e : Fin maxEndpoints} {userBuf bufLen : ℕ} {o : Option Unit} {ep' : Endpoint}
    (hrun : stage e userBuf bufLen k = some (o, k')) (hep' : k'.tm.endpoints e = some ep') :
    ∃ ep, k.tm.endpoints e = some ep ∧ ep.recvBufAddr = ep'.recvBufAddr ∧
      ep.recvBufCapacity = ep'.recvBufCapacity := by
  rcases stage_cases hrun with ⟨-, -, rfl⟩ | ⟨root, n, log, -, -, -, -, -, rfl⟩
  · exact ⟨ep', hep', rfl, rfl⟩
  · simp only [staged, updateEndpoint, Slots.set_self, Option.map_eq_some_iff] at hep'
    obtain ⟨ep, hep, rfl⟩ := hep'
    exact ⟨ep, hep, rfl, rfl⟩

/-- `ipc_reply_buf`, to a buffer of the client outside the pages of the kernel. -/
lemma Housed.ipcReplyBuf {client : ℕ} {words : Words} {userBuf bufLen : ℕ} {o : Option Unit}
    (h : k.Housed strict) (hclear : ∀ replier index task, k.tm.currentPid = some replier →
      k.tm.replyTarget replier client = some (index, task) →
      Avoids task.trapFrame.a5 (replyLen task bufLen))
    (hrun : ipcReplyBuf client words userBuf bufLen k = some (o, k')) : k'.Housed strict := by
  rcases ipcReplyBuf_cases hrun with ⟨-, rfl, -⟩ | ⟨replier, index, task, hcur, htarget, -, h'⟩
  · exact h
  have hreplied : SameHomes k.tm (replied k.tm index words (replyLen task bufLen)) :=
    SameHomes.update _ index fun _ => rfl
  rcases h' with ⟨-, -, rfl⟩ | ⟨-, replierPt, callerPt, k₁, -, hcaller, hcopy, h'⟩
  · exact h.sameHomes (hreplied.trans (SameHomes.wake ..)) rfl
  obtain ⟨own, h⟩ := h
  obtain ⟨i, t, ht, -, rfl⟩ := exists_of_lastPagetable hcaller
  have h₀ : NekOS.Housed strict (replied k.tm index words (replyLen task bufLen)) k.phys own :=
    h.of_sameHomes hreplied
  have h₁ : NekOS.Housed strict k₁.tm k₁.phys own :=
    (copyUserToUser_keeps (h.home i t ht).root (hclear _ _ _ hcur htarget)).of_run
      (s := { k with tm := replied k.tm index words (replyLen task bufLen) }) h₀ hcopy
  rcases h' with ⟨-, rfl⟩ | ⟨-, rfl⟩
  · exact ⟨own, h₁⟩
  · exact ⟨own, h₁.of_sameHomes (SameHomes.wake ..)⟩

/-- The payload is handed to a receiver whose buffer lies outside the pages of the kernel. -/
lemma Housed.handOver {e : Fin maxEndpoints} {r : Fin maxTasks} {bufLen : ℕ} {o : Option ℕ}
    (h : k.Housed strict) (hclear : ∀ ep, k.tm.endpoints e = some ep → ep.recvBufAddr ≠ 0 →
      Avoids ep.recvBufAddr (min bufLen ep.recvBufCapacity))
    (hrun : handOver e r bufLen k = some (o, k')) : k'.Housed strict := by
  obtain ⟨copyLen, ep, receiver, -, hep, hr, ⟨-, -, rfl⟩ | ⟨-, haddr, copied, hcopy, -⟩⟩ :=
    handOver_cases hrun
  · exact h
  · obtain ⟨own, h⟩ := h
    exact ⟨own, (memCopyToUser_keeps ep.copyBuf (h.home r receiver hr).root
      (hclear ep hep haddr)).of_run h hcopy⟩

/-- `ipc_call_buf`, when a receiver that waits has left a buffer outside the pages of the kernel. -/
lemma Housed.ipcCallBuf {endpoint : ℕ} {words : Words} {userBuf bufLen : ℕ} {tf : TrapFrame}
    {o : Option IpcResult} (h : k.Housed strict)
    (hclear : ∀ e ep, k.tm.endpointAt endpoint = some (e, ep) → ep.receiverWaiting = true →
      ep.recvBufAddr ≠ 0 → Avoids ep.recvBufAddr (min bufLen ep.recvBufCapacity))
    (hrun : ipcCallBuf endpoint words userBuf bufLen tf k = some (o, k')) : k'.Housed strict := by
  rcases ipcCallBuf_cases hrun with ⟨-, rfl⟩ |
    ⟨sender, e, ep, -, hep, -, -, -, -, staged, k₁, hstage, h'⟩
  · exact h
  have h₁ := h.stage hstage
  rcases h' with ⟨-, rfl, -⟩ | ⟨-, i, next, -, -, h'⟩
  · exact h₁
  have hblock := SameHomes.block (m := k₁.tm) i (.ipcCall endpoint) tf
  rcases h' with ⟨-, hsched⟩ | ⟨hwait, r, copyLen, k₂, -, hover, hsched⟩
  · have h₂ : Housed strict { k₁ with
        tm := (k₁.tm.block i (.ipcCall endpoint) tf).enqueue e
          ⟨sender, words, bufLen % 2 ^ 16⟩ } :=
      h₁.sameHomes (hblock.trans (SameHomes.updateEndpoint ..)) rfl
    exact h₂.schedule hsched
  · have h₂ : Housed strict { k₁ with tm := k₁.tm.block i (.ipcCall endpoint) tf } :=
      h₁.sameHomes hblock rfl
    have h₃ : Housed strict k₂ := by
      refine h₂.handOver (fun ep' hep' haddr => ?_) hover
      obtain ⟨ep₀, hep₀, haddr₀, hcap₀⟩ := stage_recvBuf hstage hep'
      obtain rfl : ep₀ = ep := Option.some.inj (hep₀.symm.trans (endpointAt_eq_some.mp hep).2)
      rw [← haddr₀, ← hcap₀]
      exact hclear e ep₀ hep hwait (by rwa [haddr₀])
    have h₄ : Housed strict { k₂ with tm := k₂.tm.deliverBuf e r sender words copyLen } :=
      h₃.sameHomes ((SameHomes.wake r _).trans (SameHomes.updateEndpoint ..)) rfl
    exact h₄.schedule hsched

/-- `ipc_recv_buf`, with a buffer outside the pages of the kernel. -/
lemma Housed.ipcRecvBuf {endpoint userBuf capacity : ℕ} {tf : TrapFrame} {o : Option IpcResult}
    (h : k.Housed strict) (hclear : ∀ e ep message pending,
      k.tm.endpointAt endpoint = some (e, ep) → ep.pending.pop = some (message, pending) →
      Avoids userBuf (min message.bufLen capacity))
    (hrun : ipcRecvBuf endpoint userBuf capacity tf k = some (o, k')) : k'.Housed strict := by
  rcases ipcRecvBuf_cases hrun with ⟨-, rfl, -⟩ | ⟨-, -, _, e, ep, -, -, -, -, rfl⟩ |
    ⟨receiver, e, ep, -, hep, -, h'⟩
  · exact h
  · exact h.sameHomes (SameHomes.updateEndpoint ..) rfl
  rcases h' with ⟨message, pending, copyLen, hpop, -, h'⟩ | ⟨-, i, next, -, -, hsched⟩
  · have h₁ : Housed strict { k with
        tm := k.tm.updateEndpoint e fun ep => { ep with pending := pending } } :=
      h.sameHomes (SameHomes.updateEndpoint ..) rfl
    rcases h' with ⟨-, -, rfl⟩ | ⟨-, hunstage⟩
    · exact h₁
    obtain ⟨_, k₁, -, hk₁, h'⟩ := unstage_cases hunstage
    have h₂ : Housed strict k₁ := by
      rw [hk₁]
      exact h₁.sameHomes (SameHomes.updateEndpoint ..) rfl
    rcases h' with ⟨-, -, rfl⟩ | ⟨t, ep', copied, ht, -, -, hcopy, -⟩
    · exact h₂
    obtain ⟨own, h₂⟩ := h₂
    obtain ⟨j, -, hj⟩ := Option.bind_eq_some_iff.mp ht
    have hj' : k₁.tm.tasks j = some t := by
      rw [hk₁]
      exact hj
    exact ⟨own, (memCopyToUser_keeps ep'.copyBuf (h₂.home j t hj').root
      (hclear e ep message pending hep hpop)).of_run h₂ hcopy⟩
  · have hmark := SameHomes.updateEndpoint (m := k.tm) e fun ep =>
      { ep with waitingReceiver := some receiver, recvBufAddr := userBuf, recvBufCapacity := capacity }
    have h₁ : Housed strict { k with
        tm := (k.tm.updateEndpoint e fun ep =>
          { ep with
            waitingReceiver := some receiver
            recvBufAddr := userBuf
            recvBufCapacity := capacity }).block i (.ipcRecv endpoint) tf } :=
      h.sameHomes (hmark.trans (SameHomes.block ..)) rfl
    exact h₁.schedule hsched

/-! ### System calls -/

/-- The buffers that an IPC operation writes to lie outside the pages of the kernel: the buffer that a
blocked receiver has left, the one passed to `ipc_recv_buf`, and the one in the frame of a client. -/
def BuffersClear (m : TaskManager) (tf : TrapFrame) : Prop :=
  match Sysno.decode tf.a7 with
  | some .ipcCallBuf => ∀ e ep, m.endpointAt tf.a0 = some (e, ep) → ep.receiverWaiting = true →
      ep.recvBufAddr ≠ 0 → Avoids ep.recvBufAddr (min tf.a6 ep.recvBufCapacity)
  | some .ipcRecvBuf => ∀ e ep message pending, m.endpointAt tf.a0 = some (e, ep) →
      ep.pending.pop = some (message, pending) → Avoids tf.a1 (min message.bufLen tf.a2)
  | some .ipcReplyBuf => ∀ replier index task, m.currentPid = some replier →
      m.replyTarget replier (tf.a0 % 2 ^ 32) = some (index, task) →
      Avoids task.trapFrame.a5 (replyLen task tf.a6)
  | _ => True

/-- A system call that returns a value. -/
lemma housed_returning {tf : TrapFrame} {f : Fallible Kernel ℕ}
    {o : Option (FramePtr × TrapFrame)}
    (hf : ∀ r, f k = some (r, k') → k'.Housed strict) (hrun : returning tf f k = some (o, k')) :
    k'.Housed strict := by
  obtain ⟨r, h, -⟩ := returning_cases hrun
  exact hf r h

/-- A system call without a value. -/
lemma housed_succeeding {tf : TrapFrame} {f : Fallible Kernel Unit}
    {o : Option (FramePtr × TrapFrame)}
    (hf : ∀ r, f k = some (r, k') → k'.Housed strict) (hrun : succeeding tf f k = some (o, k')) :
    k'.Housed strict := by
  obtain ⟨r, h, -⟩ := succeeding_cases hrun
  exact hf r h

/-- An IPC operation that may block the caller. -/
lemma housed_blocking {tf : TrapFrame} {f : Fallible Kernel IpcResult}
    {o : Option (FramePtr × TrapFrame)}
    (hf : ∀ r, f k = some (r, k') → k'.Housed strict) (hrun : blocking tf f k = some (o, k')) :
    k'.Housed strict := by
  obtain ⟨r, h, -⟩ := blocking_cases hrun
  exact hf r h

/-- **System calls keep the tasks apart**, when the files of the ramdisk and the buffers are in
order. -/
lemma Housed.handle {tf : TrapFrame} {o : Option (FramePtr × TrapFrame)} (h : k.Housed strict)
    (hfiles : k.FilesOk strict) (hclear : BuffersClear k.tm tf)
    (hrun : handle tf k = some (o, k')) : k'.Housed strict := by
  rw [Kernel.handle] at hrun
  cases hcall : Sysno.decode tf.a7 with
  | none => simp [hcall] at hrun
  | some call =>
    simp only [BuffersClear, hcall] at hrun hclear
    cases call with
    | exit =>
      rcases Fallible.bind_eq_iff.mp hrun with ⟨-, h'⟩ | ⟨_, _, h', hret⟩
      · exact h.exitCurrent h'
      · obtain ⟨-, rfl⟩ := by simpa using hret
        exact h.exitCurrent h'
    | yield =>
      obtain ⟨_, _, h', hret⟩ := noFail_schedule.bind_cases hrun
      obtain ⟨-, rfl⟩ := by simpa using hret
      exact h.schedule h'
    | getpid =>
      obtain rfl : k = k' := (by simpa [dispatch] using hrun : _ ∧ _).2
      exact h
    | fork => exact housed_returning (fun r => h.fork) hrun
    | ps =>
      obtain rfl : k = k' := (by simpa [dispatch] using hrun : _ ∧ _).2
      exact h
    | exec =>
      simp only [dispatch, Fallible.attempt_bind, Option.bind_eq_some_iff] at hrun
      obtain ⟨⟨r, k₁⟩, h', hret⟩ := hrun
      have h₁ := h.sysExec hfiles h'
      cases r <;> (obtain ⟨-, rfl⟩ := by simpa using hret) <;> exact h₁
    | waitpid =>
      simp only [dispatch, Fallible.attempt_bind, Option.bind_eq_some_iff] at hrun
      obtain ⟨⟨r, k₁⟩, h', hret⟩ := hrun
      have h₁ := h.waitpid h'
      rcases r with _ | ⟨_ | _⟩ <;> (obtain ⟨-, rfl⟩ := by simpa using hret) <;> exact h₁
    | ipcCall => exact housed_blocking (fun r => h.ipcCall) hrun
    | ipcRecv => exact housed_blocking (fun r => h.ipcRecv) hrun
    | ipcReply => exact housed_succeeding (fun r => h.ipcReply) hrun
    | irqWait =>
      simp only [dispatch] at hrun
      split at hrun
      · obtain ⟨-, rfl⟩ := by simpa using hrun
        exact h
      · simp only [Fallible.attempt_bind, Option.bind_eq_some_iff] at hrun
        obtain ⟨⟨r, k₁⟩, h', hret⟩ := hrun
        have h₁ := h.waitUartIrq h'
        cases r <;> (obtain ⟨-, rfl⟩ := by simpa using hret) <;> exact h₁
    | sbrk => exact housed_returning (fun r => h.sbrk) hrun
    | ipcCallBuf => exact housed_blocking (fun r => h.ipcCallBuf hclear) hrun
    | ipcRecvBuf => exact housed_blocking (fun r => h.ipcRecvBuf hclear) hrun
    | ipcReplyBuf => exact housed_succeeding (fun r => h.ipcReplyBuf hclear) hrun
    | shutdown => simp [dispatch] at hrun

end Kernel

/-! ### The machine -/

namespace System

open TaskManager

variable {strict : Bool} {s t : System}

/-- The event keeps the address spaces apart: no buffer reaches into the pages of the kernel, and no
program is started whose image would cover them. -/
def KeepsApart (s : System) : Event → Prop
  | .ecall tf => Kernel.BuffersClear (storeFrame s.hart tf s.kernel).tm tf
  | .spawn name => ∀ data, s.kernel.findFile name = some data → Exec.ClearOfWindow data
  | _ => True

/-- Saving a frame keeps the homes. -/
lemma housed_storeFrame {k : Kernel} (h : k.Housed strict) (hart : Fin maxTasks) (tf : TrapFrame) :
    (storeFrame hart tf k).Housed strict :=
  h.sameHomes (SameHomes.update _ hart fun _ => rfl) rfl

/-- A trap whose handler keeps the homes. -/
lemma housed_trap {tf : TrapFrame} {handler : Fallible Kernel (FramePtr × TrapFrame)}
    (hhandler : ∀ o k, handler (storeFrame s.hart tf s.kernel) = some (o, k) → k.Housed strict)
    (hrun : trap tf handler s = some t) : t.kernel.Housed strict := by
  unfold trap at hrun
  split at hrun
  · rename_i next tf' k hk
    obtain rfl := Option.some.inj hrun
    have hhoused := hhandler _ _ hk
    cases next with
    | none => exact housed_storeFrame hhoused s.hart tf'
    | some i => exact hhoused
  · simp at hrun

/-- The timer handler keeps the homes. -/
lemma housed_timerHandler {k k' : Kernel} {tf : TrapFrame} {o : Option (FramePtr × TrapFrame)}
    (h : k.Housed strict) (hrun : timerHandler tf k = some (o, k')) : k'.Housed strict := by
  obtain ⟨_, _, hsched, hret⟩ := Kernel.noFail_schedule.bind_cases hrun
  obtain ⟨-, rfl⟩ := by simpa using hret
  exact h.schedule hsched

/-- A store of a program changes a page of a program or a register of the UART. -/
lemma housed_userStore {va : ℕ} {byte : UInt8} (h : s.kernel.Housed strict)
    (hrun : userStore va byte s = some t) : t.kernel.Housed strict := by
  unfold userStore at hrun
  split at hrun
  · simp at hrun
  rename_i task htask
  split at hrun
  · simp at hrun
  rename_i pte hpte
  split at hrun
  · rename_i hflags
    obtain rfl := Option.some.inj hrun
    simp only [Bool.and_eq_true] at hflags
    obtain ⟨⟨hvalid, huser⟩, -⟩ := hflags
    obtain ⟨own, h⟩ := h
    have hroot := (h.home s.hart task htask).root
    have hlookup : lookup s.kernel.phys task.pagetable (pageNumber va) = some pte := by
      rw [← findPte_filter, hpte]
      simp [Option.filter, hvalid]
    refine ⟨own, h.write (p := pteToPa pte) ?_ rfl fun w hw => Kernel.byte_frame pte va byte hw⟩
    rcases (h.spaces.space _ hroot).leaf _ (pageNumber_lt va) pte hlookup with hk | hu
    · rw [hk.pa_of_user huser, h.spaces.uart_free]
      rfl
    · rw [hu.owned]
      rfl
  · simp at hrun

/-- **Step lemma.**  Every admitted event keeps all tasks housed. -/
theorem housed_step {ev : Event} (h : s.kernel.Housed strict) (hfiles : s.kernel.FilesOk strict)
    (hok : KeepsApart s ev) (hstep : s.step ev = some t) : t.kernel.Housed strict := by
  cases ev with
  | ecall tf =>
    simp only [step] at hstep
    split at hstep
    · have h₁ : Kernel.Housed strict { s.kernel with accesses := [] } :=
        h.sameHomes (SameHomes.refl _) rfl
      refine housed_trap (s := { s with kernel := { s.kernel with accesses := [] } }) ?_ hstep
      exact fun o k => (housed_storeFrame h₁ s.hart tf).handle hfiles hok
    · simp at hstep
  | timer tf =>
    exact housed_trap (fun o k => housed_timerHandler (housed_storeFrame h s.hart tf)) hstep
  | external irq tf =>
    refine housed_trap (fun o k hrun => ?_) hstep
    have h₁ := housed_storeFrame h s.hart tf
    unfold externalHandler at hrun
    split at hrun
    · have h₂ : Kernel.Housed strict { storeFrame s.hart tf s.kernel with
          tm := (storeFrame s.hart tf s.kernel).tm.wakeUart } := h₁.sameHomes SameHomes.wakeUart rfl
      exact housed_timerHandler h₂ hrun
    · exact housed_timerHandler h₁ hrun
  | store va byte =>
    simp only [step] at hstep
    split at hstep
    · exact housed_userStore h hstep
    · simp at hstep
  | spawn name =>
    simp only [step, Option.map_eq_some_iff] at hstep
    obtain ⟨⟨o, k⟩, hrun, rfl⟩ := hstep
    exact h.spawn hfiles (fun _ => hok) hrun

/-- In every run from the boot on, the tasks stay housed, and the managed pages start after the image
of the kernel. -/
lemma housed_run {c : Config} {s₀ : System} {es : List Event} (hboot : c.boot = some s₀)
    (hfiles : ∀ file ∈ c.files, Exec.ElfOk strict file.2 (Elf64Ehdr.read file.2))
    (hok : nekos.RunOk KeepsApart s₀ es) (hrun : nekos.run s₀ es = some s) :
    s.kernel.Housed strict ∧ s.kernel.ground = c.powerOn.ground := by
  refine Machine.run_invariant (I := fun s => s.kernel.Housed strict ∧
    s.kernel.ground = c.powerOn.ground) (fun s ev t hs hok hstep => ?_) ?_ hok hrun
  · have hground : s.kernel.files = c.files := congrArg Prod.fst hs.2
    refine ⟨housed_step hs.1 ?_ hok hstep, (step_ground hstep).trans hs.2⟩
    rw [Kernel.FilesOk, hground]
    exact hfiles
  · exact ⟨(c.housed_boot hboot hfiles).1, c.boot_ground hboot⟩

end System

/-! ### Isolation -/

/-- A page of the tree of page tables with the root `r`. -/
def TablePage (ph : Phys) (r p : ℕ) : Prop :=
  p = r ∨ ∃ i mid, child ph r i = some mid ∧ (p = mid ∨ ∃ j, child ph mid j = some p)

/-- The tree with the root `r` has the leaf `e` with `PTE_U`, at its last level or above it. -/
def UserEntry (ph : Phys) (r e : ℕ) : Prop :=
  hasFlag e pteU = true ∧ ((∃ n < 2 ^ 27, lookup ph r n = some e) ∨
    (hasFlag e pteV = true ∧ isLeaf e = true ∧ ((∃ i, ph.entry r i = e) ∨
      ∃ i mid j, child ph r i = some mid ∧ ph.entry mid j = e)))

/-- The address spaces of all tasks are apart from each other and from the kernel, whose image ends
at `kernelEnd`. -/
structure Isolated (kernelEnd : ℕ) (m : TaskManager) (ph : Phys) : Prop where
  /-- No page is reached by leaves of two tasks. -/
  disjoint : ∀ i j t u e e', m.tasks i = some t → m.tasks j = some u → i ≠ j →
    UserEntry ph t.pagetable e → UserEntry ph u.pagetable e' → pteToPa e ≠ pteToPa e'
  /-- Apart from the registers of the UART, leaves reach allocated pages behind the image of the
  kernel that are neither page tables nor kernel stacks. -/
  page : ∀ i t e, m.tasks i = some t → UserEntry ph t.pagetable e → pteToPa e ≠ uartBase →
    ph.page.Allocated (pteToPa e) ∧ kernelEnd ≤ pteToPa e ∧ ∀ j u, m.tasks j = some u →
      ¬ TablePage ph u.pagetable (pteToPa e) ∧ pteToPa e ≠ u.kernelStack
  /-- The registers of the UART are reached by the task to which they are granted. -/
  uart : ∀ i t e, m.tasks i = some t → UserEntry ph t.pagetable e → pteToPa e = uartBase →
    m.uartOwner = some t.pid

namespace Housed

variable {strict : Bool} {m : TaskManager} {ph : Phys} {own : ℕ → Role} {r e p : ℕ}

/-- Leaves for user mode are leaves of the last level. -/
lemma exists_of_userEntry (h : Housed strict m ph own) (hr : own r = .root)
    (he : UserEntry ph r e) : ∃ n < 2 ^ 27, lookup ph r n = some e ∧
      ((pteToPa e = uartBase ∧ ¬ UartClosed ph r) ∨
        (own (pteToPa e) = .data r n ∧ pteToPa e ≠ uartBase)) := by
  have hT := h.spaces.tables
  obtain ⟨huser, ⟨n, hn, he⟩ | ⟨hvalid, hleaf, ⟨i, rfl⟩ | ⟨i, mid, j, hmid, rfl⟩⟩⟩ := he
  · refine ⟨n, hn, he, ?_⟩
    rcases (h.spaces.space r hr).leaf n hn e he with hk | hu
    · refine Or.inl ⟨hk.pa_of_user huser, fun hc => ?_⟩
      obtain rfl := hk.user huser
      simp [hc e he] at huser
    · refine Or.inr ⟨hu.owned, fun hpa => ?_⟩
      have hfree := h.spaces.uart_free
      rw [← hpa, hu.owned] at hfree
      simp at hfree
  · obtain ⟨q, -, hq⟩ := hT.root_entry r i hr hvalid
    simp [hq, isLeaf_pointer] at hleaf
  · obtain ⟨q, -, hq⟩ := hT.mid_entry mid r i j ((hT.child_root hr).mp hmid) hvalid
    simp [hq, isLeaf_pointer] at hleaf

/-- The pages of a tree of page tables have roles of tables. -/
lemma isTable_of_tablePage (h : Housed strict m ph own) (hr : own r = .root)
    (hp : TablePage ph r p) : (own p).isTable = true := by
  have hT := h.spaces.tables
  rcases hp with rfl | ⟨i, mid, hmid, hp⟩
  · rw [hr]
    rfl
  · rw [hT.child_root hr] at hmid
    rcases hp with rfl | ⟨j, hlow⟩
    · rw [hmid]
      rfl
    · rw [hT.child_mid hmid] at hlow
      rw [hlow]
      rfl

/-- Housed tasks are isolated. -/
theorem isolated (h : Housed strict m ph own) {kernelEnd : ℕ} (hend : kernelEnd ≤ ph.page.startAddr) :
    Isolated kernelEnd m ph where
  disjoint i j t u e e' ht hu hij he he' heq := by
    have hrt := (h.home i t ht).root
    have hru := (h.home j u hu).root
    have hne : t.pagetable ≠ u.pagetable := fun hpt => hij (h.apart i j t u ht hu (Or.inl hpt))
    obtain ⟨n, -, -, ⟨hpa, hopen⟩ | ⟨hdata, hpa⟩⟩ := h.exists_of_userEntry hrt he <;>
      obtain ⟨n', -, -, ⟨hpa', hopen'⟩ | ⟨hdata', hpa'⟩⟩ := h.exists_of_userEntry hru he'
    · rcases h.uart_one _ _ hrt hru with hc | hc | hpt
      · exact hopen hc
      · exact hopen' hc
      · exact hne hpt
    · exact hpa' (heq.symm.trans hpa)
    · exact hpa (heq.trans hpa')
    · rw [heq, hdata', Role.data.injEq] at hdata
      exact hne hdata.1.symm
  page i t e ht he hpa := by
    obtain ⟨n, -, -, ⟨hpa', -⟩ | ⟨hdata, -⟩⟩ := h.exists_of_userEntry (h.home i t ht).root he
    · exact absurd hpa' hpa
    · have halloc := h.spaces.tables.allocated (p := pteToPa e) (by simp [hdata])
      refine ⟨halloc, hend.trans halloc.start_le, fun j u hu => ⟨fun hp => ?_, fun hp => ?_⟩⟩
      · have := h.isTable_of_tablePage (h.home j u hu).root hp
        simp [hdata, Role.isTable] at this
      · have := (h.home j u hu).kernelStack
        simp [← hp, hdata] at this
  uart i t e ht he hpa := by
    have hrt := (h.home i t ht).root
    obtain ⟨n, -, -, ⟨-, hopen⟩ | ⟨-, hpa'⟩⟩ := h.exists_of_userEntry hrt he
    · obtain ⟨j, u, hu, hpt, howner⟩ := (h.uart _ hrt).resolve_left hopen
      obtain rfl := h.apart j i u t hu ht (Or.inl hpt)
      obtain rfl : t = u := Option.some.inj (ht.symm.trans hu)
      exact howner
    · exact absurd hpa hpa'

end Housed

end NekOS
