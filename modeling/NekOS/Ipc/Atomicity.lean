import NekOS.AddressSpace.Startup
import NekOS.Scheduling.Invariant

/-!
# Failing IPC operations

An IPC operation that reports an error should leave no trace.  The operations check their arguments
before they change anything, with one exception: `ipc_reply_buf` writes the frame of the client and
then copies the payload byte by byte, so an address that cannot be translated is noticed when a part
of the reply has been made.  `IpcOp.Harmless` is the condition under which a failing operation has
changed nothing, and `ipc_fails_unchanged_iff` says that it is exact.
-/

namespace NekOS

/-- The IPC operations with their arguments. -/
inductive IpcOp
  | call (endpoint : ℕ) (words : Words) (tf : TrapFrame)
  | recv (endpoint : ℕ) (tf : TrapFrame)
  | reply (client : ℕ) (words : Words)
  | callBuf (endpoint : ℕ) (words : Words) (userBuf bufLen : ℕ) (tf : TrapFrame)
  | recvBuf (endpoint userBuf capacity : ℕ) (tf : TrapFrame)
  | replyBuf (client : ℕ) (words : Words) (userBuf bufLen : ℕ)

namespace Kernel

open TaskManager

/-- What tasks can observe of an endpoint. -/
def observed (ep : Endpoint) : MsgQueue × Option ℕ × Bool :=
  (ep.pending, ep.waitingReceiver, ep.hasBuffered)

/-- Two states of the kernel agree on everything that tasks can observe of IPC. -/
structure SameState (k k' : Kernel) : Prop where
  /-- The states, wait channels and saved frames of all tasks. -/
  tasks : k'.tm.tasks = k.tm.tasks
  /-- All memory, that of user programs included. -/
  mem : k'.phys.mem = k.phys.mem
  /-- The counter of runnable tasks. -/
  runnableCount : k'.tm.runnableCount = k.tm.runnableCount
  /-- The endpoints, apart from the staging buffer and the buffer of the receiver. -/
  endpoints : ∀ e, (k'.tm.endpoints e).map observed = (k.tm.endpoints e).map observed

/-- An operation that changes nothing. -/
lemma SameState.refl (k : Kernel) : SameState k k := ⟨rfl, rfl, rfl, fun _ => rfl⟩

/-- A change of one endpoint is observed when the endpoint differs afterwards. -/
lemma sameState_updateEndpoint {k : Kernel} {e : Fin maxEndpoints} {ep : Endpoint}
    (hep : k.tm.endpoints e = some ep) (f : Endpoint → Endpoint) :
    SameState k { k with tm := k.tm.updateEndpoint e f } ↔ observed (f ep) = observed ep := by
  constructor
  · intro h
    have he := h.endpoints e
    simp only [updateEndpoint, hep, Option.map_some, Slots.set_self, Option.some.injEq] at he
    exact he
  · refine fun h => ⟨rfl, rfl, rfl, fun e' => ?_⟩
    by_cases he : e' = e
    · subst he
      simp [updateEndpoint, hep, h]
    · simp [updateEndpoint, Slots.set_of_ne he]

/-! ### The copy loop of `ipc_reply_buf` -/

/-- The first `n` bytes of two user buffers can be read and are the same. -/
def Agree (ph : Phys) (srcRoot userSrc dstRoot userDst n : ℕ) : Prop :=
  ∀ i < n, ∃ b, userByte ph srcRoot (wrap (userSrc + i)) = some b ∧
    userByte ph dstRoot (wrap (userDst + i)) = some b

/-- The byte at the position `n` of one of two user buffers cannot be reached. -/
def Unreachable (ph : Phys) (srcRoot userSrc dstRoot userDst n : ℕ) : Prop :=
  userByte ph srcRoot (wrap (userSrc + n)) = none ∨ userByte ph dstRoot (wrap (userDst + n)) = none

/-- One iteration of the copy loop. -/
def copyByte (srcRoot userSrc dstRoot userDst i : ℕ) : Fallible Kernel Unit := do
  let srcPa ← translate srcRoot (wrap (userSrc + i))
  let dstPa ← translate dstRoot (wrap (userDst + i))
  let b ← readAt srcRoot (wrap (userSrc + i)) srcPa
  writeAt dstRoot (wrap (userDst + i)) dstPa b

/-- The copy loop consists of its iterations. -/
lemma copyUserToUser_eq (srcRoot userSrc dstRoot userDst len : ℕ) :
    copyUserToUser srcRoot userSrc dstRoot userDst len =
      Fallible.forRange len (copyByte srcRoot userSrc dstRoot userDst) := rfl

/-- A translation keeps the offset in the page. -/
lemma virtToPhys_mod {ph : Phys} {root va pa : ℕ} (h : PageTable.virtToPhys ph root va = some pa) :
    pa % pageSize = va % pageSize := by
  unfold PageTable.virtToPhys at h
  split at h
  · simp at h
  · split at h
    · simp at h
    · rename_i pte _ _
      obtain rfl := Option.some.inj h
      have hpage : pteToPa pte % pageSize = 0 := by
        rw [pteToPa, Nat.shiftLeft_eq]
        exact Nat.mul_mod_left _ _
      rw [Nat.add_mod, hpage, Nat.zero_add, Nat.mod_mod, Nat.mod_mod]

/-- Wrapping keeps the offset in the page. -/
lemma wrap_mod (x : ℕ) : wrap x % pageSize = x % pageSize :=
  Nat.mod_mod_of_dvd _ (by decide)

section CopyLoop

variable {srcRoot userSrc dstRoot userDst : ℕ} {k k' : Kernel}

/-- An iteration of the copy loop writes one byte, or fails and changes nothing. -/
lemma copyByte_cases {i : ℕ} {o : Option Unit}
    (h : copyByte srcRoot userSrc dstRoot userDst i k = some (o, k')) :
    (o = none ∧ k' = k ∧ Unreachable k.phys srcRoot userSrc dstRoot userDst i) ∨
    (o = some () ∧ ∃ b d, userByte k.phys srcRoot (wrap (userSrc + i)) = some b ∧
      PageTable.virtToPhys k.phys dstRoot (wrap (userDst + i)) = some d ∧ k'.tm = k.tm ∧
      k'.phys = k.phys.writeByte d b) := by
  rcases translate_bind_cases h with ⟨hsrc, rfl, rfl⟩ | ⟨srcPa, hsrc, h⟩
  · exact Or.inl ⟨rfl, rfl, Or.inl (by rw [userByte, hsrc]; rfl)⟩
  rcases translate_bind_cases h with ⟨hdst, rfl, rfl⟩ | ⟨d, hdst, h⟩
  · exact Or.inl ⟨rfl, rfl, Or.inr (by rw [userByte, hdst]; rfl)⟩
  have hb : userByte k.phys srcRoot (wrap (userSrc + i)) = some (k.phys.mem.byteAt srcPa) := by
    rw [userByte, hsrc, Option.map_some]
  obtain ⟨rfl, rfl⟩ := Prod.mk.inj (Option.some.inj h)
  exact Or.inr ⟨rfl, _, d, hb, hdst, rfl, rfl⟩

/-- An iteration that finds its byte in place changes nothing but the record of accesses. -/
lemma copyByte_of_agree {i : ℕ} {b : UInt8}
    (hsrc : userByte k.phys srcRoot (wrap (userSrc + i)) = some b)
    (hdst : userByte k.phys dstRoot (wrap (userDst + i)) = some b) :
    ∃ k', copyByte srcRoot userSrc dstRoot userDst i k = some (some (), k') ∧ k'.tm = k.tm ∧
      k'.phys = k.phys := by
  rw [userByte, Option.map_eq_some_iff] at hsrc hdst
  obtain ⟨srcPa, hsrc, hb⟩ := hsrc
  obtain ⟨d, hdst, hd⟩ := hdst
  have htranslate : ∀ root va, translate root va k = some (PageTable.virtToPhys k.phys root va, k) :=
    fun _ _ => rfl
  have hrun : copyByte srcRoot userSrc dstRoot userDst i k =
      (readAt srcRoot (wrap (userSrc + i)) srcPa >>= fun b =>
        writeAt dstRoot (wrap (userDst + i)) d b) k := by
    rw [copyByte, Fallible.bind_of_some ((htranslate _ _).trans (by rw [hsrc])),
      Fallible.bind_of_some ((htranslate _ _).trans (by rw [hdst]))]
  refine ⟨_, hrun, rfl, Phys.ext rfl ?_⟩
  change k.phys.mem.setByte d (k.phys.mem.byteAt srcPa) = k.phys.mem
  rw [hb, ← hd, Memory.setByte_byteAt]

/-- The copy loop writes the bytes of the destination buffer, and no byte at another offset in its
page. -/
lemma copyLoop_frame {n : ℕ} {o : Option Unit}
    (h : copyUserToUser srcRoot userSrc dstRoot userDst n k = some (o, k')) {a : ℕ}
    (ha : ∀ i < n, a % pageSize ≠ (userDst + i) % pageSize) :
    k'.phys.mem.byteAt a = k.phys.mem.byteAt a := by
  rw [copyUserToUser_eq] at h
  induction n generalizing o k' with
  | zero =>
    obtain ⟨-, rfl⟩ : some () = o ∧ k = k' := by simpa using h
    rfl
  | succ n ih =>
    rw [Fallible.forRange_succ] at h
    have ha' : ∀ i < n, a % pageSize ≠ (userDst + i) % pageSize := fun i hi =>
      ha i (Nat.lt_succ_of_lt hi)
    rcases Fallible.bind_eq_iff.mp h with ⟨-, h₁⟩ | ⟨_, k₁, h₁, h₂⟩
    · exact ih h₁ ha'
    · rw [← ih h₁ ha']
      rcases copyByte_cases h₂ with ⟨-, rfl, -⟩ | ⟨-, b, d, -, hd, -, hphys⟩
      · rfl
      · have hne : a ≠ d := by
          rintro rfl
          exact ha n (Nat.lt_succ_self n) (by rw [virtToPhys_mod hd, wrap_mod])
        rw [hphys]
        exact (Memory.byteAt_setByte _ _ _ _).trans (if_neg hne)

/-- A copy that leaves memory as it is has found every byte in place. -/
lemma agree_of_mem_eq {n : ℕ} (hn : n ≤ pageSize)
    (h : copyUserToUser srcRoot userSrc dstRoot userDst n k = some (some (), k'))
    (hmem : k'.phys.mem = k.phys.mem) :
    Agree k.phys srcRoot userSrc dstRoot userDst n ∧ k'.phys = k.phys := by
  induction n generalizing k' with
  | zero =>
    obtain rfl : k = k' := by simpa [copyUserToUser] using h
    exact ⟨fun i hi => absurd hi (Nat.not_lt_zero i), rfl⟩
  | succ n ih =>
    rw [copyUserToUser_eq, Fallible.forRange_succ, Fallible.bind_eq_some] at h
    obtain ⟨_, k₁, h₁, h₂⟩ := h
    rcases copyByte_cases h₂ with ⟨hnone, -⟩ | ⟨-, b, d, hb, hd, -, hphys⟩
    · simp at hnone
    -- The byte written last was not written before, so it was there from the start.
    have hsame : k₁.phys.mem.byteAt d = k.phys.mem.byteAt d := by
      refine copyLoop_frame h₁ fun i hi => ?_
      rw [virtToPhys_mod hd, wrap_mod]
      simp only [pageSize] at hn ⊢
      omega
    have hwritten : k'.phys.mem = k₁.phys.mem.setByte d b := by rw [hphys]; rfl
    have hd' : k₁.phys.mem.byteAt d = b := by
      rw [hsame, ← hmem, hwritten, Memory.byteAt_setByte, if_pos rfl]
    have hmem₁ : k'.phys.mem = k₁.phys.mem := by
      rw [hwritten, ← hd', Memory.setByte_byteAt]
    obtain ⟨hagree, hphys₁⟩ := ih (Nat.le_of_succ_le hn) h₁ (hmem₁.symm.trans hmem)
    rw [hphys₁] at hb hd hd'
    refine ⟨fun i hi => ?_, ?_⟩
    · rcases Nat.lt_succ_iff_lt_or_eq.mp hi with hi | rfl
      · exact hagree i hi
      · exact ⟨b, hb, by rw [userByte, hd, Option.map_some, hd']⟩
    · have hpage : k'.phys.page = k₁.phys.page := by rw [hphys]; rfl
      rw [← hphys₁]
      exact Phys.ext hpage hmem₁

/-- Copying bytes that are in place leaves memory as it is. -/
lemma copy_of_agree {n : ℕ} (h : Agree k.phys srcRoot userSrc dstRoot userDst n) :
    ∃ k', copyUserToUser srcRoot userSrc dstRoot userDst n k = some (some (), k') ∧
      k'.tm = k.tm ∧ k'.phys = k.phys := by
  induction n with
  | zero => exact ⟨k, rfl, rfl, rfl⟩
  | succ n ih =>
    obtain ⟨k₁, h₁, htm, hphys⟩ := ih fun i hi => h i (Nat.lt_succ_of_lt hi)
    obtain ⟨b, hsrc, hdst⟩ := h n (Nat.lt_succ_self n)
    rw [← hphys] at hsrc hdst
    obtain ⟨k₂, h₂, htm₂, hphys₂⟩ := copyByte_of_agree hsrc hdst
    exact ⟨k₂, (Fallible.bind_of_some h₁).trans h₂, htm₂.trans htm, hphys₂.trans hphys⟩

/-- An iteration that cannot reach one of its bytes fails. -/
lemma copyByte_of_unreachable {i : ℕ} (h : Unreachable k.phys srcRoot userSrc dstRoot userDst i) :
    copyByte srcRoot userSrc dstRoot userDst i k = some (none, k) := by
  simp only [Unreachable, userByte, Option.map_eq_none_iff] at h
  rw [copyByte]
  have htranslate : ∀ root va, translate root va k = some (PageTable.virtToPhys k.phys root va, k) :=
    fun _ _ => rfl
  rcases hsrc : PageTable.virtToPhys k.phys srcRoot (wrap (userSrc + i)) with _ | srcPa
  · exact Fallible.bind_of_none ((htranslate _ _).trans (by rw [hsrc]))
  · rw [hsrc] at h
    rw [Fallible.bind_of_some ((htranslate _ _).trans (by rw [hsrc]))]
    exact Fallible.bind_of_none ((htranslate _ _).trans (by rw [h.resolve_left (by simp)]))

/-- A copy that fails has changed nothing exactly when all bytes before the first one that cannot be
reached were in place. -/
lemma copy_fails_iff {len : ℕ} (hlen : len ≤ pageSize)
    (h : copyUserToUser srcRoot userSrc dstRoot userDst len k = some (none, k')) :
    k'.phys.mem = k.phys.mem ↔ ∃ n < len, Agree k.phys srcRoot userSrc dstRoot userDst n ∧
      Unreachable k.phys srcRoot userSrc dstRoot userDst n := by
  constructor
  · intro hmem
    obtain ⟨n, hn, k₁, h₁, h₂⟩ := Fallible.forRange_eq_none.mp h
    rcases copyByte_cases h₂ with ⟨-, rfl, hstuck⟩ | ⟨hsome, -⟩
    · obtain ⟨hagree, hphys⟩ := agree_of_mem_eq (hn.le.trans hlen) h₁ hmem
      exact ⟨n, hn, hagree, by rwa [hphys] at hstuck⟩
    · simp at hsome
  · rintro ⟨n, hn, hagree, hstuck⟩
    obtain ⟨k₁, h₁, -, hphys⟩ := copy_of_agree hagree
    have hfail := Fallible.forRange_eq_none.mpr
      ⟨n, hn, k₁, h₁, copyByte_of_unreachable (by rwa [hphys])⟩
    obtain ⟨-, rfl⟩ := Prod.mk.inj (Option.some.inj (h.symm.trans hfail))
    rw [hphys]

end CopyLoop

end Kernel

namespace IpcOp

open TaskManager Kernel

/-- The operation on the kernel. -/
def run : IpcOp → Fallible Kernel Unit
  | call endpoint words tf => ipcCall endpoint words tf >>= fun _ => pure ()
  | recv endpoint tf => ipcRecv endpoint tf >>= fun _ => pure ()
  | reply client words => ipcReply client words
  | callBuf endpoint words userBuf bufLen tf =>
    ipcCallBuf endpoint words userBuf bufLen tf >>= fun _ => pure ()
  | recvBuf endpoint userBuf capacity tf =>
    ipcRecvBuf endpoint userBuf capacity tf >>= fun _ => pure ()
  | replyBuf client words userBuf bufLen => ipcReplyBuf client words userBuf bufLen

/-- A receive operation that would block finds its task in the table, or its task is already noted
as the receiver. -/
def ReceiverKnown (k : Kernel) (endpoint : ℕ) : Prop :=
  ∀ e ep, k.tm.endpointAt endpoint = some (e, ep) → k.tm.currentPid = some ep.owner →
    ep.pending.pop = none → k.tm.currentIndex = none → ep.waitingReceiver = some ep.owner

/-- A buffered reply that has found its client leaves the frame of the client as it is, and the
payload is in place up to a byte that cannot be reached. -/
def ReplyInPlace (k : Kernel) (client : ℕ) (words : Words) (userBuf bufLen : ℕ) : Prop :=
  ∀ replier index task replierPt callerPt, k.tm.currentPid = some replier →
    k.tm.replyTarget replier client = some (index, task) → task.state = .sleeping →
    k.tm.lastPagetable replier = some replierPt → k.tm.lastPagetable client = some callerPt →
    { setReply words task.trapFrame with a5 := replyLen task bufLen } = task.trapFrame ∧
    ∃ n < replyLen task bufLen,
      Agree k.phys replierPt userBuf callerPt task.trapFrame.a5 n ∧
      Unreachable k.phys replierPt userBuf callerPt task.trapFrame.a5 n

/-- The condition under which a failing operation has changed nothing. -/
def Harmless (k : Kernel) : IpcOp → Prop
  | recv endpoint _ => ReceiverKnown k endpoint
  | recvBuf endpoint _ _ _ => ReceiverKnown k endpoint
  | replyBuf client words userBuf bufLen => ReplyInPlace k client words userBuf bufLen
  | _ => True

section Cases

variable {k k' : Kernel}

/-- Dropping the value of an operation does not hide its errors. -/
lemma bind_pure_eq_none {α : Type} {f : Fallible Kernel α}
    (h : (f >>= fun _ => (pure () : Fallible Kernel Unit)) k = some (none, k')) :
    f k = some (none, k') := by
  rcases Fallible.bind_eq_none.mp h with h | ⟨_, _, -, h⟩
  · exact h
  · simp at h

/-- A receive operation that fails. -/
lemma receive_iff {endpoint : ℕ} {f : ℕ → Endpoint → Endpoint}
    (hf : ∀ p ep, observed (f p ep) = (ep.pending, some p, ep.hasBuffered))
    (h : (k' = k ∧ ∀ e ep, k.tm.endpointAt endpoint = some (e, ep) →
        k.tm.currentPid ≠ some ep.owner) ∨
      (k.tm.currentIndex = none ∧ ∃ receiver e ep, k.tm.currentPid = some receiver ∧
        k.tm.endpointAt endpoint = some (e, ep) ∧ ep.owner = receiver ∧ ep.pending.pop = none ∧
        k' = { k with tm := k.tm.updateEndpoint e (f receiver) })) :
    SameState k k' ↔ ReceiverKnown k endpoint := by
  rcases h with ⟨rfl, hother⟩ | ⟨hnone, _, e, ep, hpid, hep, rfl, hpop, rfl⟩
  · exact iff_of_true (SameState.refl _) fun e ep hep hpid => absurd hpid (hother e ep hep)
  · rw [sameState_updateEndpoint (endpointAt_eq_some.mp hep).2, hf]
    constructor
    · intro h e' ep' hep' hpid' hpop' _
      rw [hep, Option.some.injEq, Prod.mk.injEq] at hep'
      obtain ⟨-, rfl⟩ := hep'
      simp only [observed, Prod.mk.injEq] at h
      exact h.2.1.symm
    · intro h
      rw [observed, h e ep hep hpid hpop hnone]

/-- A buffered reply that fails. -/
lemma replyBuf_iff {client : ℕ} {words : Words} {userBuf bufLen : ℕ}
    (h : ipcReplyBuf client words userBuf bufLen k = some (none, k')) :
    SameState k k' ↔ ReplyInPlace k client words userBuf bufLen := by
  rcases ipcReplyBuf_cases h with
    ⟨-, rfl, hother⟩ | ⟨replier, index, task, hreplier, htarget, hstate, h⟩
  · exact iff_of_true (SameState.refl _) fun replier index task _ _ hreplier htarget hstate =>
      absurd hstate (hother replier index task hreplier htarget)
  rcases h with ⟨-, hsome, -⟩ | ⟨-, replierPt, callerPt, k₁, hsrc, hdst, hcopy, h⟩
  · simp at hsome
  rcases h with ⟨-, rfl⟩ | ⟨hsome, -⟩
  swap
  · simp at hsome
  have hlen : replyLen task bufLen ≤ pageSize := Nat.min_le_right _ _
  have htm : k'.tm = replied k.tm index words (replyLen task bufLen) := by
    obtain ⟨_, _, -, -, -, -, hwritten⟩ := copyUserToUser_cases hcopy
    exact hwritten.tm
  have hmem := copy_fails_iff hlen hcopy
  have hslot := (replyTarget_eq_some htarget).2.1
  have htasks : k'.tm.tasks = k.tm.tasks ↔
      { setReply words task.trapFrame with a5 := replyLen task bufLen } = task.trapFrame := by
    rw [htm, replied, tasks_updateTask hslot]
    constructor
    · intro h
      have hi := congrFun h index
      rw [Slots.set_self, hslot, Option.some.injEq] at hi
      exact congrArg Task.trapFrame hi
    · intro h
      rw [h, ← hslot, Slots.set_eq_self]
  constructor
  · intro hsame r i t rp cp hr ht _ hrp hcp
    obtain rfl := Option.some.inj (hreplier.symm.trans hr)
    obtain ⟨rfl, rfl⟩ := Prod.mk.inj (Option.some.inj (htarget.symm.trans ht))
    obtain rfl := Option.some.inj (hsrc.symm.trans hrp)
    obtain rfl := Option.some.inj (hdst.symm.trans hcp)
    exact ⟨htasks.mp hsame.tasks, hmem.mp hsame.mem⟩
  · intro hplace
    obtain ⟨hframe, hagree⟩ :=
      hplace replier index task replierPt callerPt hreplier htarget hstate hsrc hdst
    exact ⟨htasks.mpr hframe, hmem.mpr hagree, by rw [htm]; rfl, fun e => by rw [htm]; rfl⟩

/-- A buffered call that fails. -/
lemma callBuf_sameState {endpoint : ℕ} {words : Words} {userBuf bufLen : ℕ} {tf : TrapFrame}
    (h : ipcCallBuf endpoint words userBuf bufLen tf k = some (none, k')) : SameState k k' := by
  rcases ipcCallBuf_cases h with
    ⟨-, rfl⟩ | ⟨sender, e, ep, -, hep, -, -, -, -, o, k₁, hstage, h⟩
  · exact SameState.refl _
  rcases h with ⟨-, rfl, -⟩ | ⟨-, _, _, -, hnone, -⟩
  swap
  · simp at hnone
  rcases stage_cases hstage with ⟨-, -, rfl⟩ | ⟨root, n, log, -, -, -, -, -, rfl⟩
  · exact SameState.refl _
  · have := (sameState_updateEndpoint (endpointAt_eq_some.mp hep).2 fun ep =>
      { ep with
        copyBuf := stagedBytes k.phys root userBuf n ep.copyBuf
        copyLen := if n = bufLen then bufLen else ep.copyLen }).mpr rfl
    exact ⟨this.tasks, rfl, this.runnableCount, this.endpoints⟩

end Cases

/-- **Errors leave no trace, exactly when.**  An IPC operation that reports an error has changed no
task, no memory, no queue, no waiting receiver and no counter if and only if it is harmless. -/
theorem unchanged_iff_harmless {op : IpcOp} {k k' : Kernel} (h : op.run k = some (none, k')) :
    SameState k k' ↔ op.Harmless k := by
  cases op with
  | call endpoint words tf =>
    rcases ipcCall_cases (bind_pure_eq_none h) with ⟨-, rfl⟩ | ⟨_, _, _, _, _, -, -, -, -, -, hsome, -⟩
    · exact iff_of_true (SameState.refl _) trivial
    · simp at hsome
  | recv endpoint tf =>
    refine receive_iff (f := fun p ep => { ep with waitingReceiver := some p }) (fun _ _ => rfl) ?_
    rcases ipcRecv_cases (bind_pure_eq_none h) with
      ⟨-, h⟩ | ⟨-, h⟩ | ⟨_, _, _, -, -, -, ⟨_, _, -, hsome, -⟩ | ⟨-, _, _, -, hsome, -⟩⟩
    · exact Or.inl h
    · exact Or.inr h
    · simp at hsome
    · simp at hsome
  | reply client words =>
    rcases ipcReply_cases h with ⟨-, rfl⟩ | ⟨hsome, -⟩
    · exact iff_of_true (SameState.refl _) trivial
    · simp at hsome
  | callBuf endpoint words userBuf bufLen tf =>
    exact iff_of_true (callBuf_sameState (bind_pure_eq_none h)) trivial
  | recvBuf endpoint userBuf capacity tf =>
    refine receive_iff (f := fun p ep =>
      { ep with waitingReceiver := some p, recvBufAddr := userBuf, recvBufCapacity := capacity })
      (fun _ _ => rfl) ?_
    rcases ipcRecvBuf_cases (bind_pure_eq_none h) with
      ⟨-, h⟩ | ⟨-, h⟩ | ⟨_, _, _, -, -, -, ⟨_, _, _, -, hsome, -⟩ | ⟨-, _, _, -, hsome, -⟩⟩
    · exact Or.inl h
    · exact Or.inr h
    · simp at hsome
    · simp at hsome
  | replyBuf client words userBuf bufLen => exact replyBuf_iff h

/-- The console of the sample machine replies to the shell with a byte of its first page, which is
not mapped: the reply fails and has changed the frame of the shell. -/
lemma replyBuf_changes : ∃ s k', nekos.Reaches (fun _ _ => True) s ∧
    (replyBuf 3 ⟨5, 0, 0, 0⟩ 0 1).run s.kernel = some (none, k') ∧ ¬ SameState s.kernel k' := by
  obtain ⟨x, hboot, hbooted⟩ := Sample.exists_start []
  let call : TrapFrame := { TrapFrame.new with a7 := 10, a0 := consoleEndpoint, a6 := 1 }
  have hreach : nekos.Reaches (fun _ _ => True) _ :=
    .step (.init ⟨_, hboot⟩) trivial (x.start_call call rfl rfl)
  obtain ⟨own, hhoused⟩ := hbooted.housed
  have hconsole := hhoused.home ⟨1, by decide⟩ (Sample.task 1 x.console) rfl
  have hnone : PageTable.lookup x.phys x.console.pagetable 0 = none := by
    by_contra hsome
    obtain ⟨e, he⟩ := Option.ne_none_iff_exists'.mp hsome
    rcases hconsole.within 0 (by decide) e he with hk | ⟨hstack, -⟩ | ⟨himage, -⟩ | ⟨hstrict, -⟩
    · exact absurd hk (by decide)
    · exact absurd hstack (by decide)
    · rw [Sample.task_imagePage] at himage
      omega
    · simp at hstrict
  generalize hs : x.called call (Sample.consoleEnd ⟨3, argWords call, 0⟩ fun _ => 0) [] = s at hreach
  let m := replied s.kernel.tm ⟨3, by decide⟩ ⟨5, 0, 0, 0⟩ 1
  have hcopy : copyUserToUser x.console.pagetable 0 x.shell.pagetable 0 1 { s.kernel with tm := m } =
      some (none, { s.kernel with tm := m }) := by
    refine Fallible.forRange_eq_none.mpr ⟨0, by decide, _, rfl, Fallible.bind_of_none ?_⟩
    have htrans : PageTable.virtToPhys s.kernel.phys x.console.pagetable 0 = none := by
      subst hs
      rw [PageTable.virtToPhys_eq]
      exact congrArg (Option.map _) hnone
    rw [translate_apply]
    exact congrArg (fun o => some (o, _)) htrans
  have hrun : (replyBuf 3 ⟨5, 0, 0, 0⟩ 0 1).run s.kernel =
      (copyUserToUser x.console.pagetable 0 x.shell.pagetable 0 1 >>= fun _ =>
        onTm (wake ⟨3, by decide⟩ id)) { s.kernel with tm := m } := by
    subst hs
    rfl
  refine ⟨s, _, hreach, hrun.trans (Fallible.bind_of_none hcopy), fun hsame => ?_⟩
  have hslot := congrFun hsame.tasks ⟨3, by decide⟩
  subst hs
  have hframe : some 5 = some 1 := congrArg (fun o => o.map fun t => t.trapFrame.a0) hslot
  simp at hframe

/-- A reply that fails has changed the state. -/
theorem reply_fails_changed : ¬ ∀ s, nekos.Reaches (fun _ _ => True) s →
    ∀ (op : IpcOp) k', op.run s.kernel = some (none, k') → SameState s.kernel k' := by
  intro h
  obtain ⟨s, k', hreach, hrun, hchanged⟩ := replyBuf_changes
  exact hchanged (h s hreach _ k' hrun)

/-- The theorem for that reply: it is not harmless. -/
theorem unchanged_iff_harmless_sample : ∃ s k', nekos.Reaches (fun _ _ => True) s ∧
    (replyBuf 3 ⟨5, 0, 0, 0⟩ 0 1).run s.kernel = some (none, k') ∧
    ¬ (replyBuf 3 ⟨5, 0, 0, 0⟩ 0 1).Harmless s.kernel := by
  obtain ⟨s, k', hreach, hrun, hchanged⟩ := replyBuf_changes
  exact ⟨s, k', hreach, hrun, fun h => hchanged ((unchanged_iff_harmless hrun).mpr h)⟩

end IpcOp

end NekOS
