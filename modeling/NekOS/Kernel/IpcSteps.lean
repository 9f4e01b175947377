import NekOS.Kernel.IpcOps
import NekOS.Kernel.TaskSteps

/-!
# What the IPC operations do

One lemma for each IPC operation: how it can end and, in each case, the state it leaves.  The byte
loops are described by the accesses they record.
-/

namespace NekOS

namespace Kernel

open TaskManager

/-! ### Byte loops -/

/-- The accesses of a byte loop that has visited the first `n` bytes of a buffer, newest first. -/
structure Visited (root base n : ℕ) (write : Bool) (log : List Access) : Prop where
  /-- The accesses are to the bytes of the buffer, one after the other. -/
  vas : log.map Access.va = ((List.range n).map fun i => wrap (base + i)).reverse
  /-- They go through one page table. -/
  roots : ∀ a ∈ log, a.root = root
  /-- They are all reads or all writes. -/
  writes : ∀ a ∈ log, a.write = write

/-- A state that differs in memory contents and the record of accesses. -/
structure Written (k k' : Kernel) (log : List Access) : Prop where
  tm : k'.tm = k.tm
  files : k'.files = k.files
  page : k'.phys.page = k.phys.page
  /-- The accesses are recorded. -/
  accesses : k'.accesses = log ++ k.accesses
  /-- Bytes that no write access touches keep their value. -/
  frame : ∀ pa, (∀ a ∈ log, a.write = true → a.pa ≠ pa) →
    k'.phys.mem.byteAt pa = k.phys.mem.byteAt pa

/-- No access at all. -/
lemma Visited.nil (root base : ℕ) (write : Bool) : Visited root base 0 write [] where
  vas := rfl
  roots := by simp
  writes := by simp

/-- One access more. -/
lemma Visited.cons {root base n : ℕ} {write : Bool} {log : List Access} {a : Access}
    (h : Visited root base n write log) (hva : a.va = wrap (base + n)) (hroot : a.root = root)
    (hwrite : a.write = write) : Visited root base (n + 1) write (a :: log) where
  vas := by
    rw [List.range_succ, List.map_append, List.reverse_append, List.map_cons, hva, h.vas]
    rfl
  roots := by simpa [hroot] using h.roots
  writes := by simpa [hwrite] using h.writes

/-- Nothing has been written. -/
lemma Written.refl (k : Kernel) : Written k k [] where
  tm := rfl
  files := rfl
  page := rfl
  accesses := rfl
  frame _ _ := rfl

/-- One after the other. -/
lemma Written.trans {k₁ k₂ k₃ : Kernel} {log₁ log₂ : List Access} (h₁ : Written k₁ k₂ log₁)
    (h₂ : Written k₂ k₃ log₂) : Written k₁ k₃ (log₂ ++ log₁) where
  tm := h₂.tm.trans h₁.tm
  files := h₂.files.trans h₁.files
  page := h₂.page.trans h₁.page
  accesses := by rw [h₂.accesses, h₁.accesses, List.append_assoc]
  frame pa h := by
    rw [h₂.frame pa fun a ha => h a (List.mem_append_left _ ha),
      h₁.frame pa fun a ha => h a (List.mem_append_right _ ha)]

/-- The byte that a virtual address refers to. -/
def userByte (ph : Phys) (root va : ℕ) : Option UInt8 :=
  (PageTable.virtToPhys ph root va).map ph.mem.byteAt

/-- Reading a byte of user memory records the access. -/
lemma readAt_cases {root va pa : ℕ} {k k' : Kernel} {o : Option UInt8}
    (h : readAt root va pa k = some (o, k')) :
    o = some (k.phys.mem.byteAt pa) ∧
      k' = { k with accesses := k.accessOf root va pa false :: k.accesses } := by
  simp only [readAt, Fallible.modify_bind, Fallible.gets_apply, Option.some.injEq,
    Prod.mk.injEq] at h
  exact ⟨h.1.symm, h.2.symm⟩

/-- Writing a byte of user memory records the access. -/
lemma writeAt_cases {root va pa : ℕ} {b : UInt8} {k k' : Kernel} {o : Option Unit}
    (h : writeAt root va pa b k = some (o, k')) :
    o = some () ∧ Written k k' [k.accessOf root va pa true] := by
  simp only [writeAt, Fallible.modify_apply, Option.some.injEq, Prod.mk.injEq] at h
  obtain ⟨rfl, rfl⟩ := h
  refine ⟨rfl, rfl, rfl, rfl, rfl, fun a ha => ?_⟩
  have hne : a ≠ pa := fun h => ha _ (List.mem_singleton_self _) rfl h.symm
  change (k.phys.mem.setByte pa b).byteAt a = _
  rw [Memory.byteAt_setByte, if_neg hne]

/-- A translation reads the page table. -/
lemma translate_apply (root va : ℕ) (k : Kernel) :
    translate root va k = some (PageTable.virtToPhys k.phys root va, k) := by
  simp only [translate, Fallible.gets_bind, Fallible.ofOption_apply]

/-- A translation changes nothing. -/
lemma translate_cases {root va : ℕ} {k k' : Kernel} {o : Option ℕ}
    (h : translate root va k = some (o, k')) :
    o = PageTable.virtToPhys k.phys root va ∧ k' = k := by
  rw [translate_apply] at h
  simp only [Option.some.injEq, Prod.mk.injEq] at h
  exact ⟨h.1.symm, h.2.symm⟩

/-- What follows a translation. -/
lemma translate_bind_cases {α : Type} {root va : ℕ} {g : ℕ → Fallible Kernel α} {k k' : Kernel}
    {o : Option α} (h : (translate root va >>= g) k = some (o, k')) :
    (PageTable.virtToPhys k.phys root va = none ∧ o = none ∧ k' = k) ∨
      ∃ pa, PageTable.virtToPhys k.phys root va = some pa ∧ g pa k = some (o, k') := by
  rcases Fallible.bind_eq_iff.mp h with ⟨rfl, h₁⟩ | ⟨pa, k₁, h₁, h₂⟩
  · obtain ⟨hpa, rfl⟩ := translate_cases h₁
    exact Or.inl ⟨hpa.symm, rfl, rfl⟩
  · obtain ⟨hpa, rfl⟩ := translate_cases h₁
    exact Or.inr ⟨pa, hpa.symm, h₂⟩

/-- `mem_copy_to_user` writes a part of the buffer, all of it when it succeeds. -/
lemma memCopyToUser_cases {root userDst len : ℕ} {src : ℕ → UInt8} {k k' : Kernel}
    {o : Option Unit} (h : memCopyToUser root userDst src len k = some (o, k')) :
    ∃ n log, n ≤ len ∧ (o = some () → n = len) ∧ Visited root userDst n true log ∧
      Written k k' log := by
  rw [memCopyToUser] at h
  induction len generalizing o k' with
  | zero =>
    obtain ⟨rfl, rfl⟩ : some () = o ∧ k = k' := by simpa using h
    exact ⟨0, [], le_rfl, fun _ => rfl, Visited.nil .., Written.refl k⟩
  | succ len ih =>
    rw [Fallible.forRange_succ] at h
    rcases Fallible.bind_eq_iff.mp h with ⟨rfl, h₁⟩ | ⟨u, k₁, h₁, h₂⟩
    · obtain ⟨n, log, hn, -, hvis, hwr⟩ := ih h₁
      exact ⟨n, log, hn.trans (Nat.le_succ _), by simp, hvis, hwr⟩
    · obtain ⟨n, log, -, hn, hvis, hwr⟩ := ih h₁
      obtain rfl := hn rfl
      rcases translate_bind_cases h₂ with ⟨-, rfl, rfl⟩ | ⟨pa, -, h₃⟩
      · exact ⟨n, log, Nat.le_succ _, by simp, hvis, hwr⟩
      · obtain ⟨rfl, hwr'⟩ := writeAt_cases h₃
        exact ⟨n + 1, _, le_rfl, fun _ => rfl, hvis.cons rfl rfl rfl, hwr.trans hwr'⟩

/-- The staging buffer after the first `n` bytes of a user buffer have been copied to it. -/
def stagedBytes (ph : Phys) (root base n : ℕ) (buf : ℕ → UInt8) (i : ℕ) : UInt8 :=
  if i < n then (userByte ph root (wrap (base + i))).getD 0 else buf i

/-- Copying nothing. -/
@[simp] lemma stagedBytes_zero (ph : Phys) (root base : ℕ) (buf : ℕ → UInt8) :
    stagedBytes ph root base 0 buf = buf := rfl

/-- Copying one byte more. -/
lemma stagedBytes_succ (ph : Phys) (root base n : ℕ) (buf : ℕ → UInt8) {b : UInt8}
    (h : userByte ph root (wrap (base + n)) = some b) :
    stagedBytes ph root base (n + 1) buf =
      Function.update (stagedBytes ph root base n buf) n b := by
  funext i
  rcases Nat.lt_trichotomy i n with hi | rfl | hi
  · simp [stagedBytes, hi, Nat.lt_succ_of_lt hi, Nat.ne_of_lt hi]
  · simp [stagedBytes, h]
  · simp [stagedBytes, Nat.not_lt_of_gt hi, Nat.ne_of_gt hi, show ¬ i < n + 1 by omega]

/-- `mem_copy_from_user` fills the staging buffer up to the first byte that cannot be read, and
changes nothing else. -/
lemma memCopyFromUser_cases {root userSrc len : ℕ} {e : Fin maxEndpoints} {k k' : Kernel}
    {o : Option Unit} (h : memCopyFromUser root e userSrc len k = some (o, k')) :
    ∃ n log, n ≤ len ∧ (o = some () ↔ n = len) ∧ Visited root userSrc n false log ∧
      (∀ i < n, (userByte k.phys root (wrap (userSrc + i))).isSome) ∧
      k' = { k with
        tm := k.tm.updateEndpoint e fun ep =>
          { ep with copyBuf := stagedBytes k.phys root userSrc n ep.copyBuf }
        accesses := log ++ k.accesses } := by
  rw [memCopyFromUser] at h
  induction len generalizing o k' with
  | zero =>
    obtain ⟨rfl, rfl⟩ : some () = o ∧ k = k' := by simpa using h
    refine ⟨0, [], le_rfl, by simp, Visited.nil .., by simp, ?_⟩
    simp only [stagedBytes_zero, List.nil_append]
    rw [updateEndpoint_of_id e k.tm fun ep => rfl]
  | succ len ih =>
    rw [Fallible.forRange_succ] at h
    rcases Fallible.bind_eq_iff.mp h with ⟨rfl, h₁⟩ | ⟨u, k₁, h₁, h₂⟩
    · obtain ⟨n, log, hn, hlen, hvis, hread, rfl⟩ := ih h₁
      have hne : n ≠ len := fun e => by simpa using hlen.mpr e
      exact ⟨n, log, hn.trans (Nat.le_succ _), by simp; omega, hvis, hread, rfl⟩
    · obtain ⟨n, log, -, hlen, hvis, hread, rfl⟩ := ih h₁
      obtain rfl := hlen.mp rfl
      rcases translate_bind_cases h₂ with ⟨-, rfl, rfl⟩ | ⟨pa, hpa, h₃⟩
      · exact ⟨n, log, Nat.le_succ _, by simp, hvis, hread, rfl⟩
      · have hbyte : userByte k.phys root (wrap (userSrc + n)) =
            some (k.phys.mem.byteAt pa) := by
          rw [userByte, hpa, Option.map_some]
        rcases Fallible.bind_eq_iff.mp h₃ with ⟨-, h₄⟩ | ⟨b, k₂, h₄, h₅⟩
        · have := (readAt_cases h₄).1
          simp at this
        · obtain ⟨hb, rfl⟩ := readAt_cases h₄
          rw [Option.some.injEq] at hb
          subst hb
          obtain ⟨rfl, rfl⟩ := by simpa using h₅
          refine ⟨n + 1, k.accessOf root (wrap (userSrc + n)) pa false :: log, le_rfl, by simp,
            hvis.cons rfl rfl rfl, fun i hi => ?_, ?_⟩
          · rcases Nat.lt_succ_iff_lt_or_eq.mp hi with hi | rfl
            · exact hread i hi
            · rw [hbyte]
              rfl
          · simp only [stagedBytes_succ _ _ _ _ _ hbyte]
            rfl

/-- The copy loop of `ipc_reply_buf` reads a part of one buffer and writes the same part of another,
all of it when it succeeds. -/
lemma copyUserToUser_cases {srcRoot userSrc dstRoot userDst len : ℕ} {k k' : Kernel}
    {o : Option Unit} (h : copyUserToUser srcRoot userSrc dstRoot userDst len k = some (o, k')) :
    ∃ n log, n ≤ len ∧ (o = some () → n = len) ∧
      Visited srcRoot userSrc n false (log.filter fun a => !a.write) ∧
      Visited dstRoot userDst n true (log.filter fun a => a.write) ∧ Written k k' log := by
  rw [copyUserToUser] at h
  induction len generalizing o k' with
  | zero =>
    obtain ⟨rfl, rfl⟩ : some () = o ∧ k = k' := by simpa using h
    exact ⟨0, [], le_rfl, fun _ => rfl, Visited.nil .., Visited.nil .., Written.refl k⟩
  | succ len ih =>
    rw [Fallible.forRange_succ] at h
    rcases Fallible.bind_eq_iff.mp h with ⟨rfl, h₁⟩ | ⟨u, k₁, h₁, h₂⟩
    · obtain ⟨n, log, hn, -, hsrc, hdst, hwr⟩ := ih h₁
      exact ⟨n, log, hn.trans (Nat.le_succ _), by simp, hsrc, hdst, hwr⟩
    · obtain ⟨n, log, -, hn, hsrc, hdst, hwr⟩ := ih h₁
      obtain rfl := hn rfl
      rcases translate_bind_cases h₂ with ⟨-, rfl, rfl⟩ | ⟨srcPa, -, h₃⟩
      · exact ⟨n, log, Nat.le_succ _, by simp, hsrc, hdst, hwr⟩
      rcases translate_bind_cases h₃ with ⟨-, rfl, rfl⟩ | ⟨dstPa, -, h₄⟩
      · exact ⟨n, log, Nat.le_succ _, by simp, hsrc, hdst, hwr⟩
      rcases Fallible.bind_eq_iff.mp h₄ with ⟨-, h₅⟩ | ⟨b, k₂, h₅, h₆⟩
      · have := (readAt_cases h₅).1
        simp at this
      · obtain ⟨-, rfl⟩ := readAt_cases h₅
        obtain ⟨rfl, hwr'⟩ := writeAt_cases h₆
        have hread : Written k₁ { k₁ with
            accesses := k₁.accessOf srcRoot (wrap (userSrc + n)) srcPa false :: k₁.accesses }
              [k₁.accessOf srcRoot (wrap (userSrc + n)) srcPa false] :=
          ⟨rfl, rfl, rfl, rfl, fun _ _ => rfl⟩
        refine ⟨n + 1, _, le_rfl, fun _ => rfl, ?_, ?_, hwr.trans (hread.trans hwr')⟩
        · exact hsrc.cons (a := k₁.accessOf srcRoot (wrap (userSrc + n)) srcPa false) rfl rfl rfl
        · exact hdst.cons (a := accessOf _ dstRoot (wrap (userDst + n)) dstPa true) rfl rfl rfl

/-! ### Plain messages -/

/-- `ipc_call` fails and changes nothing, or blocks the caller, queues the message or hands it to
the blocked owner, and schedules. -/
lemma ipcCall_cases {endpoint : ℕ} {words : Words} {tf : TrapFrame} {k k' : Kernel}
    {o : Option IpcResult} (h : ipcCall endpoint words tf k = some (o, k')) :
    (o = none ∧ k' = k) ∨
    (∃ sender e ep i next, k.tm.currentPid = some sender ∧
      k.tm.endpointAt endpoint = some (e, ep) ∧ sender ≠ ep.owner ∧ ep.pending.isFull = false ∧
      k.tm.findPid sender = some i ∧ o = some (.blocked next) ∧
      ((ep.receiverWaiting = false ∧
        schedule tf { k with
          tm := (k.tm.block i (.ipcCall endpoint) tf).enqueue e ⟨sender, words, 0⟩ } =
            some (some next, k')) ∨
       (ep.receiverWaiting = true ∧ ∃ r,
        (k.tm.block i (.ipcCall endpoint) tf).findPid ep.owner = some r ∧
        schedule tf { k with
          tm := (k.tm.block i (.ipcCall endpoint) tf).deliver e r sender words } =
            some (some next, k')))) := by
  rw [ipcCall, readTm_bind] at h
  rcases Fallible.ofOption_bind_cases h with ⟨-, rfl, rfl⟩ | ⟨sender, hsender, h⟩
  · exact Or.inl ⟨rfl, rfl⟩
  rcases Fallible.ofOption_bind_cases h with ⟨-, rfl, rfl⟩ | ⟨⟨e, ep⟩, hep, h⟩
  · exact Or.inl ⟨rfl, rfl⟩
  rcases Fallible.guard_cases h with ⟨-, rfl, rfl⟩ | ⟨hguard, h⟩
  · exact Or.inl ⟨rfl, rfl⟩
  rw [not_or, Bool.not_eq_true] at hguard
  rcases Fallible.ofOption_bind_cases h with ⟨-, rfl, rfl⟩ | ⟨i, hi, h⟩
  · exact Or.inl ⟨rfl, rfl⟩
  rw [onTm_bind] at h
  by_cases hwait : ep.receiverWaiting = true
  · simp only [hwait, if_true, readTm_bind] at h
    obtain ⟨r, hr, h⟩ := Fallible.unwrap_bind_cases h
    rw [onTm_bind] at h
    obtain ⟨next, k₁, h₁, h₂⟩ := noFail_schedule.bind_cases h
    obtain ⟨rfl, rfl⟩ := by simpa using h₂
    exact Or.inr ⟨sender, e, ep, i, next, hsender, hep, hguard.1, hguard.2, hi, rfl,
      Or.inr ⟨hwait, r, hr, h₁⟩⟩
  · rw [Bool.not_eq_true] at hwait
    simp only [hwait, Bool.false_eq_true, if_false, onTm_bind] at h
    obtain ⟨next, k₁, h₁, h₂⟩ := noFail_schedule.bind_cases h
    obtain ⟨rfl, rfl⟩ := by simpa using h₂
    exact Or.inr ⟨sender, e, ep, i, next, hsender, hep, hguard.1, hguard.2, hi, rfl,
      Or.inl ⟨hwait, h₁⟩⟩

/-- `ipc_recv` fails and changes nothing, or takes the oldest pending message, or blocks the owner
and schedules.  Without a current task it fails after it has noted the receiver. -/
lemma ipcRecv_cases {endpoint : ℕ} {tf : TrapFrame} {k k' : Kernel} {o : Option IpcResult}
    (h : ipcRecv endpoint tf k = some (o, k')) :
    (o = none ∧ k' = k ∧ ∀ e ep, k.tm.endpointAt endpoint = some (e, ep) →
      k.tm.currentPid ≠ some ep.owner) ∨
    (o = none ∧ k.tm.currentIndex = none ∧ ∃ receiver e ep, k.tm.currentPid = some receiver ∧
      k.tm.endpointAt endpoint = some (e, ep) ∧ ep.owner = receiver ∧ ep.pending.pop = none ∧
      k' = { k with
        tm := k.tm.updateEndpoint e fun ep => { ep with waitingReceiver := some receiver } }) ∨
    (∃ receiver e ep, k.tm.currentPid = some receiver ∧
      k.tm.endpointAt endpoint = some (e, ep) ∧ ep.owner = receiver ∧
      ((∃ message pending, ep.pending.pop = some (message, pending) ∧
        o = some (.resume (setMessage message.sender message.words tf)) ∧
        k' = { k with tm := k.tm.updateEndpoint e fun ep => { ep with pending := pending } }) ∨
       (ep.pending.pop = none ∧ ∃ i next, k.tm.currentIndex = some i ∧ o = some (.blocked next) ∧
        schedule tf { k with
          tm := (k.tm.updateEndpoint e fun ep =>
            { ep with waitingReceiver := some receiver }).block i (.ipcRecv endpoint) tf } =
              some (some next, k')))) := by
  rw [ipcRecv, readTm_bind] at h
  rcases Fallible.ofOption_bind_cases h with ⟨hreceiver, rfl, rfl⟩ | ⟨receiver, hreceiver, h⟩
  · exact Or.inl ⟨rfl, rfl, by simp [hreceiver]⟩
  rcases Fallible.ofOption_bind_cases h with ⟨hep, rfl, rfl⟩ | ⟨⟨e, ep⟩, hep, h⟩
  · exact Or.inl ⟨rfl, rfl, by simp [hep]⟩
  rcases Fallible.guard_cases h with ⟨howner, rfl, rfl⟩ | ⟨howner, h⟩
  · exact Or.inl ⟨rfl, rfl, by simpa [hep, hreceiver] using Ne.symm howner⟩
  rw [not_not] at howner
  cases hpop : ep.pending.pop with
  | some popped =>
    obtain ⟨message, pending⟩ := popped
    simp only [hpop, onTm_bind] at h
    obtain ⟨rfl, rfl⟩ := by simpa using h
    exact Or.inr (Or.inr ⟨receiver, e, ep, hreceiver, hep, howner,
      Or.inl ⟨message, pending, hpop, rfl, rfl⟩⟩)
  | none =>
    simp only [hpop, onTm_bind] at h
    rcases Fallible.ofOption_bind_cases h with ⟨hi, rfl, rfl⟩ | ⟨i, hi, h⟩
    · exact Or.inr (Or.inl ⟨rfl, hi, receiver, e, ep, hreceiver, hep, howner, hpop, rfl⟩)
    rw [onTm_bind] at h
    obtain ⟨next, k₁, h₁, h₂⟩ := noFail_schedule.bind_cases h
    obtain ⟨rfl, rfl⟩ := by simpa using h₂
    exact Or.inr (Or.inr ⟨receiver, e, ep, hreceiver, hep, howner,
      Or.inr ⟨hpop, i, next, hi, rfl, h₁⟩⟩)

/-- The task that a reply is for waits in a call to an endpoint of the replier. -/
lemma replyTarget_eq_some {m : TaskManager} {replier client : ℕ} {index : Fin maxTasks}
    {task : Task} (h : m.replyTarget replier client = some (index, task)) :
    m.findPid client = some index ∧ m.tasks index = some task ∧ ∃ endpoint e ep,
      task.waitingFor = some (.ipcCall endpoint) ∧ m.endpointAt endpoint = some (e, ep) ∧
      ep.owner = replier := by
  simp only [replyTarget, Option.bind_eq_bind, Option.bind_eq_some_iff] at h
  obtain ⟨i, hi, t, ht, h⟩ := h
  split at h
  · rename_i endpoint hwait
    obtain ⟨⟨e, ep⟩, hep, h⟩ := Option.bind_eq_some_iff.mp h
    by_cases howner : ep.owner = replier
    · rw [if_pos howner] at h
      obtain ⟨rfl, rfl⟩ : i = index ∧ t = task := by simpa using h
      exact ⟨hi, ht, endpoint, e, ep, hwait, hep, howner⟩
    · simp [howner] at h
  · simp at h

/-- `ipc_reply` fails and changes nothing, or wakes the client. -/
lemma ipcReply_cases {client : ℕ} {words : Words} {k k' : Kernel} {o : Option Unit}
    (h : ipcReply client words k = some (o, k')) :
    (o = none ∧ k' = k) ∨
    (o = some () ∧ ∃ replier index task, k.tm.currentPid = some replier ∧
      k.tm.replyTarget replier client = some (index, task) ∧ task.state = .sleeping ∧
      k' = { k with tm := k.tm.wake index (setReply words) }) := by
  rw [ipcReply, readTm_bind] at h
  rcases Fallible.ofOption_bind_cases h with ⟨-, rfl, rfl⟩ | ⟨replier, hreplier, h⟩
  · exact Or.inl ⟨rfl, rfl⟩
  rcases Fallible.ofOption_bind_cases h with ⟨-, rfl, rfl⟩ | ⟨⟨index, task⟩, htarget, h⟩
  · exact Or.inl ⟨rfl, rfl⟩
  rcases Fallible.guard_cases h with ⟨-, rfl, rfl⟩ | ⟨hstate, h⟩
  · exact Or.inl ⟨rfl, rfl⟩
  rw [not_not] at hstate
  obtain ⟨rfl, rfl⟩ := by simpa using h
  exact Or.inr ⟨rfl, replier, index, task, hreplier, htarget, hstate, rfl⟩

/-! ### Messages with a payload -/

/-- The task manager after `ipc_reply_buf` has written the frame of the client. -/
def replied (m : TaskManager) (index : Fin maxTasks) (words : Words) (copyLen : ℕ) :
    TaskManager :=
  m.updateTask index fun t => { t with trapFrame := { setReply words t.trapFrame with a5 := copyLen } }

/-- `ipc_reply_buf` fails and changes nothing, or writes the frame of the client and copies; if the
copy goes through the client is woken. -/
lemma ipcReplyBuf_cases {client : ℕ} {words : Words} {userBuf bufLen : ℕ} {k k' : Kernel}
    {o : Option Unit} (h : ipcReplyBuf client words userBuf bufLen k = some (o, k')) :
    (o = none ∧ k' = k ∧ ∀ replier index task, k.tm.currentPid = some replier →
      k.tm.replyTarget replier client = some (index, task) → task.state ≠ .sleeping) ∨
    (∃ replier index task, k.tm.currentPid = some replier ∧
      k.tm.replyTarget replier client = some (index, task) ∧ task.state = .sleeping ∧
      ((replyLen task bufLen = 0 ∧ o = some () ∧
        k' = { k with tm := (replied k.tm index words (replyLen task bufLen)).wake index id }) ∨
       (0 < replyLen task bufLen ∧ ∃ replierPt callerPt k₁,
        k.tm.lastPagetable replier = some replierPt ∧ k.tm.lastPagetable client = some callerPt ∧
        copyUserToUser replierPt userBuf callerPt task.trapFrame.a5 (replyLen task bufLen)
          { k with tm := replied k.tm index words (replyLen task bufLen) } = some (o, k₁) ∧
        ((o = none ∧ k' = k₁) ∨
         (o = some () ∧ k' = { k₁ with tm := k₁.tm.wake index id }))))) := by
  rw [ipcReplyBuf, readTm_bind] at h
  rcases Fallible.ofOption_bind_cases h with ⟨hreplier, rfl, rfl⟩ | ⟨replier, hreplier, h⟩
  · exact Or.inl ⟨rfl, rfl, by simp [hreplier]⟩
  rcases Fallible.ofOption_bind_cases h with ⟨htarget, rfl, rfl⟩ | ⟨⟨index, task⟩, htarget, h⟩
  · refine Or.inl ⟨rfl, rfl, fun r i t hr ht => ?_⟩
    obtain rfl := Option.some.inj (hreplier.symm.trans hr)
    simp [htarget] at ht
  rcases Fallible.guard_cases h with ⟨hstate, rfl, rfl⟩ | ⟨hstate, h⟩
  · refine Or.inl ⟨rfl, rfl, fun r i t hr ht => ?_⟩
    obtain rfl := Option.some.inj (hreplier.symm.trans hr)
    obtain ⟨-, rfl⟩ := Prod.mk.inj (Option.some.inj (htarget.symm.trans ht))
    exact hstate
  rw [not_not] at hstate
  refine Or.inr ⟨replier, index, task, hreplier, htarget, hstate, ?_⟩
  rw [onTm_bind] at h
  by_cases hlen : 0 < replyLen task bufLen
  · rw [if_pos hlen] at h
    have hbuf : 0 < bufLen := by
      unfold replyLen at hlen
      omega
    rw [if_pos hbuf] at h
    obtain ⟨replierPt, hreplierPt, h⟩ := Fallible.unwrap_bind_cases h
    obtain ⟨callerPt, hcallerPt, h⟩ := Fallible.unwrap_bind_cases h
    refine Or.inr ⟨hlen, replierPt, callerPt, ?_⟩
    rcases Fallible.bind_eq_iff.mp h with ⟨rfl, h₁⟩ | ⟨u, k₁, h₁, h₂⟩
    · exact ⟨k', hreplierPt, hcallerPt, h₁, Or.inl ⟨rfl, rfl⟩⟩
    · obtain ⟨rfl, rfl⟩ := by simpa using h₂
      exact ⟨k₁, hreplierPt, hcallerPt, h₁, Or.inr ⟨rfl, rfl⟩⟩
  · rw [if_neg hlen] at h
    obtain ⟨rfl, rfl⟩ := by simpa using h
    exact Or.inl ⟨Nat.eq_zero_of_not_pos hlen, rfl, rfl⟩

/-- The task manager after `n` bytes have been staged for a message with `bufLen` bytes. -/
def staged (m : TaskManager) (ph : Phys) (e : Fin maxEndpoints) (root userBuf bufLen n : ℕ) :
    TaskManager :=
  m.updateEndpoint e fun ep =>
    { ep with
      copyBuf := stagedBytes ph root userBuf n ep.copyBuf
      copyLen := if n = bufLen then bufLen else ep.copyLen }

/-- Staging fills the staging buffer with the payload, or with a part of it when it fails. -/
lemma stage_cases {e : Fin maxEndpoints} {userBuf bufLen : ℕ} {k k' : Kernel} {o : Option Unit}
    (h : stage e userBuf bufLen k = some (o, k')) :
    (o = none ∧ k.tm.current = none ∧ k' = k) ∨
    (∃ root n log, (0 < bufLen → ∃ t, k.tm.current = some t ∧ root = t.pagetable) ∧ n ≤ bufLen ∧
      (o = some () ↔ n = bufLen) ∧ Visited root userBuf n false log ∧
      (∀ i < n, (userByte k.phys root (wrap (userBuf + i))).isSome) ∧
      k' = { k with
        tm := staged k.tm k.phys e root userBuf bufLen n
        accesses := log ++ k.accesses }) := by
  unfold stage at h
  by_cases hlen : 0 < bufLen
  · rw [if_pos hlen, readTm_bind] at h
    rcases Fallible.ofOption_bind_cases h with ⟨ht, rfl, rfl⟩ | ⟨t, ht, h⟩
    · exact Or.inl ⟨rfl, ht, rfl⟩
    refine Or.inr ⟨t.pagetable, ?_⟩
    rcases Fallible.bind_eq_iff.mp h with ⟨rfl, h₁⟩ | ⟨u, k₁, h₁, h₂⟩
    · obtain ⟨n, log, hn, hlen', hvis, hread, rfl⟩ := memCopyFromUser_cases h₁
      have hne : n ≠ bufLen := fun e => by simpa using hlen'.mpr e
      exact ⟨n, log, fun _ => ⟨t, ht, rfl⟩, hn, hlen', hvis, hread, by simp [staged, hne]⟩
    · obtain ⟨n, log, -, hlen', hvis, hread, rfl⟩ := memCopyFromUser_cases h₁
      obtain rfl := hlen'.mp rfl
      obtain ⟨rfl, rfl⟩ := by simpa using h₂
      exact ⟨n, log, fun _ => ⟨t, ht, rfl⟩, le_rfl, by simp, hvis, hread, by simp [staged]⟩
  · obtain rfl := Nat.eq_zero_of_not_pos hlen
    rw [if_neg hlen] at h
    obtain ⟨rfl, rfl⟩ := by simpa using h
    exact Or.inr ⟨0, 0, [], fun h => absurd h (lt_irrefl 0), le_rfl, by simp, Visited.nil ..,
      by simp, by simp [staged]⟩

/-- Handing over the payload is no error. -/
lemma handOver_cases {e : Fin maxEndpoints} {r : Fin maxTasks} {bufLen : ℕ} {k k' : Kernel}
    {o : Option ℕ} (h : handOver e r bufLen k = some (o, k')) :
    ∃ copyLen ep receiver, o = some copyLen ∧ k.tm.endpoints e = some ep ∧
      k.tm.tasks r = some receiver ∧
      (((bufLen = 0 ∨ ep.recvBufAddr = 0) ∧ copyLen = 0 ∧ k' = k) ∨
       (0 < bufLen ∧ ep.recvBufAddr ≠ 0 ∧ ∃ copied,
        memCopyToUser receiver.pagetable ep.recvBufAddr ep.copyBuf
          (min bufLen ep.recvBufCapacity) k = some (copied, k') ∧
        copyLen = if copied.isSome then min bufLen ep.recvBufCapacity else 0)) := by
  rw [handOver, readTm_bind] at h
  obtain ⟨ep, hep, h⟩ := Fallible.unwrap_bind_cases h
  obtain ⟨receiver, hreceiver, h⟩ := Fallible.unwrap_bind_cases h
  by_cases hcopy : 0 < bufLen ∧ ep.recvBufAddr ≠ 0
  · rw [if_pos hcopy, Fallible.attempt_bind, Option.bind_eq_some_iff] at h
    obtain ⟨⟨copied, k₁⟩, hcopied, h⟩ := h
    obtain ⟨rfl, rfl⟩ := by simpa using h
    exact ⟨_, ep, receiver, rfl, hep, hreceiver,
      Or.inr ⟨hcopy.1, hcopy.2, copied, hcopied, rfl⟩⟩
  · rw [if_neg hcopy] at h
    obtain ⟨rfl, rfl⟩ := by simpa using h
    refine ⟨0, ep, receiver, rfl, hep, hreceiver, Or.inl ⟨?_, rfl, rfl⟩⟩
    omega

/-- Handing over the payload leaves the task manager alone. -/
lemma handOver_tm {e : Fin maxEndpoints} {r : Fin maxTasks} {bufLen : ℕ} {k k' : Kernel}
    {o : Option ℕ} (h : handOver e r bufLen k = some (o, k')) : k'.tm = k.tm := by
  obtain ⟨_, _, _, -, -, -, h⟩ := handOver_cases h
  rcases h with ⟨-, -, rfl⟩ | ⟨-, -, _, hmem, -⟩
  · rfl
  · obtain ⟨_, _, -, -, -, hwritten⟩ := memCopyToUser_cases hmem
    exact hwritten.tm

/-- `ipc_call_buf` fails and changes at most the staging buffer, or blocks the caller, queues the
message or hands it to the blocked owner, and schedules. -/
lemma ipcCallBuf_cases {endpoint : ℕ} {words : Words} {userBuf bufLen : ℕ} {tf : TrapFrame}
    {k k' : Kernel} {o : Option IpcResult}
    (h : ipcCallBuf endpoint words userBuf bufLen tf k = some (o, k')) :
    (o = none ∧ k' = k) ∨
    (∃ sender e ep, k.tm.currentPid = some sender ∧ k.tm.endpointAt endpoint = some (e, ep) ∧
      sender ≠ ep.owner ∧ ep.pending.isFull = false ∧
      (ep.hasBuffered = true → ep.receiverWaiting = true) ∧ bufLen ≤ ipcBufSize ∧
      ∃ staged k₁, stage e userBuf bufLen k = some (staged, k₁) ∧
      ((o = none ∧ k' = k₁ ∧ (staged = none ∨ k.tm.findPid sender = none)) ∨
       (staged = some () ∧ ∃ i next, k.tm.findPid sender = some i ∧ o = some (.blocked next) ∧
        ((ep.receiverWaiting = false ∧
          schedule tf { k₁ with
            tm := (k₁.tm.block i (.ipcCall endpoint) tf).enqueue e
              ⟨sender, words, bufLen % 2 ^ 16⟩ } = some (some next, k')) ∨
         (ep.receiverWaiting = true ∧ ∃ r copyLen k₂,
          (k₁.tm.block i (.ipcCall endpoint) tf).findPid ep.owner = some r ∧
          handOver e r bufLen { k₁ with tm := k₁.tm.block i (.ipcCall endpoint) tf } =
            some (some copyLen, k₂) ∧
          schedule tf { k₂ with tm := k₂.tm.deliverBuf e r sender words copyLen } =
            some (some next, k')))))) := by
  rw [ipcCallBuf, readTm_bind] at h
  rcases Fallible.ofOption_bind_cases h with ⟨-, rfl, rfl⟩ | ⟨sender, hsender, h⟩
  · exact Or.inl ⟨rfl, rfl⟩
  rcases Fallible.ofOption_bind_cases h with ⟨-, rfl, rfl⟩ | ⟨⟨e, ep⟩, hep, h⟩
  · exact Or.inl ⟨rfl, rfl⟩
  rcases Fallible.guard_cases h with ⟨-, rfl, rfl⟩ | ⟨hguard, h⟩
  · exact Or.inl ⟨rfl, rfl⟩
  rw [not_or, not_or, Bool.not_eq_true, not_and, not_not] at hguard
  rcases Fallible.guard_cases h with ⟨-, rfl, rfl⟩ | ⟨hsize, h⟩
  · exact Or.inl ⟨rfl, rfl⟩
  rw [not_lt] at hsize
  refine Or.inr ⟨sender, e, ep, hsender, hep, hguard.1, hguard.2.1, hguard.2.2, hsize, ?_⟩
  rcases Fallible.bind_eq_iff.mp h with ⟨rfl, h₁⟩ | ⟨u, k₁, h₁, h₂⟩
  · exact ⟨none, k', h₁, Or.inl ⟨rfl, rfl, Or.inl rfl⟩⟩
  refine ⟨some (), k₁, h₁, ?_⟩
  rcases Fallible.ofOption_bind_cases h₂ with ⟨hi, rfl, rfl⟩ | ⟨i, hi, h₂⟩
  · exact Or.inl ⟨rfl, rfl, Or.inr hi⟩
  rw [onTm_bind] at h₂
  by_cases hwait : ep.receiverWaiting = true
  · simp only [hwait, if_true, readTm_bind] at h₂
    obtain ⟨r, hr, h₂⟩ := Fallible.unwrap_bind_cases h₂
    rcases Fallible.bind_eq_iff.mp h₂ with ⟨-, h₃⟩ | ⟨copyLen, k₂, h₃, h₄⟩
    · obtain ⟨_, _, _, hnone, -⟩ := handOver_cases h₃
      simp at hnone
    rw [onTm_bind] at h₄
    obtain ⟨next, k₃, h₅, h₆⟩ := noFail_schedule.bind_cases h₄
    obtain ⟨rfl, rfl⟩ := by simpa using h₆
    exact Or.inr ⟨rfl, i, next, hi, rfl, Or.inr ⟨hwait, r, copyLen, k₂, hr, h₃, h₅⟩⟩
  · rw [Bool.not_eq_true] at hwait
    simp only [hwait, Bool.false_eq_true, if_false, onTm_bind] at h₂
    obtain ⟨next, k₃, h₅, h₆⟩ := noFail_schedule.bind_cases h₂
    obtain ⟨rfl, rfl⟩ := by simpa using h₆
    exact Or.inr ⟨rfl, i, next, hi, rfl, Or.inl ⟨hwait, h₅⟩⟩

/-- The current task maps the bytes of a buffer. -/
def Readable (k : Kernel) (userBuf len : ℕ) : Prop :=
  ∀ i < len, ∃ t, k.tm.current = some t ∧
    (userByte k.phys t.pagetable (wrap (userBuf + i))).isSome

/-- What a call with a buffer has passed when it is accepted. -/
lemma ipcCallBuf_accepted {endpoint : ℕ} {words : Words} {userBuf bufLen : ℕ} {fr : TrapFrame}
    {r : IpcResult} {k' : Kernel}
    (h : ipcCallBuf endpoint words userBuf bufLen fr k = some (some r, k')) :
    bufLen ≤ ipcBufSize ∧ k.Readable userBuf bufLen := by
  rcases ipcCallBuf_cases h with ⟨hnone, -⟩ | ⟨_, _, _, -, -, -, -, -, hsize, _, _, hstage, h⟩
  · cases hnone
  rcases h with ⟨hnone, -⟩ | ⟨rfl, -⟩
  · cases hnone
  rcases stage_cases hstage with ⟨hnone, -⟩ | ⟨root, n, _, hroot, -, hn, -, hread, -⟩
  · cases hnone
  obtain rfl := hn.mp rfl
  refine ⟨hsize, fun i hi => ?_⟩
  obtain ⟨t, ht, rfl⟩ := hroot (by omega)
  exact ⟨t, ht, hread i hi⟩

/-- Copying a queued payload is no error.  It gives the staging buffer free. -/
lemma unstage_cases {e : Fin maxEndpoints} {message : Message} {userBuf capacity : ℕ}
    {k k' : Kernel} {o : Option ℕ} (h : unstage e message userBuf capacity k = some (o, k')) :
    ∃ copyLen k₁, o = some copyLen ∧
      k₁ = { k with tm := k.tm.updateEndpoint e fun ep => { ep with hasBuffered := false } } ∧
      ((k.tm.current = none ∧ copyLen = 0 ∧ k' = k₁) ∨
       (∃ t ep copied, k.tm.current = some t ∧ k.tm.endpoints e = some ep ∧
        min message.bufLen capacity ≤ ipcBufSize ∧
        memCopyToUser t.pagetable userBuf ep.copyBuf (min message.bufLen capacity) k₁ =
          some (copied, k') ∧
        copyLen = if copied.isSome then min message.bufLen capacity else 0)) := by
  rw [unstage, onTm_bind, readTm_bind] at h
  have hcurrent : (k.tm.updateEndpoint e fun ep => { ep with hasBuffered := false }).current =
      k.tm.current := rfl
  rw [hcurrent] at h
  cases ht : k.tm.current with
  | none =>
    simp only [ht] at h
    obtain ⟨rfl, rfl⟩ := by simpa using h
    exact ⟨0, _, rfl, rfl, Or.inl ⟨rfl, rfl, rfl⟩⟩
  | some t =>
    simp only [ht] at h
    obtain ⟨ep', hep', h⟩ := Fallible.unwrap_bind_cases h
    obtain ⟨ep, hep, rfl⟩ : ∃ ep, k.tm.endpoints e = some ep ∧
        { ep with hasBuffered := false } = ep' := by
      simpa [updateEndpoint] using hep'
    by_cases hsize : ipcBufSize < min message.bufLen capacity
    · rw [if_pos hsize] at h
      simp at h
    · rw [if_neg hsize, Fallible.attempt_bind, Option.bind_eq_some_iff] at h
      obtain ⟨⟨copied, k₁⟩, hcopied, h⟩ := h
      obtain ⟨rfl, rfl⟩ := by simpa using h
      exact ⟨_, _, rfl, rfl,
        Or.inr ⟨t, ep, copied, rfl, hep, not_lt.mp hsize, hcopied, rfl⟩⟩

/-- `ipc_recv_buf` fails and changes nothing, or takes the oldest pending message with its payload,
or blocks the owner and schedules.  Without a current task it fails after it has noted the
receiver. -/
lemma ipcRecvBuf_cases {endpoint userBuf capacity : ℕ} {tf : TrapFrame} {k k' : Kernel}
    {o : Option IpcResult} (h : ipcRecvBuf endpoint userBuf capacity tf k = some (o, k')) :
    (o = none ∧ k' = k ∧ ∀ e ep, k.tm.endpointAt endpoint = some (e, ep) →
      k.tm.currentPid ≠ some ep.owner) ∨
    (o = none ∧ k.tm.currentIndex = none ∧ ∃ receiver e ep, k.tm.currentPid = some receiver ∧
      k.tm.endpointAt endpoint = some (e, ep) ∧ ep.owner = receiver ∧ ep.pending.pop = none ∧
      k' = { k with
        tm := k.tm.updateEndpoint e fun ep =>
          { ep with
            waitingReceiver := some receiver
            recvBufAddr := userBuf
            recvBufCapacity := capacity } }) ∨
    (∃ receiver e ep, k.tm.currentPid = some receiver ∧
      k.tm.endpointAt endpoint = some (e, ep) ∧ ep.owner = receiver ∧
      ((∃ message pending copyLen, ep.pending.pop = some (message, pending) ∧
        o = some (.resume { setMessage message.sender message.words tf with a5 := copyLen }) ∧
        ((message.bufLen = 0 ∧ copyLen = 0 ∧
          k' = { k with tm := k.tm.updateEndpoint e fun ep => { ep with pending := pending } }) ∨
         (0 < message.bufLen ∧ unstage e message userBuf capacity
          { k with tm := k.tm.updateEndpoint e fun ep => { ep with pending := pending } } =
            some (some copyLen, k')))) ∨
       (ep.pending.pop = none ∧ ∃ i next, k.tm.currentIndex = some i ∧ o = some (.blocked next) ∧
        schedule tf { k with
          tm := (k.tm.updateEndpoint e fun ep =>
            { ep with
              waitingReceiver := some receiver
              recvBufAddr := userBuf
              recvBufCapacity := capacity }).block i (.ipcRecv endpoint) tf } =
                some (some next, k')))) := by
  rw [ipcRecvBuf, readTm_bind] at h
  rcases Fallible.ofOption_bind_cases h with ⟨hreceiver, rfl, rfl⟩ | ⟨receiver, hreceiver, h⟩
  · exact Or.inl ⟨rfl, rfl, by simp [hreceiver]⟩
  rcases Fallible.ofOption_bind_cases h with ⟨hep, rfl, rfl⟩ | ⟨⟨e, ep⟩, hep, h⟩
  · exact Or.inl ⟨rfl, rfl, by simp [hep]⟩
  rcases Fallible.guard_cases h with ⟨howner, rfl, rfl⟩ | ⟨howner, h⟩
  · exact Or.inl ⟨rfl, rfl, by simpa [hep, hreceiver] using Ne.symm howner⟩
  rw [not_not] at howner
  cases hpop : ep.pending.pop with
  | some popped =>
    obtain ⟨message, pending⟩ := popped
    simp only [hpop, onTm_bind] at h
    refine Or.inr (Or.inr ⟨receiver, e, ep, hreceiver, hep, howner,
      Or.inl ⟨message, pending, ?_⟩⟩)
    by_cases hlen : 0 < message.bufLen
    · simp only [hlen, if_true] at h
      rcases Fallible.bind_eq_iff.mp h with ⟨-, h₁⟩ | ⟨copyLen, k₁, h₁, h₂⟩
      · obtain ⟨_, _, hnone, -⟩ := unstage_cases h₁
        simp at hnone
      · obtain ⟨rfl, rfl⟩ := by simpa using h₂
        exact ⟨copyLen, hpop, rfl, Or.inr ⟨hlen, h₁⟩⟩
    · simp only [hlen, if_false] at h
      obtain ⟨rfl, rfl⟩ := by simpa using h
      exact ⟨0, hpop, rfl, Or.inl ⟨Nat.eq_zero_of_not_pos hlen, rfl, rfl⟩⟩
  | none =>
    simp only [hpop, onTm_bind] at h
    rcases Fallible.ofOption_bind_cases h with ⟨hi, rfl, rfl⟩ | ⟨i, hi, h⟩
    · exact Or.inr (Or.inl ⟨rfl, hi, receiver, e, ep, hreceiver, hep, howner, hpop, rfl⟩)
    rw [onTm_bind] at h
    obtain ⟨next, k₁, h₁, h₂⟩ := noFail_schedule.bind_cases h
    obtain ⟨rfl, rfl⟩ := by simpa using h₂
    exact Or.inr (Or.inr ⟨receiver, e, ep, hreceiver, hep, howner,
      Or.inr ⟨hpop, i, next, hi, rfl, h₁⟩⟩)

end Kernel

end NekOS
