import NekOS.AddressSpace.Packing
import NekOS.Ipc.Returns
import NekOS.Ipc.Staging

/-!
# A buffer in a page table

The buffer addresses of the system calls are translated without a look at the user bit, so a program
can have the kernel write to the page tables that every address space maps for the kernel.  The file
follows a run in which two programs link a page table to itself.  The kernel does not come back from
freeing the tree that the table belongs to.
-/

namespace NekOS

/-! ### Words and their bytes -/

namespace Memory

/-- The low bytes of a word determine its residue. -/
lemma mod_eq_of_digits {v w n : ℕ} (h : ∀ j < n, getDigit v j = getDigit w j) :
    v % 256 ^ n = w % 256 ^ n := by
  induction n with
  | zero => rw [pow_zero, Nat.mod_one, Nat.mod_one]
  | succ n ih =>
    have hlow := ih fun j hj => h j (by omega)
    have hdigit : v / 256 ^ n % 256 = w / 256 ^ n % 256 := h n (by omega)
    rw [Nat.mod_pow_succ, Nat.mod_pow_succ, hlow, hdigit]

/-- Two words with the same bytes are the same in 64 bits. -/
lemma mod_eq_of_bytes {m m' : Memory} {v w : ℕ}
    (h : ∀ j < 8, m.byteAt (8 * v + j) = m'.byteAt (8 * w + j)) :
    m v % 2 ^ 64 = m' w % 2 ^ 64 := by
  refine mod_eq_of_digits (n := 8) fun j hj => ?_
  have hv : (8 * v + j) / 8 = v ∧ (8 * v + j) % 8 = j := by omega
  have hw : (8 * w + j) / 8 = w ∧ (8 * w + j) % 8 = j := by omega
  have hbyte := congrArg UInt8.toNat (h j hj)
  unfold byteAt at hbyte
  rw [hv.1, hv.2, hw.1, hw.2, UInt8.toNat_ofNat', UInt8.toNat_ofNat'] at hbyte
  have hlt : ∀ x, getDigit x j < 2 ^ 8 := fun x => Nat.mod_lt _ (by decide)
  rwa [Nat.mod_eq_of_lt (hlt _), Nat.mod_eq_of_lt (hlt _)] at hbyte

/-- Writing a list of bytes and then one more. -/
lemma setBytes_concat (m : Memory) (a : ℕ) (bs : List UInt8) (b : UInt8) :
    m.setBytes a (bs ++ [b]) = (m.setBytes a bs).setByte (a + bs.length) b := by
  induction bs generalizing m a with
  | nil => rfl
  | cons c bs ih =>
    rw [List.cons_append, setBytes, setBytes, ih, List.length_cons, Nat.add_assoc, Nat.add_comm 1]

end Memory

namespace PageTable

/-- The tables that an entry links depend on 64 bits of the entry. -/
lemma child_of_mod {ph ph' : Phys} {pt pt' : ℕ} {i i' : Fin 512}
    (h : ph'.entry pt' i' % 2 ^ 64 = ph.entry pt i % 2 ^ 64) :
    child ph' pt' i' = child ph pt i := by
  have hflags : ph'.entry pt' i' % 1024 = ph.entry pt i % 1024 := by omega
  have hmask : ∀ m < 1024, hasFlag (ph'.entry pt' i') m = hasFlag (ph.entry pt i) m := fun m hm => by
    rw [hasFlag, hasFlag, and_low hm, hflags, ← and_low hm]
  have hpa : pteToPa (ph'.entry pt' i') = pteToPa (ph.entry pt i) := by
    rw [pteToPa_eq, pteToPa_eq]
    omega
  rw [child, child, isLeaf, isLeaf, hmask pteV (by decide), hmask _ (by decide), hpa]

/-! ### Walks that do not end -/

/-- `free_walk` leaves memory. -/
lemma freeWalk_mem (depth pt : ℕ) : Fallible.Fixes Phys.mem (freeWalk depth pt) := by
  induction depth generalizing pt with
  | zero => exact Fallible.Fixes.halt
  | succ depth ih =>
    unfold freeWalk
    refine Fallible.Fixes.forEach fun i => ?_
    refine Fallible.Fixes.bind (Fallible.Fixes.gets _) fun pte => ?_
    refine Fallible.Fixes.ite ?_ (Fallible.Fixes.pure _)
    exact Fallible.Fixes.bind (ih _) fun _ => Fallible.Fixes.modify fun _ => rfl

/-- The tables that a table links do not depend on the allocator. -/
lemma child_of_mem {ph ph' : Phys} (h : ph'.mem = ph.mem) (pt : ℕ) (i : Fin 512) :
    child ph' pt i = child ph pt i := by
  refine child_of_mod ?_
  rw [Phys.entry, Phys.entry, h]

/-- A walk that ends has ended at every table that the entries link. -/
lemma freeWalk_child {ph : Phys} {pt q depth : ℕ} {i : Fin 512} (h : child ph pt i = some q)
    (hfin : Fallible.Finishes (freeWalk (depth + 1) pt) ph) :
    ∃ u : Phys, u.mem = ph.mem ∧ Fallible.Finishes (freeWalk depth q) u := by
  unfold freeWalk at hfin
  obtain ⟨u, hu, hbody⟩ : ∃ u : Phys, u.mem = ph.mem ∧ Fallible.Finishes (do
      let pte ← Fallible.gets fun ph : Phys => ph.entry pt i
      if hasFlag pte pteV && !isLeaf pte then
        freeWalk depth (pteToPa pte)
        Fallible.modify fun ph => ph.freePage (pteToPa pte)
      else return ()) u := by
    have hmem : ph.mem = ph.mem := rfl
    refine Fallible.Finishes.of_forEach (I := fun u : Phys => u.mem = ph.mem) (fun j => ?_)
      (fun j => ?_) hmem hfin (List.mem_finRange i)
    · refine Fallible.NoFail.bind (Fallible.NoFail.gets _) fun pte => ?_
      exact Fallible.NoFail.ite (Fallible.NoFail.bind (Kernel.noFail_freeWalk _ _) fun _ =>
        Fallible.NoFail.modify _) (Fallible.NoFail.pure _)
    · refine Fallible.Fixes.bind (Fallible.Fixes.gets _) (fun pte => ?_) ph.mem
      exact Fallible.Fixes.ite (Fallible.Fixes.bind (freeWalk_mem _ _) fun _ =>
        Fallible.Fixes.modify fun _ => rfl) (Fallible.Fixes.pure _)
  rw [← child_of_mem hu] at h
  unfold child at h
  split at h
  · rename_i hflag
    obtain rfl := Option.some.inj h
    refine ⟨u, hu, ?_⟩
    rw [Fallible.Finishes, Fallible.gets_bind, if_pos hflag] at hbody
    obtain ⟨_, t, hwalk, -⟩ := Fallible.Finishes.of_bind (Kernel.noFail_freeWalk _ _) hbody
    exact ⟨_, hwalk⟩
  · simp at h

/-- The walk does not end at a table that is linked to itself. -/
lemma freeWalk_cyclic {ph : Phys} {pt : ℕ} {i : Fin 512} (h : child ph pt i = some pt)
    (depth : ℕ) : ¬ Fallible.Finishes (freeWalk depth pt) ph := by
  induction depth generalizing ph with
  | zero =>
    rintro ⟨r, hr⟩
    cases hr
  | succ depth ih =>
    intro hfin
    obtain ⟨u, hu, hfin'⟩ := freeWalk_child h hfin
    exact ih ((child_of_mem hu pt i).trans h) hfin'

/-- A tree in which a table below the root is linked to itself is never freed. -/
lemma not_finishes_free {ph : Phys} {root pt : ℕ} {i j : Fin 512} (hroot : child ph root i = some pt)
    (hloop : child ph pt j = some pt) : ¬ Fallible.Finishes (free root) ph := by
  rintro ⟨⟨o, ph'⟩, hrun⟩
  rcases Fallible.bind_eq_iff.mp hrun with ⟨-, h⟩ | ⟨_, _, h, -⟩
  all_goals
    obtain ⟨u, hu, hfin⟩ := freeWalk_child hroot ⟨_, h⟩
    exact freeWalk_cyclic ((child_of_mem hu pt j).trans hloop) _ hfin

end PageTable

/-! ### A table linked to itself -/

open PageTable

/-- The entry of a table of the middle level that the run overwrites. -/
def loopIdx : Fin 512 := ⟨100, by decide⟩

/-- The entry of a root that links the table of the kernel's window. -/
def windowIdx : Fin 512 := ⟨2, by decide⟩

/-- The memories agree but in one entry of a table. -/
def SameBut (mid : ℕ) (ph ph' : Phys) : Prop :=
  ∀ w, w ≠ mid / 8 + loopIdx → ph'.mem w = ph.mem w

namespace SameBut

variable {ph ph' : Phys} {own : ℕ → Role} {r mid : ℕ} {i : Fin 512}

/-- The entries of other tables. -/
lemma child_other (h : SameBut mid ph ph') (hT : Tables ph own) (hmid : own mid = .mid r i) {p : ℕ}
    (hp : own p ≠ .free) (hne : p ≠ mid) (k : Fin 512) : child ph' p k = child ph p k := by
  have hpage := pageOfWord_entry (hT.page_aligned hp) k
  have hpage' := pageOfWord_entry (hT.page_aligned (p := mid) (by rw [hmid]; simp)) loopIdx
  have hword : p / 8 + (k : ℕ) ≠ mid / 8 + loopIdx := fun heq => by
    rw [heq, hpage'] at hpage
    exact hne hpage.symm
  refine child_of_mod ?_
  rw [Phys.entry, Phys.entry, h _ hword]

/-- The other entries of the table. -/
lemma child_self (h : SameBut mid ph ph') {k : Fin 512} (hk : k ≠ loopIdx) :
    child ph' mid k = child ph mid k := by
  have hword : mid / 8 + (k : ℕ) ≠ mid / 8 + loopIdx := fun heq => hk (Fin.ext (by omega))
  refine child_of_mod ?_
  rw [Phys.entry, Phys.entry, h _ hword]

/-- The slots of addresses that do not go through the entry. -/
lemma slotOf (h : SameBut mid ph ph') (hT : Tables ph own) (hr : own r = .root)
    (hmid : own mid = .mid r i) {va : ℕ}
    (hva : digit (pageNumber va) 2 ≠ i ∨ digit (pageNumber va) 1 ≠ loopIdx) :
    PageTable.slotOf ph' r va = PageTable.slotOf ph r va := by
  have hne : r ≠ mid := by
    rintro rfl
    simp [hr] at hmid
  rw [slotOf_eq, slotOf_eq, h.child_other hT hmid (by rw [hr]; simp) hne]
  rcases hchild : child ph r (digit (pageNumber va) 2) with _ | q
  · rfl
  rw [Option.bind_some, Option.bind_some]
  have hq := (hT.child_root hr).mp hchild
  by_cases hqm : q = mid
  · subst hqm
    have hdigit : digit (pageNumber va) 2 = i := by
      rw [hmid, Role.mid.injEq] at hq
      exact hq.2.symm
    have hk := hva.resolve_left (not_not.mpr hdigit)
    rw [h.child_self hk]
  · rw [h.child_other hT hmid (by rw [hq]; simp) hqm]

/-- Pages of the kernel's window stay translated. -/
lemma virtToPhys (h : SameBut mid ph ph') (hT : Tables ph own) (hr : own r = .root)
    (hmid : own mid = .mid r i) {va : ℕ}
    (hva : digit (pageNumber va) 2 ≠ i ∨ digit (pageNumber va) 1 ≠ loopIdx) :
    PageTable.virtToPhys ph' r va = PageTable.virtToPhys ph r va := by
  rw [PageTable.virtToPhys, PageTable.virtToPhys, findPte, findPte, h.slotOf hT hr hmid hva]
  rcases hslot : PageTable.slotOf ph r va with _ | ⟨q, k⟩
  · rfl
  have hq := ((hT.slotOf_eq_some hr).mp hslot).1
  have hne : q ≠ mid := by
    rintro rfl
    simp [hmid] at hq
  have hpage := pageOfWord_entry (hT.page_aligned (p := q) (by rw [hq]; simp)) k
  have hpage' := pageOfWord_entry (hT.page_aligned (p := mid) (by rw [hmid]; simp)) loopIdx
  have hword : q / 8 + (k : ℕ) ≠ mid / 8 + loopIdx := fun heq => by
    rw [heq, hpage'] at hpage
    exact hne hpage.symm
  have hentry : ph'.entry q k = ph.entry q k := h _ hword
  rw [Option.map_some, Option.map_some, hentry]

end SameBut

namespace Kernel

/-- A buffer is written to memory that stays mapped to itself while the bytes change. -/
lemma memCopyToUser_run {root dst n : ℕ} (src : ℕ → UInt8) (k : Kernel)
    (h : ∀ ph : Phys, (∀ w, w < dst / 8 ∨ dst + n ≤ 8 * w → ph.mem w = k.phys.mem w) →
      ∀ i < n, PageTable.virtToPhys ph root (wrap (dst + i)) = some (dst + i)) :
    ∃ log, memCopyToUser root dst src n k = some (some (), { k with
      phys := { k.phys with mem := k.phys.mem.setBytes dst ((List.range n).map src) }
      accesses := log }) := by
  have hpart : ∀ m ≤ n, ∃ log, memCopyToUser root dst src m k = some (some (), { k with
      phys := { k.phys with mem := k.phys.mem.setBytes dst ((List.range m).map src) }
      accesses := log }) := by
    intro m hm
    induction m with
    | zero => exact ⟨k.accesses, rfl⟩
    | succ m ih =>
      obtain ⟨log, hrun⟩ := ih (by omega)
      let k₁ : Kernel := { k with
        phys := { k.phys with mem := k.phys.mem.setBytes dst ((List.range m).map src) }
        accesses := log }
      have hpa : PageTable.virtToPhys k₁.phys root (wrap (dst + m)) = some (dst + m) := by
        refine h _ (fun w hw => ?_) m (by omega)
        refine Memory.setBytes_of_not_mem _ ?_
        rw [List.length_map, List.length_range]
        omega
      have hlist : (List.range (m + 1)).map src = (List.range m).map src ++ [src m] := by
        rw [List.range_succ, List.map_append, List.map_singleton]
      have hmem : k.phys.mem.setBytes dst ((List.range (m + 1)).map src) =
          (k.phys.mem.setBytes dst ((List.range m).map src)).setByte (dst + m) (src m) := by
        rw [hlist, Memory.setBytes_concat, List.length_map, List.length_range]
      unfold memCopyToUser at hrun ⊢
      rw [Fallible.forRange_succ, Fallible.bind_of_some hrun, hmem]
      have htrans : translate root (wrap (dst + m)) k₁ = some (some (dst + m), k₁) := by
        rw [translate_apply, hpa]
      exact ⟨k₁.accessOf root (wrap (dst + m)) (dst + m) true :: log, Fallible.bind_of_some htrans⟩
  exact hpart n le_rfl

end Kernel

namespace Sample

open Kernel TaskManager

variable (x : Sample) (tf recv : TrapFrame)

/-- The machine when the console has taken the message of the shell. -/
def received (frame : TrapFrame) (ep : Endpoint) (ph : Phys) (log : List Access) : System :=
  ⟨⟨Config.fourTasks 1 x.idleTask
    { task 1 x.console with state := .running, trapFrame := frame } (task 2 x.fs)
    (x.callingShell tf) 2 ep (Endpoint.new 2), ph, x.files, log⟩, (x.called tf ep log).hart⟩

/-- The console takes a message of eight bytes. -/
lemma called_recvBuf {buf : ℕ → UInt8} {ph : Phys} (log : List Access) (h7 : recv.a7 = 16)
    (h0 : recv.a0 = consoleEndpoint) (h2 : recv.a2 = 8)
    (hcopy : ∀ k : Kernel, k.phys = x.phys → ∃ log', memCopyToUser x.console.pagetable recv.a1 buf 8 k =
      some (some (), { k with phys := ph, accesses := log' })) :
    ∃ frame ep log', nekos.step (x.called tf (consoleEnd ⟨3, argWords tf, 8⟩ buf) log) (.ecall recv) =
      some (x.received tf frame ep ph log') := by
  let message : Message := ⟨3, argWords tf, 8⟩
  let pending := ((MsgQueue.new.pushOk message).pop.map Prod.snd).getD MsgQueue.new
  let k₀ := System.storeFrame ⟨1, by decide⟩ recv (x.called tf (consoleEnd message buf) []).kernel
  let m₁ := (k₀.tm.updateEndpoint ⟨1, by decide⟩ fun ep =>
    { ep with pending := pending }).updateEndpoint ⟨1, by decide⟩ fun ep =>
      { ep with hasBuffered := false }
  let frame : TrapFrame := { setMessage 3 (argWords tf) (advanced recv) with a5 := 8 }
  let ep : Endpoint := { consoleEnd message buf with pending := pending, hasBuffered := false }
  obtain ⟨log', hrun⟩ := hcopy { k₀ with tm := m₁ } rfl
  have hm : m₁.updateTask ⟨1, by decide⟩ (fun t => { t with trapFrame := frame }) =
      (x.received tf frame ep ph log').kernel.tm := by
    refine Config.eq_fourTasks ⟨rfl, rfl, rfl, rfl⟩ (fun i => ?_) fun e => ?_
    · fin_cases i <;> rfl
    · fin_cases e <;> rfl
  have hrecv : ipcRecvBuf consoleEndpoint recv.a1 8 (advanced recv) k₀ =
      some (some (.resume frame), ⟨m₁, ph, x.files, log'⟩) := by
    have hstart : ipcRecvBuf consoleEndpoint recv.a1 8 (advanced recv) k₀ =
        ((Fallible.attempt (memCopyToUser x.console.pagetable recv.a1 buf 8) >>= fun copied =>
          pure (if copied.isSome then 8 else 0)) >>= fun copyLen =>
            pure (.resume { setMessage 3 (argWords tf) (advanced recv) with a5 := copyLen }))
              { k₀ with tm := m₁ } := rfl
    have hlen : (Fallible.attempt (memCopyToUser x.console.pagetable recv.a1 buf 8) >>= fun copied =>
        (pure (if copied.isSome then 8 else 0) : Fallible Kernel ℕ)) { k₀ with tm := m₁ } =
          some (some 8, ⟨m₁, ph, x.files, log'⟩) := by
      rw [Fallible.attempt_bind, hrun]
      rfl
    rw [hstart, Fallible.bind_of_some hlen]
    rfl
  have hhandle : handle recv = blocking (advanced recv)
      (ipcRecvBuf recv.a0 recv.a1 recv.a2 (advanced recv)) := by
    have hdecode : Sysno.decode recv.a7 = some .ipcRecvBuf := by
      rw [h7]
      rfl
    rw [handle, hdecode]
    rfl
  have hdone : handle recv k₀ = some (some (none, frame), ⟨m₁, ph, x.files, log'⟩) := by
    rw [hhandle, h0, h2, blocking, Fallible.attempt_bind, hrecv]
    rfl
  refine ⟨frame, ep, log', ?_⟩
  have huser : (x.called tf (consoleEnd message buf) log).hart ≠ System.idleSlot := by
    change (⟨1, by decide⟩ : Fin maxTasks) ≠ System.idleSlot
    decide
  refine (System.step_ecall huser hdone).trans ?_
  exact congrArg (fun m => some (⟨⟨m, ph, x.files, log'⟩, ⟨1, by decide⟩⟩ : System)) hm

/-- The console exits, and the file server is about to yield. -/
lemma received_exit (frame yield : TrapFrame) (ep : Endpoint) (ph : Phys) (log : List Access) :
    ∃ u a, nekos.step (x.received tf frame ep ph log) (.ecall { TrapFrame.new with a7 := 2 }) = some u ∧
      u.hart = ⟨2, by decide⟩ ∧ (u.entry yield).phys = ph ∧
      (u.entry yield).tm.tasks ⟨1, by decide⟩ = some a ∧ a.still = (task 1 x.console).still ∧
      detached (u.entry yield).tm.currentPid a = true ∧
      ∀ j, j ≠ ⟨1, by decide⟩ →
        ((u.entry yield).tm.tasks j).any (detached (u.entry yield).tm.currentPid) = false := by
  refine ⟨_, _, rfl, rfl, rfl, rfl, rfl, rfl, fun j hj => ?_⟩
  fin_cases j
  · rfl
  · exact absurd rfl hj
  all_goals rfl

end Sample

namespace Kernel

/-- Reaping a slot ends where freeing its detached zombie does. -/
lemma finishes_freeTask_of_reapSlot {k : Kernel} {i : Fin maxTasks} {t : Task}
    (ht : k.tm.tasks i = some t) (hdetached : TaskManager.detached k.tm.currentPid t = true)
    (h : Fallible.Finishes (reapSlot i) k) : Fallible.Finishes (freeTask t) k.phys := by
  obtain ⟨⟨o, k'⟩, hrun⟩ := h
  simp only [reapSlot, readTm_bind, ht, hdetached, if_true, onTm_bind] at hrun
  obtain ⟨ph, hfree, -⟩ := onPhys_eq_some.mp hrun
  exact ⟨_, hfree⟩

/-- The scheduler does not return when it does not come back from freeing the one detached zombie. -/
lemma not_finishes_schedule {k : Kernel} {i : Fin maxTasks} {t : Task} {tf : TrapFrame}
    (ht : k.tm.tasks i = some t) (hdetached : TaskManager.detached k.tm.currentPid t = true)
    (honly : ∀ j u, j ≠ i → k.tm.tasks j = some u → TaskManager.detached k.tm.currentPid u = false)
    (h : ¬ Fallible.Finishes (freeTask t) k.phys) : ¬ Fallible.Finishes (schedule tf) k := by
  intro hfin
  have hnofail : ∀ j, Fallible.NoFail (reapSlot j) := fun j s u hrun => by
    have := (reapSlot_cases hrun).1
    simp at this
  have hkeep : ∀ j, Fallible.Keeps (fun u => u = k) (reapSlot j) := fun j => by
    have hsame : ∀ o u, reapSlot j k = some (o, u) → u = k := fun o u hrun => by
      by_cases hj : j = i
      · subst hj
        exact absurd (finishes_freeTask_of_reapSlot ht hdetached ⟨_, hrun⟩) h
      · obtain ⟨-, ph, rfl, rfl | ⟨v, hv, hd, -⟩⟩ := reapSlot_cases hrun
        · rw [TaskManager.reapedAt_singleton_of_not fun v hv => honly j v hj hv]
        · rw [honly j v hj hv] at hd
          exact absurd hd (by decide)
    rintro s rfl u
    exact ⟨fun a hrun => hsame _ u hrun, fun hrun => hsame _ u hrun⟩
  obtain ⟨_, _, hreap, -⟩ := Fallible.Finishes.of_bind
    (Fallible.NoFail.forEach hnofail) hfin
  obtain ⟨u, rfl, hslot⟩ := Fallible.Finishes.of_forEach hnofail hkeep rfl ⟨_, hreap⟩
    (List.mem_finRange i)
  exact h (finishes_freeTask_of_reapSlot ht hdetached hslot)

end Kernel

/-! ### Freeing the console -/

namespace SameBut

variable {ph ph' : Phys} {own : ℕ → Role} {r mid : ℕ}

/-- A memory in which a table below a root is linked to itself. -/
structure Looping (r mid : ℕ) (ph : Phys) : Prop where
  linked : child ph r windowIdx = some mid
  loop : child ph mid loopIdx = some mid

/-- The allocator plays no role in that. -/
lemma Looping.of_mem (h : Looping r mid ph) (hmem : ph'.mem = ph.mem) : Looping r mid ph' :=
  ⟨(child_of_mem hmem _ _).trans h.linked, (child_of_mem hmem _ _).trans h.loop⟩

/-- Freeing a page outside the window leaves the loop. -/
lemma Looping.freeUserPage (hL : Looping r mid ph') (h : SameBut mid ph ph') (hT : Tables ph own)
    (hr : own r = .root) (hmid : own mid = .mid r windowIdx) {va : ℕ}
    (hva : digit (pageNumber va) 2 ≠ windowIdx) :
    Looping r mid (Kernel.freeUserPage r va ph') := by
  rw [Kernel.freeUserPage, h.slotOf hT hr hmid (Or.inl hva)]
  rcases hslot : PageTable.slotOf ph r va with _ | ⟨q, k⟩
  · exact hL
  dsimp only
  split
  · have hq := ((hT.slotOf_eq_some hr).mp hslot).1
    have hword : ∀ p, own p ≠ .free → p ≠ q → ∀ l : Fin 512, p / 8 + (l : ℕ) ≠ q / 8 + k := by
      intro p hp hne l heq
      have hpage := pageOfWord_entry (hT.page_aligned hp) l
      rw [heq, pageOfWord_entry (hT.page_aligned (p := q) (by rw [hq]; simp)) k] at hpage
      exact hne hpage.symm
    have hsame : ∀ p, own p ≠ .free → p ≠ q → ∀ l : Fin 512,
        child ((ph'.freePage (pteToPa (ph'.entry q k))).setEntry q k 0) p l = child ph' p l := by
      intro p hp hne l
      refine child_of_mod ?_
      have hentry : ((ph'.freePage (pteToPa (ph'.entry q k))).setEntry q k 0).entry p l =
          ph'.entry p l := Function.update_of_ne (hword p hp hne l) ..
      rw [hentry]
    have hrq : r ≠ q := by
      rintro rfl
      simp [hr] at hq
    have hmq : mid ≠ q := by
      rintro rfl
      simp [hmid] at hq
    constructor
    · rw [hsame r (by rw [hr]; simp) hrq, hL.linked]
    · rw [hsame mid (by rw [hmid]; simp) hmq, hL.loop]
  · exact hL

/-- The kernel does not come back from freeing a task whose window is linked to itself. -/
lemma not_finishes_freeTask (h : SameBut mid ph ph') (hT : Tables ph own) {t : Task}
    (hr : own t.pagetable = .root) (hmid : own mid = .mid t.pagetable windowIdx)
    (hL : Looping t.pagetable mid ph') (himage : t.imageBase = 0x10000 ∧ t.imageSize = 0x1000)
    (hheap : t.heapBase = 0x11000 ∧ t.heapEnd = 0x11000) :
    ¬ Fallible.Finishes (Kernel.freeTask t) ph' := by
  intro hfin
  obtain ⟨_, _, hspace, -⟩ := Fallible.Finishes.of_bind (Kernel.noFail_freeUserSpace _ _ _ _ _ _) hfin
  rw [Kernel.freeUserSpace, himage.1, himage.2, hheap.1, hheap.2] at hspace
  have himages : Kernel.freeUserRange t.pagetable (pageFloor 0x10000)
      (pageCeil (wrap (0x10000 + 0x1000))) ph' =
        some (some (), Kernel.freeUserPage t.pagetable 0x10000 ph') := by
    have hfloor : pageFloor 0x10000 = 0x10000 := by decide
    have hsteps : pageSteps 0x10000 (pageCeil (wrap (0x10000 + 0x1000))) = 1 := by decide
    rw [Kernel.freeUserRange, hfloor, hsteps, Fallible.forRange_succ,
      Fallible.bind_of_some (Fallible.forRange_zero _ _), Nat.zero_mul]
    exact Fallible.modify_apply _ _
  have hheaps : Kernel.freeUserRange t.pagetable 0x11000 ((TaskManager.alignUp 0x11000).getD 0x11000)
      (Kernel.freeUserPage t.pagetable 0x10000 ph') =
        some (some (), Kernel.freeUserPage t.pagetable 0x10000 ph') := by
    have hsteps : pageSteps 0x11000 ((TaskManager.alignUp 0x11000).getD 0x11000) = 0 := by decide
    rw [Kernel.freeUserRange, hsteps]
    rfl
  rw [Fallible.bind_of_some himages, Fallible.bind_of_some hheaps] at hspace
  have hdigit : digit (pageNumber 0x10000) 2 ≠ windowIdx := by decide
  have hL' := hL.freeUserPage h hT hr hmid hdigit
  split at hspace
  · rw [Fallible.modify_bind] at hspace
    have hmem : ((Kernel.freeUserPage t.pagetable 0x10000 ph').freePage t.userStack).mem =
        (Kernel.freeUserPage t.pagetable 0x10000 ph').mem := rfl
    have hL'' := hL'.of_mem hmem
    exact not_finishes_free hL''.linked hL''.loop ⟨_, hspace⟩
  · exact not_finishes_free hL'.linked hL'.loop ⟨_, hspace⟩

end SameBut

namespace Sample

open Kernel

variable {x : Sample} {own : ℕ → Role}

/-- The pages of the sample machine are seen through the window of every task. -/
lemma virtToPhys_window {files : List (String × List UInt8)} {i : Fin maxTasks} {t : Task} {p o : ℕ}
    (hboot : (sampleConfig files).boot = some x.start)
    (hbooted : Config.Booted true (sampleConfig files) sampleProgram sampleProgram sampleProgram
      x.start x.shell)
    (hhoused : NekOS.Housed true x.start.kernel.tm x.phys own) (ht : x.start.kernel.tm.tasks i = some t)
    (hp : own p ≠ .free) (ho : o < pageSize) :
    PageTable.virtToPhys x.phys t.pagetable (wrap (p + o)) = some (p + o) ∧
      digit (pageNumber (wrap (p + o))) 2 = windowIdx ∧
      digit (pageNumber (wrap (p + o))) 1 ≠ loopIdx := by
  have hT := hhoused.spaces.tables
  obtain ⟨hle, hlt⟩ := Sample.allocated_lt hboot hbooted (hT.allocated hp)
  have halign := hT.page_aligned hp
  simp only [pageSize] at halign ho
  have hwrap : wrap (p + o) = p + o := wrap_of_lt (by omega)
  have hnumber : pageNumber (p + o) = p / 4096 := by
    rw [pageNumber_of_lt (by omega)]
    simp only [pageSize]
    omega
  have hkernel : KernelPage (p / 4096) := kernelPage_iff.mpr (Or.inl (by omega))
  obtain ⟨e, he, hleaf⟩ := (hhoused.home i t ht).kernel (p / 4096) hkernel
  rw [hwrap, hnumber]
  refine ⟨?_, Fin.ext ?_, fun h => ?_⟩
  · rw [virtToPhys_eq, hnumber, he, Option.map_some, hleaf.pa]
    simp only [pageSize]
    congr 1
    omega
  · change p / 4096 / 512 ^ 2 % 512 = 2
    omega
  · have hdigit : p / 4096 / 512 ^ 1 % 512 = 100 := congrArg Fin.val h
    omega

/-- The shell and the console link the table of the console's window to itself, and the console
exits. -/
lemma exists_intrusion : ∃ (x : Sample) (es : List Event) (s : System), (sampleConfig []).boot = some x.start ∧
    nekos.run x.start es = some s ∧ es.length = 3 ∧ s.hart = ⟨2, by decide⟩ ∧
    ¬ Fallible.Finishes (handle { TrapFrame.new with a7 := 4 })
      (s.entry { TrapFrame.new with a7 := 4 }) := by
  obtain ⟨x, hboot, hbooted⟩ := exists_start []
  obtain ⟨own, hhoused⟩ := hbooted.housed
  have hT := hhoused.spaces.tables
  have hconsole : x.start.kernel.tm.tasks ⟨1, by decide⟩ = some (task 1 x.console) := rfl
  have hshell : x.start.kernel.tm.tasks ⟨3, by decide⟩ =
      some { task 3 x.shell with state := .running } := rfl
  have hhome := hhoused.home _ _ hconsole
  have hr : own x.console.pagetable = .root := hhome.root
  obtain ⟨e, he, -⟩ := hhome.kernel 0x80240 (by decide)
  obtain ⟨low, hlow, -⟩ := (hT.lookup_eq_some hhome.root).mp he
  obtain ⟨mid, hmid, -⟩ := hT.low_link low _ _ _ hlow
  have hmid' : own mid = .mid x.console.pagetable windowIdx := hmid
  have hrfree : own x.console.pagetable ≠ .free := by rw [hr]; simp
  have hmfree : own mid ≠ .free := by rw [hmid]; simp
  have hralign := hT.page_aligned hrfree
  have hmalign := hT.page_aligned hmfree
  simp only [pageSize] at hralign hmalign
  let call : TrapFrame := { TrapFrame.new with
    a7 := 15, a0 := consoleEndpoint, a5 := x.console.pagetable + 16, a6 := 8 }
  let recv : TrapFrame := { TrapFrame.new with
    a7 := 16, a0 := consoleEndpoint, a1 := mid + 800, a2 := 8 }
  -- The payload is the pointer to the table.
  have hread : ∀ i < 8, userByte x.phys x.shell.pagetable (wrap (call.a5 + i)) =
      some (x.phys.mem.byteAt (x.console.pagetable + 16 + i)) := fun i hi => by
    have hoff : 16 + i < pageSize := by simp only [pageSize]; omega
    have hpa := (virtToPhys_window hboot hbooted hhoused hshell hrfree hoff).1
    rw [← Nat.add_assoc] at hpa
    exact congrArg (Option.map _) hpa
  let buf := stagedBytes x.phys x.shell.pagetable call.a5 8 fun _ => 0
  have hbuf : ∀ i < 8, buf i = x.phys.mem.byteAt (x.console.pagetable + 16 + i) := fun i hi => by
    have hbyte : buf i = (userByte x.phys x.shell.pagetable (wrap (call.a5 + i))).getD 0 := if_pos hi
    rw [hbyte, hread i hi]
    rfl
  -- It is written to an entry of the table.
  let ph : Phys := { x.phys with mem := x.phys.mem.setBytes (mid + 800) ((List.range 8).map buf) }
  have hsame : SameBut mid x.phys ph := fun w hw => by
    refine Memory.setBytes_of_not_mem _ ?_
    have hidx : (loopIdx : ℕ) = 100 := rfl
    rw [List.length_map, List.length_range]
    omega
  have hcopy : ∀ k : Kernel, k.phys = x.phys → ∃ log', memCopyToUser x.console.pagetable recv.a1 buf 8 k =
      some (some (), { k with phys := ph, accesses := log' }) := by
    rintro ⟨m, _, files, log⟩ rfl
    refine memCopyToUser_run buf _ fun ph' hph' i hi => ?_
    have hoff : 800 + i < pageSize := by simp only [pageSize]; omega
    obtain ⟨hpa, -, hdigit⟩ := virtToPhys_window hboot hbooted hhoused hconsole hmfree hoff
    have hsame' : SameBut mid x.phys ph' := fun w hw => by
      refine hph' w ?_
      have hidx : (loopIdx : ℕ) = 100 := rfl
      have hdst : recv.a1 = mid + 800 := rfl
      omega
    rw [← Nat.add_assoc] at hpa hdigit
    have htrans := hsame'.virtToPhys hT hr hmid' (Or.inr hdigit)
    exact htrans.trans hpa
  have hlinked : child x.phys x.console.pagetable windowIdx = some mid := (hT.child_root hr).mpr hmid'
  have hne : x.console.pagetable ≠ mid := fun heq => by
    rw [heq, hmid] at hr
    simp at hr
  have hloop : child ph mid loopIdx = child x.phys x.console.pagetable windowIdx := by
    refine child_of_mod (Memory.mod_eq_of_bytes fun j hj => ?_)
    have hdst : 8 * (mid / 8 + (loopIdx : ℕ)) + j = mid + 800 + j := by
      have hidx : (loopIdx : ℕ) = 100 := rfl
      omega
    have hsrc : 8 * (x.console.pagetable / 8 + (windowIdx : ℕ)) + j = x.console.pagetable + 16 + j := by
      have hidx : (windowIdx : ℕ) = 2 := rfl
      omega
    have hbyte : ((List.range 8).map buf).getD (mid + 800 + j - (mid + 800)) 0 = buf j := by
      rw [Nat.add_sub_cancel_left, List.getD_eq_getElem?_getD, List.getElem?_map,
        List.getElem?_range hj]
      rfl
    rw [hdst, hsrc, Memory.byteAt_setBytes, if_pos, hbyte, hbuf j hj]
    rw [List.length_map, List.length_range]
    omega
  have hlooping : SameBut.Looping x.console.pagetable mid ph :=
    ⟨(hsame.child_other hT hmid' hrfree hne _).trans hlinked, hloop.trans hlinked⟩
  -- The run.
  have hreadable : ∀ i < 8, (userByte x.phys x.shell.pagetable (wrap (call.a5 + i))).isSome = true :=
    fun i hi => by
      rw [hread i hi]
      rfl
  obtain ⟨log, hcall⟩ :=
    x.start_callBuf call (n := 8) rfl rfl rfl (by decide) (by decide) hreadable
  obtain ⟨frame, ep, log', hrecv⟩ := x.called_recvBuf call recv log rfl rfl rfl hcopy
  let yield : TrapFrame := { TrapFrame.new with a7 := 4 }
  obtain ⟨u, a, hexit, hhart, hphys, ha, hstill, hdetached, honly⟩ :=
    x.received_exit call frame yield ep ph log'
  refine ⟨x, _, u, hboot, Machine.run_cons_eq_some.mpr ⟨_, hcall, Machine.run_cons_eq_some.mpr
    ⟨_, hrecv, Machine.run_cons_eq_some.mpr ⟨u, hexit, nekos.run_nil u⟩⟩⟩, rfl, hhart, fun hfin => ?_⟩
  have hfree : ¬ Fallible.Finishes (freeTask a) (u.entry yield).phys := by
    rw [hphys]
    have hpt : a.pagetable = x.console.pagetable := (congrArg Task.pagetable hstill :)
    have hbase : a.imageBase = (Exec.imageRange sampleProgram).1 := (congrArg Task.imageBase hstill :)
    have hsize : a.imageSize = (Exec.imageRange sampleProgram).2 := (congrArg Task.imageSize hstill :)
    have hheap : a.heapBase = (Exec.imageRange sampleProgram).1 + (Exec.imageRange sampleProgram).2 :=
      (congrArg Task.heapBase hstill :)
    have hend : a.heapEnd = (Exec.imageRange sampleProgram).1 + (Exec.imageRange sampleProgram).2 :=
      (congrArg Task.heapEnd hstill :)
    rw [sampleProgram_pages.2.2] at hbase hsize hheap hend
    rw [← hpt] at hr hmid' hlooping
    exact hsame.not_finishes_freeTask hT hr hmid' hlooping ⟨hbase, hsize⟩ ⟨hheap, hend⟩
  obtain ⟨_, _, hsched, -⟩ := Fallible.Finishes.of_bind noFail_schedule hfin
  refine not_finishes_schedule ha hdetached (fun j v hj hv => ?_) hfree ⟨_, hsched⟩
  have hquiet := honly j hj
  rwa [hv] at hquiet

end Sample

namespace System

/-- At most one pid is taken in a step. -/
lemma total_pidsTaken_le (s : System) (es : List Event) : nekos.total pidsTaken s es ≤ es.length := by
  induction es generalizing s with
  | nil => exact le_rfl
  | cons ev es ih =>
    rw [Machine.total, List.length_cons]
    have hone : pidsTaken s ev ≤ 1 := by
      unfold pidsTaken
      split
      · split <;> omega
      · omega
    have hrest : ((nekos.step s ev).elim 0 fun t => nekos.total pidsTaken t es) ≤ es.length := by
      rcases nekos.step s ev with _ | t
      · exact Nat.zero_le _
      · exact ih t
    omega

end System

end NekOS
