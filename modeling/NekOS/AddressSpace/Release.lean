import NekOS.AddressSpace.Space

/-!
# Releasing address spaces

`free_user_space` frees the pages of a program, then the tables.  The functions are stated once more
with `checkedFree` in place of `page::free`: with the check, freeing a managed page that is not in use
halts.  So a checked run that ends has freed every page once, at a moment when it was allocated, and it
is then also the run of the functions of the source.
-/

namespace NekOS

open PageTable

/-! ### Checked releases -/

/-- The address lies in the managed range. -/
def PageAllocator.managed (a : PageAllocator) (p : ℕ) : Bool :=
  decide (a.startAddr ≤ p) && decide (p < a.startAddr + a.totalPages * pageSize)

/-- `page::free`.  With the check it halts at a managed page that is not in use. -/
def checkedFree (check : Bool) (p : ℕ) : Fallible Phys Unit := fun ph =>
  if check && ph.page.managed p && !ph.page.isUsed ((p - ph.page.startAddr) / pageSize) then none
  else some (some (), ph.freePage p)

/-- `pgtable::free_walk` with checked releases. -/
def PageTable.freeWalkWith (check : Bool) : ℕ → ℕ → Fallible Phys Unit
  | 0, _ => Fallible.halt
  | depth + 1, pt => Fallible.forEach (List.finRange 512) fun i => do
    let pte ← Fallible.gets fun ph => ph.entry pt i
    if hasFlag pte pteV && !isLeaf pte then
      freeWalkWith check depth (pteToPa pte)
      checkedFree check (pteToPa pte)
    else return ()

/-- `pgtable::free` with checked releases. -/
def PageTable.freeWith (check : Bool) (pt : ℕ) : Fallible Phys Unit := do
  freeWalkWith check walkDepth pt
  checkedFree check pt

namespace Kernel

/-- One iteration of the loops of `free_user_space` with checked releases. -/
def freeUserPageWith (check : Bool) (pagetable va : ℕ) : Fallible Phys Unit := fun ph =>
  match PageTable.slotOf ph pagetable va with
  | none => some (some (), ph)
  | some (node, idx) =>
    if hasFlag (ph.entry node idx) pteV then
      (checkedFree check (pteToPa (ph.entry node idx)) >>= fun _ =>
        Fallible.modify fun ph => ph.setEntry node idx 0) ph
    else some (some (), ph)

/-- The loops of `free_user_space` with checked releases. -/
def freeUserRangeWith (check : Bool) (pagetable start stop : ℕ) : Fallible Phys Unit :=
  Fallible.forRange (pageSteps start stop) fun i =>
    freeUserPageWith check pagetable (start + i * pageSize)

/-- `free_user_space` with checked releases. -/
def freeUserSpaceWith (check : Bool) (pagetable userStack imageBase imageSize heapBase heapEnd : ℕ) :
    Fallible Phys Unit := do
  freeUserRangeWith check pagetable (pageFloor imageBase) (pageCeil (wrap (imageBase + imageSize)))
  freeUserRangeWith check pagetable heapBase ((TaskManager.alignUp heapEnd).getD heapBase)
  if userStack ≠ 0 then checkedFree check userStack
  PageTable.freeWith check pagetable

/-- `free_task` with checked releases. -/
def freeTaskWith (check : Bool) (t : Task) : Fallible Phys Unit := do
  freeUserSpaceWith check t.pagetable t.userStack t.imageBase t.imageSize t.heapBase t.heapEnd
  checkedFree check t.kernelStack

end Kernel

/-- Without the check this is `page::free`. -/
lemma checkedFree_false (p : ℕ) : checkedFree false p = Fallible.modify fun ph => ph.freePage p :=
  rfl

/-- Without the check this is `free_walk`. -/
lemma PageTable.freeWalkWith_false (depth pt : ℕ) : freeWalkWith false depth pt = freeWalk depth pt := by
  induction depth generalizing pt with
  | zero => rfl
  | succ depth ih => simp only [freeWalkWith, freeWalk, ih, checkedFree_false]

namespace Kernel

/-- Without the check this is `free_user_space`. -/
lemma freeUserSpaceWith_false (pagetable userStack imageBase imageSize heapBase heapEnd : ℕ) :
    freeUserSpaceWith false pagetable userStack imageBase imageSize heapBase heapEnd =
      freeUserSpace pagetable userStack imageBase imageSize heapBase heapEnd := by
  have hpage : ∀ va, freeUserPageWith false pagetable va =
      Fallible.modify (freeUserPage pagetable va) := fun va => by
    funext ph
    rw [freeUserPageWith, Fallible.modify_apply, freeUserPage]
    rcases slotOf ph pagetable va with _ | ⟨node, idx⟩
    · rfl
    · dsimp only
      split <;> rfl
  simp only [freeUserSpaceWith, freeUserSpace, freeUserRangeWith, freeUserRange, hpage,
    PageTable.freeWith, PageTable.free, freeWalkWith_false, checkedFree_false]

/-- Without the check this is `free_task`. -/
lemma freeTaskWith_false (t : Task) : freeTaskWith false t = freeTask t := by
  simp only [freeTaskWith, freeTask, freeUserSpaceWith_false, checkedFree_false]

end Kernel

/-- A page that has a role, or is not managed, passes the check. -/
lemma checkedFree_eq {ph : Phys} {own : ℕ → Role} (hT : Tables ph own) (check : Bool) (p : ℕ)
    (h : check = true → own p ≠ .free ∨ p < ph.page.startAddr) :
    checkedFree check p ph = some (some (), ph.freePage p) := by
  refine if_neg fun hbad => ?_
  simp only [Bool.and_eq_true, PageAllocator.managed, decide_eq_true_eq, Bool.not_eq_true'] at hbad
  obtain ⟨⟨hcheck, hle, -⟩, hused⟩ := hbad
  rcases h hcheck with hrole | hlt
  · obtain ⟨i, -, rfl, hi⟩ := hT.allocated hrole
    rw [Nat.add_sub_cancel_left, Nat.mul_div_cancel _ (by decide : 0 < pageSize), hi] at hused
    simp at hused
  · omega

/-- An allocated page passes the check. -/
lemma checkedFree_allocated {ph : Phys} {p : ℕ} (check : Bool)
    (h : check = true → ph.page.Allocated p) :
    checkedFree check p ph = some (some (), ph.freePage p) := by
  refine if_neg fun hbad => ?_
  simp only [Bool.and_eq_true, Bool.not_eq_true'] at hbad
  obtain ⟨⟨hcheck, -⟩, hused⟩ := hbad
  obtain ⟨i, -, rfl, hi⟩ := h hcheck
  rw [Nat.add_sub_cancel_left, Nat.mul_div_cancel _ (by decide : 0 < pageSize), hi] at hused
  simp at hused

/-! ### Pages of the program -/

/-- The loops of `free_user_space` with checked releases. -/
lemma freeUserPagesWith_spec {ph : Phys} {own : ℕ → Role} {r : ℕ} (hT : Tables ph own)
    (hr : own r = .root) (check : Bool) (va : ℕ → ℕ) (count : ℕ)
    (hfree : ∀ i < count, ∀ e, lookup ph r (pageNumber (va i)) = some e →
      Freeable r own (pteToPa e))
    (hcheck : check = true → ∀ i < count, ∀ e, lookup ph r (pageNumber (va i)) = some e →
      pteToPa e < ph.page.startAddr ∨ own (pteToPa e) = .data r (pageNumber (va i))) :
    ∃ ph' own', Fallible.forRange count (fun i => Kernel.freeUserPageWith check r (va i)) ph =
        some (some (), ph') ∧
      Unmapped r (visited (fun i => pageNumber (va i)) count) true ph own ph' own' := by
  induction count with
  | zero => exact ⟨ph, own, rfl, Unmapped.refl hT r true⟩
  | succ count ih =>
    obtain ⟨ph₁, own₁, hrun, hun⟩ := ih (fun i hi => hfree i (Nat.lt_succ_of_lt hi))
      fun hc i hi => hcheck hc i (Nat.lt_succ_of_lt hi)
    have hr₁ := hun.root hr fun m hm e _ he => by
      obtain ⟨i, hi, rfl⟩ := mem_visited.mp hm
      exact hfree i (Nat.lt_succ_of_lt hi) e he
    have hn := pageNumber_lt (va count)
    have hpage : lookup ph₁ r (pageNumber (va count)) =
        (findPte ph₁ r (va count)).filter fun pte => hasFlag pte pteV := by
      rw [findPte_filter]
    rw [Fallible.forRange_succ, Fallible.bind_of_some hrun, Kernel.freeUserPageWith, visited_succ]
    rw [findPte] at hpage
    rcases hslot : slotOf ph₁ r (va count) with _ | ⟨q, idx⟩
    · rw [hslot] at hpage
      exact ⟨ph₁, own₁, rfl, hun.skip hn hpage⟩
    · rw [hslot] at hpage
      rw [hun.tables.slotOf_eq_some hr₁] at hslot
      obtain ⟨hq, rfl⟩ := hslot
      dsimp only
      cases hflag : hasFlag (ph₁.entry q (digit (pageNumber (va count)) 0)) pteV with
      | false =>
        rw [Option.map_some, Option.filter, hflag] at hpage
        exact ⟨ph₁, own₁, rfl, hun.skip hn hpage⟩
      | true =>
        rw [Option.map_some, Option.filter, hflag] at hpage
        obtain ⟨hnV, he₀⟩ := hun.lookup_of_some hn hpage
        obtain ⟨own₂, h₂⟩ := hun.erase hq hn hpage fun _ => hfree count (Nat.lt_succ_self count) _ he₀
        -- A page of the program is reached from one place, so it is still in use.
        have hused := checkedFree_eq hun.tables check
          (pteToPa (ph₁.entry q (digit (pageNumber (va count)) 0))) fun hc => by
            rcases hcheck hc count (Nat.lt_succ_self count) _ he₀ with hlt | hrole
            · exact Or.inr (by rwa [hun.start])
            rcases hun.kept (pteToPa (ph₁.entry q (digit (pageNumber (va count)) 0))) with
              hk | ⟨-, m, hm, e', -, he', hpa⟩
            · exact Or.inl (by rw [hk, hrole]; simp)
            obtain ⟨i, hi, rfl⟩ := mem_visited.mp hm
            rcases hcheck hc i (Nat.lt_succ_of_lt hi) e' he' with hlt | hrole'
            · exact Or.inr (by rwa [hun.start, ← hpa])
            · rw [hpa, hrole, Role.data.injEq] at hrole'
              rw [hrole'.2] at hnV
              exact absurd hm hnV
        refine ⟨_, own₂, ?_, h₂⟩
        rw [if_pos rfl, Fallible.bind_of_some hused]
        rfl

/-! ### Tables -/

/-- The pages in `S` have been freed, and nothing else has changed. -/
structure Freed (S : ℕ → Prop) (ph ph' : Phys) : Prop where
  mem : ph'.mem = ph.mem
  start : ph'.page.startAddr = ph.page.startAddr
  total : ph'.page.totalPages = ph.page.totalPages
  counted : ph.page.Counted → ph'.page.Counted
  allocated : ∀ q, ph'.page.Allocated q ↔ ph.page.Allocated q ∧ ¬ S q

/-- From every memory with the contents of `ph₀` the program frees the pages in `S` and changes nothing
else.  With the check on these have to be allocated. -/
def Frees (check : Bool) (ph₀ : Phys) (S : ℕ → Prop) (f : Fallible Phys Unit) : Prop :=
  ∀ ph, ph.mem = ph₀.mem → ph.page.startAddr = ph₀.page.startAddr →
    (check = true → ∀ p, S p → ph.page.Allocated p) →
    ∃ ph', f ph = some (some (), ph') ∧ Freed S ph ph'

namespace Frees

variable {check : Bool} {ph₀ : Phys} {S T : ℕ → Prop} {f g : Fallible Phys Unit}

/-- The same pages. -/
lemma congr (h : Frees check ph₀ S f) (hST : ∀ p, S p ↔ T p) : Frees check ph₀ T f := by
  rwa [show T = S from funext fun p => propext (hST p).symm]

/-- Doing nothing. -/
lemma pure (check : Bool) : Frees check ph₀ (fun _ => False) (Pure.pure ()) := fun ph _ _ _ =>
  ⟨ph, rfl, rfl, rfl, rfl, id, fun q => by simp⟩

/-- One page. -/
lemma free (check : Bool) {p : ℕ} (halign : ph₀.page.startAddr % pageSize = 0)
    (hp : p % pageSize = 0) : Frees check ph₀ (· = p) (checkedFree check p) := fun ph _ hstart hS =>
  ⟨ph.freePage p, checkedFree_allocated check fun hc => hS hc p rfl, rfl, PageAllocator.free_startAddr ..,
    PageAllocator.free_totalPages .., fun h => h.free p,
    PageAllocator.allocated_free_iff (by rwa [hstart]) hp⟩

/-- One program after the other. -/
lemma bind (hf : Frees check ph₀ S f) (hg : Frees check ph₀ T g) (hdisj : ∀ p, S p → ¬ T p) :
    Frees check ph₀ (fun p => S p ∨ T p) (f >>= fun _ => g) := by
  intro ph hmem hstart hST
  obtain ⟨ph₁, hrun₁, h₁⟩ := hf ph hmem hstart fun hc p hp => hST hc p (Or.inl hp)
  obtain ⟨ph₂, hrun₂, h₂⟩ := hg ph₁ (h₁.mem.trans hmem) (h₁.start.trans hstart) fun hc p hp =>
    (h₁.allocated p).mpr ⟨hST hc p (Or.inr hp), fun hs => hdisj p hs hp⟩
  refine ⟨ph₂, by rw [Fallible.bind_of_some hrun₁, hrun₂], h₂.mem.trans h₁.mem,
    h₂.start.trans h₁.start, h₂.total.trans h₁.total, fun h => h₂.counted (h₁.counted h), fun q => ?_⟩
  rw [h₂.allocated, h₁.allocated, not_or, and_assoc]

/-- A loop. -/
lemma forEach {β : Type} {bs : List β} {body : β → Fallible Phys Unit} {S : β → ℕ → Prop}
    (hnodup : bs.Nodup) (hbody : ∀ b ∈ bs, Frees check ph₀ (S b) (body b))
    (hdisj : ∀ b c p, S b p → S c p → b = c) :
    Frees check ph₀ (fun p => ∃ b ∈ bs, S b p) (Fallible.forEach bs body) := by
  induction bs with
  | nil => exact (pure check).congr fun p => by simp
  | cons b bs ih =>
    obtain ⟨hb, hnodup⟩ := List.nodup_cons.mp hnodup
    rw [Fallible.forEach_cons]
    refine ((hbody b (List.mem_cons_self ..)).bind
      (ih hnodup fun c hc => hbody c (List.mem_cons_of_mem _ hc)) ?_).congr fun p => by simp
    rintro p hp ⟨c, hc, hcp⟩
    rw [hdisj b c p hp hcp] at hb
    exact hb hc

end Frees

namespace Tables

variable {ph : Phys} {own : ℕ → Role} {r : ℕ}

/-- The digits of a page number. -/
lemma exists_digits (i j k : Fin 512) :
    ∃ n < 2 ^ 27, digit n 2 = i ∧ digit n 1 = j ∧ digit n 0 = k := by
  refine ⟨i * 512 ^ 2 + j * 512 + k, by omega, Fin.ext ?_, Fin.ext ?_, Fin.ext ?_⟩ <;>
    simp only [digit, Nat.reducePow] <;> omega

/-- The last-level tables of a tree in which all entries are leaves. -/
lemma frees_low (hT : Tables ph own) (hr : own r = .root) (check : Bool)
    (hleaf : ∀ n < 2 ^ 27, ∀ e, lookup ph r n = some e → isLeaf e = true) {q : ℕ} {i j : Fin 512}
    (hq : own q = .low r i j) (depth : ℕ) :
    Frees check ph (fun _ => False) (freeWalkWith check (depth + 1) q) := by
  have hbody : ∀ k ∈ List.finRange 512, Frees check ph (fun _ => False) (do
      let pte ← Fallible.gets fun ph => ph.entry q k
      if hasFlag pte pteV && !isLeaf pte then
        freeWalkWith check depth (pteToPa pte)
        checkedFree check (pteToPa pte)
      else return ()) := by
    intro k _ ph' hmem hstart _
    have hentry : ph'.entry q k = ph.entry q k := by rw [Phys.entry, Phys.entry, hmem]
    simp only [Fallible.gets_bind, hentry]
    have hno : (hasFlag (ph.entry q k) pteV && !isLeaf (ph.entry q k)) = false := by
      cases hflag : hasFlag (ph.entry q k) pteV with
      | false => rfl
      | true =>
        obtain ⟨n, hn, rfl, rfl, rfl⟩ := exists_digits i j k
        simp [hleaf n hn _ ((hT.lookup_eq_some hr).mpr ⟨q, hq, rfl, hflag⟩)]
    rw [hno]
    exact Frees.pure check ph' hmem hstart (by simp)
  exact (Frees.forEach (List.nodup_finRange 512) hbody (by simp)).congr (by simp)

/-- The tables below a table of the middle level. -/
lemma frees_mid (hT : Tables ph own) (hr : own r = .root) (check : Bool)
    (hleaf : ∀ n < 2 ^ 27, ∀ e, lookup ph r n = some e → isLeaf e = true) {q : ℕ} {i : Fin 512}
    (hq : own q = .mid r i) (depth : ℕ) :
    Frees check ph (fun p => ∃ j, own p = .low r i j) (freeWalkWith check (depth + 2) q) := by
  have hbody : ∀ j ∈ List.finRange 512, Frees check ph (fun p => own p = .low r i j) (do
      let pte ← Fallible.gets fun ph => ph.entry q j
      if hasFlag pte pteV && !isLeaf pte then
        freeWalkWith check (depth + 1) (pteToPa pte)
        checkedFree check (pteToPa pte)
      else return ()) := by
    intro j _
    cases hflag : hasFlag (ph.entry q j) pteV with
    | false =>
      have hnone : ∀ p, own p ≠ .low r i j := fun p hp => by
        obtain ⟨q', hq', he⟩ := hT.low_link p r i j hp
        obtain rfl := hT.mid_unique hq' hq
        rw [he, hasFlag_pointer] at hflag
        simp at hflag
      intro ph' hmem hstart _
      have hentry : ph'.entry q j = ph.entry q j := by rw [Phys.entry, Phys.entry, hmem]
      simp only [Fallible.gets_bind, hentry, hflag]
      obtain ⟨ph'', hrun, hfreed⟩ := Frees.pure check ph' hmem hstart (by simp)
      exact ⟨ph'', hrun, ⟨hfreed.mem, hfreed.start, hfreed.total, hfreed.counted, fun p => by
        rw [hfreed.allocated]
        simp [hnone]⟩⟩
    | true =>
      obtain ⟨p, hp, he⟩ := hT.mid_entry q r i j hq hflag
      have halign := hT.page_aligned (p := p) (by simp [hp])
      have hpair := ((hT.frees_low hr check hleaf hp depth).bind
        (Frees.free check hT.aligned halign) (by simp)).congr (T := fun p => own p = .low r i j)
          fun p' => by
            rw [false_or]
            exact ⟨fun h => by rw [h, hp], fun h => hT.low_unique h hp⟩
      intro ph' hmem hstart hS
      have hentry : ph'.entry q j = paToPte p pteV := by rw [← he, Phys.entry, Phys.entry, hmem]
      simp only [Fallible.gets_bind, hentry, hasFlag_pointer, isLeaf_pointer,
        hT.pteToPa_link (p := p) (by simp [hp])]
      exact hpair ph' hmem hstart hS
  refine (Frees.forEach (List.nodup_finRange 512) hbody fun j k p hj hk => ?_).congr (by simp)
  rw [hj, Role.low.injEq] at hk
  exact hk.2.2

/-- The tables below a root. -/
lemma frees_root (hT : Tables ph own) (hr : own r = .root) (check : Bool)
    (hleaf : ∀ n < 2 ^ 27, ∀ e, lookup ph r n = some e → isLeaf e = true) (depth : ℕ) :
    Frees check ph (fun p => (∃ i j, own p = .low r i j) ∨ ∃ i, own p = .mid r i)
      (freeWalkWith check (depth + 3) r) := by
  have hbody : ∀ i ∈ List.finRange 512,
      Frees check ph (fun p => (∃ j, own p = .low r i j) ∨ own p = .mid r i) (do
        let pte ← Fallible.gets fun ph => ph.entry r i
        if hasFlag pte pteV && !isLeaf pte then
          freeWalkWith check (depth + 2) (pteToPa pte)
          checkedFree check (pteToPa pte)
        else return ()) := by
    intro i _
    cases hflag : hasFlag (ph.entry r i) pteV with
    | false =>
      have hnone : ∀ p, own p ≠ .mid r i := fun p hp => by
        rw [(hT.mid_link p r i hp).2, hasFlag_pointer] at hflag
        simp at hflag
      have hnone' : ∀ p j, own p ≠ .low r i j := fun p j hp => by
        obtain ⟨q, hq, -⟩ := hT.low_link p r i j hp
        exact hnone q hq
      intro ph' hmem hstart _
      have hentry : ph'.entry r i = ph.entry r i := by rw [Phys.entry, Phys.entry, hmem]
      simp only [Fallible.gets_bind, hentry, hflag]
      obtain ⟨ph'', hrun, hfreed⟩ := Frees.pure check ph' hmem hstart (by simp)
      exact ⟨ph'', hrun, ⟨hfreed.mem, hfreed.start, hfreed.total, hfreed.counted, fun p => by
        rw [hfreed.allocated]
        simp [hnone, hnone']⟩⟩
    | true =>
      obtain ⟨q, hq, he⟩ := hT.root_entry r i hr hflag
      have halign := hT.page_aligned (p := q) (by simp [hq])
      have hpair := ((hT.frees_mid hr check hleaf hq depth).bind
        (Frees.free check hT.aligned halign) (by rintro p ⟨j, hj⟩ rfl; simp [hq] at hj)).congr
          (T := fun p => (∃ j, own p = .low r i j) ∨ own p = .mid r i)
          fun p => or_congr_right ⟨fun h => by rw [h, hq], fun h => hT.mid_unique h hq⟩
      intro ph' hmem hstart hS
      have hentry : ph'.entry r i = paToPte q pteV := by rw [← he, Phys.entry, Phys.entry, hmem]
      simp only [Fallible.gets_bind, hentry, hasFlag_pointer, isLeaf_pointer,
        hT.pteToPa_link (p := q) (by simp [hq])]
      exact hpair ph' hmem hstart hS
  refine (Frees.forEach (List.nodup_finRange 512) hbody fun i i' p hi hi' => ?_).congr fun p => ?_
  · rcases hi with ⟨j, hi⟩ | hi <;> rcases hi' with ⟨j', hi'⟩ | hi' <;> rw [hi] at hi' <;>
      simp_all
  · simp only [List.mem_finRange, true_and]
    exact exists_or

/-- **Freeing tables.**  In a tree in which all entries are leaves `free` frees the tables, each
once. -/
lemma frees_tree (hT : Tables ph own) (hr : own r = .root) (check : Bool)
    (hleaf : ∀ n < 2 ^ 27, ∀ e, lookup ph r n = some e → isLeaf e = true) :
    Frees check ph (fun p => (own p).isTable = true ∧ (own p).tree p = some r) (freeWith check r) := by
  refine ((hT.frees_root hr check hleaf 29).bind (Frees.free check hT.aligned
    (hT.page_aligned (by simp [hr]))) ?_).congr fun p => ?_
  · rintro p (⟨i, j, hp⟩ | ⟨i, hp⟩) rfl <;> simp [hr] at hp
  · constructor
    · rintro ((⟨i, j, hp⟩ | ⟨i, hp⟩) | rfl)
      · rw [hp]
        exact ⟨rfl, rfl⟩
      · rw [hp]
        exact ⟨rfl, rfl⟩
      · rw [hr]
        exact ⟨rfl, rfl⟩
    · rintro ⟨htable, htree⟩
      cases hp : own p with
      | root =>
        rw [hp] at htree
        exact Or.inr (Option.some.inj htree)
      | mid r' i =>
        rw [hp] at htree
        obtain rfl : r' = r := Option.some.inj htree
        exact Or.inl (Or.inr ⟨i, rfl⟩)
      | low r' i j =>
        rw [hp] at htree
        obtain rfl : r' = r := Option.some.inj htree
        exact Or.inl (Or.inl ⟨i, j, rfl⟩)
      | free | data | stack | lost => simp [hp, Role.isTable] at htable

end Tables

/-! ### Address spaces -/

/-- The roles after a tree is gone: its tables are free, pages of the program that are left are lost. -/
def dropTree (r : ℕ) (own : ℕ → Role) (p : ℕ) : Role :=
  if (own p).tree p = some r then if (own p).isTable then .free else .lost else own p

/-- The memory without the tables of one tree. -/
lemma Tables.dropTree {ph ph' : Phys} {own : ℕ → Role} {r : ℕ} (hT : Tables ph own)
    (h : Freed (fun p => (own p).isTable = true ∧ (own p).tree p = some r) ph ph') :
    Tables ph' (dropTree r own) ∧ Local r ph own ph' (NekOS.dropTree r own) := by
  have hentry : ∀ p i, ph'.entry p i = ph.entry p i := fun p i => by rw [Phys.entry, Phys.entry, h.mem]
  have hother : ∀ {p ρ}, ρ ≠ .free → ρ ≠ .lost → NekOS.dropTree r own p = ρ →
      (own p).tree p ≠ some r ∧ own p = ρ := by
    intro p ρ h₁ h₂ hp
    rw [NekOS.dropTree] at hp
    split at hp
    · split at hp
      · exact absurd hp.symm h₁
      · exact absurd hp.symm h₂
    · exact ⟨‹_›, hp⟩
  have hkeep : ∀ {p}, (own p).tree p ≠ some r → NekOS.dropTree r own p = own p := fun hp => if_neg hp
  refine ⟨⟨by rw [h.start]; exact hT.aligned, by rw [h.start, h.total]; exact hT.bounded,
    h.counted hT.counted, fun p => ?_, fun p r' i hp => ?_, fun p r' i j hp => ?_,
    fun r' i hr' hflag => ?_, fun q r' i j hq hflag => ?_⟩, fun p t ht hp => ?_,
    fun w hw => absurd (by rw [h.mem]) hw⟩
  · rw [h.allocated, NekOS.dropTree]
    by_cases htree : (own p).tree p = some r
    · rw [if_pos htree]
      by_cases htable : (own p).isTable = true
      · simp [htable, htree]
      · have hne : own p ≠ .free := fun hfree => by simp [hfree, Role.tree] at htree
        simp [htable, hT.allocated hne]
    · rw [if_neg htree, hT.free_iff]
      simp [htree]
  · obtain ⟨htree, hp⟩ := hother (by simp) (by simp) hp
    obtain ⟨hr', he⟩ := hT.mid_link p r' i hp
    rw [hp] at htree
    refine ⟨?_, by rw [hentry, he]⟩
    rw [hkeep (by rw [hr']; exact htree), hr']
  · obtain ⟨htree, hp⟩ := hother (by simp) (by simp) hp
    obtain ⟨q, hq, he⟩ := hT.low_link p r' i j hp
    rw [hp] at htree
    refine ⟨q, ?_, by rw [hentry, he]⟩
    rw [hkeep (by rw [hq]; exact htree), hq]
  · obtain ⟨htree, hr⟩ := hother (by simp) (by simp) hr'
    rw [hentry] at hflag ⊢
    obtain ⟨p, hp, he⟩ := hT.root_entry r' i hr hflag
    rw [hr] at htree
    refine ⟨p, ?_, he⟩
    rw [hkeep (by rw [hp]; exact htree), hp]
  · obtain ⟨htree, hq⟩ := hother (by simp) (by simp) hq
    rw [hentry] at hflag ⊢
    obtain ⟨p, hp, he⟩ := hT.mid_entry q r' i j hq hflag
    rw [hq] at htree
    refine ⟨p, ?_, he⟩
    rw [hkeep (by rw [hp]; exact htree), hp]
  · rcases hp with hp | hp
    · exact hkeep (by rw [hp]; simpa using ht)
    · by_contra hne
      rw [NekOS.dropTree] at hp hne
      split at hp
      · split at hp <;> simp [Role.tree] at hp
      · exact hne (if_neg ‹_›)

/-- The pages that `free_user_space` visits. -/
def spacePages (imageBase imageSize heapBase heapEnd : ℕ) : Finset ℕ :=
  visited (fun i => pageNumber (pageFloor imageBase + i * pageSize))
    (pageSteps (pageFloor imageBase) (pageCeil (wrap (imageBase + imageSize)))) ∪
  visited (fun i => pageNumber (heapBase + i * pageSize))
    (pageSteps heapBase ((TaskManager.alignUp heapEnd).getD heapBase))

/-- What `free_user_space` needs of a tree in which it visits the pages in `V`: none of these lies in
the window of the kernel, the other entries are leaves, and the stack is that of the tree. -/
structure Releasable (r userStack : ℕ) (V : Finset ℕ) (ph : Phys) (own : ℕ → Role) : Prop where
  root : own r = .root
  window : ∀ n ∈ V, KernelPage n → n * pageSize < kernelStart
  leaf : ∀ n < 2 ^ 27, n ∉ V → ∀ e, lookup ph r n = some e → isLeaf e = true
  stack : userStack = 0 ∨ own userStack = .data r stackPage

/-- The tree with the root `r` is gone: its tables are free, and so are the pages of the program that
were visited, and the stack.  Pages of the program elsewhere are lost. -/
structure Released (r userStack : ℕ) (V : Finset ℕ) (ph : Phys) (own : ℕ → Role) (ph' : Phys)
    (own' : ℕ → Role) : Prop extends Local r ph own ph' own' where
  tables : Tables ph' own'
  start : ph'.page.startAddr = ph.page.startAddr
  outside : ∀ p, (own p).tree p ≠ some r → own' p = own p
  table : ∀ p, (own p).isTable = true → (own p).tree p = some r → own' p = .free
  data : ∀ p n, own p = .data r n → own' p = if n ∈ V ∨ p = userStack then .free else .lost

/-- Nothing is left of the tree. -/
lemma Released.gone {r userStack : ℕ} {V : Finset ℕ} {ph ph' : Phys} {own own' : ℕ → Role}
    (h : Released r userStack V ph own ph' own') (p : ℕ) : (own' p).tree p ≠ some r := by
  intro hp
  by_cases htree : (own p).tree p = some r
  · by_cases htable : (own p).isTable = true
    · simp [h.table p htable htree, Role.tree] at hp
    · cases hown : own p with
      | data t n =>
        obtain rfl : t = r := by simpa [hown, Role.tree] using htree
        rw [h.data p n hown] at hp
        split at hp <;> simp [Role.tree] at hp
      | root | mid | low => simp [hown, Role.isTable] at htable
      | free | stack | lost => simp [hown, Role.tree] at htree
  · rw [h.outside p htree] at hp
    exact htree hp

/-- The other trees map what they did. -/
lemma Released.spaces {r userStack : ℕ} {V : Finset ℕ} {ph ph' : Phys} {own own' : ℕ → Role}
    (h : Released r userStack V ph own ph' own') (hS : Spaces ph own) : Spaces ph' own' := by
  refine hS.of_local h.toLocal h.tables h.start (fun hr => ?_) fun p n hp => ?_
  · exact absurd (by rw [hr]; rfl) (h.gone r)
  · exact absurd (by rw [hp]; rfl) (h.gone p)

/-- **Releasing an address space.**  `free_user_space` frees the tables of the tree and the pages of
the program that it visits.  With the check on it does so too, unless the stack is visited: so every
page is freed once, at a moment when it is in use. -/
lemma freeUserSpaceWith_spec {ph : Phys} {own : ℕ → Role} (hS : Spaces ph own)
    {r userStack imageBase imageSize heapBase heapEnd : ℕ}
    (h : Releasable r userStack (spacePages imageBase imageSize heapBase heapEnd) ph own)
    (check : Bool) (hcheck : check = true → userStack ≠ 0 →
      stackPage ∉ spacePages imageBase imageSize heapBase heapEnd) :
    ∃ ph' own', Kernel.freeUserSpaceWith check r userStack imageBase imageSize heapBase heapEnd ph =
        some (some (), ph') ∧
      Released r userStack (spacePages imageBase imageSize heapBase heapEnd) ph own ph' own' := by
  have hspace := hS.space r h.root
  -- Entries of visited pages refer to pages of the program or to registers.
  have hvisit : ∀ n ∈ spacePages imageBase imageSize heapBase heapEnd, n < 2 ^ 27 → ∀ e,
      lookup ph r n = some e → (pteToPa e < ph.page.startAddr ∧ own (pteToPa e) = .free) ∨
        own (pteToPa e) = .data r n := fun n hn hlt e he => by
    rcases hspace.leaf n hlt e he with hk | hu
    · have hlow : pteToPa e < ph.page.startAddr := by
        rw [hk.pa]
        exact (h.window n hn hk.page).trans_le hS.start_le
      refine Or.inl ⟨hlow, (hS.tables.free_iff _).mpr ?_⟩
      rintro ⟨i, -, hi, -⟩
      omega
    · exact Or.inr hu.owned
  have hfreeable : ∀ n ∈ spacePages imageBase imageSize heapBase heapEnd, n < 2 ^ 27 → ∀ e,
      lookup ph r n = some e → Freeable r own (pteToPa e) := fun n hn hlt e he => by
    rcases hvisit n hn hlt e he with ⟨-, hfree⟩ | hdata
    · simp [Freeable, hfree, Role.isTable, Role.tree]
    · simp [Freeable, hdata, Role.isTable, Role.tree]
  generalize hV : spacePages imageBase imageSize heapBase heapEnd = V at *
  rw [spacePages] at hV
  rw [Kernel.freeUserSpaceWith, Kernel.freeUserRangeWith, Kernel.freeUserRangeWith]
  generalize pageSteps (pageFloor imageBase) (pageCeil (wrap (imageBase + imageSize))) = steps₁ at *
  generalize pageSteps heapBase ((TaskManager.alignUp heapEnd).getD heapBase) = steps₂ at *
  have hmem₁ : ∀ i < steps₁, pageNumber (pageFloor imageBase + i * pageSize) ∈ V := fun i hi => by
    rw [← hV]
    exact Finset.mem_union_left _ (mem_visited.mpr ⟨i, hi, rfl⟩)
  have hmem₂ : ∀ i < steps₂, pageNumber (heapBase + i * pageSize) ∈ V := fun i hi => by
    rw [← hV]
    exact Finset.mem_union_right _ (mem_visited.mpr ⟨i, hi, rfl⟩)
  -- The image.
  obtain ⟨ph₁, own₁, hrun₁, hun₁⟩ := freeUserPagesWith_spec hS.tables h.root check
    (fun i => pageFloor imageBase + i * pageSize) steps₁
    (fun i hi e he => hfreeable _ (hmem₁ i hi) (pageNumber_lt _) e he)
    fun _ i hi e he => (hvisit _ (hmem₁ i hi) (pageNumber_lt _) e he).imp_left And.left
  have hr₁ := hun₁.root h.root fun m hm e _ he => by
    obtain ⟨i, hi, rfl⟩ := mem_visited.mp hm
    exact hfreeable _ (hmem₁ i hi) (pageNumber_lt _) e he
  rw [Fallible.bind_of_some hrun₁]
  -- The heap.
  have hback : ∀ i < steps₂, ∀ e, lookup ph₁ r (pageNumber (heapBase + i * pageSize)) = some e →
      lookup ph r (pageNumber (heapBase + i * pageSize)) = some e := fun i hi e he =>
    (hun₁.lookup_of_some (pageNumber_lt _) he).2
  obtain ⟨ph₂, own₂, hrun₂, hun₂⟩ := freeUserPagesWith_spec hun₁.tables hr₁ check
    (fun i => heapBase + i * pageSize) steps₂
    (fun i hi e he => hun₁.freeable
      (hfreeable _ (hmem₂ i hi) (pageNumber_lt _) e (hback i hi e he))) (by
      intro _ i hi e he
      obtain ⟨hnV, he₀⟩ := hun₁.lookup_of_some (pageNumber_lt _) he
      rcases hvisit _ (hmem₂ i hi) (pageNumber_lt _) e he₀ with ⟨hlow, -⟩ | hdata
      · exact Or.inl (by rwa [hun₁.start])
      · right
        rcases hun₁.kept (pteToPa e) with hk | ⟨-, m, hm, e', -, he', hpa⟩
        · rw [hk, hdata]
        · obtain ⟨j, hj, rfl⟩ := mem_visited.mp hm
          rcases hvisit _ (hmem₁ j hj) (pageNumber_lt _) e' he' with ⟨-, hfree⟩ | hdata'
          · rw [hpa, hdata] at hfree
            simp at hfree
          · rw [hpa, hdata, Role.data.injEq] at hdata'
            rw [hdata'.2] at hnV
            exact absurd hm hnV)
  rw [Fallible.bind_of_some hrun₂]
  have hun : Unmapped r V true ph own ph₂ own₂ := by
    rw [← hV]
    refine hun₁.trans hun₂ fun m hm => ?_
    obtain ⟨i, -, rfl⟩ := mem_visited.mp hm
    exact pageNumber_lt _
  have hVlt : ∀ m ∈ V, m < 2 ^ 27 := fun m hm => by
    rw [← hV, Finset.mem_union] at hm
    rcases hm with hm | hm <;> obtain ⟨i, -, rfl⟩ := mem_visited.mp hm <;> exact pageNumber_lt _
  have hr₂ := hun.root h.root fun m hm e _ he => hfreeable m hm (hVlt m hm) e he
  have hdata₂ : ∀ p n, own p = .data r n → own₂ p = if n ∈ V then .free else .data r n := by
    intro p n hp
    obtain ⟨hn, e, he, hpa⟩ := hspace.data p n hp
    by_cases hnV : n ∈ V
    · rw [if_pos hnV, ← hpa, hun.freed n hnV e rfl he]
    · rw [if_neg hnV, ← hp]
      refine (hun.kept p).resolve_right ?_
      rintro ⟨-, m, hm, e', -, he', hpa'⟩
      rcases hvisit m hm (hVlt m hm) e' he' with ⟨-, hfree⟩ | hdata'
      · rw [hpa', hp] at hfree
        simp at hfree
      · rw [hpa', hp, Role.data.injEq] at hdata'
        rw [hdata'.2] at hnV
        exact hnV hm
  have hother₂ : ∀ p, (∀ n, own p ≠ .data r n) → own₂ p = own p := by
    intro p hp
    refine (hun.kept p).elim id ?_
    rintro ⟨hfree, m, hm, e, -, he, hpa⟩
    rcases hvisit m hm (hVlt m hm) e he with ⟨-, hfree'⟩ | hdata'
    · rw [hfree, ← hpa, hfree']
    · rw [hpa] at hdata'
      exact absurd hdata' (hp m)
  -- The stack.
  obtain ⟨ph₃, own₃, hrun₃, hT₃, hmem₃, hstart₃, hown₃⟩ : ∃ ph₃ own₃,
      (if userStack ≠ 0 then checkedFree check userStack >>= fun _ => freeWith check r
        else freeWith check r) ph₂ = freeWith check r ph₃ ∧
      Tables ph₃ own₃ ∧ ph₃.mem = ph₂.mem ∧ ph₃.page.startAddr = ph₂.page.startAddr ∧
      ∀ p, own₃ p = if p = userStack ∧ userStack ≠ 0 then .free else own₂ p := by
    by_cases hzero : userStack = 0
    · exact ⟨ph₂, own₂, by rw [if_neg (by simpa using hzero)], hun.tables, rfl, rfl,
        fun p => by rw [if_neg (by simp [hzero])]⟩
    have hrole := h.stack.resolve_left hzero
    have hstack := hdata₂ userStack stackPage hrole
    refine ⟨ph₂.freePage userStack, Function.update own₂ userStack .free, ?_, ?_, rfl,
      PageAllocator.free_startAddr .., fun p => ?_⟩
    · rw [if_pos hzero]
      refine Fallible.bind_of_some (checkedFree_eq hun.tables _ _ fun hc => Or.inl ?_)
      rw [hstack, if_neg (hcheck hc hzero)]
      simp
    · refine hun.tables.free ?_ (hS.tables.page_aligned (by rw [hrole]; simp))
      rw [hstack]
      split <;> rfl
    · by_cases hp : p = userStack
      · simp [hp, hzero]
      · simp [hp]
  -- The tables.
  have hnotstack : ∀ p, (own₂ p).isTable = true → ¬ (p = userStack ∧ userStack ≠ 0) := by
    rintro p hp ⟨rfl, hzero⟩
    rw [hdata₂ p stackPage (h.stack.resolve_left hzero)] at hp
    split at hp <;> simp [Role.isTable] at hp
  have hr₃ : own₃ r = .root := by rw [hown₃, if_neg (hnotstack r (by rw [hr₂]; rfl)), hr₂]
  obtain ⟨ph₄, hrun₄, hfreed⟩ := hT₃.frees_tree hr₃ check (fun n hn e he => by
    rw [lookup_of_mem hmem₃, hun.lookups n hn] at he
    split at he
    · simp at he
    · exact h.leaf n hn ‹_› e he) ph₃ rfl rfl fun _ p hp =>
      hT₃.allocated fun hfree => by simp [hfree, Role.isTable] at hp
  obtain ⟨hT₄, hlocal₄⟩ := hT₃.dropTree hfreed
  have hlocal₃ : Local r ph₂ own₂ ph₃ own₃ := by
    refine ⟨fun p t ht hp => ?_, fun w hw => absurd (by rw [hmem₃]) hw⟩
    rw [hown₃, if_neg]
    rintro ⟨rfl, hzero⟩
    rw [hown₃, if_pos ⟨rfl, hzero⟩] at hp
    have hp₂ := hdata₂ p stackPage (h.stack.resolve_left hzero)
    rcases hp with hp | hp
    · rw [hp₂] at hp
      split at hp
      · simp [Role.tree] at hp
      · exact ht (Option.some.inj hp).symm
    · simp [Role.tree] at hp
  refine ⟨ph₄, _, hrun₃.trans hrun₄, (hun.toLocal.trans hlocal₃).trans hlocal₄, hT₄,
    hfreed.start.trans (hstart₃.trans hun.start), fun p hp => ?_, fun p htable htree => ?_,
    fun p n hp => ?_⟩
  · have hne : ∀ n, own p ≠ .data r n := fun n hn => by
      rw [hn] at hp
      exact hp rfl
    have hnot : ¬ (p = userStack ∧ userStack ≠ 0) := by
      rintro ⟨rfl, hzero⟩
      exact hne stackPage (h.stack.resolve_left hzero)
    rw [dropTree, hown₃, if_neg hnot, hother₂ p hne, if_neg hp]
  · have hp₂ := hother₂ p fun n hn => by simp [hn, Role.isTable] at htable
    rw [dropTree, hown₃, if_neg (hnotstack p (by rw [hp₂, htable])), hp₂, if_pos htree, if_pos htable]
  · have hzero : p = userStack → userStack ≠ 0 := by
      rintro rfl rfl
      rcases hS.tables.allocated (p := 0) (by rw [hp]; simp) with ⟨i, -, hi, -⟩
      have := hS.start_le
      simp only [kernelStart] at this
      omega
    rw [dropTree, hown₃, hdata₂ p n hp]
    by_cases hps : p = userStack
    · simp [hps, hzero hps, Role.tree]
    · by_cases hnV : n ∈ V
      · simp [hps, hnV, Role.tree]
      · simp [hps, hnV, Role.tree, Role.isTable]

end NekOS
