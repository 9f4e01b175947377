import NekOS.AddressSpace.KernelMap
import NekOS.Kernel.Task

/-!
# Copying address spaces

What the loops of `fork` build in the tree of the child: for every page of the parent in their range a
page of its own, with the same contents and permissions.
-/

namespace NekOS

open PageTable

/-- The entry at page `n` of the tree with the root `r` is a copy of the entry `e`: a new page with
the permissions and the bytes of the other. -/
def Copied (r : ℕ) (ph₀ : Phys) (own₀ : ℕ → Role) (ph : Phys) (own : ℕ → Role) (n e : ℕ) : Prop :=
  ∃ p, own₀ p = .free ∧ own p = .data r n ∧
    lookup ph r n = some (paToPte p (e &&& 0x3fe ||| pteV)) ∧
    ((own₀ (pteToPa e)).plain → ∀ j < 512, ph.mem (p / 8 + j) = ph₀.mem (pteToPa e / 8 + j))

/-- A copy stays one. -/
lemma Copied.mono {r n e : ℕ} {ph₀ ph ph' : Phys} {own₀ own own' : ℕ → Role}
    (h : Copied r ph₀ own₀ ph own n e) (hT : Tables ph own)
    (hdata : ∀ p, own p = .data r n → own' p = .data r n)
    (hbytes : ∀ w, own (pageOfWord w) = .data r n → ph'.mem w = ph.mem w)
    (hlookups : ∀ e, lookup ph r n = some e → lookup ph' r n = some e) :
    Copied r ph₀ own₀ ph' own' n e := by
  obtain ⟨p, hfree, hrole, hlookup, hcopy⟩ := h
  refine ⟨p, hfree, hdata p hrole, hlookups _ hlookup, fun hplain j hj => ?_⟩
  have hpage : pageOfWord (p / 8 + j) = p :=
    pageOfWord_entry (hT.page_aligned (by simp [hrole])) ⟨j, hj⟩
  rw [hbytes _ (by rw [hpage, hrole]), hcopy hplain j hj]

/-- A copy stays one while pages are added. -/
lemma Copied.of_adds {r n e : ℕ} {ph₀ ph ph' : Phys} {own₀ own own' : ℕ → Role}
    (h : Copied r ph₀ own₀ ph own n e) (hT : Tables ph own) (hn : n < 2 ^ 27)
    (hadds : Adds r ph own ph' own') : Copied r ph₀ own₀ ph' own' n e :=
  h.mono hT (fun p hp => hadds.data p r n hp) (fun w hw => hadds.bytes r n w hw)
    fun e he => hadds.lookups n hn e he

/-- The masked permissions of an entry. -/
lemma mask_lt (e : ℕ) : e &&& 0x3fe < 1024 :=
  Nat.lt_of_le_of_lt Nat.and_le_right (by decide)

/-- The mask keeps the bit for user mode. -/
lemma mask_user (e : ℕ) : hasFlag (e &&& 0x3fe) pteU = hasFlag e pteU := by
  rw [hasFlag, hasFlag, Nat.and_assoc]
  rfl

/-- The permissions of a copy are those of a valid entry. -/
lemma mask_or_valid {e : ℕ} (h : hasFlag e pteV = true) : e &&& 0x3fe ||| pteV = e % 1024 := by
  refine Nat.eq_of_testBit_eq fun i => ?_
  have hbit : e.testBit 0 = true := by
    rw [hasFlag, bne_iff_ne] at h
    by_contra hzero
    rw [Bool.not_eq_true] at hzero
    refine h (Nat.eq_of_testBit_eq fun j => ?_)
    rw [Nat.testBit_and, Nat.zero_testBit]
    rcases Nat.eq_zero_or_pos j with rfl | hj
    · rw [hzero, Bool.false_and]
    · have : pteV.testBit j = false := Nat.testBit_lt_two_pow (Nat.one_lt_two_pow (by omega))
      rw [this, Bool.and_false]
  rw [Nat.testBit_or, Nat.testBit_and, show (1024 : ℕ) = 2 ^ 10 from rfl, Nat.testBit_mod_two_pow]
  have hmask : ∀ j < 10, Nat.testBit 0x3fe j = decide (j ≠ 0) ∧ pteV.testBit j = decide (j = 0) := by
    decide
  by_cases hi : i < 10
  · rw [(hmask i hi).1, (hmask i hi).2]
    by_cases hzero : i = 0
    · simp [hzero, hbit]
    · simp [hzero, hi]
  · have h₁ : (0x3fe : ℕ).testBit i = false := Nat.testBit_lt_two_pow
      (Nat.lt_of_lt_of_le (by decide : 0x3fe < 2 ^ 10) (Nat.pow_le_pow_right (by decide) (by omega)))
    have h₂ : pteV.testBit i = false := Nat.testBit_lt_two_pow (Nat.one_lt_two_pow (by omega))
    simp [hi, h₁, h₂]

/-- Copying a page changes no other page. -/
lemma copyPage_frame (src p : ℕ) (ph : Phys) (hp : p % pageSize = 0) :
    (ph.copyPage src p).page = ph.page ∧
      ∀ w, pageOfWord w ≠ p → (ph.copyPage src p).mem w = ph.mem w := by
  refine ⟨rfl, fun w hw => Memory.copy_of_not_mem ?_⟩
  rw [Ne, pageOfWord_eq hp] at hw
  omega

/-- One iteration of the loops of `fork`. -/
def forkStep (required : Bool) (parentPt childPt start i : ℕ) : Fallible Phys Unit := do
  match ← Fallible.gets fun ph => Kernel.validPte ph parentPt (start + i * pageSize) with
  | none => if required then Fallible.fail else return ()
  | some pte => Kernel.forkPage childPt (start + i * pageSize) pte

/-- The loops of `fork`. -/
lemma forkRange_eq (required : Bool) (parentPt childPt start stop : ℕ) :
    Kernel.forkRange required parentPt childPt start stop =
      Fallible.forRange (pageSteps start stop) (forkStep required parentPt childPt start) :=
  rfl

/-- The page number of a page of a range. -/
lemma pageNumber_add' {n i : ℕ} (h : n + i < 2 ^ 27) :
    pageNumber (n * pageSize + i * pageSize) = n + i := by
  have hlt : n * pageSize + i * pageSize < 2 ^ 64 := by
    simp only [pageSize]
    omega
  rw [← wrap_of_lt hlt, pageNumber_add h]

namespace Building

variable {r t : ℕ} {ph₀ ph : Phys} {own₀ own : ℕ → Role}

/-- The parent's tree stays as it was. -/
lemma lookup_parent (h : Building r ph₀ own₀ ph own) (hT₀ : Tables ph₀ own₀) (ht : own₀ t = .root)
    (hne : t ≠ r) (n : ℕ) : lookup ph t n = lookup ph₀ t n :=
  h.toLocal.lookup_eq hT₀ h.tables ht hne n

/-- The loops of `fork`. -/
lemma forkSteps (h : Building r ph₀ own₀ ph own) (hT₀ : Tables ph₀ own₀) (hk : KernelMapped ph r)
    (ht : own₀ t = .root) (hne : t ≠ r) (required : Bool) {n : ℕ} (count : ℕ)
    (hend : n + count ≤ 2 ^ 27) (huser : ∀ i < count, ∀ e, lookup ph₀ t (n + i) = some e →
      hasFlag e pteU = true ∨ KernelPage (n + i)) :
    ∃ o ph' own', Fallible.forRange count (forkStep required t r (n * pageSize)) ph = some (o, ph') ∧
      Building r ph₀ own₀ ph' own' ∧ Adds r ph own ph' own' ∧
      ph.page.freePages ≤ ph'.page.freePages + 3 * count ∧
      (∀ m < 2 ^ 27, ¬ (n ≤ m ∧ m < n + count) → lookup ph' r m = lookup ph r m) ∧
      (o = some () → (∀ i < count, (required = true → (lookup ph₀ t (n + i)).isSome = true) ∧
        (lookup ph₀ t (n + i) = none → lookup ph' r (n + i) = lookup ph r (n + i)) ∧
        ∀ e, lookup ph₀ t (n + i) = some e → lookup ph r (n + i) = none ∧
          Copied r ph₀ own₀ ph' own' (n + i) e) ∧ Settles r ph own own') ∧
      (o = none → (∃ i < count, required = true ∧ lookup ph₀ t (n + i) = none ∨
        (lookup ph₀ t (n + i)).isSome = true ∧ (lookup ph r (n + i)).isSome = true) ∨
        ph.page.freePages < 3 * count) := by
  induction count with
  | zero =>
    exact ⟨some (), ph, own, rfl, h, Adds.refl .., Nat.le_add_right .., fun _ _ _ => rfl,
      fun _ => ⟨by simp, Settles.refl ..⟩, by simp⟩
  | succ k ih =>
    obtain ⟨o₁, ph₁, own₁, hrun₁, hB₁, hadds₁, hcost₁, hout₁, hdone₁, hfail₁⟩ :=
      ih (by omega) fun i hi => huser i (Nat.lt_succ_of_lt hi)
    have hn : n + k < 2 ^ 27 := by omega
    rw [Fallible.forRange_succ]
    rcases o₁ with _ | u
    · refine ⟨none, ph₁, own₁, Fallible.bind_of_none hrun₁, hB₁, hadds₁, by omega,
        fun m hm hnot => hout₁ m hm (by omega), by simp, fun _ => ?_⟩
      rcases hfail₁ rfl with ⟨i, hi, hwhy⟩ | hfew
      · exact Or.inl ⟨i, Nat.lt_succ_of_lt hi, hwhy⟩
      · exact Or.inr (by omega)
    have hnum : pageNumber (n * pageSize + k * pageSize) = n + k := pageNumber_add' hn
    have hvalid : Kernel.validPte ph₁ t (n * pageSize + k * pageSize) = lookup ph₀ t (n + k) := by
      rw [Kernel.validPte, findPte_filter, hnum, hB₁.lookup_parent hT₀ ht hne]
    have hhere : lookup ph₁ r (n + k) = lookup ph r (n + k) := hout₁ _ hn (by omega)
    obtain ⟨hdone', hsettles'⟩ := hdone₁ rfl
    rw [Fallible.bind_of_some hrun₁, forkStep]
    simp only [Fallible.gets_bind]
    rw [hvalid]
    rcases hparent : lookup ph₀ t (n + k) with _ | e
    · cases required with
      | true =>
        exact ⟨none, ph₁, own₁, rfl, hB₁, hadds₁, by omega, fun m hm hnot => hout₁ m hm (by omega),
          by simp, fun _ => Or.inl ⟨k, Nat.lt_succ_self k, Or.inl ⟨rfl, hparent⟩⟩⟩
      | false =>
        refine ⟨some (), ph₁, own₁, rfl, hB₁, hadds₁, by omega,
          fun m hm hnot => hout₁ m hm (by omega), fun _ => ⟨fun i hi => ?_, hsettles'⟩, by simp⟩
        rcases Nat.lt_succ_iff_lt_or_eq.mp hi with hi | rfl
        · exact hdone' i hi
        · exact ⟨by simp, fun _ => hhere, fun e he => by simp [hparent] at he⟩
    · have hva : (n * pageSize + k * pageSize) % pageSize = 0 := by
        rw [← Nat.add_mul]
        exact Nat.mul_mod_left ..
      have hva' : n * pageSize + k * pageSize < 2 ^ 64 := by
        simp only [pageSize]
        omega
      obtain ⟨o₂, ph₂, own₂, hrun₂, hB₂, hadds₂, hcost₂, hdone₂, hfail₂⟩ :=
        hB₁.addPage_run (fun p ph => ph.copyPage (pteToPa e) p) _ _
          (fun p ph hp => copyPage_frame (pteToPa e) p ph hp) hva hva' (mask_lt e) (by
            rw [mask_user, hnum]
            exact (huser k (Nat.lt_succ_self k) e hparent).imp_right
              fun hkp => (hadds₁.kernelMapped hk).isSome hkp)
      rw [hnum] at hdone₂ hfail₂
      refine ⟨o₂, ph₂, own₂, hrun₂, hB₂, hadds₁.trans hadds₂, by omega, fun m hm hnot => ?_,
        fun ho => ?_, fun ho => ?_⟩
      · rw [← hout₁ m hm (by omega)]
        rcases o₂ with _ | u
        · exact (hfail₂ rfl).1 m
        · obtain ⟨-, p, _, -, -, hlookups, -⟩ := hdone₂ rfl
          rw [hlookups m hm, if_neg (by omega)]
      · obtain ⟨habsent, p, ph₃, hfree, hrole, hlookups, hmem₃, hbytes, hsettles⟩ := hdone₂ ho
        refine ⟨fun i hi => ?_, hsettles'.trans hadds₁ hsettles⟩
        rcases Nat.lt_succ_iff_lt_or_eq.mp hi with hi | rfl
        · obtain ⟨hreq, hnone, hcopied⟩ := hdone' i hi
          refine ⟨hreq, fun h => ?_, fun e' he' => ⟨(hcopied e' he').1, ?_⟩⟩
          · rw [hlookups _ (by omega), if_neg (by omega), hnone h]
          · exact (hcopied e' he').2.of_adds hB₁.tables (by omega) hadds₂
        · refine ⟨fun _ => by rw [hparent]; rfl, fun h => by simp [hparent] at h, fun e' he' => ?_⟩
          obtain rfl : e = e' := Option.some.inj (hparent.symm.trans he')
          refine ⟨by rw [← hhere, habsent], p, hB₁.free_of_free hfree, hrole, ?_,
            fun hplain j hj => ?_⟩
          · rw [hlookups _ hn, if_pos rfl]
          · have hpa := hB₂.tables.page_aligned (p := p) (by simp [hrole])
            have hpage : pageOfWord (p / 8 + j) = p := pageOfWord_entry hpa ⟨j, hj⟩
            have hsrc : pageOfWord (pteToPa e / 8 + j) = pteToPa e :=
              pageOfWord_entry (pteToPa_mod e) ⟨j, hj⟩
            have hcopy : (ph₃.copyPage (pteToPa e) p).mem (p / 8 + j) =
                ph₃.mem (pteToPa e / 8 + j) := by
              simp only [Phys.copyPage, Memory.copy]
              rw [if_pos (by omega), Nat.add_sub_cancel_left]
            rw [hbytes _ hpage, hcopy, hmem₃]
            exact hB₁.mem_eq hplain.1 (fun htable => by simp [hplain.2] at htable) hsrc
      · rcases (hfail₂ ho).2 with hsome | hfew
        · rw [hhere] at hsome
          exact Or.inl ⟨k, Nat.lt_succ_self k, Or.inr ⟨by rw [hparent]; rfl, hsome⟩⟩
        · exact Or.inr (by omega)

end Building

/-! ### Layouts -/

namespace Task

open TaskManager

/-- The bounds of the image and the heap of a task: the image ends where the heap begins, on a page
boundary, and the heap ends below the guard page of the stack. -/
structure Layout (t : Task) : Prop where
  base_mod : t.imageBase % pageSize = 0
  heap_eq : t.heapBase = t.imageBase + t.imageSize
  heap_mod : t.heapBase % pageSize = 0
  heap_le : t.heapBase ≤ t.heapEnd
  limit : t.heapEnd ≤ heapLimit

/-- The first page of the image. -/
def imagePage (t : Task) : ℕ := t.imageBase / pageSize

/-- The first page of the heap, which is the first one after the image. -/
def heapPage (t : Task) : ℕ := t.heapBase / pageSize

/-- The first page after the heap. -/
def heapTop (t : Task) : ℕ := (t.heapEnd + (pageSize - 1)) / pageSize

namespace Layout

variable {t : Task}

/-- Image, heap and stack follow each other. -/
lemma ordered (h : t.Layout) : t.imagePage ≤ t.heapPage ∧ t.heapPage ≤ t.heapTop ∧
    t.heapTop < stackPage := by
  have h₁ := h.heap_eq
  have h₂ := h.heap_le
  have h₃ := h.limit
  simp only [imagePage, heapPage, heapTop, stackPage, heapLimit, userStackTop, pageSize] at *
  omega

/-- The range of the image. -/
lemma image_range (h : t.Layout) : pageFloor t.imageBase = t.imagePage * pageSize ∧
    pageSteps (pageFloor t.imageBase) (pageCeil (wrap (t.imageBase + t.imageSize))) =
      t.heapPage - t.imagePage := by
  have h₁ := h.heap_eq
  have h₂ := h.heap_le
  have h₃ := h.limit
  have h₄ := h.heap_mod
  have h₅ := h.base_mod
  have hend : pageCeil (wrap (t.imageBase + t.imageSize)) = t.heapBase := by
    rw [← h₁]
    simp only [heapLimit, userStackTop, pageCeil, pageFloor, wrap, pageSize] at *
    omega
  refine ⟨rfl, ?_⟩
  rw [hend]
  simp only [imagePage, heapPage, pageSteps, pageFloor, pageSize] at *
  omega

/-- The range of the heap. -/
lemma heap_range (h : t.Layout) : t.heapBase = t.heapPage * pageSize ∧
    alignUp t.heapEnd = some (t.heapTop * pageSize) ∧
    pageSteps t.heapBase (t.heapTop * pageSize) = t.heapTop - t.heapPage := by
  have h₂ := h.heap_le
  have h₃ := h.limit
  have h₄ := h.heap_mod
  have halign : checkedAdd t.heapEnd (pageSize - 1) = some (t.heapEnd + (pageSize - 1)) := by
    refine checkedAdd_eq_some.mpr ⟨?_, rfl⟩
    simp only [heapLimit, userStackTop, pageSize] at *
    omega
  refine ⟨?_, by rw [alignUp, halign]; rfl, ?_⟩
  · simp only [heapPage, pageSize] at *
    omega
  · simp only [heapPage, heapTop, heapLimit, userStackTop, pageSteps, pageSize] at *
    omega

end Layout

end Task

/-! ### The space of a child -/

/-- The space that `fork` has built for the child of a task: copies of the pages of the parent and the
pages of the kernel. -/
structure Forked (parent : Task) (child : Kernel.ChildSpace) (ph : Phys) (own : ℕ → Role)
    (ph' : Phys) (own' : ℕ → Role) : Prop where
  kernelStack : own child.kernelStack = .free ∧ own' child.kernelStack = .stack
  stack : own child.userStack = .free ∧ own' child.userStack = .data child.pagetable stackPage
  kernel : KernelMapped ph' child.pagetable
  closed : UartClosed ph' child.pagetable
  image : ∀ n, parent.imagePage ≤ n → n < parent.heapPage →
    (lookup ph parent.pagetable n = none → KernelPage n ∨ lookup ph' child.pagetable n = none) ∧
    ∀ e, lookup ph parent.pagetable n = some e → ¬ KernelPage n ∧
      Copied child.pagetable ph own ph' own' n e
  heap : ∀ n, parent.heapPage ≤ n → n < parent.heapTop → ∃ e,
    lookup ph parent.pagetable n = some e ∧ ¬ KernelPage n ∧
      Copied child.pagetable ph own ph' own' n e
  stackLeaf : lookup ph' child.pagetable stackPage =
    some (paToPte child.userStack (pteR ||| pteW ||| pteU ||| pteV))
  stackBytes : (own parent.userStack).plain → ∀ j < 512,
    ph'.mem (child.userStack / 8 + j) = ph.mem (parent.userStack / 8 + j)
  other : ∀ n < 2 ^ 27, ¬ KernelPage n → n ≠ stackPage →
    ¬ (parent.imagePage ≤ n ∧ n < parent.heapTop) → lookup ph' child.pagetable n = none
  settled : ∀ p, own p = .free → own' p = .free ∨
    ((own' p).isTable = true ∧ (own' p).tree p = some child.pagetable) ∨
    (∃ n, own' p = .data child.pagetable n) ∨ p = child.kernelStack

/-- The pages that the space of a child of a task needs at most. -/
def Task.spaceCost (t : Task) : ℕ := 29 + 3 * (t.heapTop - t.imagePage)

/-- **Forking.**  `fork` abandons what it has built, or returns a space with copies of the pages of the
parent.  It only fails when there are not enough pages, when the range of the parent holds a page of
the kernel, or when a page of its heap is missing. -/
lemma forkSpace_spec {ph : Phys} {own : ℕ → Role} {parent : Task} (hT : Tables ph own)
    (hroot : ∀ p r n, own p = .data r n → own r = .root) (hparent : own parent.pagetable = .root)
    (hlayout : parent.Layout) (huser : ∀ n < 2 ^ 27, ∀ e, lookup ph parent.pagetable n = some e →
      hasFlag e pteU = true ∨ KernelPage n) :
    ∃ o ph' own', Kernel.forkSpace parent ph = some (o, ph') ∧
      (o = none → Abandoned ph own ph' own' ∧
        ((∃ n, parent.imagePage ≤ n ∧ n < parent.heapTop ∧ KernelPage n) ∨
          (∃ n, parent.heapPage ≤ n ∧ n < parent.heapTop ∧ lookup ph parent.pagetable n = none) ∨
          ph.page.freePages < parent.spaceCost)) ∧
      (∀ child, o = some child → own child.pagetable = .free ∧
        Building child.pagetable ph own ph' own' ∧ Forked parent child ph own ph' own' ∧
        ph.page.freePages ≤ ph'.page.freePages + parent.spaceCost) := by
  obtain ⟨hle₁, hle₂, hle₃⟩ := hlayout.ordered
  obtain ⟨hbase, hsteps⟩ := hlayout.image_range
  obtain ⟨hheapBase, hheapEnd, hheapSteps⟩ := hlayout.heap_range
  have hlt : parent.heapTop < 2 ^ 27 := hle₃.trans (by decide)
  rw [Task.spaceCost]
  rw [Kernel.forkSpace]
  -- The stacks.
  rcases allocPage_cases hT with ⟨hnone, hzero⟩ |
    ⟨ks, ph₁, hks, hksfree, hT₁, hmem₁, hstart₁, htotal₁, hcount₁⟩
  · exact ⟨none, ph, own, Fallible.bind_of_none hnone,
      fun _ => ⟨Abandoned.refl hT hroot, Or.inr (Or.inr (by omega))⟩, by simp⟩
  rw [Fallible.bind_of_some hks]
  have hT₁' := hT₁.relabel (p := ks) (ρ := .stack) (by simp [Role.plain, Role.isTable])
    (by simp [Role.plain, Role.isTable])
  rw [Function.update_idem] at hT₁'
  have hext₁ : ∀ r, Extends r ph own ph₁ (Function.update own ks .stack) := fun r =>
    Extends.take r hksfree hmem₁ hstart₁ htotal₁ rfl
  generalize hown₁ : Function.update own ks .stack = own₁ at *
  have hks₁ : own₁ ks = .stack := by rw [← hown₁, Function.update_self]
  have hfrom₁ : ∀ p, own₁ p = .free → own p = .free := fun p hp => (hext₁ 1).free_of_free hp
  have hnew₁ : ∀ p, own p = .free → (own₁ p).tree p = none := fun p hp => by
    rw [← hown₁]
    by_cases hpk : p = ks
    · simp [hpk, Role.tree]
    · simp [hpk, hp, Role.tree]
  rcases allocPage_cases hT₁' with ⟨hnone, hzero⟩ |
    ⟨us, ph₂, hus, husfree₁, hT₂, hmem₂, hstart₂, htotal₂, hcount₂⟩
  · exact ⟨none, ph₁, own₁, Fallible.bind_of_none hnone, fun _ => ⟨(hext₁ 1).abandoned hT hT₁' hroot
      hnew₁, Or.inr (Or.inr (by omega))⟩, by simp⟩
  rw [Fallible.bind_of_some hus]
  have hT₂' := hT₂.relabel (p := us) (ρ := .stack) (by simp [Role.plain, Role.isTable])
    (by simp [Role.plain, Role.isTable])
  rw [Function.update_idem] at hT₂'
  have hext₂ : ∀ r, Extends r ph own ph₂ (Function.update own₁ us .stack) := fun r =>
    (hext₁ r).trans (Extends.take r husfree₁ hmem₂ hstart₂ htotal₂ rfl)
  have husfree := hfrom₁ us husfree₁
  have hks₂ : Function.update own₁ us .stack ks = .stack := by
    rw [Function.update_of_ne (by rintro rfl; simp [hks₁] at husfree₁), hks₁]
  generalize hown₂ : Function.update own₁ us .stack = own₂ at *
  have hus₂ : own₂ us = .stack := by rw [← hown₂, Function.update_self]
  have hnew₂ : ∀ p, own p = .free → (own₂ p).tree p = none := fun p hp => by
    rw [← hown₂]
    by_cases hpu : p = us
    · simp [hpu, Role.tree]
    · rw [Function.update_of_ne hpu]
      exact hnew₁ p hp
  have hroot₂ : ∀ p r n, own₂ p = .data r n → own₂ r = .root := fun p r n hp => by
    have hp₀ : own p = .data r n := by
      by_cases hfree : own p = .free
      · have := hnew₂ p hfree
        simp [hp, Role.tree] at this
      · rw [← (hext₂ 1).keep p hfree, hp]
    have hr := hroot p r n hp₀
    rw [(hext₂ 1).keep r (by simp [hr]), hr]
  -- The new tree.
  rcases create_mapKernel hT₂' hroot₂ with ⟨hcreate, hzero⟩ |
    ⟨r, ph₃, o₄, ph₄, own₄, hcreate, hkernel, hrfree₂, hB₄, hclosed₄, honly₄, hempty, hdone₄, hfail₄⟩
  · exact ⟨none, ph₂, own₂, Fallible.bind_of_none hcreate, fun _ => ⟨(hext₂ 1).abandoned hT hT₂' hroot
      hnew₂, Or.inr (Or.inr (by omega))⟩, by simp⟩
  rw [Fallible.bind_of_some hcreate]
  have hrfree := (hext₂ 1).free_of_free hrfree₂
  have hne : parent.pagetable ≠ r := by
    rintro rfl
    simp [hparent] at hrfree
  have hks₄ : own₄ ks = .stack := (hB₄.keep ks (by simp [hks₂])).trans hks₂
  have hus₄ : own₄ us = .stack := (hB₄.keep us (by simp [hus₂])).trans hus₂
  have hext₄ := hB₄.toExtends
  replace hB₄ := Building.of_extends (hext₂ r) hB₄
  rcases o₄ with _ | u
  · exact ⟨none, ph₄, own₄, Fallible.bind_of_none hkernel, fun _ => ⟨hB₄.abandoned hrfree hclosed₄,
      Or.inr (Or.inr (by have := hfail₄ rfl; omega))⟩, by simp⟩
  obtain ⟨hmapped₄, hcost₄⟩ := hdone₄ rfl
  rw [Fallible.bind_of_some hkernel]
  -- The image.
  rw [forkRange_eq, hsteps, hbase]
  obtain ⟨o₅, ph₅, own₅, hrun₅, hB₅, hadds₅, hcost₅, hout₅, hdone₅, hfail₅⟩ :=
    hB₄.forkSteps hT hmapped₄ hparent hne false (n := parent.imagePage)
      (parent.heapPage - parent.imagePage) (by omega) fun i hi e he => huser _ (by omega) e he
  have hmapped₅ := hadds₅.kernelMapped hmapped₄
  have hclosed₅ := hclosed₄.of_adds hmapped₄ hadds₅
  rcases o₅ with _ | u
  · refine ⟨none, ph₅, own₅, Fallible.bind_of_none hrun₅,
      fun _ => ⟨hB₅.abandoned hrfree hclosed₅, ?_⟩, by simp⟩
    rcases hfail₅ rfl with ⟨i, hi, ⟨hreq, -⟩ | ⟨-, hsome⟩⟩ | hfew
    · simp at hreq
    · refine Or.inl ⟨parent.imagePage + i, Nat.le_add_right .., by omega, ?_⟩
      by_contra hnot
      rw [hempty _ (by omega) hnot] at hsome
      simp at hsome
    · exact Or.inr (Or.inr (by omega))
  rw [Fallible.bind_of_some hrun₅, hheapEnd]
  simp only [Fallible.ofOption_bind, Option.elim_some]
  -- The heap.
  rw [forkRange_eq, hheapSteps, hheapBase]
  obtain ⟨o₆, ph₆, own₆, hrun₆, hB₆, hadds₆, hcost₆, hout₆, hdone₆, hfail₆⟩ :=
    hB₅.forkSteps hT hmapped₅ hparent hne true (n := parent.heapPage)
      (parent.heapTop - parent.heapPage) (by omega) fun i hi e he => huser _ (by omega) e he
  have hmapped₆ := hadds₆.kernelMapped hmapped₅
  have hclosed₆ := hclosed₅.of_adds hmapped₅ hadds₆
  rcases o₆ with _ | u
  · refine ⟨none, ph₆, own₆, Fallible.bind_of_none hrun₆,
      fun _ => ⟨hB₆.abandoned hrfree hclosed₆, ?_⟩, by simp⟩
    rcases hfail₆ rfl with ⟨i, hi, ⟨-, hmissing⟩ | ⟨-, hsome⟩⟩ | hfew
    · exact Or.inr (Or.inl ⟨parent.heapPage + i, Nat.le_add_right .., by omega, hmissing⟩)
    · refine Or.inl ⟨parent.heapPage + i, hle₁.trans (Nat.le_add_right ..), by omega, ?_⟩
      by_contra hnot
      rw [hout₅ _ (by omega) (by omega), hempty _ (by omega) hnot] at hsome
      simp at hsome
    · exact Or.inr (Or.inr (by omega))
  rw [Fallible.bind_of_some hrun₆, Fallible.modify_bind]
  -- The stack.
  have hks₆ := hadds₆.stack ks (hadds₅.stack ks hks₄)
  have hus₆ := hadds₆.stack us (hadds₅.stack us hus₄)
  have huspage := hB₆.tables.page_aligned (p := us) (by simp [hus₆])
  obtain ⟨hpage₇, hw₇⟩ := copyPage_frame parent.userStack us ph₆ huspage
  have hB₇ : Building r ph own (ph₆.copyPage parent.userStack us) (Function.update own₆ us .lost) :=
    (hB₆.relabel husfree (by simp [hus₆, Role.plain, Role.isTable]) (by simp [hus₆, Role.tree])
      (by simp [Role.plain, Role.isTable]) rfl).fill husfree (by simp [Role.plain, Role.isTable])
        (by simp [Role.tree]) hpage₇ hw₇
  have hlookups₇ : ∀ n, lookup (ph₆.copyPage parent.userStack us) r n = lookup ph₆ r n := fun n => by
    have hlocal : Local (r + 1) ph₆ own₆ (ph₆.copyPage parent.userStack us)
        (Function.update own₆ us .lost) :=
      (Local.update (r + 1) rfl (by simp [hus₆, Role.tree]) rfl).trans
        (Local.write (r + 1) (by simp [Role.tree]) hw₇)
    exact hlocal.lookup_eq hB₆.tables hB₇.tables hB₆.root (by omega) n
  have hva : pageNumber (userStackTop - pageSize) = stackPage := by decide
  obtain ⟨o₈, ph₈, own₈, hrun₈, hB₈, hadds₈, hbytes₈, hcost₈, hdone₈, hfail₈⟩ :=
    hB₇.map (p := us) (userStackTop - pageSize) (pteR ||| pteW ||| pteU) husfree
      (by simp) (by decide) (by decide) (by decide) (Or.inl (by decide))
  rw [hva, hlookups₇] at hdone₈ hfail₈
  have hpages₇ : (ph₆.copyPage parent.userStack us).page.freePages = ph₆.page.freePages := rfl
  have hmapped₈ := hadds₈.kernelMapped (fun n hn => by rw [hlookups₇]; exact hmapped₆ n hn)
  have hclosed₈ : UartClosed ph₈ r := by
    refine UartClosed.of_adds (fun e he => ?_) (fun n hn => ?_) hadds₈
    · exact hclosed₆ e (by rwa [← hlookups₇])
    · rw [hlookups₇]
      exact hmapped₆ n hn
  have hstack₆ : lookup ph₆ r stackPage = none := by
    rw [hout₆ _ (by decide) (by omega), hout₅ _ (by decide) (by omega),
      hempty _ (by decide) (by decide)]
  rcases o₈ with _ | u
  · refine ⟨none, ph₈, own₈, Fallible.bind_of_none hrun₈,
      fun _ => ⟨hB₈.abandoned hrfree hclosed₈, ?_⟩, by simp⟩
    rcases (hfail₈ rfl).2.2 with hsome | hfew
    · simp [hstack₆] at hsome
    · exact Or.inr (Or.inr (by omega))
  obtain ⟨-, husrole, hlookups₈, hsettles₈⟩ := hdone₈ rfl
  obtain ⟨hdone₅, hsettles₅⟩ := hdone₅ rfl
  obtain ⟨hdone₆, hsettles₆⟩ := hdone₆ rfl
  refine ⟨some ⟨ks, us, r⟩, ph₈, own₈, (Fallible.bind_of_some hrun₈).trans rfl, by simp, ?_⟩
  rintro _ ⟨⟩
  have hcopy₈ : ∀ n < 2 ^ 27, ∀ e, Copied r ph own ph₆ own₆ n e → Copied r ph own ph₈ own₈ n e := by
    intro n hn e hcopied
    have hcopied₇ : Copied r ph own (ph₆.copyPage parent.userStack us)
        (Function.update own₆ us .lost) n e := by
      refine hcopied.mono hB₆.tables (fun p hp => ?_) (fun w hw => hw₇ w ?_) fun e he => ?_
      · rw [Function.update_of_ne (by rintro rfl; simp [hus₆] at hp), hp]
      · rintro heq
        simp [heq, hus₆] at hw
      · rwa [hlookups₇]
    exact hcopied₇.of_adds hB₇.tables hn hadds₈
  have hlookup₈ : ∀ n < 2 ^ 27, n ≠ stackPage → lookup ph₈ r n = lookup ph₆ r n := fun n hn hns => by
    rw [hlookups₈ n hn, if_neg hns, hlookups₇]
  refine ⟨hrfree, hB₈, ⟨⟨hksfree, hadds₈.stack ks ?_⟩, ⟨husfree, husrole⟩, hmapped₈, hclosed₈,
    fun n h₁ h₂ => ⟨fun hn => ?_, fun e he => ?_⟩, fun n h₁ h₂ => ?_, ?_, fun hplain j hj => ?_,
    fun n hn hnk hns hnot => ?_, fun p hp => ?_⟩, by omega⟩
  · rw [Function.update_of_ne _, hks₆]
    rintro rfl
    rw [hks₁] at husfree₁
    simp at husfree₁
  · by_cases hnk : KernelPage n
    · exact Or.inl hnk
    · right
      have h := (hdone₅ (n - parent.imagePage) (by omega)).2.1
      rw [Nat.add_sub_cancel' h₁] at h
      dsimp only
      rw [hlookup₈ n (by omega) (by omega), hout₆ n (by omega) (by omega), h hn,
        hempty n (by omega) hnk]
  · have h := (hdone₅ (n - parent.imagePage) (by omega)).2.2 e
    rw [Nat.add_sub_cancel' h₁] at h
    obtain ⟨habsent, hcopied⟩ := h he
    refine ⟨fun hnk => ?_, hcopy₈ n (by omega) e (hcopied.of_adds hB₅.tables (by omega) hadds₆)⟩
    have := hmapped₄.isSome hnk
    simp [habsent] at this
  · obtain ⟨hsome, -, h⟩ := hdone₆ (n - parent.heapPage) (by omega)
    rw [Nat.add_sub_cancel' h₁] at hsome h
    obtain ⟨e, he⟩ := Option.isSome_iff_exists.mp (hsome rfl)
    obtain ⟨habsent, hcopied⟩ := h e he
    refine ⟨e, he, fun hnk => ?_, hcopy₈ n (by omega) e hcopied⟩
    have := hmapped₅.isSome hnk
    simp [habsent] at this
  · exact (hlookups₈ _ (by decide)).trans (if_pos rfl)
  · have hpage : pageOfWord (us / 8 + j) = us := pageOfWord_entry huspage ⟨j, hj⟩
    have hcopy : (ph₆.copyPage parent.userStack us).mem (us / 8 + j) =
        ph₆.mem (parent.userStack / 8 + j) := by
      simp only [Phys.copyPage, Memory.copy]
      rw [if_pos (by omega), Nat.add_sub_cancel_left]
    have hsrc : pageOfWord (parent.userStack / 8 + j) = parent.userStack :=
      pageOfWord_entry (hT.page_aligned hplain.1) ⟨j, hj⟩
    dsimp only
    rw [hbytes₈ _ (by simp [hpage, Role.plain, Role.isTable]), hcopy]
    exact hB₆.mem_eq hplain.1 (fun htable => by simp [hplain.2] at htable) hsrc
  · dsimp only
    rw [hlookup₈ n hn hns, hout₆ n hn (by omega), hout₅ n hn (by omega), hempty n hn hnk]
  · -- No page has been taken in vain.
    dsimp only
    by_cases hpk : p = ks
    · exact Or.inr (Or.inr (Or.inr hpk))
    by_cases hpu : p = us
    · exact Or.inr (Or.inr (Or.inl ⟨_, hpu ▸ husrole⟩))
    have hp₂ : own₂ p = .free := by
      rw [← hown₂, Function.update_of_ne hpu, ← hown₁, Function.update_of_ne hpk, hp]
    have hp₆ : own₆ p = .free ∨ (own₆ p).tree p = some r := by
      have hsettles := hsettles₅.trans hadds₅ hsettles₆
      rcases (Settles.of_only hext₄ honly₄).new p hp₂ with hfree | ⟨-, htree⟩ | ⟨n, -, hdata, -⟩
      · rcases hsettles.new p hfree with hfree | ⟨-, htree⟩ | ⟨n, -, hdata, -⟩
        · exact Or.inl hfree
        · exact Or.inr htree
        · exact Or.inr (by rw [hdata, Role.tree])
      · exact Or.inr (by rw [hsettles.keep p htree, htree])
      · exact Or.inr (by rw [hsettles.keep p (by rw [hdata, Role.tree]), hdata, Role.tree])
    have hp₇ : Function.update own₆ us .lost p = own₆ p := Function.update_of_ne hpu ..
    have hp₈ : own₈ p = .free ∨ (own₈ p).tree p = some r := by
      rcases hp₆ with hfree | htree
      · rcases hsettles₈.new p (hp₇.trans hfree) with hfree | ⟨-, htree⟩ | ⟨n, -, hdata, -⟩
        · exact Or.inl hfree
        · exact Or.inr htree
        · exact Or.inr (by rw [hdata, Role.tree])
      · have hkeep := hsettles₈.keep p (by rw [hp₇, htree])
        exact Or.inr (by rw [hkeep, hp₇, htree])
    refine hp₈.imp_right fun htree => ?_
    cases hrole : own₈ p with
    | data t n =>
      rw [hrole, Role.tree, Option.some.injEq] at htree
      exact Or.inr (Or.inl ⟨n, by rw [htree]⟩)
    | root | mid | low =>
      rw [hrole] at htree
      exact Or.inl ⟨rfl, htree⟩
    | free | stack | lost => simp [hrole, Role.tree] at htree

end NekOS
