import NekOS.AddressSpace.Homes

/-!
# Keeping a home

What the operations on address spaces do to the home of one task: teardown gives it up, `sbrk` moves
the end of its heap, and a loaded program is a new one.
-/

namespace NekOS

open PageTable

/-! ### Teardown -/

/-- The pages that the teardown of a task visits. -/
lemma Task.Layout.mem_spacePages {t : Task} (h : t.Layout) {n : ℕ} :
    n ∈ spacePages t.imageBase t.imageSize t.heapBase t.heapEnd ↔
      t.imagePage ≤ n ∧ n < t.heapTop := by
  obtain ⟨hle₁, hle₂, hle₃⟩ := h.ordered
  obtain ⟨hbase, hsteps⟩ := h.image_range
  obtain ⟨hheapBase, hheapEnd, hheapSteps⟩ := h.heap_range
  have hlt : t.heapTop < 2 ^ 27 := hle₃.trans (by decide)
  have hpage : ∀ {m i}, m + i < 2 ^ 27 → pageNumber (m * pageSize + i * pageSize) = m + i := by
    intro m i hmi
    have hlt' : m * pageSize + i * pageSize < 2 ^ 39 := by
      simp only [pageSize]
      omega
    rw [pageNumber_of_lt hlt', ← Nat.add_mul, Nat.mul_div_cancel _ (by decide : 0 < pageSize)]
  rw [spacePages, hsteps, hbase, hheapEnd, Option.getD_some, hheapSteps, hheapBase, Finset.mem_union,
    mem_visited, mem_visited]
  constructor
  · rintro (⟨i, hi, rfl⟩ | ⟨i, hi, rfl⟩)
    · rw [hpage (by omega)]
      omega
    · rw [hpage (by omega)]
      omega
  · rintro ⟨h₁, h₂⟩
    by_cases hn : n < t.heapPage
    · exact Or.inl ⟨n - t.imagePage, by omega, by rw [hpage (by omega)]; omega⟩
    · exact Or.inr ⟨n - t.heapPage, by omega, by rw [hpage (by omega)]; omega⟩

section Teardown

variable {strict : Bool} {ph : Phys} {own : ℕ → Role} {t : Task}

/-- A home can be released. -/
lemma Home.releasable (h : Home strict ph own t) : Releasable t.pagetable t.userStack
    (spacePages t.imageBase t.imageSize t.heapBase t.heapEnd) ph own where
  root := h.root
  window n hn _ := by
    have h₁ := (h.layout.mem_spacePages.mp hn).2
    have h₂ := h.layout.ordered.2.2
    simp only [stackPage, userStackTop, kernelStart, pageSize] at h₂ ⊢
    omega
  leaf n hn hnV e he := by
    rcases h.within n hn e he with hk | ⟨-, -, hleaf⟩ | hin | ⟨-, hleaf⟩
    · obtain ⟨e', he', hleaf⟩ := h.kernel n hk
      obtain rfl := Option.some.inj (he.symm.trans he')
      exact hleaf.leaf
    · exact hleaf
    · exact absurd (h.layout.mem_spacePages.mpr hin) hnV
    · exact hleaf
  stack := h.stack

/-- The tree of a task is released, and every page once. -/
lemma Home.release (h : Home strict ph own t) (hS : Spaces ph own) (check : Bool) :
    ∃ ph' own', Kernel.freeUserSpaceWith check t.pagetable t.userStack t.imageBase t.imageSize
        t.heapBase t.heapEnd ph = some (some (), ph') ∧
      Released t.pagetable t.userStack
        (spacePages t.imageBase t.imageSize t.heapBase t.heapEnd) ph own ph' own' :=
  freeUserSpaceWith_spec hS h.releasable check fun _ _ hmem => by
    have h₁ := (h.layout.mem_spacePages.mp hmem).2
    have h₂ := h.layout.ordered.2.2
    omega

/-- A task has left: its tree is gone and its kernel stack is free. -/
structure Vacated (t : Task) (ph : Phys) (own : ℕ → Role) (ph' : Phys) (own' : ℕ → Role) : Prop
    extends Local t.pagetable ph own ph' own' where
  spaces : Spaces ph' own'
  gone : own' t.pagetable ≠ .root
  kernelStack : own' t.kernelStack = .free
  outside : ∀ p, (own p).tree p ≠ some t.pagetable → p ≠ t.kernelStack → own' p = own p
  table : ∀ p, (own p).isTable = true → (own p).tree p = some t.pagetable → own' p = .free
  data : ∀ p n, own p = .data t.pagetable n →
    own' p = if (t.imagePage ≤ n ∧ n < t.heapTop) ∨ p = t.userStack then .free else .lost

/-- **Teardown.**  `free_task` frees what the task owns, every page once. -/
lemma Home.vacate (h : Home strict ph own t) (hS : Spaces ph own) (check : Bool) :
    ∃ ph' own', Kernel.freeTaskWith check t ph = some (some (), ph') ∧ Vacated t ph own ph' own' := by
  obtain ⟨ph₁, own₁, hrun, hrel⟩ := h.release hS check
  have hks₁ : own₁ t.kernelStack = .stack := by
    rw [hrel.outside _ (by rw [h.kernelStack]; simp [Role.tree]), h.kernelStack]
  have hS₁ := hrel.spaces hS
  have hT₂ := hS₁.tables.free (p := t.kernelStack) (by rw [hks₁]; rfl)
    (hS₁.tables.page_aligned (by simp [hks₁]))
  have hlocal : ∀ r, Local r ph₁ own₁ (ph₁.freePage t.kernelStack)
      (Function.update own₁ t.kernelStack .free) := fun r =>
    Local.update r rfl (by rw [hks₁]; rfl) rfl
  have hother : ∀ p, (own p).tree p = some t.pagetable → p ≠ t.kernelStack := by
    rintro p hp rfl
    simp [h.kernelStack, Role.tree] at hp
  refine ⟨_, _, (Fallible.bind_of_some hrun).trans (checkedFree_eq hS₁.tables _ _ fun _ =>
      Or.inl (by simp [hks₁])), hrel.toLocal.trans (hlocal _),
    hS₁.of_quiet hlocal hT₂ (PageAllocator.free_startAddr ..), ?_, Function.update_self ..,
    fun p hp hne => ?_, fun p htable htree => ?_, fun p n hp => ?_⟩
  · rw [Function.update_of_ne (hother _ (by rw [h.root]; rfl)),
      hrel.table _ (by rw [h.root]; rfl) (by rw [h.root]; rfl)]
    simp
  · rw [Function.update_of_ne hne, hrel.outside p hp]
  · rw [Function.update_of_ne (hother p htree), hrel.table p htable htree]
  · rw [Function.update_of_ne (hother p (by rw [hp]; rfl)), hrel.data p n hp]
    simp only [h.layout.mem_spacePages]

/-- The other tasks stay housed when a task leaves. -/
lemma Housed.vacate {m : TaskManager} {i : Fin maxTasks} {ph' : Phys} {own' : ℕ → Role}
    (h : Housed strict m ph own) (ht : m.tasks i = some t) (hv : Vacated t ph own ph' own') :
    Housed strict (m.setTask i none) ph' own' :=
  h.remove ht hv.toLocal hv.spaces
    (fun p hp hstack => by rw [hv.outside p (by rw [hstack]; simp [Role.tree]) hp, hstack]) hv.gone

end Teardown

/-! ### Heaps -/

/-- Unmapping pages of a program. -/
lemma Unmapped.beside {r : ℕ} {V : Finset ℕ} {ph ph' : Phys} {own own' : ℕ → Role}
    (h : Unmapped r V true ph own ph' own') (hS : Spaces ph own) (hr : own r = .root)
    (hV : ∀ m ∈ V, m < 2 ^ 27 ∧ ∀ e, lookup ph r m = some e → UserLeaf own r m e) :
    Beside r ph own ph' own' ∧ own' r = .root ∧ (∀ p t n, own p = .data t n → own' p = own p ∨
      (t = r ∧ n ∈ V)) := by
  have hkept : ∀ p, own' p = own p ∨ own' p = .free ∧ ∃ n ∈ V, own p = .data r n := fun p => by
    refine (h.kept p).imp_right ?_
    rintro ⟨hfree, m, hm, e, -, he, rfl⟩
    exact ⟨hfree, m, hm, ((hV m hm).2 e he).owned⟩
  have hr' : own' r = .root := by
    rcases hkept r with hk | ⟨-, n, -, hn⟩
    · rw [hk, hr]
    · simp [hr] at hn
  have hspace := hS.space r hr
  have hdata : ∀ p n, own' p = .data r n ↔ own p = .data r n ∧ n ∉ V := by
    intro p n
    constructor
    · intro hp
      have hp₀ : own p = .data r n := by
        rcases hkept p with hk | ⟨hk, -⟩
        · rw [← hk, hp]
        · simp [hk] at hp
      refine ⟨hp₀, fun hn => ?_⟩
      obtain ⟨-, e, he, rfl⟩ := hspace.data p n hp₀
      rw [h.freed n hn e rfl he] at hp
      simp at hp
    · rintro ⟨hp, hn⟩
      rcases hkept p with hk | ⟨-, m, hm, hpm⟩
      · rw [hk, hp]
      · rw [hp, Role.data.injEq] at hpm
        rw [hpm.2] at hn
        exact absurd hm hn
  refine ⟨⟨h.toLocal, ?_, fun p hp => ?_⟩, hr', fun p t n hp => ?_⟩
  · refine hS.of_local h.toLocal h.tables h.start (fun _ => ⟨fun n hn e he => ?_, fun p n hp => ?_⟩)
      fun p n hp => hr'
    · obtain ⟨hnV, he₀⟩ := h.lookup_of_some hn he
      exact (hspace.leaf n hn e he₀).imp_right fun hu => ⟨(hdata _ _).mpr ⟨hu.owned, hnV⟩, hu.user⟩
    · obtain ⟨hp₀, hnV⟩ := (hdata p n).mp hp
      obtain ⟨hn, e, he, hpa⟩ := hspace.data p n hp₀
      exact ⟨hn, e, by rw [h.lookups n hn, if_neg hnV, he], hpa⟩
  · rcases hkept p with hk | ⟨-, n, -, hn⟩
    · rw [hk, hp]
    · simp [hp] at hn
  · rcases hkept p with hk | ⟨-, m, hm, hpm⟩
    · exact Or.inl hk
    · rw [hp, Role.data.injEq] at hpm
      rw [hpm.2]
      exact Or.inr ⟨hpm.1, hm⟩

/-- One operation on a tree after the other. -/
lemma Beside.trans {r : ℕ} {ph ph₁ ph' : Phys} {own own₁ own' : ℕ → Role}
    (h₁ : Beside r ph own ph₁ own₁) (h₂ : Beside r ph₁ own₁ ph' own') : Beside r ph own ph' own' :=
  ⟨h₁.toLocal.trans h₂.toLocal, h₂.spaces, fun p hp => h₂.stack p (h₁.stack p hp)⟩

/-- The heap of a home grows or shrinks. -/
lemma Home.resize {strict : Bool} {ph ph' : Phys} {own own' : ℕ → Role} {t : Task}
    (h : Home strict ph own t) (newEnd : ℕ) (hbase : t.heapBase ≤ newEnd) (hlimit : newEnd ≤ TaskManager.heapLimit)
    (hroot : own' t.pagetable = .root) (hks : own' t.kernelStack = .stack)
    (hstack : own t.userStack = .data t.pagetable stackPage →
      own' t.userStack = .data t.pagetable stackPage)
    (hsame : ∀ n < 2 ^ 27, n < min t.heapTop { t with heapEnd := newEnd }.heapTop ∨
      max t.heapTop { t with heapEnd := newEnd }.heapTop ≤ n →
      lookup ph' t.pagetable n = lookup ph t.pagetable n)
    (hin : ∀ n, t.heapTop ≤ n → n < { t with heapEnd := newEnd }.heapTop →
      ¬ KernelPage n ∧ (lookup ph' t.pagetable n).isSome = true)
    (hout : ∀ n, { t with heapEnd := newEnd }.heapTop ≤ n → n < t.heapTop →
      lookup ph' t.pagetable n = none) : Home strict ph' own' { t with heapEnd := newEnd } := by
  have hlayout : { t with heapEnd := newEnd }.Layout :=
    ⟨h.layout.base_mod, h.layout.heap_eq, h.layout.heap_mod, hbase, hlimit⟩
  obtain ⟨h₁, h₂, h₃⟩ := h.layout.ordered
  obtain ⟨-, h₄, h₅⟩ := hlayout.ordered
  have hpage : { t with heapEnd := newEnd }.heapPage = t.heapPage := rfl
  have himage : { t with heapEnd := newEnd }.imagePage = t.imagePage := rfl
  rw [hpage] at h₄
  generalize hnew : { t with heapEnd := newEnd }.heapTop = newTop at *
  have hlt : stackPage < 2 ^ 27 := by decide
  refine ⟨hroot, hks, fun n hn => ?_, hlayout, h.stack.imp_right hstack, fun n hle hlt' => ?_,
    fun n hn e he => ?_⟩
  · dsimp only
    rw [hsame n hn.lt]
    · exact h.kernel n hn
    · by_contra hmid
      by_cases hgrow : t.heapTop ≤ n
      · exact (hin n hgrow (by omega)).1 hn
      · exact (h.heap n (by omega) (by omega)).1 hn
  · rw [hnew] at hlt'
    rw [hpage] at hle
    dsimp only
    by_cases hgrow : t.heapTop ≤ n
    · exact hin n hgrow hlt'
    · rw [hsame n (by omega) (Or.inl (by omega))]
      exact h.heap n hle (by omega)
  · rw [hnew, himage]
    dsimp only at he ⊢
    by_cases hgrow : t.heapTop ≤ n ∧ n < newTop
    · exact Or.inr (Or.inr (Or.inl (by omega)))
    by_cases hshrink : newTop ≤ n ∧ n < t.heapTop
    · rw [hout n hshrink.1 hshrink.2] at he
      simp at he
    rw [hsame n hn (by omega)] at he
    rcases h.within n hn e he with hk | hs | hi | hl
    · exact Or.inl hk
    · exact Or.inr (Or.inl hs)
    · exact Or.inr (Or.inr (Or.inl (by omega)))
    · exact Or.inr (Or.inr (Or.inr hl))

/-- The first `k` pages from page `top` on have been added to a tree. -/
structure Raised (r top k : ℕ) (ph : Phys) (own : ℕ → Role) (ph' : Phys) (own' : ℕ → Role) : Prop
    extends Beside r ph own ph' own' where
  root : own' r = .root
  data : ∀ p t n, own p = .data t n → own' p = .data t n
  absent : ∀ m, top ≤ m → m < top + k → lookup ph r m = none
  new : ∀ m, top ≤ m → m < top + k → ∃ e, lookup ph' r m = some e ∧ UserLeaf own' r m e
  same : ∀ m < 2 ^ 27, ¬ (top ≤ m ∧ m < top + k) → lookup ph' r m = lookup ph r m

namespace Raised

variable {r top k : ℕ} {ph ph₁ : Phys} {own own₁ : ℕ → Role}

/-- Nothing has been added. -/
lemma refl (hS : Spaces ph own) (hr : own r = .root) (top : ℕ) : Raised r top 0 ph own ph own :=
  ⟨⟨Local.refl .., hS, fun _ h => h⟩, hr, fun _ _ _ h => h, fun m h₁ h₂ => by omega,
    fun m h₁ h₂ => by omega, fun _ _ _ => rfl⟩

/-- A page that could not be mapped is given back. -/
lemma giveBack (h : Raised r top k ph own ph₁ own₁) {p : ℕ} {ph₂ : Phys} {own₂ : ℕ → Role}
    (hB : Building r ph₁ own₁ ph₂ own₂) (hadds : Adds r ph₁ own₁ ph₂ own₂) (hp : own₂ p = .lost)
    (hlookups : ∀ m, lookup ph₂ r m = lookup ph₁ r m) :
    Raised r top k ph own (ph₂.freePage p) (Function.update own₂ p .free) := by
  have hS₂ := hB.spaces h.spaces
  have hT₃ := hS₂.tables.free (p := p) (by rw [hp]; rfl) (hS₂.tables.page_aligned (by simp [hp]))
  have hlocal : ∀ t, Local t ph₂ own₂ (ph₂.freePage p) (Function.update own₂ p .free) := fun t =>
    Local.update t rfl (by rw [hp]; rfl) rfl
  have hne : ∀ {q ρ}, own₂ q = ρ → ρ ≠ .lost → Function.update own₂ p .free q = ρ := by
    intro q ρ hq hρ
    rw [Function.update_of_ne _, hq]
    rintro rfl
    exact hρ (hq.symm.trans hp)
  have hmem : (ph₂.freePage p).mem = ph₂.mem := rfl
  have hlookups₃ : ∀ m, lookup (ph₂.freePage p) r m = lookup ph₁ r m := fun m =>
    (lookup_of_mem hmem r m).trans (hlookups m)
  refine ⟨⟨h.toLocal.trans (hB.toExtends.toLocal.trans (hlocal r)),
      hS₂.of_quiet hlocal hT₃ (PageAllocator.free_startAddr ..), fun q hq => ?_⟩,
    hne hB.root (by simp), fun q t n hq => ?_, h.absent, fun m h₁ h₂ => ?_, fun m hm hnot => ?_⟩
  · exact hne (hadds.stack q (h.stack q hq)) (by simp)
  · exact hne (hadds.data q t n (h.data q t n hq)) (by simp)
  · obtain ⟨e, he, hu⟩ := h.new m h₁ h₂
    exact ⟨e, by rw [hlookups₃, he], hne (hadds.data _ _ _ hu.owned) (by simp), hu.user⟩
  · rw [hlookups₃, h.same m hm hnot]

/-- A page has been added. -/
lemma succ (h : Raised r top k ph own ph₁ own₁) {p e : ℕ} {ph₂ : Phys} {own₂ : ℕ → Role}
    (hB : Building r ph₁ own₁ ph₂ own₂) (hadds : Adds r ph₁ own₁ ph₂ own₂)
    (hn : top + k < 2 ^ 27) (habsent : lookup ph₁ r (top + k) = none)
    (hp : own₂ p = .data r (top + k)) (hpa : pteToPa e = p) (huser : hasFlag e pteU = true)
    (hlookups : ∀ m < 2 ^ 27, lookup ph₂ r m = if m = top + k then some e else lookup ph₁ r m) :
    Raised r top (k + 1) ph own ph₂ own₂ := by
  refine ⟨h.toBeside.trans (hB.beside h.spaces), hB.root,
    fun q t n hq => hadds.data q t n (h.data q t n hq), fun m h₁ h₂ => ?_, fun m h₁ h₂ => ?_,
    fun m hm hnot => ?_⟩
  · by_cases hmk : m = top + k
    · rw [hmk, ← habsent, h.same _ hn (by omega)]
    · exact h.absent m h₁ (by omega)
  · rw [hlookups m (by omega)]
    by_cases hmk : m = top + k
    · rw [if_pos hmk, hmk]
      exact ⟨e, rfl, by rw [hpa, hp], huser⟩
    · rw [if_neg hmk]
      obtain ⟨e', he', hu⟩ := h.new m h₁ (by omega)
      exact ⟨e', he', hadds.data _ _ _ hu.owned, hu.user⟩
  · rw [hlookups m hm, if_neg (by omega), h.same m hm (by omega)]

/-- The pages added are unmapped again. -/
lemma undo (h : Raised r top k ph own ph₁ own₁) (hS : Spaces ph own) (hr : own r = .root)
    (hend : top + k ≤ 2 ^ 27) :
    ∃ ph' own', Kernel.undoGrow r (top * pageSize) k ph₁ = some (none, ph') ∧
      Raised r top 0 ph own ph' own' := by
  rw [Kernel.undoGrow]
  rcases Nat.eq_zero_or_pos k with rfl | hk
  · exact ⟨ph₁, own₁, rfl, h⟩
  rw [if_pos hk]
  have hleaf : ∀ i < k, ∀ e, lookup ph₁ r (top + i) = some e → UserLeaf own₁ r (top + i) e := by
    intro i hi e he
    obtain ⟨e', he', hu⟩ := h.new (top + i) (Nat.le_add_right ..) (by omega)
    rwa [Option.some.inj (he.symm.trans he')]
  obtain ⟨o, ph₂, own₂, j, hrun, hj, hdone, hun, hfail⟩ :=
    unmapPages_spec h.spaces.tables h.root top true k hend fun i hi e _ he => by
        rw [Freeable, (hleaf i hi e he).owned]
        exact ⟨rfl, fun t ht => (Option.some.inj ht).symm⟩
  obtain rfl : j = k := by
    by_contra hne
    obtain ⟨e, he, -⟩ := h.new (top + j) (Nat.le_add_right ..) (by omega)
    rw [hfail (by omega)] at he
    simp at he
  have hmem : ∀ {m}, m ∈ visited (top + ·) j ↔ top ≤ m ∧ m < top + j := mem_visited_add
  obtain ⟨hb, hr₂, hdata⟩ := hun.beside h.spaces h.root fun m hm => by
    obtain ⟨i, hi, rfl⟩ := mem_visited.mp hm
    exact ⟨by omega, fun e he => hleaf i hi e he⟩
  have hunmap : PageTable.unmap r (top * pageSize) (j * pageSize) true ph₁ = some (o, ph₂) := by
    have hsize : j * pageSize / pageSize = j := Nat.mul_div_cancel _ (by decide)
    rw [PageTable.unmap, if_neg, hsize, hrun]
    rw [Nat.mul_mod_left]
    simp only [pageSize]
    omega
  refine ⟨ph₂, own₂, ?_, h.toBeside.trans hb, hr₂, fun p t n hp => ?_, fun m h₁ h₂ => by omega,
    fun m h₁ h₂ => by omega, fun m hm _ => ?_⟩
  · rw [Fallible.attempt_bind, hunmap]
    rfl
  · have hp₁ := h.data p t n hp
    rcases hdata p t n hp₁ with hk' | ⟨rfl, hn⟩
    · rw [hk', hp₁]
    · obtain ⟨hle, hlt⟩ := hmem.mp hn
      obtain ⟨-, e, he, -⟩ := (hS.space t hr).data p n hp
      rw [h.absent n hle hlt] at he
      simp at he
  · rw [hun.lookups m hm]
    split
    · rename_i hmV
      obtain ⟨hle, hlt⟩ := hmem.mp hmV
      rw [h.absent m hle hlt]
    · rename_i hmV
      exact h.same m hm fun hin => hmV (hmem.mpr hin)

/-- One iteration of the loop by which `sbrk` grows the heap. -/
lemma grow (h : Raised r top k ph own ph₁ own₁) (hS : Spaces ph own) (hr : own r = .root)
    (hend : top + k < 2 ^ 27) :
    ∃ o ph' own', Kernel.growPage r (top * pageSize) k ph₁ = some (o, ph') ∧
      ((o = some () ∧ Raised r top (k + 1) ph own ph' own') ∨
        (o = none ∧ Raised r top 0 ph own ph' own')) := by
  have hva : (top * pageSize + k * pageSize) % pageSize = 0 := by
    rw [← Nat.add_mul]
    exact Nat.mul_mod_left ..
  have hva' : top * pageSize + k * pageSize < 2 ^ 39 := by
    simp only [pageSize]
    omega
  have hnum : pageNumber (top * pageSize + k * pageSize) = top + k := by
    rw [pageNumber_of_lt hva', ← Nat.add_mul, Nat.mul_div_cancel _ (by decide : 0 < pageSize)]
  rw [Kernel.growPage]
  rcases (Building.refl h.spaces h.root).addPage (fun p ph => ph.zeroPage p)
      (top * pageSize + k * pageSize) (pteR ||| pteW ||| pteU)
      (fun p ph hp => ⟨rfl, fun w hw => by rw [zeroPage_mem hp, if_neg hw]⟩) hva (by omega) (by decide)
      (Or.inl (by decide)) with ⟨hnone, -⟩ |
    ⟨p, ph₂, o, ph₃, own₃, hsome, -, -, hmap, hB, hadds, -, hdone, hfail⟩
  · obtain ⟨ph', own', hrun, h'⟩ := h.undo hS hr hend.le
    refine ⟨none, ph', own', ?_, Or.inr ⟨rfl, h'⟩⟩
    rw [Fallible.attempt_bind, hnone]
    exact hrun
  rw [hnum] at hdone hfail
  rw [Fallible.attempt_bind, hsome]
  simp only [Option.bind_some]
  rw [Fallible.modify_bind, Fallible.attempt_bind, hmap]
  rcases o with _ | u
  · obtain ⟨hlost, hlookups, -⟩ := hfail rfl
    obtain ⟨ph', own', hrun, h'⟩ := (h.giveBack hB hadds hlost hlookups).undo hS hr hend.le
    exact ⟨none, ph', own', hrun, Or.inr ⟨rfl, h'⟩⟩
  · obtain ⟨habsent, hrole, hlookups, -, -⟩ := hdone rfl
    have hpa : p % pageSize = 0 := hB.tables.page_aligned (by simp [hrole])
    refine ⟨some (), ph₃, own₃, rfl, Or.inl ⟨rfl, h.succ hB hadds hend habsent hrole ?_ ?_ hlookups⟩⟩
    · exact pteToPa_paToPte (by decide) hpa (hB.tables.page_lt (by simp [hrole]))
    · rw [hasFlag_paToPte (by decide) (by decide)]
      rfl

/-- The loop by which `sbrk` grows the heap. -/
lemma growPages (hS : Spaces ph own) (hr : own r = .root) (top count : ℕ)
    (hend : top + count ≤ 2 ^ 27) :
    ∃ o ph' own', Fallible.forRange count (Kernel.growPage r (top * pageSize)) ph = some (o, ph') ∧
      ((o = some () ∧ Raised r top count ph own ph' own') ∨
        (o = none ∧ Raised r top 0 ph own ph' own')) := by
  induction count with
  | zero => exact ⟨some (), ph, own, rfl, Or.inl ⟨rfl, refl hS hr top⟩⟩
  | succ k ih =>
    obtain ⟨o₁, ph₁, own₁, hrun, ⟨rfl, h₁⟩ | ⟨rfl, h₁⟩⟩ := ih (by omega)
    · obtain ⟨o, ph', own', hrun', h'⟩ := h₁.grow hS hr (by omega)
      rw [Fallible.forRange_succ]
      exact ⟨o, ph', own', (Fallible.bind_of_some hrun).trans hrun', h'⟩
    · rw [Fallible.forRange_succ]
      exact ⟨none, ph₁, own₁, Fallible.bind_of_none hrun, Or.inr ⟨rfl, h₁⟩⟩

end Raised

/-- **Heaps.**  `sbrk` moves the end of the heap, or leaves the home as it was. -/
lemma Home.resizeHeap {strict : Bool} {ph : Phys} {own : ℕ → Role} {t : Task} {newEnd : ℕ}
    (h : Home strict ph own t) (hS : Spaces ph own) (hbase : t.heapBase ≤ newEnd)
    (hlimit : newEnd ≤ TaskManager.heapLimit) :
    ∃ o ph' own', Kernel.resizeHeap t.pagetable (t.heapTop * pageSize)
        ({ t with heapEnd := newEnd }.heapTop * pageSize) ph = some (o, ph') ∧
      Beside t.pagetable ph own ph' own' ∧
      (UartClosed ph t.pagetable → UartClosed ph' t.pagetable) ∧
      (o = some () → Home strict ph' own' { t with heapEnd := newEnd }) ∧
      (o = none → Home strict ph' own' t) := by
  have hlayout : { t with heapEnd := newEnd }.Layout :=
    ⟨h.layout.base_mod, h.layout.heap_eq, h.layout.heap_mod, hbase, hlimit⟩
  obtain ⟨h₁, h₂, h₃⟩ := h.layout.ordered
  obtain ⟨-, h₄, h₅⟩ := hlayout.ordered
  have hpage : { t with heapEnd := newEnd }.heapPage = t.heapPage := rfl
  rw [hpage] at h₄
  obtain ⟨newTop, hnew⟩ : ∃ newTop, { t with heapEnd := newEnd }.heapTop = newTop := ⟨_, rfl⟩
  rw [hnew] at h₄ h₅ ⊢
  have hlt : stackPage < 2 ^ 27 := by decide
  have hstep : ∀ {a b : ℕ}, a < b → pageSteps (a * pageSize) (b * pageSize) = b - a := by
    intro a b hab
    simp only [pageSteps, pageSize]
    omega
  -- A tree to which no page has been added.
  have hsame : ∀ {ph' own'}, Raised t.pagetable t.heapTop 0 ph own ph' own' →
      (UartClosed ph t.pagetable → UartClosed ph' t.pagetable) ∧ Home strict ph' own' t := by
    intro ph' own' hR
    have hlookups : ∀ n < 2 ^ 27, lookup ph' t.pagetable n = lookup ph t.pagetable n := fun n hn =>
      hR.same n hn (by omega)
    refine ⟨fun hc e he => hc e (by rwa [← hlookups _ (by decide)]), ?_⟩
    exact h.resize t.heapEnd h.layout.heap_le h.layout.limit hR.root
      (hR.stack _ h.kernelStack) (hR.data _ _ _) (fun n hn _ => hlookups n hn)
      (fun n hle hlt => absurd hlt (not_lt.mpr hle)) fun n hle hlt => absurd hlt (not_lt.mpr hle)
  rw [Kernel.resizeHeap]
  rcases lt_trichotomy t.heapTop newTop with hgrow | heq | hshrink
  · rw [if_pos (Nat.mul_lt_mul_of_pos_right hgrow (by decide)), hstep hgrow]
    obtain ⟨o, ph', own', hrun, ⟨rfl, hR⟩ | ⟨rfl, hR⟩⟩ := Raised.growPages hS h.root t.heapTop
      (newTop - t.heapTop) (by omega)
    · have hadded : ∀ n, t.heapTop ≤ n → n < newTop →
          ¬ KernelPage n ∧ (lookup ph' t.pagetable n).isSome = true := fun n hle hlt => by
        refine ⟨fun hk => ?_, ?_⟩
        · have := h.kernel.isSome hk
          simp [hR.absent n hle (by omega)] at this
        · obtain ⟨e, he, -⟩ := hR.new n hle (by omega)
          rw [he]
          rfl
      refine ⟨some (), ph', own', hrun, hR.toBeside, fun hc e he => hc e ?_, fun _ => ?_, by simp⟩
      · rwa [hR.same _ (by decide) fun hin => (hadded _ hin.1 (by omega)).1 (by decide)] at he
      · refine h.resize newEnd hbase hlimit hR.root (hR.stack _ h.kernelStack) (hR.data _ _ _)
          (fun n hn hout => hR.same n hn ?_) ?_ ?_
        · rw [hnew] at hout
          omega
        · rw [hnew]
          exact hadded
        · rw [hnew]
          intro n hle hlt
          omega
    · obtain ⟨hc, hhome⟩ := hsame hR
      exact ⟨none, ph', own', hrun, hR.toBeside, hc, by simp, fun _ => hhome⟩
  · subst heq
    rw [if_neg (lt_irrefl _), if_neg (lt_irrefl _)]
    refine ⟨some (), ph, own, rfl, ⟨Local.refl .., hS, fun _ hp => hp⟩, id, fun _ => ?_, by simp⟩
    exact h.resize newEnd hbase hlimit h.root h.kernelStack id (fun _ _ _ => rfl)
      (fun n hle hlt => by omega) fun n hle hlt => by omega
  · rw [if_neg (not_lt.mpr (Nat.mul_le_mul_right _ hshrink.le)),
      if_pos (Nat.mul_lt_mul_of_pos_right hshrink (by decide))]
    have hsize : t.heapTop * pageSize - newTop * pageSize = (t.heapTop - newTop) * pageSize := by
      rw [Nat.sub_mul]
    have hheap : ∀ i < t.heapTop - newTop, ∀ e, lookup ph t.pagetable (newTop + i) = some e →
        UserLeaf own t.pagetable (newTop + i) e := fun i hi e he => by
      refine ((hS.space _ h.root).leaf _ (by omega) e he).resolve_left fun hk => ?_
      exact (h.heap _ (by omega) (by omega)).1 hk.page
    obtain ⟨o, ph', own', j, hrun, hj, hdone, hun, hfail⟩ :=
      unmapPages_spec hS.tables h.root newTop true (t.heapTop - newTop) (by omega)
        fun i hi e _ he => by
          rw [Freeable, (hheap i hi e he).owned]
          exact ⟨rfl, fun t ht => (Option.some.inj ht).symm⟩
    obtain rfl : j = t.heapTop - newTop := by
      by_contra hne
      have := (h.heap (newTop + j) (by omega) (by omega)).2
      rw [hfail (by omega)] at this
      simp at this
    obtain rfl := hdone.mpr rfl
    have hmem : ∀ {m}, m ∈ visited (newTop + ·) (t.heapTop - newTop) ↔
        newTop ≤ m ∧ m < newTop + (t.heapTop - newTop) := mem_visited_add
    obtain ⟨hb, hr', hdata⟩ := hun.beside hS h.root fun m hm => by
      obtain ⟨i, hi, rfl⟩ := mem_visited.mp hm
      exact ⟨by omega, fun e he => hheap i hi e he⟩
    have hout : ∀ n < 2 ^ 27, ¬ (newTop ≤ n ∧ n < t.heapTop) →
        lookup ph' t.pagetable n = lookup ph t.pagetable n := fun n hn hnot => by
      rw [hun.lookups n hn, if_neg fun hin => hnot ⟨(hmem.mp hin).1, by have := hmem.mp hin; omega⟩]
    refine ⟨some (), ph', own', ?_, hb, fun hc e he => hc e ?_, fun _ => ?_, by simp⟩
    · rw [PageTable.unmap, hsize, Nat.mul_div_cancel _ (by decide : 0 < pageSize), if_neg, hrun]
      rw [Nat.mul_mod_left]
      simp only [pageSize]
      omega
    · rwa [hout _ (by decide) fun hin => (h.heap _ (by omega) hin.2).1 (by decide)] at he
    · refine h.resize newEnd hbase hlimit hr' (hb.stack _ h.kernelStack) (fun hp => ?_)
        (fun n hn hnot => hout n hn ?_) ?_ ?_
      · rcases hdata _ _ _ hp with hk | ⟨-, hn⟩
        · rw [hk, hp]
        · have := hmem.mp hn
          omega
      · rw [hnew] at hnot
        omega
      · rw [hnew]
        intro n hle hlt
        omega
      · rw [hnew]
        intro n hle hlt
        rw [hun.lookups n (by omega), if_pos (hmem.mpr ⟨hle, by omega⟩)]

/-! ### Images -/

/-- The last page boundary of the address space cannot be passed. -/
lemma pageSteps_image {base stop : ℕ} (hbase : base % pageSize = 0) (hstop : stop % pageSize = 0)
    (hlt : stop < 2 ^ 64) : pageSteps (pageFloor base) (pageCeil (wrap stop)) =
      stop / pageSize - base / pageSize := by
  simp only [pageSteps, pageFloor, pageCeil, wrap, pageSize] at *
  omega

/-- A covered page is visited when the image is released. -/
lemma Covered.mem_spacePages {base size n : ℕ} (hbase : base % pageSize = 0)
    (hstop : (base + size) % pageSize = 0) (hlt : base + size < 2 ^ 64)
    (h : Covered base (base + size) n) : n ∈ spacePages base size (base + size) (base + size) := by
  obtain ⟨va, hva, hle, hlt', rfl⟩ := h
  refine Finset.mem_union_left _ (mem_visited.mpr ⟨(va - base) / pageSize, ?_, ?_⟩)
  · rw [pageSteps_image hbase hstop hlt]
    simp only [pageSize] at *
    omega
  · congr 1
    simp only [pageFloor, pageSize] at *
    omega

section Images

variable {strict : Bool} {ph : Phys} {own : ℕ → Role} {image : LoadedImage} {pages : List ℕ}

/-- The entry of the stack of a loaded program. -/
lemma Loaded.stackEntry (h : Loaded strict pages ph own image) (hT : Tables ph own) {e : ℕ}
    (he : lookup ph image.pagetable stackPage = some e) :
    pteToPa e = image.userStack ∧ isLeaf e = true := by
  obtain rfl := Option.some.inj (h.stackLeaf.symm.trans he)
  have hne : own image.userStack ≠ .free := by simp [h.stack]
  refine ⟨pteToPa_paToPte (by decide) (hT.page_aligned hne) (hT.page_lt hne), ?_⟩
  rw [isLeaf, hasFlag_paToPte (by decide) (by decide)]
  rfl

/-- A loaded program in the same memory. -/
lemma Loaded.of_mem {ph' : Phys} {own' : ℕ → Role} (h : Loaded strict pages ph own image)
    (hmem : ph'.mem = ph.mem) (hown : own' image.userStack = own image.userStack) :
    Loaded strict pages ph' own' image := by
  have hlookup := lookup_of_mem hmem image.pagetable
  refine ⟨by rw [hown, h.stack], by rw [hlookup, h.stackLeaf], fun n hn => ?_, fun e he => ?_,
    fun n hn => ?_, h.aligned, fun heapBase hheap => ⟨(h.fits _ hheap).1, fun n hn e he => ?_⟩⟩
  · rw [hlookup]
    exact h.kernel n hn
  · rw [hlookup] at he
    exact h.closed e he
  · rw [hlookup]
    exact h.mapped n hn
  · rw [hlookup] at he
    exact (h.fits _ hheap).2 n hn e he

/-- A loaded program is a home for a task. -/
lemma Loaded.home (h : Loaded strict pages ph own image) (hT : Tables ph own)
    (hroot : own image.pagetable = .root) {t : Task} (hpt : t.pagetable = image.pagetable)
    (hus : t.userStack = image.userStack) (hib : t.imageBase = image.imageBase)
    (his : t.imageSize = image.imageSize) (hhb : t.heapBase = image.imageBase + image.imageSize)
    (hhe : t.heapEnd = image.imageBase + image.imageSize) (hks : own t.kernelStack = .stack)
    (hlimit : image.imageBase + image.imageSize ≤ TaskManager.heapLimit) : Home strict ph own t := by
  have hsum : checkedAdd image.imageBase image.imageSize =
      some (image.imageBase + image.imageSize) := by
    refine checkedAdd_eq_some.mpr ⟨?_, rfl⟩
    simp only [TaskManager.heapLimit, userStackTop, pageSize] at hlimit
    omega
  obtain ⟨hmod, hfits⟩ := h.fits _ hsum
  have hlayout : t.Layout := by
    refine ⟨?_, ?_, ?_, ?_, ?_⟩
    · rw [hib]
      exact h.aligned
    · rw [hhb, hib, his]
    · rw [hhb]
      exact hmod
    · rw [hhb, hhe]
    · rw [hhe]
      exact hlimit
  have himage : t.imagePage = image.imageBase / pageSize := by rw [Task.imagePage, hib]
  have hheap : t.heapPage = (image.imageBase + image.imageSize) / pageSize := by
    rw [Task.heapPage, hhb]
  have htop : t.heapTop = (image.imageBase + image.imageSize) / pageSize := by
    rw [Task.heapTop, hhe]
    simp only [pageSize] at hmod ⊢
    omega
  refine ⟨by rw [hpt, hroot], hks, by rw [hpt]; exact h.kernel, hlayout, Or.inr ?_,
    fun n hle hlt => ?_, fun n hn e he => ?_⟩
  · rw [hus, hpt]
    exact h.stack
  · omega
  · rw [hpt] at he
    rcases hfits n hn e he with hk | rfl | ⟨va, hva, hle, hlt, rfl⟩ | hl
    · exact Or.inl hk
    · obtain ⟨hpa, hleaf⟩ := h.stackEntry hT he
      exact Or.inr (Or.inl ⟨rfl, by rw [hpa, hus], hleaf⟩)
    · refine Or.inr (Or.inr (Or.inl ?_))
      have hlt39 : va < 2 ^ 39 := by
        simp only [TaskManager.heapLimit, userStackTop, pageSize] at hlimit
        omega
      rw [pageNumber_of_lt hlt39, himage, htop]
      have := h.aligned
      simp only [pageSize] at *
      omega
    · exact Or.inr (Or.inr (Or.inr hl))

/-- A loaded program can be released when its image holds no page of the window of the kernel. -/
lemma Loaded.releasable (h : Loaded strict pages ph own image) (hT : Tables ph own)
    (hroot : own image.pagetable = .root) (hlt : image.imageBase + image.imageSize < 2 ^ 64)
    (hwindow : ∀ n ∈ spacePages image.imageBase image.imageSize
      (image.imageBase + image.imageSize) (image.imageBase + image.imageSize),
      KernelPage n → n * pageSize < kernelStart) :
    Releasable image.pagetable image.userStack (spacePages image.imageBase image.imageSize
      (image.imageBase + image.imageSize) (image.imageBase + image.imageSize)) ph own where
  root := hroot
  window := hwindow
  leaf n hn hnV e he := by
    obtain ⟨hmod, hfits⟩ := h.fits _ (checkedAdd_eq_some.mpr ⟨hlt, rfl⟩)
    rcases hfits n hn e he with hk | rfl | hc | ⟨-, hl⟩
    · obtain ⟨e', he', hleaf⟩ := h.kernel n hk
      obtain rfl := Option.some.inj (he.symm.trans he')
      exact hleaf.leaf
    · exact (h.stackEntry hT he).2
    · exact absurd (hc.mem_spacePages h.aligned hmod hlt) hnV
    · exact hl
  stack := Or.inr h.stack

end Images

/-- The image of a file holds no page of the window of the kernel. -/
def Exec.ClearOfWindow (data : List UInt8) : Prop :=
  ∀ n ∈ spacePages (imageRange data).1 (imageRange data).2
    ((imageRange data).1 + (imageRange data).2) ((imageRange data).1 + (imageRange data).2),
    KernelPage n → n * pageSize < kernelStart

end NekOS
