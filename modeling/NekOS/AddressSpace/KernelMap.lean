import NekOS.AddressSpace.Building

/-!
# New page tables

`create` makes a tree that maps nothing, and `map_kernel` maps the pages of the kernel in it.  The
whole takes 25 pages at most.
-/

namespace NekOS

open PageTable

/-- The UART page of the tree is closed to user mode. -/
def UartClosed (ph : Phys) (r : ℕ) : Prop :=
  ∀ e, lookup ph r uartPage = some e → hasFlag e pteU = false

/-- An entry that stays. -/
lemma UartClosed.of_adds {r : ℕ} {ph ph' : Phys} {own own' : ℕ → Role} (h : UartClosed ph r)
    (hk : KernelMapped ph r) (hadds : Adds r ph own ph' own') : UartClosed ph' r := by
  intro e he
  obtain ⟨e', he', -⟩ := hk uartPage (Or.inr (Or.inl rfl))
  have hkeep := hadds.lookups uartPage (by decide) e' he'
  rw [he, Option.some.injEq] at hkeep
  subst hkeep
  exact h e he'

/-- `create`: nothing is left, or a new tree that maps nothing. -/
lemma create_root {ph : Phys} {own : ℕ → Role} (hT : Tables ph own)
    (hroot : ∀ p r n, own p = .data r n → own r = .root) :
    (create ph = some (none, ph) ∧ ph.page.freePages = 0) ∨
    ∃ r ph', create ph = some (some r, ph') ∧ own r = .free ∧
      Building r ph own ph' (Function.update own r .root) ∧ (∀ n, lookup ph' r n = none) ∧
      ph'.page.freePages + 1 = ph.page.freePages := by
  rcases create_cases hT with hnone |
    ⟨r, ph', hcreate, hfree, hT', hempty, hw, hstart, htotal, hcount⟩
  · exact Or.inl hnone
  have hflag : ∀ i, hasFlag (ph'.entry r i) pteV = false := fun i => by rw [hempty, hasFlag_zero]
  have hT₂ := hT'.newRoot (p := r) (by simp [Role.plain, Role.isTable]) hflag
  rw [Function.update_idem] at hT₂
  have hlookups : ∀ n, lookup ph' r n = none := fun n => by
    rw [lookup, child, hflag]
    rfl
  refine Or.inr ⟨r, ph', hcreate, hfree, ⟨⟨fun q hq => ?_, fun q hq t ht => ?_, fun w hne => ?_,
    hstart, htotal⟩, hT₂, Function.update_self .., fun n _ e he => ?_, fun q n hq => ?_⟩, hlookups,
    hcount⟩
  · exact Function.update_of_ne (by rintro rfl; exact hq hfree) ..
  · by_cases hqr : q = r
    · exact (by simpa [hqr, Role.tree] using ht.symm)
    · rw [Function.update_of_ne hqr, hq] at ht
      simp [Role.tree] at ht
  · have hwr : pageOfWord w = r := by
      by_contra hwr
      exact hne (hw w hwr)
    exact Or.inr ⟨by rw [hwr, hfree], by rw [hwr, Function.update_self]; simp⟩
  · simp [hlookups] at he
  · by_cases hqr : q = r
    · rw [hqr, Function.update_self] at hq
      simp at hq
    · rw [Function.update_of_ne hqr] at hq
      have := hroot q r n hq
      simp [hfree] at this

namespace Building

variable {r : ℕ} {ph₀ ph : Phys} {own₀ own : ℕ → Role}

/-- Pages of the kernel are mapped at their own addresses. -/
lemma mapIdentity (h : Building r ph₀ own₀ ph own) {n count flags : ℕ} (hf : flags < 1024)
    (hleaf : isLeaf (flags ||| pteV) = true) (huser : hasFlag (flags ||| pteV) pteU = false)
    (hpages : ∀ i < count, KernelPage (n + i)) (hend : n + count ≤ 2 ^ 27) (hpos : 0 < count) :
    ∃ o ph' own', PageTable.map r (n * pageSize) (n * pageSize) (count * pageSize) flags ph =
        some (o, ph') ∧ Building r ph₀ own₀ ph' own' ∧ Adds r ph own ph' own' ∧
      (∀ m < 2 ^ 27, lookup ph' r m = lookup ph r m ∨ (n ≤ m ∧ m < n + count ∧
        ∃ e, lookup ph' r m = some e ∧ hasFlag e pteU = false)) ∧
      (∀ p, own' p = own p ∨ (own p = .free ∧ (own' p).isTable = true)) ∧
      (o = some () → (∀ i < count, (lookup ph' r (n + i)).isSome = true) ∧
        ph.page.freePages ≤ ph'.page.freePages + 2 * chunks n count) ∧
      (o = none → (∃ i < count, (lookup ph r (n + i)).isSome = true) ∨
        ph.page.freePages < 2 * chunks n count) := by
  have hdiv : count * pageSize / pageSize = count := Nat.mul_div_cancel _ (by decide)
  have hmod : n * pageSize % pageSize = 0 := Nat.mul_mod_left ..
  have hne : count * pageSize ≠ 0 := by
    simp only [pageSize]
    omega
  rw [PageTable.map, if_neg (by simp [hne, hmod]), hdiv]
  obtain ⟨o, ph', own', k, hrun, hk, hdone, hmap, hcost, hfail⟩ :=
    mapPages_spec h.tables h.root hf (n * pageSize) count hend (by
      simp only [pageSize]
      omega)
  have hr' := (hmap.keep r (by simp [h.root])).trans h.root
  have hval : ∀ m, n ≤ m → m < n + k →
      pteToPa (paToPte (n * pageSize + (m - n) * pageSize) (flags ||| pteV)) = m * pageSize := by
    intro m hnm hmk
    rw [← Nat.add_mul, Nat.add_sub_cancel' hnm]
    refine pteToPa_paToPte (flags_or_lt hf) (Nat.mul_mod_left ..) ?_
    simp only [pageSize]
    omega
  have hdata : ∀ q m, own' q = .data r m ↔ own q = .data r m := fun q m => by
    rcases hmap.only q with heq | ⟨hq, htable⟩
    · rw [heq]
    · constructor
      · intro hd
        simp [hd, Role.isTable] at htable
      · intro hd
        simp [hd] at hq
  have hadds : Adds r ph own ph' own' := by
    refine Adds.of_keep (fun q hq _ => hmap.keep q hq) (fun t m w hw => ?_) fun m hm e he => ?_
    · exact hmap.mem_eq (by simp [hw]) (by simp [hw, Role.isTable]) rfl
    · rw [hmap.lookups m hm, if_neg]
      · exact he
      · rintro ⟨hnm, hmk⟩
        have habsent := hmap.absent (m - n) (by omega)
        rw [Nat.add_sub_cancel' hnm, he] at habsent
        simp at habsent
  refine ⟨o, ph', own', hrun, ⟨h.toExtends.trans hmap.toExtends, hmap.tables, hr', ?_, ?_⟩, hadds,
    fun m hm => ?_, hmap.only,
    fun ho => ⟨fun i hi => ?_, hcost ho⟩, fun ho => ?_⟩
  · intro m hm e he
    rw [hmap.lookups m hm] at he
    split at he
    · rename_i hin
      obtain rfl := Option.some.inj he
      refine Or.inl ⟨?_, hval m hin.1 hin.2, ?_, fun hu => ?_⟩
      · have := hpages (m - n) (by omega)
        rwa [Nat.add_sub_cancel' hin.1] at this
      · rw [isLeaf, hasFlag_paToPte (flags_or_lt hf) (by decide)]
        exact hleaf
      · rw [hasFlag_paToPte (flags_or_lt hf) (by decide), huser] at hu
        simp at hu
    · exact (h.space.leaf m hm e he).imp_right fun hu => ⟨(hdata _ _).mpr hu.owned, hu.user⟩
  · intro q m hq
    rw [hdata] at hq
    obtain ⟨hm, e, he, heq⟩ := h.space.data q m hq
    exact ⟨hm, e, hadds.lookups m hm e he, heq⟩
  · rw [hmap.lookups m hm]
    split
    · rename_i hin
      refine Or.inr ⟨hin.1, by omega, _, rfl, ?_⟩
      rw [hasFlag_paToPte (flags_or_lt hf) (by decide), huser]
    · exact Or.inl rfl
  · obtain rfl := hdone.mp ho
    rw [hmap.lookups _ (by omega), if_pos (by omega)]
    rfl
  · have hlt : k < count := by
      refine lt_of_le_of_ne hk fun heq => ?_
      rw [hdone.mpr heq] at ho
      simp at ho
    rcases hfail hlt with hsome | hfew
    · exact Or.inl ⟨k, hlt, hsome⟩
    · refine Or.inr (hfew.trans_le ?_)
      have := chunks_mono (n := n) (show k + 1 ≤ count from hlt)
      omega

end Building

/-! ### The kernel mappings -/

/-- A range of pages that `map_kernel` maps. -/
structure KernelRange where
  /-- The first page. -/
  first : ℕ
  /-- The number of pages. -/
  count : ℕ
  /-- The permissions. -/
  flags : ℕ

/-- The ranges of `map_kernel`: the window, the UART and the PLIC. -/
def kernelRanges : List KernelRange :=
  [⟨0x80200, 4096, pteR ||| pteW ||| pteX⟩, ⟨0x10000, 1, pteR ||| pteW⟩,
    ⟨0xc000, 1, pteR ||| pteW⟩, ⟨0xc002, 1, pteR ||| pteW⟩, ⟨0xc201, 1, pteR ||| pteW⟩]

namespace KernelRange

/-- The page is one of the range. -/
def Mem (c : KernelRange) (m : ℕ) : Prop := c.first ≤ m ∧ m < c.first + c.count

/-- Map the range at its own addresses. -/
def map (r : ℕ) (c : KernelRange) : Fallible Phys Unit :=
  PageTable.map r (c.first * pageSize) (c.first * pageSize) (c.count * pageSize) c.flags

/-- The range is one of supervisor pages of the kernel. -/
structure Ok (c : KernelRange) : Prop where
  pos : 0 < c.count
  flags_lt : c.flags < 1024
  leaf : isLeaf (c.flags ||| pteV) = true
  user : hasFlag (c.flags ||| pteV) pteU = false
  pages : ∀ m, c.Mem m → KernelPage m

/-- The tables that the range needs. -/
def tables (c : KernelRange) : ℕ := 2 * chunks c.first c.count

/-- The range ends inside the address space. -/
lemma Ok.end_le {c : KernelRange} (h : c.Ok) : c.first + c.count ≤ 2 ^ 27 := by
  have hpos := h.pos
  have := (h.pages (c.first + c.count - 1) ⟨by omega, by omega⟩).lt
  omega

end KernelRange

/-- The ranges of `map_kernel` are fine. -/
lemma kernelRanges_ok : ∀ c ∈ kernelRanges, c.Ok := by
  intro c hc
  simp only [kernelRanges, List.mem_cons, List.not_mem_nil, or_false] at hc
  rcases hc with rfl | rfl | rfl | rfl | rfl <;>
    refine ⟨by decide, by decide, by decide, by decide, fun m hm => ?_⟩ <;>
    obtain ⟨h₁, h₂⟩ := hm <;> dsimp only at h₁ h₂ <;> rw [kernelPage_iff] <;> omega

/-- The ranges of `map_kernel` are disjoint. -/
lemma kernelRanges_disjoint : kernelRanges.Pairwise fun c d =>
    c.first + c.count ≤ d.first ∨ d.first + d.count ≤ c.first := by
  simp [kernelRanges]

/-- The ranges of `map_kernel` hold all its pages. -/
lemma kernelPage_iff_mem {m : ℕ} : KernelPage m ↔ ∃ c ∈ kernelRanges, c.Mem m := by
  rw [kernelPage_iff]
  simp only [kernelRanges, KernelRange.Mem, List.mem_cons, List.not_mem_nil, or_false,
    exists_eq_or_imp, exists_eq_left]
  omega

/-- `map_kernel` maps its ranges one after the other. -/
lemma mapKernel_eq (r : ℕ) : Vm.mapKernel r = Fallible.forEach kernelRanges (KernelRange.map r) :=
  rfl

namespace Building

variable {r : ℕ} {ph₀ ph : Phys} {own₀ own : ℕ → Role}

/-- Ranges of the kernel are mapped. -/
lemma mapRanges (h : Building r ph₀ own₀ ph own) (cs : List KernelRange) (hok : ∀ c ∈ cs, c.Ok)
    (hdisj : cs.Pairwise fun c d => c.first + c.count ≤ d.first ∨ d.first + d.count ≤ c.first)
    (hempty : ∀ c ∈ cs, ∀ m, c.Mem m → lookup ph r m = none) :
    ∃ o ph' own', Fallible.forEach cs (KernelRange.map r) ph = some (o, ph') ∧
      Building r ph₀ own₀ ph' own' ∧ Adds r ph own ph' own' ∧
      (∀ m < 2 ^ 27, lookup ph' r m = lookup ph r m ∨ (∃ c ∈ cs, c.Mem m) ∧
        ∃ e, lookup ph' r m = some e ∧ hasFlag e pteU = false) ∧
      (∀ p, own' p = own p ∨ (own p = .free ∧ (own' p).isTable = true)) ∧
      (o = some () → (∀ c ∈ cs, ∀ m, c.Mem m → (lookup ph' r m).isSome = true) ∧
        ph.page.freePages ≤ ph'.page.freePages + (cs.map KernelRange.tables).sum) ∧
      (o = none → ph.page.freePages < (cs.map KernelRange.tables).sum) := by
  induction cs generalizing ph own with
  | nil =>
    exact ⟨some (), ph, own, rfl, h, Adds.refl .., fun m _ => Or.inl rfl, fun _ => Or.inl rfl, by simp,
      by simp⟩
  | cons c cs ih =>
    have hc := hok c (List.mem_cons_self ..)
    obtain ⟨hdisj_c, hdisj⟩ := List.pairwise_cons.mp hdisj
    obtain ⟨o₁, ph₁, own₁, hrun₁, hB₁, hadds₁, hlookups₁, honly₁, hdone₁, hfail₁⟩ :=
      h.mapIdentity hc.flags_lt hc.leaf hc.user
        (fun i hi => hc.pages _ ⟨Nat.le_add_right .., by omega⟩) hc.end_le hc.pos
    rw [Fallible.forEach_cons, List.map_cons, List.sum_cons]
    rcases o₁ with _ | u
    · refine ⟨none, ph₁, own₁, Fallible.bind_of_none hrun₁, hB₁, hadds₁, fun m hm => ?_, honly₁,
        by simp, fun _ => ?_⟩
      · exact (hlookups₁ m hm).imp_right fun ⟨h₁, h₂, h₃⟩ =>
          ⟨⟨c, List.mem_cons_self .., h₁, h₂⟩, h₃⟩
      · rcases hfail₁ rfl with ⟨i, hi, hsome⟩ | hfew
        · rw [hempty c (List.mem_cons_self ..) _ ⟨Nat.le_add_right .., by omega⟩] at hsome
          simp at hsome
        · exact hfew.trans_le (Nat.le_add_right ..)
    · obtain ⟨hsome₁, hcost₁⟩ := hdone₁ rfl
      have hempty₁ : ∀ d ∈ cs, ∀ m, d.Mem m → lookup ph₁ r m = none := fun d hd m hm => by
        have hm' := ((hok d (List.mem_cons_of_mem _ hd)).pages m hm).lt
        rcases hlookups₁ m hm' with heq | ⟨h₁, h₂, -⟩
        · rw [heq]
          exact hempty d (List.mem_cons_of_mem _ hd) m hm
        · have := hdisj_c d hd
          obtain ⟨h₃, h₄⟩ := hm
          omega
      obtain ⟨o₂, ph₂, own₂, hrun₂, hB₂, hadds₂, hlookups₂, honly₂, hdone₂, hfail₂⟩ :=
        ih hB₁ (fun d hd => hok d (List.mem_cons_of_mem _ hd)) hdisj hempty₁
      refine ⟨o₂, ph₂, own₂, (Fallible.bind_of_some hrun₁).trans hrun₂, hB₂, hadds₁.trans hadds₂,
        fun m hm => ?_, fun p => ?_, fun ho => ?_, fun ho => ?_⟩
      · rcases hlookups₂ m hm with heq | ⟨⟨d, hd, hdm⟩, he⟩
        · rw [heq]
          exact (hlookups₁ m hm).imp_right fun ⟨h₁, h₂, h₃⟩ =>
            ⟨⟨c, List.mem_cons_self .., h₁, h₂⟩, h₃⟩
        · exact Or.inr ⟨⟨d, List.mem_cons_of_mem _ hd, hdm⟩, he⟩
      · rcases honly₁ p with h₁ | ⟨hfree, htable⟩
        · rw [← h₁]
          exact honly₂ p
        · rcases honly₂ p with h₂ | ⟨hfree₂, -⟩
          · exact Or.inr ⟨hfree, by rwa [h₂]⟩
          · simp [hfree₂, Role.isTable] at htable
      · obtain ⟨hsome₂, hcost₂⟩ := hdone₂ ho
        refine ⟨fun d hd m hm => ?_, ?_⟩
        · rcases List.mem_cons.mp hd with rfl | hd
          · obtain ⟨h₁, h₂⟩ := hm
            have hsome := hsome₁ (m - d.first) (by omega)
            rw [Nat.add_sub_cancel' h₁] at hsome
            obtain ⟨e, he⟩ := Option.isSome_iff_exists.mp hsome
            rw [hadds₂.lookups m (hc.pages m ⟨h₁, h₂⟩).lt e he]
            rfl
          · exact hsome₂ d hd m hm
        · rw [KernelRange.tables]
          omega
      · have := hfail₂ ho
        rw [KernelRange.tables]
        omega

/-- **The kernel mappings.**  In a tree without them `map_kernel` maps the pages of the kernel, closed
to user mode, unless fewer than 24 pages are left. -/
lemma mapKernel (h : Building r ph₀ own₀ ph own) (hempty : ∀ m, KernelPage m → lookup ph r m = none) :
    ∃ o ph' own', Vm.mapKernel r ph = some (o, ph') ∧ Building r ph₀ own₀ ph' own' ∧
      Adds r ph own ph' own' ∧ (∀ m < 2 ^ 27, ¬ KernelPage m → lookup ph' r m = lookup ph r m) ∧
      UartClosed ph' r ∧ (∀ p, own' p = own p ∨ (own p = .free ∧ (own' p).isTable = true)) ∧
      (o = some () → KernelMapped ph' r ∧ ph.page.freePages ≤ ph'.page.freePages + 24) ∧
      (o = none → ph.page.freePages < 24) := by
  have hsum : (kernelRanges.map KernelRange.tables).sum = 24 := by decide
  obtain ⟨o, ph', own', hrun, hB, hadds, hlookups, honly, hdone, hfail⟩ :=
    h.mapRanges kernelRanges kernelRanges_ok kernelRanges_disjoint fun c hc m hm =>
      hempty m (kernelPage_iff_mem.mpr ⟨c, hc, hm⟩)
  rw [hsum] at hdone hfail
  refine ⟨o, ph', own', by rw [mapKernel_eq, hrun], hB, hadds, fun m hm hnot => ?_, fun e he => ?_,
    honly, fun ho => ⟨fun m hm => ?_, (hdone ho).2⟩, hfail⟩
  · rcases hlookups m hm with heq | ⟨hmem, -⟩
    · exact heq
    · exact absurd (kernelPage_iff_mem.mpr hmem) hnot
  · rcases hlookups uartPage (by decide) with heq | ⟨-, e', he', hu⟩
    · rw [heq, hempty uartPage (by decide)] at he
      simp at he
    · rw [he, Option.some.injEq] at he'
      rwa [he']
  · obtain ⟨c, hc, hcm⟩ := kernelPage_iff_mem.mp hm
    obtain ⟨e, he⟩ := Option.isSome_iff_exists.mp ((hdone ho).1 c hc m hcm)
    refine ⟨e, he, (hB.space.leaf m hm.lt e he).resolve_right fun hu => ?_⟩
    rcases hlookups m hm.lt with heq | ⟨-, e', he', hclosed⟩
    · simp [heq, hempty m hm] at he
    · obtain rfl := Option.some.inj (he.symm.trans he')
      simp [hu.user] at hclosed

end Building

/-- **New address spaces.**  `create` followed by `map_kernel` makes a tree that maps the pages of
the kernel alone, unless fewer than 25 pages are left. -/
lemma create_mapKernel {ph : Phys} {own : ℕ → Role} (hT : Tables ph own)
    (hroot : ∀ p r n, own p = .data r n → own r = .root) :
    (create ph = some (none, ph) ∧ ph.page.freePages = 0) ∨
    ∃ r ph₁ o ph' own', create ph = some (some r, ph₁) ∧ Vm.mapKernel r ph₁ = some (o, ph') ∧
      own r = .free ∧ Building r ph own ph' own' ∧ UartClosed ph' r ∧
      (∀ p, own' p = own p ∨ (own p = .free ∧ (own' p).isTable = true)) ∧
      (∀ m < 2 ^ 27, ¬ KernelPage m → lookup ph' r m = none) ∧
      (o = some () → KernelMapped ph' r ∧ ph.page.freePages ≤ ph'.page.freePages + 25) ∧
      (o = none → ph.page.freePages < 25) := by
  rcases create_root hT hroot with hnone | ⟨r, ph₁, hcreate, hfree, hB, hempty, hcount⟩
  · exact Or.inl hnone
  obtain ⟨o, ph', own', hrun, hB', -, hlookups, hclosed, honly, hdone, hfail⟩ :=
    hB.mapKernel fun m _ => hempty m
  refine Or.inr ⟨r, ph₁, o, ph', own', hcreate, hrun, hfree, hB', hclosed, fun p => ?_,
    fun m hm hnot => ?_,
    fun ho => ⟨(hdone ho).1, ?_⟩, fun ho => ?_⟩
  · by_cases hpr : p = r
    · subst hpr
      exact Or.inr ⟨hfree, by rw [hB'.root]; rfl⟩
    · have honly := honly p
      rwa [Function.update_of_ne hpr] at honly
  · rw [hlookups m hm hnot, hempty]
  · have := (hdone ho).2
    omega
  · have := hfail ho
    omega

/-! ### Abandoned attempts -/

/-- What a failed attempt to build an address space leaves: pages that nothing refers to and at most
one tree, which no task uses. -/
def Abandoned (ph : Phys) (own : ℕ → Role) (ph' : Phys) (own' : ℕ → Role) : Prop :=
  ∃ r, own r = .free ∧ Extends r ph own ph' own' ∧ Tables ph' own' ∧
    (own' r = .root → Space ph' own' r ∧ UartClosed ph' r) ∧
    ∀ p n, own' p = .data r n → own' r = .root

/-- Pages on no page boundary are free. -/
lemma Tables.free_one {ph : Phys} {own : ℕ → Role} (hT : Tables ph own) : own 1 = .free := by
  by_contra hne
  exact absurd (hT.page_aligned hne) (by decide)

/-- Taking pages without a tree. -/
lemma Extends.abandoned {ph ph' : Phys} {own own' : ℕ → Role} (h : Extends 1 ph own ph' own')
    (hT : Tables ph own) (hT' : Tables ph' own') (hroot : ∀ p r n, own p = .data r n → own r = .root)
    (hnew : ∀ p, own p = .free → (own' p).tree p = none) : Abandoned ph own ph' own' := by
  refine ⟨1, hT.free_one, h, hT', fun h1 => ?_, fun p n hp => ?_⟩
  · simp [hT'.free_one] at h1
  · by_cases hfree : own p = .free
    · have := hnew p hfree
      simp [hp, Role.tree] at this
    · rw [h.keep p hfree] at hp
      have := hroot p 1 n hp
      simp [hT.free_one] at this

/-- Nothing has been attempted. -/
lemma Abandoned.refl {ph : Phys} {own : ℕ → Role} (hT : Tables ph own)
    (hroot : ∀ p r n, own p = .data r n → own r = .root) : Abandoned ph own ph own :=
  (Extends.refl 1 ph own).abandoned hT hT hroot fun p hp => by simp [hp, Role.tree]

/-- A new tree is abandoned. -/
lemma Building.abandoned {r : ℕ} {ph ph' : Phys} {own own' : ℕ → Role}
    (h : Building r ph own ph' own') (hfree : own r = .free) (hclosed : UartClosed ph' r) :
    Abandoned ph own ph' own' :=
  ⟨r, hfree, h.toExtends, h.tables, fun _ => ⟨h.space, hclosed⟩, fun _ _ _ => h.root⟩

/-- Abandoned trees map what trees may. -/
lemma Abandoned.spaces {ph ph' : Phys} {own own' : ℕ → Role} (h : Abandoned ph own ph' own')
    (hS : Spaces ph own) : Spaces ph' own' := by
  obtain ⟨r, -, hext, hT', hspace, hdata⟩ := h
  exact hS.of_local hext.toLocal hT' hext.start (fun hr => (hspace hr).1) hdata

end NekOS
