import NekOS.Kernel.Task
import NekOS.Paging.Loops

/-!
# Address spaces

The page table of a program maps two kinds of pages: the pages that `map_kernel` puts in every table,
each at its own physical address, and the pages of the program.  `Space` says that a tree of tables
maps nothing else, and that it reaches a page of a program in one place only, the one that the role of
the page names.  `Spaces` says this of all trees.
-/

namespace NekOS

open PageTable

/-- The page of the UART registers. -/
def uartPage : ℕ := uartBase / pageSize

/-- The page of the user stack. -/
def stackPage : ℕ := (userStackTop - pageSize) / pageSize

/-- The pages that `map_kernel` maps. -/
def KernelPage (n : ℕ) : Prop :=
  (kernelStart / pageSize ≤ n ∧ n < (kernelStart + kernelSize) / pageSize) ∨ n = uartPage ∨
    ∃ addr ∈ plicPages, n = addr / pageSize

/-- The pages that `map_kernel` maps, by number. -/
lemma kernelPage_iff {n : ℕ} : KernelPage n ↔ (0x80200 ≤ n ∧ n < 0x81200) ∨ n = 0x10000 ∨
    n = 0xc000 ∨ n = 0xc002 ∨ n = 0xc201 := by
  simp [KernelPage, kernelStart, kernelSize, pageSize, uartPage, uartBase, plicPages]

instance : DecidablePred KernelPage := fun _ => decidable_of_iff _ kernelPage_iff.symm

/-- A leaf that `map_kernel` has made.  Only that of the UART can be open to user mode. -/
structure KernelLeaf (n e : ℕ) : Prop where
  page : KernelPage n
  pa : pteToPa e = n * pageSize
  leaf : isLeaf e = true
  user : hasFlag e pteU = true → n = uartPage

/-- A leaf for a page of the program whose page table has the root `r`. -/
structure UserLeaf (own : ℕ → Role) (r n e : ℕ) : Prop where
  owned : own (pteToPa e) = .data r n
  user : hasFlag e pteU = true

/-- The tree with the root `r` maps pages of the kernel and pages of its program. -/
structure Space (ph : Phys) (own : ℕ → Role) (r : ℕ) : Prop where
  leaf : ∀ n < 2 ^ 27, ∀ e, lookup ph r n = some e → KernelLeaf n e ∨ UserLeaf own r n e
  data : ∀ p n, own p = .data r n → n < 2 ^ 27 ∧ ∃ e, lookup ph r n = some e ∧ pteToPa e = p

/-- All trees map pages of the kernel and pages of their programs. -/
structure Spaces (ph : Phys) (own : ℕ → Role) : Prop where
  tables : Tables ph own
  /-- The managed pages come after the start of the kernel. -/
  start_le : kernelStart ≤ ph.page.startAddr
  space : ∀ r, own r = .root → Space ph own r
  root : ∀ p r n, own p = .data r n → own r = .root

/-- The pages of the kernel are mapped. -/
def KernelMapped (ph : Phys) (r : ℕ) : Prop :=
  ∀ n, KernelPage n → ∃ e, lookup ph r n = some e ∧ KernelLeaf n e

/-- The pages of the kernel have entries. -/
lemma KernelMapped.isSome {ph : Phys} {r n : ℕ} (h : KernelMapped ph r) (hn : KernelPage n) :
    (lookup ph r n).isSome = true := by
  obtain ⟨e, he, -⟩ := h n hn
  rw [he]
  rfl

/-- The pages of the kernel have 27-bit numbers. -/
lemma KernelPage.lt {n : ℕ} (h : KernelPage n) : n < 2 ^ 27 := by
  rw [kernelPage_iff] at h
  omega

namespace Space

variable {ph ph' : Phys} {own own' : ℕ → Role} {r t : ℕ}

/-- An operation on another tree. -/
lemma of_local (hS : Space ph own t) (h : Local r ph own ph' own') (hT : Tables ph own)
    (hT' : Tables ph' own') (ht : own t = .root) (hne : t ≠ r) : Space ph' own' t where
  leaf n hn e he := by
    rw [h.lookup_eq hT hT' ht hne] at he
    refine (hS.leaf n hn e he).imp_right fun hu => ⟨?_, hu.user⟩
    exact (h.role_iff hne (by rfl)).mpr hu.owned
  data p n hp := by
    rw [h.role_iff hne (by rfl)] at hp
    rw [h.lookup_eq hT hT' ht hne]
    exact hS.data p n hp

/-- Adding tables without entries. -/
lemma of_lookups (hS : Space ph own r) (hlookups : ∀ n < 2 ^ 27, lookup ph' r n = lookup ph r n)
    (hdata : ∀ p n, own' p = .data r n ↔ own p = .data r n) : Space ph' own' r where
  leaf n hn e he := by
    rw [hlookups n hn] at he
    exact (hS.leaf n hn e he).imp_right fun hu => ⟨(hdata _ _).mpr hu.owned, hu.user⟩
  data p n hp := by
    obtain ⟨hn, h⟩ := hS.data p n ((hdata p n).mp hp)
    rw [hlookups n hn]
    exact ⟨hn, h⟩

end Space

namespace Spaces

variable {ph ph' : Phys} {own own' : ℕ → Role} {r : ℕ}

/-- An operation on one tree. -/
lemma of_local (hS : Spaces ph own) (h : Local r ph own ph' own') (hT' : Tables ph' own')
    (hstart : ph'.page.startAddr = ph.page.startAddr)
    (hspace : own' r = .root → Space ph' own' r)
    (hroot : ∀ p n, own' p = .data r n → own' r = .root) : Spaces ph' own' where
  tables := hT'
  start_le := by rw [hstart]; exact hS.start_le
  space t ht := by
    by_cases htr : t = r
    · subst htr
      exact hspace ht
    · have ht₀ := (h.role_iff htr (by rfl)).mp ht
      exact (hS.space t ht₀).of_local h hS.tables hT' ht₀ htr
  root p t n hp := by
    by_cases htr : t = r
    · subst htr
      exact hroot p n hp
    · exact (h.role_iff htr (by rfl)).mpr (hS.root p t n ((h.role_iff htr (by rfl)).mp hp))

/-- A change outside all trees. -/
lemma of_quiet (hS : Spaces ph own) (h : ∀ r, Local r ph own ph' own') (hT' : Tables ph' own')
    (hstart : ph'.page.startAddr = ph.page.startAddr) : Spaces ph' own' where
  tables := hT'
  start_le := by rw [hstart]; exact hS.start_le
  space t ht := by
    have hne : t ≠ t + 1 := by omega
    have ht₀ := ((h (t + 1)).role_iff hne (by rfl)).mp ht
    exact (hS.space t ht₀).of_local (h (t + 1)) hS.tables hT' ht₀ hne
  root p t n hp := by
    have hne : t ≠ t + 1 := by omega
    rw [(h (t + 1)).role_iff hne (by rfl)] at hp ⊢
    exact hS.root p t n hp

end Spaces

/-! ### Pages outside the trees -/

/-- Changes of pages that belong to no tree. -/
lemma Local.of_no_tree {ph ph' : Phys} {own own' : ℕ → Role} (r : ℕ)
    (hown : ∀ p, own' p ≠ own p → (own p).tree p = none ∧ (own' p).tree p = none)
    (hw : ∀ w, ph'.mem w ≠ ph.mem w → (own (pageOfWord w)).tree (pageOfWord w) = none) :
    Local r ph own ph' own' where
  keep p t _ h := by
    by_contra hne
    obtain ⟨h₁, h₂⟩ := hown p hne
    rcases h with h | h
    · simp [h₁] at h
    · simp [h₂] at h
  writes w hne t _ := by
    rw [hw w hne]
    simp

/-- A page of no tree gets another role outside the trees. -/
lemma Local.update {ph ph' : Phys} {own : ℕ → Role} {p : ℕ} {ρ : Role} (r : ℕ)
    (hmem : ph'.mem = ph.mem) (hp : (own p).tree p = none) (hρ : ρ.tree p = none) :
    Local r ph own ph' (Function.update own p ρ) := by
  refine Local.of_no_tree r (fun q hq => ?_) fun w hw => absurd (by rw [hmem]) hw
  by_cases hqp : q = p
  · subst hqp
    rw [Function.update_self]
    exact ⟨hp, hρ⟩
  · exact absurd (Function.update_of_ne hqp ..) hq

/-- Writing to a page of no tree. -/
lemma Local.write {ph ph' : Phys} {own : ℕ → Role} {p : ℕ} (r : ℕ) (hp : (own p).tree p = none)
    (hw : ∀ w, pageOfWord w ≠ p → ph'.mem w = ph.mem w) : Local r ph own ph' own := by
  refine Local.of_no_tree r (fun q hq => absurd rfl hq) fun w hne => ?_
  by_cases hwp : pageOfWord w = p
  · rw [hwp]
    exact hp
  · exact absurd (hw w hwp) hne

/-- A page is taken from the allocator. -/
lemma Extends.take {ph ph' : Phys} {own : ℕ → Role} {p : ℕ} {ρ : Role} (r : ℕ)
    (hfree : own p = .free) (hmem : ph'.mem = ph.mem)
    (hstart : ph'.page.startAddr = ph.page.startAddr)
    (htotal : ph'.page.totalPages = ph.page.totalPages) (hρ : ρ.tree p = none) :
    Extends r ph own ph' (Function.update own p ρ) where
  keep q hq := Function.update_of_ne (by rintro rfl; exact hq hfree) ..
  new q hq t ht := by
    by_cases hqp : q = p
    · subst hqp
      simp [hρ] at ht
    · rw [Function.update_of_ne hqp, hq] at ht
      simp [Role.tree] at ht
  writes w hw := absurd (by rw [hmem]) hw
  start := hstart
  total := htotal

/-- Writing to a page that has been taken since. -/
lemma Extends.fill {r : ℕ} {ph ph₁ ph₂ : Phys} {own own₁ : ℕ → Role} {p : ℕ}
    (h : Extends r ph own ph₁ own₁) (hfree : own p = .free) (hp : own₁ p ≠ .free)
    (hpage : ph₂.page = ph₁.page) (hw : ∀ w, pageOfWord w ≠ p → ph₂.mem w = ph₁.mem w) :
    Extends r ph own ph₂ own₁ where
  keep := h.keep
  new := h.new
  writes w hne := by
    by_cases hwp : pageOfWord w = p
    · exact Or.inr ⟨by rw [hwp, hfree], by rwa [hwp]⟩
    · rw [hw w hwp] at hne
      exact h.writes w hne
  start := by rw [hpage, h.start]
  total := by rw [hpage, h.total]

/-- A page that has been taken since joins the tree. -/
lemma Extends.relabel {r : ℕ} {ph ph' : Phys} {own own' : ℕ → Role} {p : ℕ} {ρ : Role}
    (h : Extends r ph own ph' own') (hfree : own p = .free) (hp : (own' p).isTable = false)
    (hρ : ρ ≠ .free) (htree : ∀ t, ρ.tree p = some t → t = r) :
    Extends r ph own ph' (Function.update own' p ρ) where
  keep q hq := by
    rw [Function.update_of_ne (by rintro rfl; exact hq hfree), h.keep q hq]
  new q hq t ht := by
    by_cases hqp : q = p
    · subst hqp
      rw [Function.update_self] at ht
      exact htree t ht
    · rw [Function.update_of_ne hqp] at ht
      exact h.new q hq t ht
  writes w hne := by
    by_cases hwp : pageOfWord w = p
    · exact Or.inr ⟨by rw [hwp, hfree], by rw [hwp, Function.update_self]; exact hρ⟩
    · rw [Function.update_of_ne hwp]
      exact h.writes w hne
  start := h.start
  total := h.total

end NekOS
