import NekOS.AddressSpace.Overreach

/-!
# Teardown frees what a task owns

The space of a task holds the tables of its page table and the pages that its entries refer to, apart
from the entries of the kernel.  Reaping a task frees these pages and its kernel stack, and `exec` the
pages of the old space: every one of them once, at a moment when it is allocated, and no other page.
-/

namespace NekOS

open PageTable

/-- A page that the space of the task holds: one of the tables, or a page that an entry other than
those of the kernel refers to. -/
def Task.SpacePage (ph : Phys) (t : Task) (p : ℕ) : Prop :=
  TablePage ph t.pagetable p ∨
    ∃ n < 2 ^ 27, ¬ KernelPage n ∧ ∃ e, lookup ph t.pagetable n = some e ∧ pteToPa e = p

variable {ph ph' : Phys} {own own' : ℕ → Role} {r p : ℕ} {t : Task}

/-- The pages of a tree of page tables, by their roles. -/
lemma Tables.tablePage_iff (hT : Tables ph own) (hr : own r = .root) :
    TablePage ph r p ↔ (own p).isTable = true ∧ (own p).tree p = some r := by
  constructor
  · rintro (rfl | ⟨i, mid, hmid, rfl | ⟨j, hlow⟩⟩)
    · rw [hr]
      exact ⟨rfl, rfl⟩
    · rw [(hT.child_root hr).mp hmid]
      exact ⟨rfl, rfl⟩
    · rw [(hT.child_mid ((hT.child_root hr).mp hmid)).mp hlow]
      exact ⟨rfl, rfl⟩
  · rintro ⟨htable, htree⟩
    cases hp : own p with
    | root =>
      rw [hp, Role.tree, Option.some.injEq] at htree
      exact Or.inl htree
    | mid q i =>
      rw [hp, Role.tree, Option.some.injEq] at htree
      subst htree
      exact Or.inr ⟨i, p, (hT.child_root hr).mpr hp, Or.inl rfl⟩
    | low q i j =>
      rw [hp, Role.tree, Option.some.injEq] at htree
      subst htree
      obtain ⟨mid, hmid, -⟩ := hT.low_link p q i j hp
      exact Or.inr ⟨i, mid, (hT.child_root hr).mpr hmid, Or.inr ⟨j, (hT.child_mid hmid).mpr hp⟩⟩
    | free | data | stack | lost => simp [hp, Role.isTable] at htable

/-- The pages of a space, by their roles. -/
lemma Home.spacePage_iff (h : Home true ph own t) (hS : Spaces ph own) :
    t.SpacePage ph p ↔ ((own p).isTable = true ∧ (own p).tree p = some t.pagetable) ∨
      ∃ n, own p = .data t.pagetable n ∧
        ((t.imagePage ≤ n ∧ n < t.heapTop) ∨ p = t.userStack) := by
  have hspace := hS.space _ h.root
  rw [Task.SpacePage, hS.tables.tablePage_iff h.root]
  refine or_congr Iff.rfl ⟨?_, ?_⟩
  · rintro ⟨n, hn, hk, e, he, rfl⟩
    have howned := ((hspace.leaf n hn e he).resolve_left fun hleaf => hk hleaf.page).owned
    refine ⟨n, howned, ?_⟩
    rcases h.within n hn e he with hk' | ⟨-, hpa, -⟩ | hin | ⟨hstrict, -⟩
    · exact absurd hk' hk
    · exact Or.inr hpa
    · exact Or.inl hin
    · exact absurd hstrict (by decide)
  · rintro ⟨n, hp, hin⟩
    obtain ⟨hn, e, he, hpa⟩ := hspace.data p n hp
    refine ⟨n, hn, fun hk => ?_, e, he, hpa⟩
    have hallocated := hS.tables.allocated (p := p) (by rw [hp]; simp)
    have hstart := hS.start_le.trans hallocated.start_le
    rcases hin with hin | rfl
    · obtain ⟨e', he', hleaf⟩ := h.kernel n hk
      obtain rfl := Option.some.inj (he.symm.trans he')
      have hlow := h.releasable.window n (h.layout.mem_spacePages.mpr hin) hk
      rw [← hleaf.pa, hpa] at hlow
      omega
    · rcases h.stack with hzero | hstack
      · rw [hzero] at hstart
        exact absurd hstart (by decide)
      · rw [hstack, Role.data.injEq] at hp
        rw [← hp.2] at hk
        exact absurd hk (by decide)

/-- The pages of a space are allocated. -/
lemma Home.allocated_of_spacePage (h : Home true ph own t) (hS : Spaces ph own)
    (hp : t.SpacePage ph p) : ph.page.Allocated p := by
  refine hS.tables.allocated fun hfree => ?_
  rcases (h.spacePage_iff hS).mp hp with ⟨htable, -⟩ | ⟨n, hdata, -⟩
  · simp [hfree, Role.isTable] at htable
  · simp [hfree] at hdata

/-- The allocated pages after a change of roles that gives up some pages and keeps the others. -/
lemma Tables.allocated_iff_of_roles (hT : Tables ph own) (hT' : Tables ph' own') {Q : Prop}
    (hfree : Q → own' p = .free) (hkeep : ¬ Q → (own' p = .free ↔ own p = .free)) :
    ph'.page.Allocated p ↔ ph.page.Allocated p ∧ ¬ Q := by
  have h₁ := hT.free_iff p
  have h₂ := hT'.free_iff p
  by_cases hQ : Q
  · have hnot := h₂.mp (hfree hQ)
    exact ⟨fun ha => absurd ha hnot, fun h => absurd hQ h.2⟩
  · have hkeep := hkeep hQ
    rw [h₁, h₂, not_iff_not] at hkeep
    simp [hQ, hkeep]

/-- A page of the tree that its space does not hold is no table, and it is none of the pages that are
visited. -/
lemma Home.data_of_not_spacePage (h : Home true ph own t) (hS : Spaces ph own)
    (hp : ¬ t.SpacePage ph p) (htree : (own p).tree p = some t.pagetable) :
    ∃ n, own p = .data t.pagetable n ∧ ¬ ((t.imagePage ≤ n ∧ n < t.heapTop) ∨ p = t.userStack) := by
  rw [h.spacePage_iff hS, not_or] at hp
  cases hown : own p with
  | data q n =>
    rw [hown, Role.tree, Option.some.injEq] at htree
    subst htree
    exact ⟨n, rfl, fun hin => hp.2 ⟨n, hown, hin⟩⟩
  | root | mid | low => exact absurd ⟨by rw [hown]; rfl, htree⟩ hp.1
  | free | stack | lost => simp [hown, Role.tree] at htree

/-- The old space that `exec` releases is freed, every page once, and nothing else is. -/
lemma Home.release_exact (h : Home true ph own t) (hS : Spaces ph own) (check : Bool) :
    ∃ ph', Kernel.freeUserSpaceWith check t.pagetable t.userStack t.imageBase t.imageSize t.heapBase
        t.heapEnd ph = some (some (), ph') ∧
      ∀ p, ph'.page.Allocated p ↔ ph.page.Allocated p ∧ ¬ t.SpacePage ph p := by
  obtain ⟨ph', own', hrun, hrel⟩ := h.release hS check
  refine ⟨ph', hrun, fun p => hS.tables.allocated_iff_of_roles hrel.tables (fun hp => ?_) fun hp => ?_⟩
  · rcases (h.spacePage_iff hS).mp hp with ⟨htable, htree⟩ | ⟨n, hdata, hin⟩
    · exact hrel.table p htable htree
    · rw [hrel.data p n hdata, if_pos]
      rwa [h.layout.mem_spacePages]
  · by_cases htree : (own p).tree p = some t.pagetable
    · obtain ⟨n, hdata, hout⟩ := h.data_of_not_spacePage hS hp htree
      rw [← h.layout.mem_spacePages] at hout
      rw [hrel.data p n hdata, if_neg hout, hdata]
      simp
    · rw [hrel.outside p htree]

/-- A task that is reaped is freed, every page once, and nothing else is. -/
lemma Home.vacate_exact (h : Home true ph own t) (hS : Spaces ph own) (check : Bool) :
    ∃ ph', Kernel.freeTaskWith check t ph = some (some (), ph') ∧
      ∀ p, ph'.page.Allocated p ↔
        ph.page.Allocated p ∧ ¬ (t.SpacePage ph p ∨ p = t.kernelStack) := by
  obtain ⟨ph', own', hrun, hv⟩ := h.vacate hS check
  refine ⟨ph', hrun, fun p =>
    hS.tables.allocated_iff_of_roles hv.spaces.tables (fun hp => ?_) fun hp => ?_⟩
  · rcases hp with hp | rfl
    · rcases (h.spacePage_iff hS).mp hp with ⟨htable, htree⟩ | ⟨n, hdata, hin⟩
      · exact hv.table p htable htree
      · rw [hv.data p n hdata, if_pos hin]
    · exact hv.kernelStack
  · rw [not_or] at hp
    by_cases htree : (own p).tree p = some t.pagetable
    · obtain ⟨n, hdata, hout⟩ := h.data_of_not_spacePage hS hp.1 htree
      rw [hv.data p n hdata, if_neg hout, hdata]
      simp
    · rw [hv.outside p htree hp.2]

/-! ### Runs -/

namespace System

open Kernel

end System

end NekOS
