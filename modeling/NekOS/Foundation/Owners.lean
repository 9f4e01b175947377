import Mathlib.Algebra.BigOperators.Group.Finset.Basic
import Mathlib.Data.List.Lattice
import Mathlib.Logic.Function.Basic

/-!
# Owners

Cells that are in use are divided among owners: each of them belongs to exactly one owner.  A change of what
one owner has keeps this if the owner gets free cells alone and the cells that it gives up become free.
-/

namespace NekOS

variable {α κ : Type*} [DecidableEq κ]

/-- The cells in use are divided among the owners. -/
structure Divides (used : α → Prop) (own : κ → List α) : Prop where
  apart : ∀ o o', o ≠ o' → (own o).Disjoint (own o')
  used_iff : ∀ x, used x ↔ ∃ o, x ∈ own o

namespace Divides

variable {used used' : α → Prop} {own : κ → List α} {o o' : κ} {l : List α} {x : α}

omit [DecidableEq κ] in
/-- What an owner has is in use. -/
lemma used_of_mem (h : Divides used own) (hx : x ∈ own o) : used x :=
  (h.used_iff x).mpr ⟨o, hx⟩

omit [DecidableEq κ] in
/-- A cell has one owner. -/
lemma owner_eq (h : Divides used own) (hx : x ∈ own o) (hx' : x ∈ own o') : o = o' := by
  by_contra hne
  exact h.apart o o' hne hx hx'

/-- **A change of what one owner has.**  The owner gets free cells, and what it gives up is free afterwards. -/
theorem update (h : Divides used own) (hfresh : ∀ x ∈ l, x ∈ own o ∨ ¬ used x)
    (hused : ∀ x, used' x ↔ x ∈ l ∨ x ∉ own o ∧ used x) :
    Divides used' (Function.update own o l) := by
  have hother : ∀ o', o' ≠ o → l.Disjoint (own o') := fun o' hne x hx hx' => by
    rcases hfresh x hx with hold | hfree
    · exact hne (h.owner_eq hx' hold)
    · exact hfree (h.used_of_mem hx')
  refine ⟨fun o₁ o₂ hne => ?_, fun x => ?_⟩
  · by_cases h₁ : o₁ = o
    · subst h₁
      rw [Function.update_self, Function.update_of_ne hne.symm]
      exact hother o₂ hne.symm
    · rw [Function.update_of_ne h₁]
      by_cases h₂ : o₂ = o
      · subst h₂
        rw [Function.update_self]
        exact (hother o₁ h₁).symm
      · rw [Function.update_of_ne h₂]
        exact h.apart o₁ o₂ hne
  · rw [hused]
    constructor
    · rintro (hx | ⟨hnot, hx⟩)
      · exact ⟨o, by rwa [Function.update_self]⟩
      · obtain ⟨o', hx'⟩ := (h.used_iff x).mp hx
        have hne : o' ≠ o := fun heq => hnot (heq ▸ hx')
        exact ⟨o', by rwa [Function.update_of_ne hne]⟩
    · rintro ⟨o', hx⟩
      by_cases heq : o' = o
      · subst heq
        rw [Function.update_self] at hx
        exact Or.inl hx
      · rw [Function.update_of_ne heq] at hx
        exact Or.inr ⟨fun hx' => heq (h.owner_eq hx hx'), h.used_of_mem hx⟩

omit [DecidableEq κ] in
/-- **Counting.**  The cells in use are as many as their owners have together. -/
theorem length_eq [DecidableEq α] (h : Divides used own) (hnodup : ∀ o, (own o).Nodup) {os : Finset κ}
    (hos : ∀ o, own o ≠ [] → o ∈ os) (hl : l.Nodup) (hmem : ∀ x, x ∈ l ↔ used x) :
    l.length = ∑ o ∈ os, (own o).length := by
  have hcells : l.toFinset = os.biUnion fun o => (own o).toFinset := by
    ext x
    rw [List.mem_toFinset, hmem, h.used_iff, Finset.mem_biUnion]
    constructor
    · rintro ⟨o, hx⟩
      exact ⟨o, hos o (List.ne_nil_of_mem hx), List.mem_toFinset.mpr hx⟩
    · rintro ⟨o, -, hx⟩
      exact ⟨o, List.mem_toFinset.mp hx⟩
  rw [← List.toFinset_card_of_nodup hl, hcells, Finset.card_biUnion]
  · exact Finset.sum_congr rfl fun o _ => List.toFinset_card_of_nodup (hnodup o)
  · exact fun o _ o' _ hne => List.disjoint_toFinset_iff_disjoint.mpr (h.apart o o' hne)

end Divides

end NekOS
