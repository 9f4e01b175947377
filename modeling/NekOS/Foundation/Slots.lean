import Mathlib.Algebra.BigOperators.Fin
import Mathlib.Algebra.Order.BigOperators.Group.Finset
import Mathlib.Data.Fintype.Basic
import Mathlib.Data.List.FinRange
import Mathlib.Data.List.Rotate

/-!
# Tables of optional records

A table with `n` slots holds a record or nothing in each slot.  The file provides the searches that
programs make in such tables (first slot with a property, first free slot), the number of records
with a property, and how both change when one slot is overwritten.

When the records carry a key and no key occurs twice, a search for a key finds the slot that holds
it (`position_eq_of_key`).
-/

namespace NekOS

/-- A table with `n` slots for records of type `α`. -/
abbrev Slots (n : ℕ) (α : Type) := Fin n → Option α

namespace Slots

variable {n : ℕ} {α κ : Type}

/-- The first slot, in the order of the list, whose record has the property. -/
def search (s : Slots n α) (order : List (Fin n)) (p : α → Bool) : Option (Fin n) :=
  order.find? fun i => (s i).any p

/-- The first slot whose record has the property. -/
def position (s : Slots n α) (p : α → Bool) : Option (Fin n) :=
  s.search (List.finRange n) p

/-- The first slot without a record. -/
def firstFree (s : Slots n α) : Option (Fin n) :=
  (List.finRange n).find? fun i => (s i).isNone

/-- The slots in cyclic order from the slot `start` on. -/
def cyclicFrom (start : ℕ) : List (Fin n) :=
  (List.finRange n).map fun i : Fin n => ⟨(start + i) % n, Nat.mod_lt _ (Fin.pos i)⟩

/-- Overwrite one slot. -/
def set (s : Slots n α) (i : Fin n) (o : Option α) : Slots n α := Function.update s i o

/-- The number of records with the property. -/
def count (s : Slots n α) (p : α → Bool) : ℕ :=
  ∑ i, if (s i).any p then 1 else 0

/-- The overwritten slot holds the new content. -/
@[simp] lemma set_self (s : Slots n α) (i : Fin n) (o : Option α) : s.set i o i = o :=
  Function.update_self ..

/-- The other slots keep their content. -/
lemma set_of_ne {s : Slots n α} {i j : Fin n} (h : j ≠ i) (o : Option α) : s.set i o j = s j :=
  Function.update_of_ne h ..

/-- The content of any slot after one is overwritten. -/
lemma set_apply (s : Slots n α) (i j : Fin n) (o : Option α) :
    s.set i o j = if j = i then o else s j :=
  Function.update_apply ..

/-- Overwriting a slot twice. -/
@[simp] lemma set_set (s : Slots n α) (i : Fin n) (o o' : Option α) :
    (s.set i o).set i o' = s.set i o' :=
  Function.update_idem ..

/-- Overwriting a slot with what it holds. -/
@[simp] lemma set_eq_self (s : Slots n α) (i : Fin n) : s.set i (s i) = s :=
  Function.update_eq_self ..

/-! ### Searching -/

/-- A search finds a record with the property. -/
lemma search_eq_some {s : Slots n α} {order : List (Fin n)} {p : α → Bool} {i : Fin n}
    (h : s.search order p = some i) : ∃ a, s i = some a ∧ p a = true := by
  have := List.find?_some h
  simpa [Option.any_eq_true] using this

/-- A search that visits a record with the property finds one. -/
lemma search_isSome {s : Slots n α} {order : List (Fin n)} {p : α → Bool} {i : Fin n} {a : α}
    (hi : i ∈ order) (ha : s i = some a) (hp : p a = true) : (s.search order p).isSome := by
  rw [search, List.find?_isSome]
  exact ⟨i, hi, by simp [ha, hp]⟩

/-- A search fails exactly when no visited record has the property. -/
lemma search_eq_none {s : Slots n α} {order : List (Fin n)} {p : α → Bool} :
    s.search order p = none ↔ ∀ i ∈ order, ∀ a, s i = some a → p a = false := by
  simp only [search, List.find?_eq_none]
  refine forall₂_congr fun i _ => ?_
  cases h : s i <;> simp

/-- The first slot with the property holds a record with the property. -/
lemma position_eq_some {s : Slots n α} {p : α → Bool} {i : Fin n} (h : s.position p = some i) :
    ∃ a, s i = some a ∧ p a = true :=
  search_eq_some h

/-- There is a first slot with the property when some slot has it. -/
lemma position_isSome {s : Slots n α} {p : α → Bool} {i : Fin n} {a : α}
    (ha : s i = some a) (hp : p a = true) : ∃ j, s.position p = some j :=
  Option.isSome_iff_exists.mp (search_isSome (List.mem_finRange i) ha hp)

/-- There is no slot with the property when the search fails. -/
lemma position_eq_none {s : Slots n α} {p : α → Bool} :
    s.position p = none ↔ ∀ i a, s i = some a → p a = false := by
  simp [position, search_eq_none]

/-- When a property is met by one slot only, the search finds that slot. -/
lemma position_eq_of_unique {s : Slots n α} {p : α → Bool} {i : Fin n} {a : α}
    (ha : s i = some a) (hp : p a = true)
    (huniq : ∀ j b, s j = some b → p b = true → j = i) : s.position p = some i := by
  obtain ⟨j, hj⟩ := position_isSome ha hp
  obtain ⟨b, hb, hpb⟩ := position_eq_some hj
  rw [hj, huniq j b hb hpb]

/-- When no key occurs twice, the search for a key finds the slot that holds it. -/
lemma position_eq_of_key [DecidableEq κ] {s : Slots n α} {key : α → κ}
    (huniq : ∀ i j a b, s i = some a → s j = some b → key a = key b → i = j)
    {i : Fin n} {a : α} (ha : s i = some a) :
    s.position (fun b => decide (key b = key a)) = some i :=
  position_eq_of_unique ha (by simp) fun j b hb hkey =>
    huniq j i b a hb ha (by simpa using hkey)

/-- The first free slot is free. -/
lemma firstFree_eq_some {s : Slots n α} {i : Fin n} (h : s.firstFree = some i) : s i = none := by
  have := List.find?_some h
  simpa using this

/-- There is a first free slot when some slot is free. -/
lemma firstFree_isSome {s : Slots n α} {i : Fin n} (h : s i = none) :
    ∃ j, s.firstFree = some j := by
  rw [← Option.isSome_iff_exists, firstFree, List.find?_isSome]
  exact ⟨i, List.mem_finRange i, by simp [h]⟩

/-- The cyclic order visits every slot. -/
lemma mem_cyclicFrom (start : ℕ) (i : Fin n) : i ∈ (cyclicFrom start : List (Fin n)) := by
  have hn : 0 < n := Fin.pos i
  simp only [cyclicFrom, List.mem_map, List.mem_finRange, true_and]
  refine ⟨⟨(i + (n - start % n)) % n, Nat.mod_lt _ hn⟩, Fin.ext ?_⟩
  have hs : start % n < n := Nat.mod_lt _ hn
  simp only [Nat.add_mod_mod]
  rw [← Nat.mod_add_mod, show start % n + (i.val + (n - start % n)) = i.val + n by omega,
    Nat.add_mod_right, Nat.mod_eq_of_lt i.isLt]

/-- The cyclic order is a rotation of the order of the slots. -/
lemma cyclicFrom_eq_rotate (start : ℕ) :
    (cyclicFrom start : List (Fin n)) = (List.finRange n).rotate start := by
  refine List.ext_getElem (by simp [cyclicFrom]) fun k h₁ h₂ => ?_
  rw [List.getElem_rotate]
  simp [cyclicFrom, Nat.add_comm]

/-- The cyclic order visits no slot twice. -/
lemma nodup_cyclicFrom (start : ℕ) : (cyclicFrom start : List (Fin n)).Nodup := by
  rw [cyclicFrom_eq_rotate, List.nodup_rotate]
  exact List.nodup_finRange n

/-- The cyclic order depends on the start modulo the number of slots. -/
lemma cyclicFrom_mod (start : ℕ) :
    (cyclicFrom (start % n) : List (Fin n)) = cyclicFrom start := by
  have h := List.rotate_mod (List.finRange n) start
  rw [List.length_finRange] at h
  rw [cyclicFrom_eq_rotate, cyclicFrom_eq_rotate, h]

/-- The cyclic order that goes on after a slot. -/
lemma cyclicFrom_succ {start : ℕ} {i : Fin n} {before after : List (Fin n)}
    (h : cyclicFrom start = before ++ i :: after) :
    (cyclicFrom (i + 1) : List (Fin n)) = after ++ (before ++ [i]) := by
  have hi : (start + before.length) % n = i := by
    have hlt : before.length < (cyclicFrom start : List (Fin n)).length := by simp [h]
    have hget : (cyclicFrom start : List (Fin n))[before.length] = i := by simp [h]
    rw [← hget]
    simp [cyclicFrom]
  have hmod : (cyclicFrom (i + 1) : List (Fin n)) = cyclicFrom (start + (before.length + 1)) := by
    rw [← cyclicFrom_mod (start + (before.length + 1)), ← cyclicFrom_mod (i + 1), ← hi,
      Nat.mod_add_mod, Nat.add_assoc]
  have hsplit : before ++ i :: after = (before ++ [i]) ++ after := by simp
  have hlen : before.length + 1 = (before ++ [i]).length := by simp
  rw [hmod, cyclicFrom_eq_rotate, ← List.rotate_rotate, ← cyclicFrom_eq_rotate, h, hsplit, hlen,
    List.rotate_append_length_eq]

/-- The slot before the start comes last. -/
lemma cyclicFrom_succ_last (i : Fin n) : ∃ before : List (Fin n),
    cyclicFrom (i + 1) = before ++ [i] ∧ i ∉ before := by
  obtain ⟨before, after, h⟩ := List.append_of_mem (mem_cyclicFrom 0 i)
  have hlast := cyclicFrom_succ h
  rw [← List.append_assoc] at hlast
  refine ⟨_, hlast, ?_⟩
  have hnodup := nodup_cyclicFrom (n := n) (i + 1)
  rw [hlast, List.nodup_append] at hnodup
  exact fun hi => hnodup.2.2 i hi i (List.mem_singleton_self i) rfl

/-! ### Collecting -/

/-- What all slots yield, when only one of them yields anything. -/
lemma filterMap_eq_singleton {β : Type} {f : Fin n → Option β} {i : Fin n} {b : β}
    (hi : f i = some b) (hne : ∀ j, j ≠ i → f j = none) :
    (List.finRange n).filterMap f = [b] := by
  have hmem : i ∈ List.finRange n := List.mem_finRange i
  have hnodup : (List.finRange n).Nodup := List.nodup_finRange n
  generalize List.finRange n = slots at hmem hnodup
  induction slots with
  | nil => simp at hmem
  | cons j slots ih =>
    rw [List.nodup_cons] at hnodup
    by_cases hj : j = i
    · subst hj
      rw [List.filterMap_cons_some hi]
      congr 1
      rw [List.filterMap_eq_nil_iff]
      exact fun l hl => hne l fun heq => hnodup.1 (heq ▸ hl)
    · rw [List.filterMap_cons_none (hne j hj)]
      exact ih (List.mem_of_ne_of_mem (Ne.symm hj) hmem) hnodup.2

/-! ### Counting -/

/-- The count changes by the overwritten slot alone. -/
lemma count_set (s : Slots n α) (i : Fin n) (o : Option α) (p : α → Bool) :
    (s.set i o).count p + (if (s i).any p then 1 else 0) =
      s.count p + (if o.any p then 1 else 0) := by
  have h₁ := Finset.add_sum_erase Finset.univ (fun j => if (s j).any p then 1 else 0)
    (Finset.mem_univ i)
  have h₂ := Finset.add_sum_erase Finset.univ (fun j => if (s.set i o j).any p then 1 else 0)
    (Finset.mem_univ i)
  have h₃ : ∑ j ∈ Finset.univ.erase i, (if (s.set i o j).any p then 1 else 0) =
      ∑ j ∈ Finset.univ.erase i, (if (s j).any p then 1 else 0) := by
    refine Finset.sum_congr rfl fun j hj => ?_
    rw [set_of_ne (Finset.ne_of_mem_erase hj)]
  rw [h₃, set_self] at h₂
  simp only [count]
  omega

/-- Overwriting a slot keeps the count when old and new content agree on the property. -/
lemma count_set_eq {s : Slots n α} {i : Fin n} {o : Option α} {p : α → Bool}
    (h : (s i).any p = o.any p) : (s.set i o).count p = s.count p := by
  have := count_set s i o p
  rw [h] at this
  omega

/-- Gaining a record with the property. -/
lemma count_set_gain {s : Slots n α} {i : Fin n} {o : Option α} {p : α → Bool}
    (h : (s i).any p = false) (ho : o.any p = true) : (s.set i o).count p = s.count p + 1 := by
  have := count_set s i o p
  rw [h, ho] at this
  simpa using this

/-- Losing a record with the property. -/
lemma count_set_loss {s : Slots n α} {i : Fin n} {o : Option α} {p : α → Bool}
    (h : (s i).any p = true) (ho : o.any p = false) : (s.set i o).count p + 1 = s.count p := by
  have := count_set s i o p
  rw [h, ho] at this
  simpa using this

/-- A record with the property makes the count positive. -/
lemma count_pos {s : Slots n α} {i : Fin n} {p : α → Bool} (h : (s i).any p = true) :
    0 < s.count p := by
  have := count_set_loss (s := s) (i := i) (o := none) h rfl
  omega

/-- The count does not grow when no slot gains the property. -/
lemma count_mono {s t : Slots n α} {p : α → Bool} (h : ∀ i, (s i).any p = true → (t i).any p = true) :
    s.count p ≤ t.count p := by
  refine Finset.sum_le_sum fun i _ => ?_
  have hi := h i
  split <;> simp_all

/-- The count falls when moreover some slot loses the property. -/
lemma count_lt {s t : Slots n α} {p : α → Bool} (h : ∀ i, (s i).any p = true → (t i).any p = true)
    {i : Fin n} (hi : (t i).any p = true) (hs : (s i).any p = false) : s.count p < t.count p := by
  refine Finset.sum_lt_sum (fun j _ => ?_) ⟨i, Finset.mem_univ i, by simp [hi, hs]⟩
  have hj := h j
  split <;> simp_all

/-- The property is met by one record at most when it determines the slot. -/
lemma count_le_one {s : Slots n α} {p : α → Bool}
    (h : ∀ i j a b, s i = some a → s j = some b → p a = true → p b = true → i = j) :
    s.count p ≤ 1 := by
  by_cases hany : ∃ i, (s i).any p = true
  · obtain ⟨i, hi⟩ := hany
    have hrest : (s.set i none).count p = 0 := by
      refine Finset.sum_eq_zero fun j _ => if_neg fun hj => ?_
      rw [set_apply] at hj
      split at hj
      · simp at hj
      · rename_i hne
        obtain ⟨a, ha, hpa⟩ := (Option.any_eq_true p (s i)).mp hi
        obtain ⟨b, hb, hpb⟩ := (Option.any_eq_true p (s j)).mp hj
        exact hne (h j i b a hb ha hpb hpa)
    have hloss := count_set_loss (s := s) (i := i) (o := none) hi rfl
    omega
  · refine le_of_eq_of_le (Finset.sum_eq_zero fun i _ => if_neg fun hi => hany ⟨i, hi⟩) (by simp)

/-- There are at most as many records as slots. -/
lemma count_le (s : Slots n α) (p : α → Bool) : s.count p ≤ n := by
  have h := Finset.sum_le_card_nsmul Finset.univ
    (fun i => if (s i).any p then 1 else 0) 1 fun i _ => by split <;> omega
  simpa [count] using h

/-- An empty table has no record with the property. -/
lemma count_none (p : α → Bool) : Slots.count (fun _ : Fin n => none) p = 0 := by
  simp [count]

/-- The count depends only on which slots have the property. -/
lemma count_congr {s t : Slots n α} {p : α → Bool} (h : ∀ i, (s i).any p = (t i).any p) :
    s.count p = t.count p := by
  simp only [count, h]

end Slots

end NekOS
