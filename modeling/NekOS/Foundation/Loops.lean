import Mathlib.Data.List.Range

/-!
# Loops that can be left

The body of a loop goes on with a state or leaves the function with a result.  `forEach` runs over a
list, `loop` repeats until it is left, for at most a given number of rounds.  Both have a rule: what one
round establishes the whole loop does.
-/

namespace NekOS

/-- What a round of a loop does: it leaves the function with a result, or the next round gets a state. -/
inductive Flow (ρ σ : Type*)
  | ret (r : ρ)
  | next (s : σ)

namespace Flow

variable {α ρ σ τ : Type*}

/-- The result has one property, the state another. -/
def Post (Q : ρ → Prop) (P : σ → Prop) : Flow ρ σ → Prop
  | ret r => Q r
  | next s => P s

/-- Go on, if the function has not been left. -/
def andThen (x : Flow ρ σ) (f : σ → Flow ρ τ) : Flow ρ τ :=
  match x with
  | ret r => ret r
  | next s => f s

/-- Change the result and the state. -/
def map {ρ' : Type*} (h : ρ → ρ') (g : σ → τ) : Flow ρ σ → Flow ρ' τ
  | ret r => ret (h r)
  | next s => next (g s)

/-- A loop over a list. -/
def forEach (body : α → σ → Flow ρ σ) : List α → σ → Flow ρ σ
  | [], s => next s
  | a :: as, s => (body a s).andThen (forEach body as)

/-- A loop that is repeated until it is left.  It has no result if that takes too many rounds. -/
def loop (body : σ → Flow ρ σ) : ℕ → σ → Option ρ
  | 0, _ => none
  | n + 1, s =>
    match body s with
    | ret r => some r
    | next t => loop body n t

variable {Q : ρ → Prop} {P : σ → Prop} {x : Flow ρ σ}

/-- Weaker properties. -/
lemma Post.imp {Q' : ρ → Prop} {P' : σ → Prop} (h : x.Post Q P) (hQ : ∀ r, Q r → Q' r)
    (hP : ∀ s, P s → P' s) : x.Post Q' P' := by
  cases x with
  | ret r => exact hQ r h
  | next s => exact hP s h

/-- The rule for going on. -/
lemma Post.andThen {R : τ → Prop} {f : σ → Flow ρ τ} (h : x.Post Q P)
    (hf : ∀ s, P s → (f s).Post Q R) : (x.andThen f).Post Q R := by
  cases x with
  | ret r => exact h
  | next s => exact hf s h

/-- A loop over two lists. -/
lemma forEach_append (body : α → σ → Flow ρ σ) (as bs : List α) (s : σ) :
    forEach body (as ++ bs) s = (forEach body as s).andThen (forEach body bs) := by
  induction as generalizing s with
  | nil => rfl
  | cons a as ih =>
    rw [List.cons_append, forEach, forEach]
    cases body a s with
    | ret r => rfl
    | next t => exact ih t

/-- A body that is equal on the list. -/
lemma forEach_congr {body body' : α → σ → Flow ρ σ} {as : List α}
    (h : ∀ a ∈ as, ∀ s, body a s = body' a s) (s : σ) :
    forEach body as s = forEach body' as s := by
  induction as generalizing s with
  | nil => rfl
  | cons a as ih =>
    obtain ⟨ha, has⟩ := List.forall_mem_cons.mp h
    rw [forEach, forEach, ha]
    cases body' a s with
    | ret r => rfl
    | next t => exact ih has t

/-- A loop that is left at the first element with a property. -/
lemma forEach_find {p : α → Bool} {f : α → ρ} {body : α → Unit → Flow ρ Unit} {as : List α}
    (h : ∀ a ∈ as, body a () = if p a then ret (f a) else next ()) :
    forEach body as () =
      match as.find? p with
      | some a => ret (f a)
      | none => next () := by
  induction as with
  | nil => rfl
  | cons a as ih =>
    obtain ⟨ha, has⟩ := List.forall_mem_cons.mp h
    rw [forEach, ha, List.find?_cons]
    cases p a with
    | true => rfl
    | false => exact ih has

/-- **Rule for loops over a list.**  The invariant may speak about what is still to come. -/
theorem forEach_post {I : List α → σ → Prop} {body : α → σ → Flow ρ σ}
    (hstep : ∀ a as s, I (a :: as) s → (body a s).Post Q (I as)) {as : List α} {s : σ}
    (hs : I as s) : (forEach body as s).Post Q (I []) := by
  induction as generalizing s with
  | nil => exact hs
  | cons a as ih => exact (hstep a as s hs).andThen fun t ht => ih ht

/-- **Rule for loops over a range.** -/
theorem forRange'_post {k n : ℕ} {I : ℕ → σ → Prop} {body : ℕ → σ → Flow ρ σ}
    (hstep : ∀ i, k ≤ i → i < k + n → ∀ s, I i s → (body i s).Post Q (I (i + 1))) {s : σ} (hs : I k s) :
    (forEach body (List.range' k n) s).Post Q (I (k + n)) := by
  induction n generalizing k s with
  | zero => exact hs
  | succ n ih =>
    rw [List.range'_succ, show k + (n + 1) = k + 1 + n by omega]
    exact (hstep k le_rfl (by omega) s hs).andThen fun t ht =>
      ih (fun i hi hlt => hstep i (by omega) (by omega)) ht

/-- The rule for a range from zero on. -/
theorem forRange_post {n : ℕ} {I : ℕ → σ → Prop} {body : ℕ → σ → Flow ρ σ}
    (hstep : ∀ i < n, ∀ s, I i s → (body i s).Post Q (I (i + 1))) {s : σ} (hs : I 0 s) :
    (forEach body (List.range n) s).Post Q (I n) := by
  rw [List.range_eq_range']
  have hrule := forRange'_post (n := n) (fun i _ hlt => hstep i (by omega)) hs
  rwa [Nat.zero_add] at hrule

/-- **Rule for repeated loops.**  A loop whose rounds count something down is left, with what its rounds
establish. -/
theorem loop_spec {I : ℕ → σ → Prop} {body : σ → Flow ρ σ}
    (hstep : ∀ k s, I k s → (body s).Post Q fun t => ∃ j < k, I j t) {n k : ℕ} {s : σ} (hk : k < n)
    (hs : I k s) : ∃ r, loop body n s = some r ∧ Q r := by
  induction n generalizing k s with
  | zero => omega
  | succ n ih =>
    have h := hstep k s hs
    rw [loop]
    cases hbody : body s with
    | ret r =>
      rw [hbody] at h
      exact ⟨r, rfl, h⟩
    | next t =>
      rw [hbody] at h
      obtain ⟨j, hj, ht⟩ := h
      exact ih (by omega) ht

/-- What the rounds of a loop establish holds of its result. -/
lemma loop_post {I : σ → Prop} {body : σ → Flow ρ σ} (hstep : ∀ s, I s → (body s).Post Q I) {n : ℕ}
    {s : σ} (hs : I s) {r : ρ} (h : loop body n s = some r) : Q r := by
  induction n generalizing s with
  | zero => cases h
  | succ n ih =>
    have hpost := hstep s hs
    rw [loop] at h
    cases hbody : body s with
    | ret r' =>
      rw [hbody] at hpost h
      cases h
      exact hpost
    | next t =>
      rw [hbody] at hpost h
      exact ih hpost h

/-- A loop whose rounds follow those of another one has the results of the other one. -/
lemma forEach_map {ρ' : Type*} {h : ρ → ρ'} {g : σ → τ} {body : α → σ → Flow ρ σ}
    {body' : α → τ → Flow ρ' τ} {as : List α}
    (hbody : ∀ a ∈ as, ∀ s, body' a (g s) = (body a s).map h g) (s : σ) :
    forEach body' as (g s) = (forEach body as s).map h g := by
  induction as generalizing s with
  | nil => rfl
  | cons a as ih =>
    obtain ⟨ha, has⟩ := List.forall_mem_cons.mp hbody
    rw [forEach, forEach, ha]
    cases body a s with
    | ret r => rfl
    | next t => exact ih has t

/-- The same for repeated loops. -/
lemma loop_map {ρ' : Type*} {h : ρ → ρ'} {g : σ → τ} {body : σ → Flow ρ σ}
    {body' : τ → Flow ρ' τ} (hbody : ∀ s, body' (g s) = (body s).map h g) (n : ℕ) (s : σ) :
    loop body' n (g s) = (loop body n s).map h := by
  induction n generalizing s with
  | zero => rfl
  | succ n ih =>
    rw [loop, loop, hbody]
    cases body s with
    | ret r => rfl
    | next t => exact ih t

/-- A loop that goes on as long as something holds which its rounds preserve is not left. -/
lemma loop_none {P : σ → Prop} {body : σ → Flow ρ σ} (hbody : ∀ s, P s → ∃ t, body s = next t ∧ P t)
    (n : ℕ) {s : σ} (hs : P s) : loop body n s = none := by
  induction n generalizing s with
  | zero => rfl
  | succ n ih =>
    obtain ⟨t, ht, hP⟩ := hbody s hs
    rw [loop, ht]
    exact ih hP

/-- A loop that is left in its first round. -/
lemma loop_ret {body : σ → Flow ρ σ} {n : ℕ} {s : σ} {r : ρ} (h : body s = ret r) (hn : 0 < n) :
    loop body n s = some r := by
  obtain ⟨m, rfl⟩ : ∃ m, n = m + 1 := ⟨n - 1, by omega⟩
  rw [loop, h]

/-- More rounds do not change the result. -/
lemma loop_mono {body : σ → Flow ρ σ} {n m : ℕ} {s : σ} {r : ρ} (h : loop body n s = some r)
    (hle : n ≤ m) : loop body m s = some r := by
  induction n generalizing m s with
  | zero => cases h
  | succ n ih =>
    obtain ⟨m, rfl⟩ : ∃ k, m = k + 1 := ⟨m - 1, by omega⟩
    rw [loop] at h ⊢
    cases hbody : body s with
    | ret r' =>
      rw [hbody] at h
      exact h
    | next t =>
      rw [hbody] at h
      exact ih h (by omega)

end Flow

end NekOS
