import Mathlib.Data.Nat.Notation
import Mathlib.Tactic.Basic
import Mathlib.Tactic.Lemma

/-!
# Computations that may fail and keep the state they reached

`Fallible σ α` is the type of programs that act on a state `σ` and end in one of three ways: with
a value of type `α`, with an error, or by halting.  An error does *not* undo what was done before
it: the state reached is kept.  This is the meaning of the `?` operator on a function that mutates
its surroundings.  A program that halts (a panic, or a recursion that never ends) has no state
afterwards.

The second half is a small program logic: `Fallible.Spec P f Q E` says that from a state
satisfying `P` the program `f`, unless it halts, ends either with a value and a state satisfying
`Q`, or with an error in a state satisfying `E`.  There is one rule for each way of building
programs, including the loops `forEach`, `forRange` and `foldRange`.
-/

namespace NekOS

/-- A program on the state `σ` with values of type `α`: `none` when it halts, otherwise the value
(`none` for an error) together with the state it has reached. -/
def Fallible (σ α : Type) := σ → Option (Option α × σ)

namespace Fallible

variable {σ α β : Type}

/-- Return a value and leave the state alone. -/
def pure (a : α) : Fallible σ α := fun s => some (some a, s)

/-- Run `f`, then continue with its value; an error of `f` is an error of the whole. -/
def bind (f : Fallible σ α) (g : α → Fallible σ β) : Fallible σ β := fun s =>
  match f s with
  | some (some a, t) => g a t
  | some (none, t) => some (none, t)
  | none => none

instance : Monad (Fallible σ) where
  pure := Fallible.pure
  bind := Fallible.bind

/-- End with an error. -/
def fail : Fallible σ α := fun s => some (none, s)

/-- Halt. -/
def halt : Fallible σ α := fun _ => none

/-- Read a function of the state. -/
def gets (f : σ → α) : Fallible σ α := fun s => some (some (f s), s)

/-- Change the state. -/
def modify (f : σ → σ) : Fallible σ Unit := fun s => some (some (), f s)

/-- Return the value of an option, or end with an error (`ok_or`). -/
def ofOption (o : Option α) : Fallible σ α := fun s => some (o, s)

/-- Return the value of an option, or halt (`unwrap`). -/
def unwrap (o : Option α) : Fallible σ α := fun s => o.map fun a => (some a, s)

/-- Turn an error into a value. -/
def attempt (f : Fallible σ α) : Fallible σ (Option α) := fun s =>
  (f s).map fun r => (some r.1, r.2)

/-- Run a program that must not fail: an error halts (`expect`). -/
def expect (f : Fallible σ α) : Fallible σ α := fun s =>
  match f s with
  | some (some a, t) => some (some a, t)
  | _ => none

/-- Run a program on a component of the state. -/
def zoom (get : σ → β) (set : β → σ → σ) (f : Fallible β α) : Fallible σ α := fun s =>
  (f (get s)).map fun r => (r.1, set r.2 s)

/-- Run the body for the elements of a list, stopping at the first error. -/
def forEach : List β → (β → Fallible σ Unit) → Fallible σ Unit
  | [], _ => Fallible.pure ()
  | b :: bs, body => Fallible.bind (body b) fun _ => forEach bs body

/-- Run the body for `i = 0, …, n - 1`, stopping at the first error. -/
def forRange : ℕ → (ℕ → Fallible σ Unit) → Fallible σ Unit
  | 0, _ => Fallible.pure ()
  | n + 1, body => Fallible.bind (forRange n body) fun _ => body n

/-- Run the body for `i = 0, …, n - 1`, passing an accumulator along. -/
def foldRange : ℕ → (ℕ → α → Fallible σ α) → α → Fallible σ α
  | 0, _, a => Fallible.pure a
  | n + 1, body, a => Fallible.bind (foldRange n body a) fun b => body n b

/-- Returning a value ends with it in the same state. -/
@[simp] lemma pure_apply (a : α) (s : σ) :
    (Pure.pure a : Fallible σ α) s = some (some a, s) := rfl

/-- Sequencing continues with the value of the first program. -/
lemma bind_apply (f : Fallible σ α) (g : α → Fallible σ β) (s : σ) :
    (f >>= g) s = match f s with
      | some (some a, t) => g a t
      | some (none, t) => some (none, t)
      | none => none := rfl

/-- Sequencing after a first program that returns. -/
lemma bind_of_some {f : Fallible σ α} {g : α → Fallible σ β} {s t : σ} {a : α}
    (h : f s = some (some a, t)) : (f >>= g) s = g a t := by
  rw [bind_apply, h]

/-- Sequencing after a first program that ends with an error. -/
lemma bind_of_none {f : Fallible σ α} {g : α → Fallible σ β} {s t : σ}
    (h : f s = some (none, t)) : (f >>= g) s = some (none, t) := by
  rw [bind_apply, h]

/-- A sequence returns exactly when both programs do. -/
lemma bind_eq_some {f : Fallible σ α} {g : α → Fallible σ β} {s u : σ} {b : β} :
    (f >>= g) s = some (some b, u) ↔
      ∃ a t, f s = some (some a, t) ∧ g a t = some (some b, u) := by
  rw [bind_apply]
  rcases h : f s with _ | ⟨_ | a, t⟩
  · simp
  · simp
  · simp [and_assoc]

/-- A sequence ends with an error when its first program does, or its second one after the first
has returned. -/
lemma bind_eq_none {f : Fallible σ α} {g : α → Fallible σ β} {s u : σ} :
    (f >>= g) s = some (none, u) ↔
      f s = some (none, u) ∨ ∃ a t, f s = some (some a, t) ∧ g a t = some (none, u) := by
  rw [bind_apply]
  rcases h : f s with _ | ⟨_ | a, t⟩
  · simp
  · simp
  · simp [and_assoc]

/-- An error keeps the state. -/
@[simp] lemma fail_apply (s : σ) : (fail : Fallible σ α) s = some (none, s) := rfl

/-- Halting leaves no state. -/
@[simp] lemma halt_apply (s : σ) : (halt : Fallible σ α) s = none := rfl

/-- Reading keeps the state. -/
@[simp] lemma gets_apply (f : σ → α) (s : σ) : gets f s = some (some (f s), s) := rfl

/-- Changing the state succeeds. -/
@[simp] lemma modify_apply (f : σ → σ) (s : σ) : modify f s = some (some (), f s) := rfl

/-- Reading an option keeps the state. -/
@[simp] lemma ofOption_apply (o : Option α) (s : σ) :
    (ofOption o : Fallible σ α) s = some (o, s) := rfl

/-- Unwrapping an option keeps the state. -/
@[simp] lemma unwrap_apply (o : Option α) (s : σ) :
    (unwrap o : Fallible σ α) s = o.map fun a => (some a, s) := rfl

/-- An attempted program ends with the outcome of the program. -/
@[simp] lemma attempt_apply (f : Fallible σ α) (s : σ) :
    attempt f s = (f s).map fun r => (some r.1, r.2) := rfl

/-- What must not fail ends with the value of the program. -/
lemma expect_eq_some {f : Fallible σ α} {s t : σ} {o : Option α} :
    expect f s = some (o, t) ↔ ∃ a, o = some a ∧ f s = some (some a, t) := by
  unfold expect
  rcases f s with _ | ⟨_ | a, u⟩
  · simp
  · simp
  · simp only [Option.some.injEq, Prod.mk.injEq]
    constructor
    · rintro ⟨rfl, rfl⟩
      exact ⟨a, rfl, rfl, rfl⟩
    · rintro ⟨b, rfl, rfl, rfl⟩
      exact ⟨rfl, rfl⟩

/-- A program on a component ends with its value and the changed component. -/
@[simp] lemma zoom_apply (get : σ → β) (set : β → σ → σ) (f : Fallible β α) (s : σ) :
    zoom get set f s = (f (get s)).map fun r => (r.1, set r.2 s) := rfl

/-! ### Symbolic execution -/

/-- A returned value is passed on. -/
@[simp] lemma pure_bind (a : α) (g : α → Fallible σ β) (s : σ) :
    ((Pure.pure a : Fallible σ α) >>= g) s = g a s := rfl

/-- Nothing runs after an error. -/
@[simp] lemma fail_bind (g : α → Fallible σ β) (s : σ) :
    ((fail : Fallible σ α) >>= g) s = some (none, s) := rfl

/-- What is read is passed on. -/
@[simp] lemma gets_bind (f : σ → α) (g : α → Fallible σ β) (s : σ) :
    (gets f >>= g) s = g (f s) s := rfl

/-- The program goes on in the changed state. -/
@[simp] lemma modify_bind (f : σ → σ) (g : Unit → Fallible σ β) (s : σ) :
    (modify f >>= g) s = g () (f s) := rfl

/-- The value of an option is passed on. -/
@[simp] lemma ofOption_bind (o : Option α) (g : α → Fallible σ β) (s : σ) :
    (ofOption o >>= g) s = o.elim (some (none, s)) fun a => g a s := by
  cases o <;> rfl

/-- The value of an option is passed on. -/
@[simp] lemma unwrap_bind (o : Option α) (g : α → Fallible σ β) (s : σ) :
    (unwrap o >>= g) s = o.elim none fun a => g a s := by
  cases o <;> rfl

/-- A value that is there is passed on. -/
lemma unwrap_some_bind (a : α) (g : α → Fallible σ β) : (unwrap (some a) >>= g) = g a := rfl

/-- The outcome of an attempted program is passed on. -/
lemma attempt_bind (f : Fallible σ α) (g : Option α → Fallible σ β) (s : σ) :
    (attempt f >>= g) s = (f s).bind fun r => g r.1 r.2 := by
  rw [bind_apply, attempt_apply]
  rcases f s with _ | ⟨o, t⟩ <;> rfl

/-- A sequence ends as its second program does after the first has returned, or with the error of
the first. -/
lemma bind_eq_iff {f : Fallible σ α} {g : α → Fallible σ β} {s u : σ} {o : Option β} :
    (f >>= g) s = some (o, u) ↔
      (o = none ∧ f s = some (none, u)) ∨ ∃ a t, f s = some (some a, t) ∧ g a t = some (o, u) := by
  cases o with
  | none => simp [bind_eq_none]
  | some b => simp [bind_eq_some]

/-- An option at the head of a program is present, or the program ends at once. -/
lemma ofOption_bind_cases {q : Option α} {g : α → Fallible σ β} {s t : σ} {o : Option β}
    (h : (ofOption q >>= g) s = some (o, t)) :
    (q = none ∧ o = none ∧ t = s) ∨ ∃ a, q = some a ∧ g a s = some (o, t) := by
  cases q with
  | none =>
    obtain ⟨rfl, rfl⟩ : none = o ∧ s = t := by simpa using h
    exact Or.inl ⟨rfl, rfl, rfl⟩
  | some a => exact Or.inr ⟨a, rfl, by simpa using h⟩

/-- An option that is unwrapped at the head of a program is present. -/
lemma unwrap_bind_cases {q : Option α} {g : α → Fallible σ β} {s t : σ} {o : Option β}
    (h : (unwrap q >>= g) s = some (o, t)) : ∃ a, q = some a ∧ g a s = some (o, t) := by
  cases q with
  | none => simp at h
  | some a => exact ⟨a, rfl, by simpa using h⟩

/-- A check at the head of a program is passed, or the program ends at once. -/
lemma guard_cases {c : Prop} [Decidable c] {f : Fallible σ α} {s t : σ} {o : Option α}
    (h : (if c then fail else f) s = some (o, t)) :
    (c ∧ o = none ∧ t = s) ∨ (¬ c ∧ f s = some (o, t)) := by
  by_cases hc : c
  · rw [if_pos hc] at h
    obtain ⟨rfl, rfl⟩ : none = o ∧ s = t := by simpa using h
    exact Or.inl ⟨hc, rfl, rfl⟩
  · rw [if_neg hc] at h
    exact Or.inr ⟨hc, h⟩

/-- A program that never ends with an error. -/
def NoFail (f : Fallible σ α) : Prop := ∀ s t, f s ≠ some (none, t)

/-- Returning is no error. -/
lemma NoFail.pure (a : α) : NoFail (Pure.pure a : Fallible σ α) := fun s t h => by simp at h

/-- Changing the state is no error. -/
lemma NoFail.modify (f : σ → σ) : NoFail (Fallible.modify f) := fun s t h => by simp at h

/-- Reading the state is no error. -/
lemma NoFail.gets (f : σ → α) : NoFail (Fallible.gets f) := fun s t h => by simp at h

/-- Halting is no error. -/
lemma NoFail.halt : NoFail (Fallible.halt : Fallible σ α) := fun s t h => by simp at h

/-- An attempted program never ends with an error. -/
lemma NoFail.attempt (f : Fallible σ α) : NoFail (Fallible.attempt f) := fun s t h => by
  rw [attempt_apply, Option.map_eq_some_iff] at h
  obtain ⟨r, -, e⟩ := h
  simp at e

/-- A sequence of programs that never end with an error. -/
lemma NoFail.bind {f : Fallible σ α} {g : α → Fallible σ β} (hf : NoFail f)
    (hg : ∀ a, NoFail (g a)) : NoFail (f >>= g) := fun s t h => by
  rcases bind_eq_none.mp h with h | ⟨a, u, -, h⟩
  · exact hf s t h
  · exact hg a u t h

/-- After a program that never ends with an error the second one runs. -/
lemma NoFail.bind_cases {f : Fallible σ α} {g : α → Fallible σ β} {s t : σ} {o : Option β}
    (hf : NoFail f) (h : (f >>= g) s = some (o, t)) :
    ∃ a u, f s = some (some a, u) ∧ g a u = some (o, t) := by
  rcases bind_eq_iff.mp h with ⟨-, h⟩ | h
  · exact absurd h (hf s t)
  · exact h

/-- A branch between programs that never end with an error. -/
lemma NoFail.ite {c : Prop} [Decidable c] {f g : Fallible σ α} (hf : NoFail f) (hg : NoFail g) :
    NoFail (if c then f else g) := by
  split
  · exact hf
  · exact hg

/-- The loop over no element. -/
@[simp] lemma forEach_nil (body : β → Fallible σ Unit) (s : σ) :
    forEach [] body s = some (some (), s) := rfl

/-- The loop starts with its first element. -/
lemma forEach_cons (b : β) (bs : List β) (body : β → Fallible σ Unit) :
    forEach (b :: bs) body = (body b >>= fun _ => forEach bs body) := rfl

/-- The loop with no iteration. -/
@[simp] lemma forRange_zero (body : ℕ → Fallible σ Unit) (s : σ) :
    forRange 0 body s = some (some (), s) := rfl

/-- The loop makes its last iteration after the earlier ones. -/
lemma forRange_succ (n : ℕ) (body : ℕ → Fallible σ Unit) :
    forRange (n + 1) body = (forRange n body >>= fun _ => body n) := rfl

/-- A bounded loop ends with an error in the first iteration that does. -/
lemma forRange_eq_none {n : ℕ} {body : ℕ → Fallible σ Unit} {s t : σ} :
    forRange n body s = some (none, t) ↔
      ∃ i < n, ∃ u, forRange i body s = some (some (), u) ∧ body i u = some (none, t) := by
  induction n with
  | zero => simp
  | succ n ih =>
    rw [forRange_succ, bind_eq_none, ih]
    constructor
    · rintro (⟨i, hi, h⟩ | ⟨_, u, h, hbody⟩)
      · exact ⟨i, Nat.lt_succ_of_lt hi, h⟩
      · exact ⟨n, Nat.lt_succ_self n, u, h, hbody⟩
    · rintro ⟨i, hi, u, h, hbody⟩
      rcases Nat.lt_succ_iff_lt_or_eq.mp hi with hi | rfl
      · exact Or.inl ⟨i, hi, u, h, hbody⟩
      · exact Or.inr ⟨(), u, h, hbody⟩

/-- The accumulating loop with no iteration. -/
@[simp] lemma foldRange_zero (body : ℕ → α → Fallible σ α) (a : α) (s : σ) :
    foldRange 0 body a s = some (some a, s) := rfl

/-- The accumulating loop makes its last iteration after the earlier ones. -/
lemma foldRange_succ (n : ℕ) (body : ℕ → α → Fallible σ α) (a : α) :
    foldRange (n + 1) body a = (foldRange n body a >>= fun b => body n b) := rfl

/-- A loop over a list whose body never ends with an error. -/
lemma NoFail.forEach {bs : List β} {body : β → Fallible σ Unit} (h : ∀ b, NoFail (body b)) :
    NoFail (Fallible.forEach bs body) := by
  induction bs with
  | nil => exact NoFail.pure ()
  | cons b bs ih => exact NoFail.bind (h b) fun _ => ih

/-- A bounded loop whose body never ends with an error. -/
lemma NoFail.forRange {n : ℕ} {body : ℕ → Fallible σ Unit} (h : ∀ i, NoFail (body i)) :
    NoFail (Fallible.forRange n body) := by
  induction n with
  | zero => exact NoFail.pure ()
  | succ n ih => exact NoFail.bind ih fun _ => h n

/-! ## The program logic -/

/-- From a state satisfying `P` the program, unless it halts, ends with a value and a state
satisfying `Q`, or with an error in a state satisfying `E`. -/
def Spec (P : σ → Prop) (f : Fallible σ α) (Q : α → σ → Prop) (E : σ → Prop) : Prop :=
  ∀ s, P s → ∀ t, (∀ a, f s = some (some a, t) → Q a t) ∧ (f s = some (none, t) → E t)

variable {P P' : σ → Prop} {f : Fallible σ α} {Q Q' : α → σ → Prop} {E E' : σ → Prop}

/-- Rule of consequence. -/
lemma Spec.conseq (h : Spec P f Q E) (hP : ∀ s, P' s → P s) (hQ : ∀ a s, Q a s → Q' a s)
    (hE : ∀ s, E s → E' s) : Spec P' f Q' E' := by
  intro s hs t
  obtain ⟨h₁, h₂⟩ := h s (hP s hs) t
  exact ⟨fun a e => hQ _ _ (h₁ a e), fun e => hE _ (h₂ e)⟩

/-- Rule for returning. -/
lemma Spec.pure {a : α} (h : ∀ s, P s → Q a s) : Spec P (Pure.pure a) Q E := by
  intro s hs t
  refine ⟨fun b e => ?_, fun e => ?_⟩
  · obtain ⟨rfl, rfl⟩ : a = b ∧ s = t := by simpa using e
    exact h s hs
  · simp at e

/-- Rule for errors. -/
lemma Spec.fail (h : ∀ s, P s → E s) : Spec P (Fallible.fail : Fallible σ α) Q E := by
  intro s hs t
  refine ⟨fun b e => ?_, fun e => ?_⟩
  · simp at e
  · obtain rfl : s = t := by simpa using e
    exact h s hs

/-- Rule for sequencing. -/
lemma Spec.bind {R : β → σ → Prop} {g : α → Fallible σ β} (hf : Spec P f Q E)
    (hg : ∀ a, Spec (Q a) (g a) R E) : Spec P (f >>= g) R E := by
  intro s hs t
  refine ⟨fun b e => ?_, fun e => ?_⟩
  · obtain ⟨a, u, h, e⟩ := bind_eq_some.mp e
    exact (hg a u ((hf s hs u).1 a h) t).1 b e
  · rcases bind_eq_none.mp e with h | ⟨a, u, h, e⟩
    · exact (hf s hs t).2 h
    · exact (hg a u ((hf s hs u).1 a h) t).2 e

/-- Rule for reading the state. -/
lemma Spec.gets {φ : σ → α} (h : ∀ s, P s → Q (φ s) s) : Spec P (Fallible.gets φ) Q E := by
  intro s hs t
  refine ⟨fun b e => ?_, fun e => ?_⟩
  · obtain ⟨rfl, rfl⟩ : φ s = b ∧ s = t := by simpa using e
    exact h s hs
  · simp at e

/-- Rule for changing the state. -/
lemma Spec.modify {φ : σ → σ} {Q : Unit → σ → Prop} (h : ∀ s, P s → Q () (φ s)) :
    Spec P (Fallible.modify φ) Q E := by
  intro s hs t
  refine ⟨fun b e => ?_, fun e => ?_⟩
  · obtain rfl : φ s = t := by simpa using e
    exact h s hs
  · simp at e

/-- Rule for an option that may be absent. -/
lemma Spec.ofOption {o : Option α} (h : ∀ s, P s → ∀ a, o = some a → Q a s)
    (hE : ∀ s, P s → o = none → E s) : Spec P (Fallible.ofOption o) Q E := by
  intro s hs t
  refine ⟨fun b e => ?_, fun e => ?_⟩
  · obtain ⟨rfl, rfl⟩ : o = some b ∧ s = t := by simpa using e
    exact h s hs b rfl
  · obtain ⟨rfl, rfl⟩ : o = none ∧ s = t := by simpa using e
    exact hE s hs rfl

/-- Rule for a branch. -/
lemma Spec.ite {c : Prop} [Decidable c] {g : Fallible σ α}
    (h₁ : c → Spec P f Q E) (h₂ : ¬ c → Spec P g Q E) : Spec P (if c then f else g) Q E := by
  split
  · exact h₁ ‹_›
  · exact h₂ ‹_›

/-- Rule for a program whose error is turned into a value. -/
lemma Spec.attempt {Q : Option α → σ → Prop}
    (h : Spec P f (fun a => Q (some a)) (Q none)) : Spec P (Fallible.attempt f) Q E := by
  intro s hs t
  refine ⟨fun b e => ?_, fun e => ?_⟩
  · rw [attempt_apply, Option.map_eq_some_iff] at e
    obtain ⟨⟨_ | a, u⟩, h', e⟩ := e
    · obtain ⟨rfl, rfl⟩ : none = b ∧ u = t := by simpa using e
      exact (h s hs u).2 h'
    · obtain ⟨rfl, rfl⟩ : some a = b ∧ u = t := by simpa using e
      exact (h s hs u).1 a h'
  · rw [attempt_apply, Option.map_eq_some_iff] at e
    obtain ⟨r, -, e⟩ := e
    simp at e

/-- Rule for a program on a component. -/
lemma Spec.zoom {τ : Type} {get : τ → σ} {set : σ → τ → τ} {P₁ : τ → Prop}
    {Q₁ : α → τ → Prop} {E₁ : τ → Prop} (h : ∀ s, P₁ s → Spec (fun b => b = get s) f
      (fun a t => Q₁ a (set t s)) (fun t => E₁ (set t s))) :
    Spec P₁ (Fallible.zoom get set f) Q₁ E₁ := by
  intro s hs t
  refine ⟨fun a e => ?_, fun e => ?_⟩
  · rw [zoom_apply, Option.map_eq_some_iff] at e
    obtain ⟨⟨o, u⟩, h', e⟩ := e
    obtain ⟨rfl, rfl⟩ : o = some a ∧ set u s = t := by simpa using e
    exact (h s hs _ rfl u).1 a h'
  · rw [zoom_apply, Option.map_eq_some_iff] at e
    obtain ⟨⟨o, u⟩, h', e⟩ := e
    obtain ⟨rfl, rfl⟩ : o = none ∧ set u s = t := by simpa using e
    exact (h s hs _ rfl u).2 h'

/-- Rule for the loop over a list: an invariant that every iteration carries on. -/
lemma Spec.forEach {bs : List β} {body : β → Fallible σ Unit}
    (hbody : ∀ b ∈ bs, Spec P (body b) (fun _ => P) E) :
    Spec P (Fallible.forEach bs body) (fun _ => P) E := by
  induction bs with
  | nil => exact Spec.pure fun _ h => h
  | cons b bs ih =>
    rw [forEach_cons]
    exact Spec.bind (hbody b (List.mem_cons_self ..)) fun _ =>
      ih fun c hc => hbody c (List.mem_cons_of_mem _ hc)

/-- Rule for the bounded loop: an invariant indexed by the number of iterations made, which an
iteration carries on or, when it ends with an error, turns into `E`. -/
lemma Spec.forRange {n : ℕ} {body : ℕ → Fallible σ Unit} {I : ℕ → σ → Prop}
    (hbody : ∀ i < n, Spec (I i) (body i) (fun _ => I (i + 1)) E) :
    Spec (I 0) (Fallible.forRange n body) (fun _ => I n) E := by
  induction n with
  | zero => exact Spec.pure fun _ h => h
  | succ n ih =>
    rw [forRange_succ]
    exact Spec.bind (ih fun i hi => hbody i (Nat.lt_succ_of_lt hi))
      fun _ => hbody n (Nat.lt_succ_self n)

/-- Rule for the bounded loop with an accumulator. -/
lemma Spec.foldRange {n : ℕ} {body : ℕ → α → Fallible σ α} {I : ℕ → α → σ → Prop} {a : α}
    (hbody : ∀ i < n, ∀ b, Spec (I i b) (body i b) (fun c => I (i + 1) c) E) :
    Spec (I 0 a) (Fallible.foldRange n body a) (fun c => I n c) E := by
  induction n with
  | zero => exact Spec.pure fun _ h => h
  | succ n ih =>
    rw [foldRange_succ]
    exact Spec.bind (ih fun i hi => hbody i (Nat.lt_succ_of_lt hi))
      fun b => hbody n (Nat.lt_succ_self n) b

/-- A program that keeps a property of the state, whether it succeeds or not. -/
abbrev Keeps (I : σ → Prop) (f : Fallible σ α) : Prop := Spec I f (fun _ => I) I

/-- What a program keeps when it ends. -/
lemma Keeps.of_run {I : σ → Prop} (h : Keeps I f) {s t : σ} {o : Option α} (hs : I s)
    (hrun : f s = some (o, t)) : I t := by
  cases o with
  | none => exact (h s hs t).2 hrun
  | some a => exact (h s hs t).1 a hrun

/-- Reading keeps every property. -/
lemma Keeps.gets {I : σ → Prop} (φ : σ → α) : Keeps I (Fallible.gets φ) := Spec.gets fun _ h => h

/-! ## Programs that leave a quantity of the state alone -/

/-- The program never changes the quantity `c` of the state. -/
def Fixes {γ : Type} (c : σ → γ) (f : Fallible σ α) : Prop := ∀ v, Keeps (fun s => c s = v) f

namespace Fixes

variable {γ : Type} {c : σ → γ}

/-- What a run of the program leaves alone. -/
lemma of_run (h : Fixes c f) {s t : σ} {o : Option α} (hrun : f s = some (o, t)) : c t = c s :=
  (h (c s)).of_run rfl hrun

/-- A program that leaves the quantity alone whenever it ends. -/
lemma intro (h : ∀ s o t, f s = some (o, t) → c t = c s) : Fixes c f := fun _ s hs t =>
  ⟨fun _ hrun => (h s _ t hrun).trans hs, fun hrun => (h s _ t hrun).trans hs⟩

/-- Returning. -/
lemma pure (a : α) : Fixes c (Pure.pure a : Fallible σ α) := fun _ => Spec.pure fun _ h => h

/-- Failing. -/
lemma fail : Fixes c (Fallible.fail : Fallible σ α) := fun _ => Spec.fail fun _ h => h

/-- Halting. -/
lemma halt : Fixes c (Fallible.halt : Fallible σ α) := intro fun _ _ _ h => by simp at h

/-- Reading. -/
lemma gets (φ : σ → α) : Fixes c (Fallible.gets φ) := fun _ => Keeps.gets φ

/-- Changing the rest of the state. -/
lemma modify {φ : σ → σ} (h : ∀ s, c (φ s) = c s) : Fixes c (Fallible.modify φ) := fun _ =>
  Spec.modify fun s hs => (h s).trans hs

/-- Reading an option. -/
lemma ofOption (o : Option α) : Fixes c (Fallible.ofOption o : Fallible σ α) := fun _ =>
  Spec.ofOption (fun _ h _ _ => h) fun _ h _ => h

/-- Unwrapping an option. -/
lemma unwrap (o : Option α) : Fixes c (Fallible.unwrap o : Fallible σ α) := intro fun s o' t h => by
  obtain ⟨a, -, -, rfl⟩ := by simpa using h
  rfl

/-- One after the other. -/
lemma bind {g : α → Fallible σ β} (hf : Fixes c f) (hg : ∀ a, Fixes c (g a)) :
    Fixes c (f >>= g) := fun v => Spec.bind (hf v) fun a => hg a v

/-- A branch. -/
lemma ite {p : Prop} [Decidable p] {g : Fallible σ α} (hf : Fixes c f) (hg : Fixes c g) :
    Fixes c (if p then f else g) := fun v => Spec.ite (fun _ => hf v) fun _ => hg v

/-- A program whose error is turned into a value. -/
lemma attempt (hf : Fixes c f) : Fixes c (Fallible.attempt f) := fun v => Spec.attempt (hf v)

/-- A bounded loop. -/
lemma forRange {n : ℕ} {body : ℕ → Fallible σ Unit} (h : ∀ i, Fixes c (body i)) :
    Fixes c (Fallible.forRange n body) := fun v =>
  Spec.forRange (I := fun _ s => c s = v) fun i _ => h i v

/-- A bounded loop with an accumulator. -/
lemma foldRange {n : ℕ} {body : ℕ → α → Fallible σ α} {a : α} (h : ∀ i b, Fixes c (body i b)) :
    Fixes c (Fallible.foldRange n body a) := fun v =>
  Spec.foldRange (I := fun _ _ s => c s = v) fun i _ b => h i b v

/-- A loop over a list. -/
lemma forEach {bs : List β} {body : β → Fallible σ Unit} (h : ∀ b, Fixes c (body b)) :
    Fixes c (Fallible.forEach bs body) := fun v => Spec.forEach fun b _ => h b v

end Fixes

/-! ## Programs that do not halt -/

/-- From the state `s` the program ends, with a value or an error. -/
def Finishes (f : Fallible σ α) (s : σ) : Prop := ∃ r, f s = some r

namespace Finishes

variable {s : σ}

/-- Returning ends. -/
lemma pure (a : α) : Finishes (Pure.pure a : Fallible σ α) s := ⟨_, rfl⟩

/-- Failing ends. -/
lemma fail : Finishes (Fallible.fail : Fallible σ α) s := ⟨_, rfl⟩

/-- Reading ends. -/
lemma gets (φ : σ → α) : Finishes (Fallible.gets φ) s := ⟨_, rfl⟩

/-- Changing the state ends. -/
lemma modify (φ : σ → σ) : Finishes (Fallible.modify φ) s := ⟨_, rfl⟩

/-- Reading an option ends. -/
lemma ofOption (o : Option α) : Finishes (Fallible.ofOption o : Fallible σ α) s := ⟨_, rfl⟩

/-- One after the other: the second program has to end where the first one returns. -/
lemma bind {g : α → Fallible σ β} (hf : Finishes f s)
    (hg : ∀ a t, f s = some (some a, t) → Finishes (g a) t) : Finishes (f >>= g) s := by
  obtain ⟨⟨_ | a, t⟩, h⟩ := hf
  · exact ⟨_, bind_of_none h⟩
  · obtain ⟨r, hr⟩ := hg a t h
    exact ⟨r, (bind_of_some h).trans hr⟩

/-- What follows an option has to end with its value. -/
lemma ofOption_bind {o : Option α} {g : α → Fallible σ β}
    (hg : ∀ a, o = some a → Finishes (g a) s) : Finishes (Fallible.ofOption o >>= g) s := by
  refine (ofOption o).bind fun a t h => ?_
  obtain ⟨rfl, rfl⟩ : o = some a ∧ s = t := by simpa using h
  exact hg a rfl

/-- What follows an option that is unwrapped has to end with its value. -/
lemma unwrap_bind {o : Option α} {a : α} {g : α → Fallible σ β} (h : o = some a)
    (hg : Finishes (g a) s) : Finishes (Fallible.unwrap o >>= g) s := by
  subst h
  exact hg

/-- A check ends when what follows it does. -/
lemma guard {c : Prop} [Decidable c] (h : ¬ c → Finishes f s) :
    Finishes (if c then Fallible.fail else f) s := by
  split
  · exact fail
  · exact h ‹_›

/-- A branch ends when the chosen program does. -/
lemma ite {c : Prop} [Decidable c] {g : Fallible σ α} (h₁ : c → Finishes f s)
    (h₂ : ¬ c → Finishes g s) : Finishes (if c then f else g) s := by
  split
  · exact h₁ ‹_›
  · exact h₂ ‹_›

/-- An attempted program ends when the program does. -/
lemma attempt (h : Finishes f s) : Finishes (Fallible.attempt f) s := by
  obtain ⟨r, hr⟩ := h
  exact ⟨_, by rw [attempt_apply, hr]; rfl⟩

/-- A program on a component ends when the program does. -/
lemma zoom {τ : Type} {get : τ → σ} {set : σ → τ → τ} {u : τ} (h : Finishes f (get u)) :
    Finishes (Fallible.zoom get set f) u := by
  obtain ⟨r, hr⟩ := h
  exact ⟨_, by rw [zoom_apply, hr]; rfl⟩

/-- The loop over a list ends when an invariant lets every iteration end and is kept by it. -/
lemma forEach {I : σ → Prop} {bs : List β} {body : β → Fallible σ Unit}
    (hbody : ∀ b s, I s → Finishes (body b) s) (hkeep : ∀ b, Keeps I (body b)) (hs : I s) :
    Finishes (Fallible.forEach bs body) s := by
  induction bs generalizing s with
  | nil => exact pure ()
  | cons b bs ih =>
    rw [forEach_cons]
    exact (hbody b s hs).bind fun _ t ht => ih ((hkeep b).of_run hs ht)

/-- Where a program that is no error ends, both of its parts do. -/
lemma of_bind {g : α → Fallible σ β} (hf : NoFail f) (h : Finishes (f >>= g) s) :
    ∃ a t, f s = some (some a, t) ∧ Finishes (g a) t := by
  obtain ⟨⟨o, u⟩, hr⟩ := h
  rcases bind_eq_iff.mp hr with ⟨-, hnone⟩ | ⟨a, t, h₁, h₂⟩
  · exact absurd hnone (hf s u)
  · exact ⟨a, t, h₁, _, h₂⟩

/-- Where a loop over a list ends, each of its iterations ends in a state that the earlier ones can
leave. -/
lemma of_forEach {I : σ → Prop} {bs : List β} {body : β → Fallible σ Unit}
    (hnofail : ∀ b, NoFail (body b)) (hkeep : ∀ b, Keeps I (body b)) (hs : I s)
    (h : Finishes (Fallible.forEach bs body) s) {b : β} (hb : b ∈ bs) :
    ∃ t, I t ∧ Finishes (body b) t := by
  induction bs generalizing s with
  | nil => simp at hb
  | cons c bs ih =>
    rw [forEach_cons] at h
    obtain ⟨_, t, hc, hrest⟩ := of_bind (hnofail c) h
    rcases List.mem_cons.mp hb with rfl | hb
    · exact ⟨s, hs, _, hc⟩
    · exact ih ((hkeep c).of_run hs hc) hrest hb

/-- The bounded loop ends when every iteration does, wherever it starts. -/
lemma forRange {n : ℕ} {body : ℕ → Fallible σ Unit} (hbody : ∀ i s, Finishes (body i) s) :
    Finishes (Fallible.forRange n body) s := by
  induction n with
  | zero => exact pure ()
  | succ n ih =>
    rw [forRange_succ]
    exact ih.bind fun _ t _ => hbody n t

/-- The bounded loop with an accumulator ends when every iteration does, wherever it starts. -/
lemma foldRange {n : ℕ} {body : ℕ → α → Fallible σ α} {a : α}
    (hbody : ∀ i b s, Finishes (body i b) s) : Finishes (Fallible.foldRange n body a) s := by
  induction n with
  | zero => exact pure a
  | succ n ih =>
    rw [foldRange_succ]
    exact ih.bind fun b t _ => hbody n b t

/-- A bounded loop ends when every iteration does in the state that the earlier ones leave. -/
lemma forRange_of {n : ℕ} {body : ℕ → Fallible σ Unit}
    (hbody : ∀ i < n, ∀ t, Fallible.forRange i body s = some (some (), t) → Finishes (body i) t) :
    Finishes (Fallible.forRange n body) s := by
  induction n with
  | zero => exact pure ()
  | succ n ih =>
    rw [forRange_succ]
    exact (ih fun i hi => hbody i (Nat.lt_succ_of_lt hi)).bind fun _ t ht => hbody n (Nat.lt_succ_self n) t ht

/-- A bounded loop with an accumulator ends when every iteration does where the earlier ones end. -/
lemma foldRange_of {n : ℕ} {body : ℕ → α → Fallible σ α} {a : α}
    (hbody : ∀ i < n, ∀ b t, Fallible.foldRange i body a s = some (some b, t) → Finishes (body i b) t) :
    Finishes (Fallible.foldRange n body a) s := by
  induction n with
  | zero => exact pure a
  | succ n ih =>
    rw [foldRange_succ]
    exact (ih fun i hi => hbody i (Nat.lt_succ_of_lt hi)).bind fun b t ht => hbody n (Nat.lt_succ_self n) b t ht

/-- Where a sequence ends, its first part ends, and its second part ends where the first one returns. -/
lemma parts {g : α → Fallible σ β} (h : Finishes (f >>= g) s) :
    Finishes f s ∧ ∀ a t, f s = some (some a, t) → Finishes (g a) t := by
  obtain ⟨r, hr⟩ := h
  rw [bind_apply] at hr
  rcases hf : f s with _ | ⟨_ | a, t⟩
  · rw [hf] at hr
    cases hr
  · refine ⟨⟨_, hf⟩, fun a t h => ?_⟩
    cases h
  · refine ⟨⟨_, hf⟩, fun b u h => ?_⟩
    cases h
    rw [hf] at hr
    exact ⟨r, hr⟩

/-- Where a bounded loop ends, every iteration ends where the earlier ones return. -/
lemma of_forRange {n i : ℕ} {body : ℕ → Fallible σ Unit} (h : Finishes (Fallible.forRange n body) s)
    (hi : i < n) : Finishes (Fallible.forRange i body) s ∧
      ∀ t, Fallible.forRange i body s = some (some (), t) → Finishes (body i) t := by
  induction n with
  | zero => cases hi
  | succ n ih =>
    rw [forRange_succ] at h
    obtain ⟨hfirst, hlast⟩ := h.parts
    rcases Nat.lt_succ_iff_lt_or_eq.mp hi with hi | rfl
    · exact ih hfirst hi
    · exact ⟨hfirst, fun t ht => hlast () t ht⟩

/-- Where a bounded loop with an accumulator ends, every iteration ends where the earlier ones return. -/
lemma of_foldRange {n i : ℕ} {body : ℕ → α → Fallible σ α} {a : α}
    (h : Finishes (Fallible.foldRange n body a) s) (hi : i < n) : Finishes (Fallible.foldRange i body a) s ∧
      ∀ b t, Fallible.foldRange i body a s = some (some b, t) → Finishes (body i b) t := by
  induction n with
  | zero => cases hi
  | succ n ih =>
    rw [foldRange_succ] at h
    obtain ⟨hfirst, hlast⟩ := h.parts
    rcases Nat.lt_succ_iff_lt_or_eq.mp hi with hi | rfl
    · exact ih hfirst hi
    · exact ⟨hfirst, fun b t ht => hlast b t ht⟩

/-- What follows an option that is unwrapped ends only with a value. -/
lemma of_unwrap_bind {o : Option α} {g : α → Fallible σ β} (h : Finishes (Fallible.unwrap o >>= g) s) :
    ∃ a, o = some a ∧ Finishes (g a) s := by
  cases o with
  | none =>
    obtain ⟨r, hr⟩ := h
    cases hr
  | some a => exact ⟨a, rfl, h⟩

end Finishes

/-! ### Programs with additional checks -/

/-- The first program is the second one with checks that may halt it: where it does not halt, it does the
same. -/
def Guards (f' f : Fallible σ α) : Prop := ∀ s r, f' s = some r → f s = some r

namespace Guards

variable {f' f : Fallible σ α}

/-- No checks. -/
lemma refl (f : Fallible σ α) : Guards f f := fun _ _ h => h

/-- One after the other, where the second program gets what the first one returns. -/
lemma bind_of {g' g : α → Fallible σ β} (hf : Guards f' f)
    (hg : ∀ a s t, f s = some (some a, t) → Guards (g' a) (g a)) : Guards (f' >>= g') (f >>= g) := fun s r h => by
  rw [bind_apply] at h ⊢
  rcases hf' : f' s with _ | ⟨_ | a, t⟩
  · rw [hf'] at h
    cases h
  · rw [hf'] at h
    rw [hf s _ hf']
    exact h
  · rw [hf'] at h
    rw [hf s _ hf']
    exact hg a s t (hf s _ hf') t r h

/-- One after the other. -/
lemma bind {g' g : α → Fallible σ β} (hf : Guards f' f) (hg : ∀ a, Guards (g' a) (g a)) :
    Guards (f' >>= g') (f >>= g) := hf.bind_of fun a _ _ _ => hg a

/-- A check. -/
lemma unwrap_bind {o : Option β} {g' : β → Fallible σ α} (h : ∀ a, o = some a → Guards (g' a) f) :
    Guards (Fallible.unwrap o >>= g') f := fun s r hr => by
  cases o with
  | none => cases hr
  | some a => exact h a rfl s r hr

/-- A branch. -/
lemma ite {c : Prop} [Decidable c] {g' g : Fallible σ α} (hf : Guards f' f) (hg : Guards g' g) :
    Guards (if c then f' else g') (if c then f else g) := by
  by_cases h : c
  · rw [if_pos h, if_pos h]
    exact hf
  · rw [if_neg h, if_neg h]
    exact hg

/-- An attempted program. -/
lemma attempt (h : Guards f' f) : Guards (Fallible.attempt f') (Fallible.attempt f) := fun s r hr => by
  rw [attempt_apply, Option.map_eq_some_iff] at hr ⊢
  obtain ⟨a, ha, rfl⟩ := hr
  exact ⟨a, h s a ha, rfl⟩

/-- A program on a component. -/
lemma zoom {τ : Type} {get : τ → σ} {set : σ → τ → τ} (h : Guards f' f) :
    Guards (Fallible.zoom get set f') (Fallible.zoom get set f) := fun u r hr => by
  rw [zoom_apply, Option.map_eq_some_iff] at hr ⊢
  obtain ⟨a, ha, rfl⟩ := hr
  exact ⟨a, h _ a ha, rfl⟩

/-- A bounded loop. -/
lemma forRange {n : ℕ} {body' body : ℕ → Fallible σ Unit} (h : ∀ i, Guards (body' i) (body i)) :
    Guards (Fallible.forRange n body') (Fallible.forRange n body) := by
  induction n with
  | zero => exact refl _
  | succ n ih => exact ih.bind fun _ => h n

/-- A bounded loop with an accumulator. -/
lemma foldRange {n : ℕ} {body' body : ℕ → α → Fallible σ α} {a : α} (h : ∀ i b, Guards (body' i b) (body i b)) :
    Guards (Fallible.foldRange n body' a) (Fallible.foldRange n body a) := by
  induction n with
  | zero => exact refl _
  | succ n ih => exact ih.bind fun b => h n b

/-- Checks that never halt. -/
lemma eq_of_finishes (h : Guards f' f) (hf : ∀ s, Finishes f' s) : f' = f := funext fun s => by
  obtain ⟨r, hr⟩ := hf s
  rw [hr, h s r hr]

end Guards

/-- A program that ends and never ends with an error returns. -/
lemma Finishes.returns {s : σ} (h : Finishes f s) (hf : NoFail f) :
    ∃ a t, f s = some (some a, t) := by
  obtain ⟨⟨_ | a, t⟩, h⟩ := h
  · exact absurd h (hf s t)
  · exact ⟨a, t, h⟩

end Fallible

end NekOS
