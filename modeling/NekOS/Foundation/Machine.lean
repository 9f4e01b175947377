import Mathlib.Logic.Relation
import Mathlib.Data.List.Basic

/-!
# Deterministic labelled machines

A machine is a partial step function on states and events.  The file provides the runs of a
machine, the states it reaches by steps that meet a side condition, the invariant rule for both,
and the bookkeeping rule used for conservation laws: a quantity that every step transforms by
appending what it takes in and removing what it gives out is transformed in the same way by a run.
-/

namespace NekOS

/-- A deterministic machine over states `σ` and events `ε`: `step s e` is the state after the
event, and `none` when the event cannot happen in `s` or stops the machine. -/
structure Machine (σ ε : Type*) where
  /-- The initial states. -/
  init : σ → Prop
  /-- The effect of one event. -/
  step : σ → ε → Option σ

namespace Machine

variable {σ ε α : Type*}

/-- The state after a list of events, when all of them can happen. -/
def run (M : Machine σ ε) : σ → List ε → Option σ
  | s, [] => some s
  | s, e :: es => (M.step s e).bind fun t => run M t es

/-- What an observer of single steps collects along a run. -/
def collect (M : Machine σ ε) (obs : σ → ε → List α) : σ → List ε → List α
  | _, [] => []
  | s, e :: es => obs s e ++ ((M.step s e).elim [] fun t => collect M obs t es)

/-- What an observer of single steps counts along a run. -/
def total (M : Machine σ ε) (obs : σ → ε → ℕ) : σ → List ε → ℕ
  | _, [] => 0
  | s, e :: es => obs s e + ((M.step s e).elim 0 fun t => total M obs t es)

/-- The states that the machine reaches by steps that all meet the side condition `ok`. -/
inductive Reaches (M : Machine σ ε) (ok : σ → ε → Prop) : σ → Prop
  | init {s : σ} : M.init s → Reaches M ok s
  | step {s t : σ} {e : ε} : Reaches M ok s → ok s e → M.step s e = some t → Reaches M ok t

/-- The steps of a run from `s` along `es` all meet the side condition `ok`. -/
def RunOk (M : Machine σ ε) (ok : σ → ε → Prop) : σ → List ε → Prop
  | _, [] => True
  | s, e :: es => ok s e ∧ ∀ t, M.step s e = some t → RunOk M ok t es

/-- The run along the events from the first state ends in the second one, and that is the first state
of the run with the property `P`. -/
inductive Until (M : Machine σ ε) (P : σ → Prop) : σ → List ε → σ → Prop
  | now {s : σ} : P s → Until M P s [] s
  | later {s t u : σ} {e : ε} {es : List ε} : ¬ P s → M.step s e = some t → Until M P t es u →
      Until M P s (e :: es) u

/-- The empty run stays where it is. -/
@[simp] lemma run_nil (M : Machine σ ε) (s : σ) : M.run s [] = some s := rfl

/-- A run makes its first step and continues from there. -/
lemma run_cons (M : Machine σ ε) (s : σ) (e : ε) (es : List ε) :
    M.run s (e :: es) = (M.step s e).bind fun t => M.run t es := rfl

/-- The first step of a run that goes through. -/
lemma run_cons_eq_some {M : Machine σ ε} {s u : σ} {e : ε} {es : List ε} :
    M.run s (e :: es) = some u ↔ ∃ t, M.step s e = some t ∧ M.run t es = some u := by
  rw [run_cons, Option.bind_eq_some_iff]

/-- A run along two lists is the run along the second from where the first one ends. -/
lemma run_append (M : Machine σ ε) (s : σ) (es fs : List ε) :
    M.run s (es ++ fs) = (M.run s es).bind fun t => M.run t fs := by
  induction es generalizing s with
  | nil => rfl
  | cons e es ih =>
    rw [List.cons_append, run_cons, run_cons, Option.bind_assoc]
    exact congrArg _ (funext fun t => ih t)

/-- What is collected along a run that makes its first step. -/
lemma collect_cons {M : Machine σ ε} {obs : σ → ε → List α} {s t : σ} {e : ε}
    (h : M.step s e = some t) (es : List ε) :
    M.collect obs s (e :: es) = obs s e ++ M.collect obs t es := by
  rw [collect, h, Option.elim_some]

/-- What is collected along two lists. -/
lemma collect_append {M : Machine σ ε} {obs : σ → ε → List α} {es : List ε} {s t : σ}
    (h : M.run s es = some t) (fs : List ε) :
    M.collect obs s (es ++ fs) = M.collect obs s es ++ M.collect obs t fs := by
  induction es generalizing s with
  | nil => cases h; rfl
  | cons e es ih =>
    obtain ⟨u, hu, hr⟩ := run_cons_eq_some.mp h
    rw [List.cons_append, collect_cons hu, collect_cons hu, ih hr, List.append_assoc]

/-- What is counted along two lists. -/
lemma total_append {M : Machine σ ε} {obs : σ → ε → ℕ} {es : List ε} {s t : σ}
    (h : M.run s es = some t) (fs : List ε) :
    M.total obs s (es ++ fs) = M.total obs s es + M.total obs t fs := by
  induction es generalizing s with
  | nil => cases h; simp [total]
  | cons e es ih =>
    obtain ⟨u, hu, hr⟩ := run_cons_eq_some.mp h
    simp only [List.cons_append, total, hu, Option.elim_some, ih hr, Nat.add_assoc]

/-- The steps of a run along two lists. -/
lemma RunOk.append {M : Machine σ ε} {ok : σ → ε → Prop} {es fs : List ε} {s : σ}
    (h : M.RunOk ok s (es ++ fs)) :
    M.RunOk ok s es ∧ ∀ t, M.run s es = some t → M.RunOk ok t fs := by
  induction es generalizing s with
  | nil =>
    refine ⟨trivial, fun t ht => ?_⟩
    cases ht
    exact h
  | cons e es ih =>
    refine ⟨⟨h.1, fun u hu => (ih (h.2 u hu)).1⟩, fun t ht => ?_⟩
    obtain ⟨u, hu, hr⟩ := run_cons_eq_some.mp ht
    exact (ih (h.2 u hu)).2 t hr

/-- Events that meet the side condition in every state. -/
lemma RunOk.of_forall {M : Machine σ ε} {ok : σ → ε → Prop} {es : List ε}
    (h : ∀ e ∈ es, ∀ s, ok s e) (s : σ) : M.RunOk ok s es := by
  induction es generalizing s with
  | nil => trivial
  | cons e es ih =>
    exact ⟨h e List.mem_cons_self s, fun t _ => ih (fun e' he' => h e' (List.mem_cons_of_mem _ he')) t⟩

/-- **Invariant rule.**  What holds initially and is kept by every admitted step holds in every
state reached. -/
theorem Reaches.invariant {M : Machine σ ε} {ok : σ → ε → Prop} {I : σ → Prop}
    (hinit : ∀ s, M.init s → I s)
    (hstep : ∀ s e t, I s → ok s e → M.step s e = some t → I t) {s : σ}
    (h : M.Reaches ok s) : I s := by
  induction h with
  | init h => exact hinit _ h
  | step _ hok hs ih => exact hstep _ _ _ ih hok hs

/-- A weaker side condition reaches at least the same states. -/
lemma Reaches.mono {M : Machine σ ε} {ok ok' : σ → ε → Prop} (himp : ∀ s e, ok s e → ok' s e)
    {s : σ} (h : M.Reaches ok s) : M.Reaches ok' s := by
  induction h with
  | init h => exact .init h
  | step _ hok hs ih => exact .step ih (himp _ _ hok) hs

/-- A run whose steps meet the side condition stays among the reached states. -/
lemma Reaches.run {M : Machine σ ε} {ok : σ → ε → Prop} {es : List ε} {s t : σ}
    (h : M.Reaches ok s) (hok : M.RunOk ok s es) (hr : M.run s es = some t) :
    M.Reaches ok t := by
  induction es generalizing s with
  | nil => cases hr; exact h
  | cons e es ih =>
    obtain ⟨u, hu, hr⟩ := run_cons_eq_some.mp hr
    exact ih (.step h hok.1 hu) (hok.2 u hu) hr

/-- **Invariant rule for runs.**  What holds at the start of a run and is kept by every admitted step
holds at its end. -/
theorem run_invariant {M : Machine σ ε} {ok : σ → ε → Prop} {I : σ → Prop}
    (hstep : ∀ s e t, I s → ok s e → M.step s e = some t → I t) {es : List ε} {s t : σ} (hs : I s)
    (hok : M.RunOk ok s es) (hr : M.run s es = some t) : I t := by
  induction es generalizing s with
  | nil => cases hr; exact hs
  | cons e es ih =>
    obtain ⟨u, hu, hr⟩ := run_cons_eq_some.mp hr
    exact ih (hstep s e u hs hok.1 hu) (hok.2 u hu) hr

/-- What every step keeps holds at the end of every run. -/
lemma run_keeps {M : Machine σ ε} {I : σ → Prop} (hstep : ∀ s e t, I s → M.step s e = some t → I t)
    {es : List ε} {s t : σ} (hs : I s) (hr : M.run s es = some t) : I t := by
  induction es generalizing s with
  | nil => cases hr; exact hs
  | cons e es ih =>
    obtain ⟨u, hu, hr⟩ := run_cons_eq_some.mp hr
    exact ih (hstep s e u hs hu) hr

/-- A run to the first state with a property is a run. -/
lemma Until.run {M : Machine σ ε} {P : σ → Prop} {es : List ε} {s u : σ} (h : M.Until P s es u) :
    M.run s es = some u := by
  induction h with
  | now _ => rfl
  | later _ hs _ ih => exact run_cons_eq_some.mpr ⟨_, hs, ih⟩

/-- It ends in a state with the property. -/
lemma Until.holds {M : Machine σ ε} {P : σ → Prop} {es : List ε} {s u : σ}
    (h : M.Until P s es u) : P u := by
  induction h with
  | now hP => exact hP
  | later _ _ _ ih => exact ih

/-- **Invariant rule for runs to the first state with a property.**  What holds at the start and is
kept by every admitted step from a state without the property holds at the end. -/
theorem Until.invariant {M : Machine σ ε} {P : σ → Prop} {ok : σ → ε → Prop} {I : σ → Prop}
    (hstep : ∀ s e t, ¬ P s → I s → ok s e → M.step s e = some t → I t) {es : List ε} {s u : σ}
    (h : M.Until P s es u) (hok : M.RunOk ok s es) (hs : I s) : I u := by
  induction h with
  | now _ => exact hs
  | later hP hstep' _ ih => exact ih (hok.2 _ hstep') (hstep _ _ _ hP hs hok.1 hstep')

/-- **Conservation rule.**  If every step from a state that satisfies the invariant `I` turns
`q s` into `q t` by appending the intake and removing the output at the front, the same holds for
a whole run: what came out, followed by what is left, is what was there, followed by what came
in. -/
theorem conservation {M : Machine σ ε} {ok : σ → ε → Prop} {I : σ → Prop}
    {q : σ → List α} {intake output : σ → ε → List α}
    (hstep : ∀ s e t, I s → ok s e → M.step s e = some t →
      I t ∧ q s ++ intake s e = output s e ++ q t)
    {es : List ε} {s t : σ} (hs : I s) (hok : M.RunOk ok s es) (hr : M.run s es = some t) :
    M.collect output s es ++ q t = q s ++ M.collect intake s es := by
  induction es generalizing s with
  | nil => cases hr; simp [collect]
  | cons e es ih =>
    obtain ⟨u, hu, hr⟩ := run_cons_eq_some.mp hr
    obtain ⟨hI, hq⟩ := hstep s e u hs hok.1 hu
    have hrest := ih hI (hok.2 u hu) hr
    simp only [collect, hu, Option.elim_some]
    rw [List.append_assoc, hrest, ← List.append_assoc, ← hq, List.append_assoc]

/-- **Suffix rule.**  If after every step from a state that satisfies the invariant `I` a quantity
is a suffix of what it was with the intake appended, the same holds for a whole run. -/
theorem suffix_of_steps {M : Machine σ ε} {ok : σ → ε → Prop} {I : σ → Prop}
    {q : σ → List α} {intake : σ → ε → List α}
    (hstep : ∀ s e t, I s → ok s e → M.step s e = some t → I t ∧ q t <:+ q s ++ intake s e)
    {es : List ε} {s t : σ} (hs : I s) (hok : M.RunOk ok s es) (hr : M.run s es = some t) :
    q t <:+ q s ++ M.collect intake s es := by
  induction es generalizing s with
  | nil => cases hr; simp [collect]
  | cons e es ih =>
    obtain ⟨u, hu, hr⟩ := run_cons_eq_some.mp hr
    obtain ⟨hI, hq⟩ := hstep s e u hs hok.1 hu
    refine (ih hI (hok.2 u hu) hr).trans ?_
    simp only [collect, hu, Option.elim_some]
    rw [← List.append_assoc]
    exact List.suffix_append_self_iff.mpr hq

/-- **Potential rule.**  If every step from a state that satisfies the invariant `I` pays for its
cost from the potential `φ` and its gain, the costs of a run are bounded by the potential at its
start and its gains. -/
theorem total_le {M : Machine σ ε} {ok : σ → ε → Prop} {I : σ → Prop} {φ : σ → ℕ}
    {cost gain : σ → ε → ℕ}
    (hstep : ∀ s e t, I s → ok s e → M.step s e = some t →
      I t ∧ φ t + cost s e ≤ φ s + gain s e)
    {es : List ε} {s t : σ} (hs : I s) (hok : M.RunOk ok s es) (hr : M.run s es = some t) :
    φ t + M.total cost s es ≤ φ s + M.total gain s es := by
  induction es generalizing s with
  | nil => cases hr; simp [total]
  | cons e es ih =>
    obtain ⟨u, hu, hr⟩ := run_cons_eq_some.mp hr
    obtain ⟨hI, hφ⟩ := hstep s e u hs hok.1 hu
    have hrest := ih hI (hok.2 u hu) hr
    simp only [total, hu, Option.elim_some]
    omega

end Machine

end NekOS
