import Mathlib.Data.List.Basic

/-!
# Services and servers

A service is a state machine that answers requests, and it allows some requests in a state and not others.  A
server implements a service if each of its steps is a step of the service, as far as the request is allowed.
Then a whole conversation with it is a conversation with the service, whatever its clients ask for, as long as
they keep to what the service allows.
-/

namespace NekOS

variable {σ τ ι ω : Type*}

/-- A service: what it may do with a request, and which requests it allows. -/
structure Service (τ ι ω : Type*) where
  Step : τ → ι → ω → τ → Prop
  Allows : τ → ι → Prop

/-- The clients of a server: what they ask for next, after requests and their answers. -/
abbrev Clients (ι ω : Type*) := List (ι × ω) → ι

/-- A conversation of so many requests with a server. -/
def converse (serve : σ → ι → Option (ω × σ)) (clients : Clients ι ω) :
    ℕ → List (ι × ω) → σ → Option (List (ι × ω) × σ)
  | 0, past, s => some (past, s)
  | n + 1, past, s =>
    match serve s (clients past) with
    | none => none
    | some (answer, s') => converse serve clients n (past ++ [(clients past, answer)]) s'

namespace Service

/-- The conversations that clients may have with a service. -/
inductive Talk (S : Service τ ι ω) (clients : Clients ι ω) (t : τ) : List (ι × ω) → τ → Prop
  | nil : S.Talk clients t [] t
  | snoc {past : List (ι × ω)} {t' t'' : τ} {answer : ω} : S.Talk clients t past t' →
      S.Step t' (clients past) answer t'' → S.Talk clients t (past ++ [(clients past, answer)]) t''

/-- Clients that ask for what is allowed, however the service answers. -/
def Respects (S : Service τ ι ω) (clients : Clients ι ω) (t : τ) : Prop :=
  ∀ past t', S.Talk clients t past t' → S.Allows t' (clients past)

/-- A server and a service: related states allow the same steps. -/
def ImplementedBy (S : Service τ ι ω) (serve : σ → ι → Option (ω × σ)) (R : σ → τ → Prop) : Prop :=
  ∀ s t request, R s t → S.Allows t request →
    ∃ answer s' t', serve s request = some (answer, s') ∧ S.Step t request answer t' ∧ R s' t'

variable {S : Service τ ι ω} {serve : σ → ι → Option (ω × σ)} {R : σ → τ → Prop} {clients : Clients ι ω} {t t' : τ}
  {s : σ} {past : List (ι × ω)}

/-- What every step keeps, as far as clients ask for requests of a kind, holds all the time. -/
lemma Talk.invariant {I : τ → Prop} {P : τ → ι → Prop} (h : S.Talk clients t past t')
    (hclients : ∀ past t', S.Talk clients t past t' → P t' (clients past))
    (hstep : ∀ t request answer t', I t → P t request → S.Step t request answer t' → I t')
    (ht : I t) : I t' := by
  induction h with
  | nil => exact ht
  | snoc htalk hnext ih => exact hstep _ _ _ _ ih (hclients _ _ htalk) hnext

/-- A conversation with a server goes on with a conversation with the service. -/
lemma ImplementedBy.converse_from (h : S.ImplementedBy serve R) (hclients : S.Respects clients t)
    (htalk : S.Talk clients t past t') (hR : R s t') (n : ℕ) :
    ∃ past' s' t'', converse serve clients n past s = some (past', s') ∧
      past'.length = past.length + n ∧ S.Talk clients t past' t'' ∧ R s' t'' := by
  induction n generalizing past s t' with
  | zero => exact ⟨past, s, t', rfl, rfl, htalk, hR⟩
  | succ n ih =>
    obtain ⟨answer, s', t'', hserve, hstep, hR'⟩ := h s t' (clients past) hR (hclients past t' htalk)
    obtain ⟨past', s'', t₃, hrun, hlen, htalk', hR''⟩ := ih (htalk.snoc hstep) hR'
    refine ⟨past', s'', t₃, ?_, ?_, htalk', hR''⟩
    · rw [converse, hserve]
      exact hrun
    · rw [hlen, List.length_append, List.length_singleton, Nat.add_assoc, Nat.add_comm 1 n]

/-- **Conversations.**  A server that implements a service answers all requests of clients that respect the
service, and as the service may answer them. -/
theorem ImplementedBy.converse (h : S.ImplementedBy serve R) (hR : R s t) (hclients : S.Respects clients t)
    (n : ℕ) : ∃ past s' t', converse serve clients n [] s = some (past, s') ∧ past.length = n ∧
      S.Talk clients t past t' ∧ R s' t' := by
  obtain ⟨past, s', t', hrun, hlen, htalk, hR'⟩ := h.converse_from hclients .nil hR n
  exact ⟨past, s', t', hrun, by rw [hlen, List.length_nil, Nat.zero_add], htalk, hR'⟩

end Service

end NekOS
