import Mathlib.Data.List.Nodup
import Mathlib.Data.List.Lattice
import Mathlib.Logic.Relation
import NekOS.Foundation.Loops

/-!
# Chains

Following a partial function from one element to the next until it ends.  The elements that are visited
are determined by the first one and pairwise different, and only their successors matter.
-/

namespace NekOS

variable {α : Type*}

/-- Following `next` from `a` visits the elements of the list and ends. -/
inductive Chain (next : α → Option α) : α → List α → Prop
  | last {a : α} : next a = none → Chain next a [a]
  | link {a b : α} {l : List α} : next a = some b → Chain next b l → Chain next a (a :: l)

namespace Chain

variable {next next' : α → Option α} {a b c : α} {l l' : List α}

/-- A chain starts with its first element. -/
lemma eq_cons (h : Chain next a l) : ∃ t, l = a :: t := by
  cases h with
  | last => exact ⟨[], rfl⟩
  | link _ _ => exact ⟨_, rfl⟩

/-- A chain is not empty. -/
lemma length_pos (h : Chain next a l) : 0 < l.length := by
  obtain ⟨t, rfl⟩ := h.eq_cons
  exact Nat.succ_pos _

/-- The first element determines the chain. -/
lemma unique (h : Chain next a l) (h' : Chain next a l') : l = l' := by
  induction h generalizing l' with
  | last hnone =>
    cases h' with
    | last => rfl
    | link hsome => rw [hnone] at hsome; cases hsome
  | link hsome _ ih =>
    cases h' with
    | last hnone => rw [hsome] at hnone; cases hnone
    | link hsome' h' =>
      rw [hsome] at hsome'
      cases hsome'
      rw [ih h']

/-- A chain from one of its elements. -/
lemma drop (h : Chain next a l) (hb : b ∈ l) : ∃ pre suf, l = pre ++ suf ∧ Chain next b suf := by
  induction h with
  | last hnone =>
    obtain rfl := List.mem_singleton.mp hb
    exact ⟨[], _, rfl, .last hnone⟩
  | link hsome htail ih =>
    rcases List.mem_cons.mp hb with rfl | hb
    · exact ⟨[], _, rfl, .link hsome htail⟩
    · obtain ⟨pre, suf, rfl, hsuf⟩ := ih hb
      exact ⟨_ :: pre, suf, rfl, hsuf⟩

/-- The elements of a chain are different. -/
lemma nodup (h : Chain next a l) : l.Nodup := by
  induction h with
  | last => exact List.nodup_singleton _
  | @link a b l hsome htail ih =>
    refine List.nodup_cons.mpr ⟨fun hmem => ?_, ih⟩
    obtain ⟨pre, suf, rfl, hsuf⟩ := htail.drop hmem
    have heq := (Chain.link hsome htail).unique hsuf
    have hlen := congrArg List.length heq
    simp only [List.length_cons, List.length_append] at hlen
    omega

/-- Only the successors of the elements matter. -/
lemma congr (h : Chain next a l) (heq : ∀ b ∈ l, next' b = next b) : Chain next' a l := by
  induction h with
  | last hnone => exact .last ((heq _ (List.mem_singleton_self _)).trans hnone)
  | link hsome _ ih =>
    obtain ⟨hhead, htail⟩ := List.forall_mem_cons.mp heq
    exact .link (hhead.trans hsome) (ih htail)

/-- The part of a chain from one of its positions on. -/
lemma suffix {m : List α} (h : Chain next a (l ++ b :: m)) : Chain next b (b :: m) := by
  induction l generalizing a with
  | nil =>
    obtain ⟨t, ht⟩ := h.eq_cons
    obtain rfl : b = a := (List.cons.inj ht).1
    exact h
  | cons x l ih =>
    rw [List.cons_append] at h
    cases hl : l ++ b :: m with
    | nil => simp at hl
    | cons y ys =>
      rw [hl] at h
      cases h with
      | link _ h =>
        rw [← hl] at h
        exact ih h

/-- The last element of a chain. -/
lemma next_last (h : Chain next a (l ++ [b])) : next b = none := by
  induction l generalizing a with
  | nil =>
    cases h with
    | last hnone => exact hnone
    | link _ h => exact absurd h.length_pos (by simp)
  | cons x l ih =>
    rw [List.cons_append] at h
    cases hl : l ++ [b] with
    | nil => simp at hl
    | cons y ys =>
      rw [hl] at h
      cases h with
      | link _ h =>
        rw [← hl] at h
        exact ih h

/-- A chain whose last element gets a successor. -/
lemma extend (h : Chain next a (l ++ [b])) (hkeep : ∀ x ∈ l, next' x = next x)
    (hlink : next' b = some c) {m : List α} (hm : Chain next' c m) :
    Chain next' a (l ++ b :: m) := by
  induction l generalizing a with
  | nil =>
    obtain ⟨t, ht⟩ := h.eq_cons
    obtain rfl : b = a := (List.cons.inj ht).1
    exact .link hlink hm
  | cons x l ih =>
    obtain ⟨hx, hkeep⟩ := List.forall_mem_cons.mp hkeep
    rw [List.cons_append] at h ⊢
    cases hl : l ++ [b] with
    | nil => simp at hl
    | cons y ys =>
      rw [hl] at h
      cases h with
      | link hsome h =>
        rw [← hl] at h
        exact .link (hx.trans hsome) (ih h hkeep)

/-- The elements of a chain after the first one are successors. -/
lemma forall_mem {p : α → Prop} (h : Chain next a l) (hstart : p a)
    (hnext : ∀ x y, next x = some y → p y) : ∀ x ∈ l, p x := by
  induction h with
  | last => exact fun x hx => List.mem_singleton.mp hx ▸ hstart
  | link hsome _ ih => exact List.forall_mem_cons.mpr ⟨hstart, ih (hnext _ _ hsome)⟩

/-- Following `next` up to an element at which it stops or ends. -/
lemma exists_of_reach {stops : α → Prop} [DecidablePred stops]
    (h : Relation.ReflTransGen (fun x y => next x = some y) a b) (hb : stops b ∨ next b = none) :
    ∃ l, Chain (fun x => if stops x then none else next x) a l ∧ (stops b → ∃ x ∈ l, stops x) := by
  induction h using Relation.ReflTransGen.head_induction_on with
  | refl =>
    by_cases hstop : stops b
    · exact ⟨[b], .last (if_pos hstop), fun _ => ⟨b, List.mem_singleton_self b, hstop⟩⟩
    · exact ⟨[b], .last ((if_neg hstop).trans (hb.resolve_left hstop)), fun h => absurd h hstop⟩
  | @head a c hac _ ih =>
    obtain ⟨l, hl, hmem⟩ := ih
    by_cases hstop : stops a
    · exact ⟨[a], .last (if_pos hstop), fun _ => ⟨a, List.mem_singleton_self a, hstop⟩⟩
    · refine ⟨a :: l, .link ((if_neg hstop).trans hac) hl, fun h => ?_⟩
      obtain ⟨x, hx, hstop⟩ := hmem h
      exact ⟨x, List.mem_cons_of_mem _ hx, hstop⟩

/-- **Rule for loops that follow a chain.** -/
theorem loop_spec {ρ σ : Type*} {I : α → σ → Prop} {Q : ρ → Prop} {body : α × σ → Flow ρ (α × σ)}
    (hstep : ∀ c s, I c s → (body (c, s)).Post Q fun t => next c = some t.1 ∧ I t.1 t.2)
    (h : Chain next a l) {s : σ} (hs : I a s) {n : ℕ} (hn : l.length ≤ n) :
    ∃ r, Flow.loop body n (a, s) = some r ∧ Q r := by
  induction h generalizing s n with
  | @last a hnone =>
    obtain ⟨m, rfl⟩ : ∃ m, n = m + 1 := ⟨n - 1, by simp only [List.length_singleton] at hn; omega⟩
    have hpost := hstep a s hs
    rw [Flow.loop]
    cases hbody : body (a, s) with
    | ret r =>
      rw [hbody] at hpost
      exact ⟨r, rfl, hpost⟩
    | next t =>
      rw [hbody] at hpost
      exact absurd (hpost.1.symm.trans hnone) (Option.some_ne_none _)
  | @link a b l hsome _ ih =>
    obtain ⟨m, rfl⟩ : ∃ m, n = m + 1 := ⟨n - 1, by simp only [List.length_cons] at hn; omega⟩
    have hpost := hstep a s hs
    rw [Flow.loop]
    cases hbody : body (a, s) with
    | ret r =>
      rw [hbody] at hpost
      exact ⟨r, rfl, hpost⟩
    | next t =>
      rw [hbody] at hpost
      obtain ⟨hnext, ht⟩ := hpost
      obtain rfl : b = t.1 := Option.some.inj (hsome.symm.trans hnext)
      exact ih ht (by simp only [List.length_cons] at hn; omega)

end Chain

/-- Following `next` from `a` visits the elements of the list and arrives at `b`. -/
inductive Path (next : α → Option α) (a : α) : List α → α → Prop
  | nil : Path next a [] a
  | snoc {l : List α} {b c : α} : Path next a l b → next b = some c → Path next a (l ++ [b]) c

namespace Path

variable {next : α → Option α} {a b c : α} {l cs : List α}

/-- What is visited can be reached. -/
lemma reach (h : Path next a l b) :
    Relation.ReflTransGen (fun x y => next x = some y) a b ∧
      ∀ x ∈ l, Relation.ReflTransGen (fun x y => next x = some y) a x := by
  induction h with
  | nil => exact ⟨.refl, nofun⟩
  | snoc _ hnext ih =>
    refine ⟨ih.1.tail hnext, fun x hx => ?_⟩
    rcases List.mem_append.mp hx with hx | hx
    · exact ih.2 x hx
    · rw [List.mem_singleton.mp hx]
      exact ih.1

/-- The start is visited, or it is where the path arrives. -/
lemma start_mem (h : Path next a l b) : a ∈ l ∨ a = b := by
  induction h with
  | nil => exact Or.inr rfl
  | snoc _ _ ih =>
    rcases ih with hmem | rfl
    · exact Or.inl (List.mem_append_left _ hmem)
    · exact Or.inl (List.mem_append_right _ (List.mem_singleton_self _))

/-- What follows an element that is visited is visited, or it is where the path arrives. -/
lemma next_mem (h : Path next a l b) {x y : α} (hx : x ∈ l) (hy : next x = some y) :
    y ∈ l ∨ y = b := by
  induction h with
  | nil => cases hx
  | snoc _ hnext ih =>
    rcases List.mem_append.mp hx with hx | hx
    · rcases ih hx with hmem | rfl
      · exact Or.inl (List.mem_append_left _ hmem)
      · exact Or.inl (List.mem_append_right _ (List.mem_singleton_self _))
    · rw [List.mem_singleton.mp hx, hnext] at hy
      exact Or.inr (Option.some.inj hy).symm

/-- If a path comes back to itself or ends, everything that can be reached has been visited. -/
lemma reach_mem (h : Path next a l b) (hend : b ∈ l ∨ next b = none)
    (hc : Relation.ReflTransGen (fun x y => next x = some y) a c) : c ∈ l ∨ c = b := by
  induction hc with
  | refl => exact h.start_mem
  | tail _ hstep ih =>
    rcases ih with hmem | rfl
    · exact h.next_mem hmem hstep
    · rcases hend with hmem | hnone
      · exact h.next_mem hmem hstep
      · rw [hnone] at hstep
        cases hstep

/-- A path along a chain. -/
lemma along_chain (h : Path next a l b) (hchain : Chain next a cs) :
    ∃ rest, cs = l ++ b :: rest ∧ Chain next b (b :: rest) := by
  induction h with
  | nil =>
    obtain ⟨rest, rfl⟩ := hchain.eq_cons
    exact ⟨rest, rfl, hchain⟩
  | snoc _ hnext ih =>
    obtain ⟨rest, rfl, htail⟩ := ih
    cases htail with
    | last hnone => rw [hnone] at hnext; cases hnext
    | link hsome htail =>
      rw [hsome] at hnext
      cases hnext
      obtain ⟨t, rfl⟩ := htail.eq_cons
      exact ⟨t, by rw [List.append_assoc, List.singleton_append], htail⟩

end Path

end NekOS
