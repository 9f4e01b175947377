import NekOS.Paging.Tree

/-!
# Adding tables and pages

What the allocating half of `kernel/pgtable.rs` does to the roles of pages: `create`, `walk` with
allocation and one iteration of `map`.  Each lemma gives the outcome of the operation, the roles
afterwards and how many pages were taken.
-/

namespace NekOS

open PageTable

/-- What an operation on the tree with the root `r` leaves alone: the pages of other trees. -/
structure Local (r : ℕ) (ph : Phys) (own : ℕ → Role) (ph' : Phys) (own' : ℕ → Role) : Prop where
  /-- No page joins or leaves another tree. -/
  keep : ∀ p t, t ≠ r → ((own p).tree p = some t ∨ (own' p).tree p = some t) → own' p = own p
  /-- The pages of other trees are not written. -/
  writes : ∀ w, ph'.mem w ≠ ph.mem w → ∀ t ≠ r, (own (pageOfWord w)).tree (pageOfWord w) ≠ some t

namespace Local

variable {r : ℕ} {ph ph₁ ph₂ ph' : Phys} {own own₁ own₂ own' : ℕ → Role}

/-- Doing nothing. -/
lemma refl (r : ℕ) (ph : Phys) (own : ℕ → Role) : Local r ph own ph own where
  keep _ _ _ _ := rfl
  writes _ hw := absurd rfl hw

/-- One after the other. -/
lemma trans (h₁ : Local r ph own ph₁ own₁) (h₂ : Local r ph₁ own₁ ph₂ own₂) :
    Local r ph own ph₂ own₂ where
  keep p t ht h := by
    rcases h with h | h
    · have hkeep := h₁.keep p t ht (Or.inl h)
      exact (h₂.keep p t ht (Or.inl (by rwa [hkeep]))).trans hkeep
    · have hkeep := h₂.keep p t ht (Or.inr h)
      exact hkeep.trans (h₁.keep p t ht (Or.inr (by rwa [← hkeep])))
  writes w hw t ht h := by
    by_cases hw₁ : ph₁.mem w = ph.mem w
    · refine h₂.writes w (by rwa [hw₁]) t ht ?_
      rwa [h₁.keep _ t ht (Or.inl h)]
    · exact h₁.writes w hw₁ t ht h

/-- Pages of other trees keep their contents. -/
lemma mem_eq (h : Local r ph own ph' own') {p t w : ℕ} (ht : t ≠ r)
    (hp : (own p).tree p = some t) (hw : pageOfWord w = p) : ph'.mem w = ph.mem w := by
  subst hw
  by_contra hne
  exact h.writes w hne t ht hp

/-- The roles of the pages of other trees. -/
lemma role_iff (h : Local r ph own ph' own') {p t : ℕ} (ht : t ≠ r) {ρ : Role}
    (hρ : ρ.tree p = some t) : own' p = ρ ↔ own p = ρ := by
  constructor
  · intro hp
    rwa [h.keep p t ht (Or.inr (by rw [hp, hρ]))] at hp
  · intro hp
    rwa [h.keep p t ht (Or.inl (by rw [hp, hρ]))]

/-- Other trees translate as before. -/
lemma lookup_eq (h : Local r ph own ph' own') (hT : Tables ph own) (hT' : Tables ph' own')
    {t : ℕ} (ht : own t = .root) (hne : t ≠ r) (n : ℕ) : lookup ph' t n = lookup ph t n := by
  refine Option.ext fun e => ?_
  rw [hT.lookup_eq_some ht, hT'.lookup_eq_some ((h.role_iff hne (by rfl)).mpr ht)]
  refine exists_congr fun q => ?_
  rw [h.role_iff hne (by rfl)]
  refine and_congr_right fun hq => ?_
  rw [entry_of_writes (hT.page_aligned (by simp [hq])) fun w hw =>
    h.mem_eq hne (by rw [hq]; rfl) hw]

end Local

/-- What an operation on the tree with the root `r` may do to pages and roles: it keeps the roles
that pages have, new pages join its own tree or none, and it writes to its own tables and to new
pages. -/
structure Extends (r : ℕ) (ph : Phys) (own : ℕ → Role) (ph' : Phys) (own' : ℕ → Role) : Prop where
  keep : ∀ p, own p ≠ .free → own' p = own p
  new : ∀ p, own p = .free → ∀ t, (own' p).tree p = some t → t = r
  writes : ∀ w, ph'.mem w ≠ ph.mem w →
    ((own' (pageOfWord w)).isTable = true ∧ (own' (pageOfWord w)).tree (pageOfWord w) = some r) ∨
      (own (pageOfWord w) = .free ∧ own' (pageOfWord w) ≠ .free)
  start : ph'.page.startAddr = ph.page.startAddr
  total : ph'.page.totalPages = ph.page.totalPages

namespace Extends

variable {r : ℕ} {ph ph₁ ph₂ ph' : Phys} {own own₁ own₂ own' : ℕ → Role}

/-- Doing nothing. -/
lemma refl (r : ℕ) (ph : Phys) (own : ℕ → Role) : Extends r ph own ph own where
  keep _ _ := rfl
  new p hp t ht := by simp [hp, Role.tree] at ht
  writes _ hw := absurd rfl hw
  start := rfl
  total := rfl

/-- One after the other. -/
lemma trans (h₁ : Extends r ph own ph₁ own₁) (h₂ : Extends r ph₁ own₁ ph₂ own₂) :
    Extends r ph own ph₂ own₂ where
  keep p hp := by
    have h := h₁.keep p hp
    exact (h₂.keep p (by rwa [h])).trans h
  new p hp t ht := by
    by_cases hfree : own₁ p = .free
    · exact h₂.new p hfree t ht
    · rw [h₂.keep p hfree] at ht
      exact h₁.new p hp t ht
  writes w hw := by
    have hback : own₁ (pageOfWord w) = .free → own (pageOfWord w) = .free := fun h => by
      by_contra hne
      exact hne ((h₁.keep _ hne).symm.trans h)
    by_cases hw₁ : ph₁.mem w = ph.mem w
    · rcases h₂.writes w (by rwa [hw₁]) with h | ⟨hfree, hnew⟩
      · exact Or.inl h
      · exact Or.inr ⟨hback hfree, hnew⟩
    · rcases h₁.writes w hw₁ with ⟨htable, htree⟩ | ⟨hfree, hnew⟩
      · have hkeep := h₂.keep (pageOfWord w) (fun h => by rw [h] at htable; simp [Role.isTable] at htable)
        exact Or.inl ⟨by rwa [hkeep], by rwa [hkeep]⟩
      · exact Or.inr ⟨hfree, by rwa [h₂.keep _ hnew]⟩
  start := h₂.start.trans h₁.start
  total := h₂.total.trans h₁.total

/-- Pages of other trees keep their contents. -/
lemma mem_eq (h : Extends r ph own ph' own') {p w : ℕ} (hp : own p ≠ .free)
    (hother : (own p).isTable = true → (own p).tree p ≠ some r) (hw : pageOfWord w = p) :
    ph'.mem w = ph.mem w := by
  subst hw
  by_contra hne
  rcases h.writes w hne with ⟨htable, htree⟩ | ⟨hfree, -⟩
  · rw [h.keep _ hp] at htable htree
    exact hother htable htree
  · exact hp hfree

/-- Other trees are left alone. -/
lemma toLocal (h : Extends r ph own ph' own') : Local r ph own ph' own' where
  keep p t ht hp := by
    by_cases hfree : own p = .free
    · rcases hp with hp | hp
      · simp [hfree, Role.tree] at hp
      · exact absurd (h.new p hfree t hp) ht
    · exact h.keep p hfree
  writes w hw t ht htree := by
    rcases h.writes w hw with ⟨htable, htree'⟩ | ⟨hfree, -⟩
    · have hne : own (pageOfWord w) ≠ .free := fun h => by simp [h, Role.tree] at htree
      rw [h.keep _ hne, htree, Option.some.injEq] at htree'
      exact ht htree'
    · simp [hfree, Role.tree] at htree

end Extends

/-! ### New pages -/

namespace Tables

variable {ph : Phys} {own : ℕ → Role} {r p : ℕ}

/-- An allocated page gets a role. -/
lemma alloc (hT : Tables ph own) {a : PageAllocator} (h : ph.page.alloc = some (p, a)) {ρ : Role}
    (hρ : ρ.plain) : own p = .free ∧ Tables { ph with page := a } (Function.update own p ρ) := by
  obtain ⟨hnew, hset, hstart, htotal, -⟩ := PageAllocator.alloc_eq_some h
  have hfree : own p = .free := (hT.free_iff p).mpr hnew
  refine ⟨hfree, hT.congr hstart htotal (hT.counted.alloc h) (fun q => ?_) (fun q hq => ?_)
    fun _ _ _ => rfl⟩
  · by_cases hqp : q = p
    · subst hqp
      simp [hset, hρ.1]
    · rw [Function.update_of_ne hqp, hT.free_iff, hset]
      simp [hqp]
  · by_cases hqp : q = p
    · subst hqp
      rw [Function.update_self, hfree]
      exact ⟨rfl, hρ.2⟩
    · exact absurd (Function.update_of_ne hqp ..) hq

/-- Writing to a page that is no table. -/
lemma write (hT : Tables ph own) {ph' : Phys} (hpage : ph'.page = ph.page)
    (hp : (own p).isTable = false) (hw : ∀ w, pageOfWord w ≠ p → ph'.mem w = ph.mem w) :
    Tables ph' own := by
  refine hT.congr (by rw [hpage]) (by rw [hpage]) (by rw [hpage]; exact hT.counted)
    (fun q => by rw [hpage]; exact hT.free_iff q) (fun q hq => absurd rfl hq) fun q i hq => ?_
  have hfree : own q ≠ .free := fun h => by simp [h, Role.isUpper] at hq
  refine entry_of_writes (hT.page_aligned hfree) (fun w hwq => hw w fun hwp => ?_) i
  rw [← hwp, hwq] at hp
  cases hown : own q <;> simp [hown, Role.isTable, Role.isUpper] at hp hq

/-- A page that is no table is given back. -/
lemma free (hT : Tables ph own) (hp : (own p).isTable = false) (halign : p % pageSize = 0) :
    Tables (ph.freePage p) (Function.update own p .free) := by
  have hset : ∀ q, (ph.freePage p).page.Allocated q ↔ ph.page.Allocated q ∧ q ≠ p :=
    PageAllocator.allocated_free_iff hT.aligned halign
  refine hT.congr (PageAllocator.free_startAddr ..) (PageAllocator.free_totalPages ..)
    (hT.counted.free p) (fun q => ?_) (fun q hq => ?_) fun _ _ _ => rfl
  · rw [hset]
    by_cases hqp : q = p
    · subst hqp
      simp
    · rw [Function.update_of_ne hqp, hT.free_iff]
      simp [hqp]
  · by_cases hqp : q = p
    · subst hqp
      rw [Function.update_self]
      exact ⟨hp, rfl⟩
    · exact absurd (Function.update_of_ne hqp ..) hq

/-- A page that is no table gets another role of this kind. -/
lemma relabel (hT : Tables ph own) (hp : (own p).plain) {ρ : Role} (hρ : ρ.plain) :
    Tables ph (Function.update own p ρ) := by
  refine hT.congr rfl rfl hT.counted (fun q => ?_) (fun q hq => ?_) fun _ _ _ => rfl
  · by_cases hqp : q = p
    · subst hqp
      simp [hρ.1, hT.allocated hp.1]
    · rw [Function.update_of_ne hqp, hT.free_iff]
  · by_cases hqp : q = p
    · subst hqp
      rw [Function.update_self]
      exact ⟨hp.2, hρ.2⟩
    · exact absurd (Function.update_of_ne hqp ..) hq

/-- An empty page becomes the root of a new tree. -/
lemma newRoot (hT : Tables ph own) (hp : (own p).plain)
    (hempty : ∀ i, hasFlag (ph.entry p i) pteV = false) :
    Tables ph (Function.update own p .root) := by
  have hne : ∀ {q ρ}, ρ.isTable = true → own q = ρ → q ≠ p := by
    rintro q ρ hρ hq rfl
    rw [← hq, hp.2] at hρ
    simp at hρ
  have hto : ∀ {q ρ}, ρ.isTable = true → own q = ρ → Function.update own p .root q = ρ :=
    fun hρ hq => by rw [Function.update_of_ne (hne hρ hq), hq]
  have hfrom : ∀ {q ρ}, ρ ≠ .root → Function.update own p .root q = ρ → own q = ρ := by
    intro q ρ hρ hq
    by_cases hqp : q = p
    · rw [hqp, Function.update_self] at hq
      exact absurd hq.symm hρ
    · rwa [Function.update_of_ne hqp] at hq
  refine ⟨hT.aligned, hT.bounded, hT.counted, fun q => ?_, fun q r i hq => ?_, fun q r i j hq => ?_,
    fun r i hr hflag => ?_, fun q r i j hq hflag => ?_⟩
  · by_cases hqp : q = p
    · subst hqp
      simp [hT.allocated hp.1]
    · rw [Function.update_of_ne hqp, hT.free_iff]
  · obtain ⟨hr, he⟩ := hT.mid_link q r i (hfrom (by simp) hq)
    exact ⟨hto rfl hr, he⟩
  · obtain ⟨q', hq', he⟩ := hT.low_link q r i j (hfrom (by simp) hq)
    exact ⟨q', hto rfl hq', he⟩
  · by_cases hrp : r = p
    · rw [hrp, hempty] at hflag
      simp at hflag
    · rw [Function.update_of_ne hrp] at hr
      obtain ⟨q, hq, he⟩ := hT.root_entry r i hr hflag
      exact ⟨q, hto rfl hq, he⟩
  · obtain ⟨q', hq', he⟩ := hT.mid_entry q r i j (hfrom (by simp) hq) hflag
    exact ⟨q', hto rfl hq', he⟩

/-- An empty page becomes a table of the middle level. -/
lemma linkMid (hT : Tables ph own) (hp : (own p).plain)
    (hempty : ∀ i, hasFlag (ph.entry p i) pteV = false) (hr : own r = .root) {i : Fin 512}
    (hslot : hasFlag (ph.entry r i) pteV = false) :
    Tables (ph.setEntry r i (paToPte p pteV)) (Function.update own p (.mid r i)) := by
  have hne : ∀ {q ρ}, ρ.isTable = true → own q = ρ → q ≠ p := by
    rintro q ρ hρ hq rfl
    rw [← hq, hp.2] at hρ
    simp at hρ
  have hto : ∀ {q ρ}, ρ.isTable = true → own q = ρ → Function.update own p (.mid r i) q = ρ :=
    fun hρ hq => by rw [Function.update_of_ne (hne hρ hq), hq]
  have hentry : ∀ q j, own q ≠ .free → ¬ (q = r ∧ j = i) →
      (ph.setEntry r i (paToPte p pteV)).entry q j = ph.entry q j := fun q j hq hqr => by
    rw [entry_setEntry (hT.page_aligned hq) (hT.page_aligned (by simp [hr])), if_neg hqr]
  have hself : (ph.setEntry r i (paToPte p pteV)).entry r i = paToPte p pteV := by
    rw [entry_setEntry (hT.page_aligned (by simp [hr])) (hT.page_aligned (by simp [hr])),
      if_pos ⟨rfl, rfl⟩]
  refine ⟨hT.aligned, hT.bounded, hT.counted, fun q => ?_, fun q r' i' hq => ?_,
    fun q r' i' j' hq => ?_, fun r' i' hr' hflag => ?_, fun q r' i' j' hq hflag => ?_⟩
  · by_cases hqp : q = p
    · subst hqp
      simp [Phys.setEntry, hT.allocated hp.1]
    · rw [Function.update_of_ne hqp, hT.free_iff]
      rfl
  · by_cases hqp : q = p
    · subst hqp
      rw [Function.update_self, Role.mid.injEq] at hq
      obtain ⟨rfl, rfl⟩ := hq
      exact ⟨hto rfl hr, hself⟩
    · rw [Function.update_of_ne hqp] at hq
      obtain ⟨hr', he⟩ := hT.mid_link q r' i' hq
      refine ⟨hto rfl hr', ?_⟩
      rw [hentry r' i' (by simp [hr']), he]
      rintro ⟨rfl, rfl⟩
      rw [he, hasFlag_pointer] at hslot
      simp at hslot
  · have hqp : q ≠ p := by
      rintro rfl
      simp at hq
    rw [Function.update_of_ne hqp] at hq
    obtain ⟨q', hq', he⟩ := hT.low_link q r' i' j' hq
    refine ⟨q', hto rfl hq', ?_⟩
    rw [hentry q' j' (by simp [hq']), he]
    rintro ⟨rfl, -⟩
    simp [hr] at hq'
  · have hrp : r' ≠ p := by
      rintro rfl
      simp at hr'
    rw [Function.update_of_ne hrp] at hr'
    by_cases hri : r' = r ∧ i' = i
    · obtain ⟨rfl, rfl⟩ := hri
      exact ⟨p, Function.update_self .., hself⟩
    · rw [hentry r' i' (by simp [hr']) hri] at hflag ⊢
      obtain ⟨q, hq, he⟩ := hT.root_entry r' i' hr' hflag
      exact ⟨q, hto rfl hq, he⟩
  · by_cases hqp : q = p
    · subst hqp
      rw [hentry q j' hp.1 (by rintro ⟨rfl, -⟩; exact hne rfl hr rfl), hempty] at hflag
      simp at hflag
    · rw [Function.update_of_ne hqp] at hq
      have hqr : ¬ (q = r ∧ j' = i) := by
        rintro ⟨rfl, -⟩
        simp [hr] at hq
      rw [hentry q j' (by simp [hq]) hqr] at hflag ⊢
      obtain ⟨q', hq', he⟩ := hT.mid_entry q r' i' j' hq hflag
      exact ⟨q', hto rfl hq', he⟩

/-- A page becomes a table of the last level. -/
lemma linkLow (hT : Tables ph own) (hp : (own p).plain) {q : ℕ} {i j : Fin 512}
    (hq : own q = .mid r i) (hslot : hasFlag (ph.entry q j) pteV = false) :
    Tables (ph.setEntry q j (paToPte p pteV)) (Function.update own p (.low r i j)) := by
  have hne : ∀ {q ρ}, ρ.isTable = true → own q = ρ → q ≠ p := by
    rintro q ρ hρ hq rfl
    rw [← hq, hp.2] at hρ
    simp at hρ
  have hto : ∀ {q ρ}, ρ.isTable = true → own q = ρ → Function.update own p (.low r i j) q = ρ :=
    fun hρ hq => by rw [Function.update_of_ne (hne hρ hq), hq]
  have hentry : ∀ q' k, own q' ≠ .free → ¬ (q' = q ∧ k = j) →
      (ph.setEntry q j (paToPte p pteV)).entry q' k = ph.entry q' k := fun q' k hq' hqj => by
    rw [entry_setEntry (hT.page_aligned hq') (hT.page_aligned (by simp [hq])), if_neg hqj]
  have hself : (ph.setEntry q j (paToPte p pteV)).entry q j = paToPte p pteV := by
    rw [entry_setEntry (hT.page_aligned (by simp [hq])) (hT.page_aligned (by simp [hq])),
      if_pos ⟨rfl, rfl⟩]
  refine ⟨hT.aligned, hT.bounded, hT.counted, fun q' => ?_, fun q' r' i' hq' => ?_,
    fun q' r' i' j' hq' => ?_, fun r' i' hr' hflag => ?_, fun q' r' i' j' hq' hflag => ?_⟩
  · by_cases hqp : q' = p
    · subst hqp
      simp [Phys.setEntry, hT.allocated hp.1]
    · rw [Function.update_of_ne hqp, hT.free_iff]
      rfl
  · have hqp : q' ≠ p := by
      rintro rfl
      simp at hq'
    rw [Function.update_of_ne hqp] at hq'
    obtain ⟨hr', he⟩ := hT.mid_link q' r' i' hq'
    refine ⟨hto rfl hr', ?_⟩
    rw [hentry r' i' (by simp [hr']), he]
    rintro ⟨rfl, -⟩
    simp [hr'] at hq
  · by_cases hqp : q' = p
    · subst hqp
      rw [Function.update_self, Role.low.injEq] at hq'
      obtain ⟨rfl, rfl, rfl⟩ := hq'
      exact ⟨q, hto rfl hq, hself⟩
    · rw [Function.update_of_ne hqp] at hq'
      obtain ⟨q₁, hq₁, he⟩ := hT.low_link q' r' i' j' hq'
      refine ⟨q₁, hto rfl hq₁, ?_⟩
      rw [hentry q₁ j' (by simp [hq₁]), he]
      rintro ⟨rfl, rfl⟩
      rw [he, hasFlag_pointer] at hslot
      simp at hslot
  · have hrp : r' ≠ p := by
      rintro rfl
      simp at hr'
    rw [Function.update_of_ne hrp] at hr'
    have hrq : ¬ (r' = q ∧ i' = j) := by
      rintro ⟨rfl, -⟩
      simp [hr'] at hq
    rw [hentry r' i' (by simp [hr']) hrq] at hflag ⊢
    obtain ⟨q', hq', he⟩ := hT.root_entry r' i' hr' hflag
    exact ⟨q', hto rfl hq', he⟩
  · have hqp : q' ≠ p := by
      rintro rfl
      simp at hq'
    rw [Function.update_of_ne hqp] at hq'
    by_cases hqj : q' = q ∧ j' = j
    · obtain ⟨rfl, rfl⟩ := hqj
      rw [hq, Role.mid.injEq] at hq'
      obtain ⟨rfl, rfl⟩ := hq'
      exact ⟨p, Function.update_self .., hself⟩
    · rw [hentry q' j' (by simp [hq']) hqj] at hflag ⊢
      obtain ⟨q₁, hq₁, he⟩ := hT.mid_entry q' r' i' j' hq' hflag
      exact ⟨q₁, hto rfl hq₁, he⟩

end Tables

/-! ### Walking down -/

/-- What creating tables in the tree with the root `r` does: it extends the tree and changes no
translation. -/
structure Grown (r : ℕ) (ph : Phys) (own : ℕ → Role) (ph' : Phys) (own' : ℕ → Role) : Prop
    extends Extends r ph own ph' own' where
  tables : Tables ph' own'
  only : ∀ p, own' p = own p ∨ (own p = .free ∧ (own' p).isTable = true)
  lookups : ∀ n, lookup ph' r n = lookup ph r n

namespace Grown

variable {r : ℕ} {ph ph₁ ph₂ : Phys} {own own₁ own₂ : ℕ → Role}

/-- Doing nothing. -/
lemma refl (r : ℕ) (hT : Tables ph own) : Grown r ph own ph own :=
  ⟨Extends.refl .., hT, fun _ => Or.inl rfl, fun _ => rfl⟩

/-- One after the other. -/
lemma trans (h₁ : Grown r ph own ph₁ own₁) (h₂ : Grown r ph₁ own₁ ph₂ own₂) :
    Grown r ph own ph₂ own₂ where
  toExtends := h₁.toExtends.trans h₂.toExtends
  tables := h₂.tables
  only p := by
    rcases h₁.only p with h | ⟨hfree, htable⟩
    · rw [← h]
      exact h₂.only p
    · refine Or.inr ⟨hfree, ?_⟩
      rwa [h₂.keep p (by rintro h; simp [h, Role.isTable] at htable)]
  lookups n := (h₂.lookups n).trans (h₁.lookups n)

end Grown

/-- `create` fails when no page is left, or takes a page and clears it. -/
lemma create_cases {ph : Phys} {own : ℕ → Role} (hT : Tables ph own) :
    (create ph = some (none, ph) ∧ ph.page.freePages = 0) ∨
    ∃ p ph', create ph = some (some p, ph') ∧ own p = .free ∧
      Tables ph' (Function.update own p .lost) ∧ (∀ i, ph'.entry p i = 0) ∧
      (∀ w, pageOfWord w ≠ p → ph'.mem w = ph.mem w) ∧
      ph'.page.startAddr = ph.page.startAddr ∧ ph'.page.totalPages = ph.page.totalPages ∧
      ph'.page.freePages + 1 = ph.page.freePages := by
  rcases halloc : ph.page.alloc with _ | ⟨p, a⟩
  · refine Or.inl ⟨?_, PageAllocator.freePages_of_alloc_eq_none hT.counted halloc⟩
    have hnone : allocPage ph = some (none, ph) := by rw [allocPage, halloc]
    rw [create, Fallible.bind_of_none hnone]
  · have hsome : allocPage ph = some (some p, { ph with page := a }) := by rw [allocPage, halloc]
    obtain ⟨hfree, hT'⟩ := hT.alloc halloc (ρ := .lost) (by simp [Role.plain, Role.isTable])
    obtain ⟨-, -, hstart, htotal, hcount⟩ := PageAllocator.alloc_eq_some halloc
    have halign := hT'.page_aligned (p := p) (by simp)
    refine Or.inr ⟨p, ({ ph with page := a } : Phys).zeroPage p, ?_, hfree, ?_,
      entry_zeroPage halign, fun w hw => ?_, hstart, htotal, hcount⟩
    · rw [create, Fallible.bind_of_some hsome]
      rfl
    · refine hT'.write rfl (p := p) (by simp [Role.isTable]) fun w hw => ?_
      rw [zeroPage_mem halign, if_neg hw]
    · rw [zeroPage_mem halign, if_neg hw]

/-- A new table `p` linked from the table `q` of the tree with the root `r`. -/
lemma Extends.link {r p q : ℕ} {j : Fin 512} {e : ℕ} {ph ph₁ : Phys} {own : ℕ → Role} {ρ : Role}
    (hfree : own p = .free) (hw : ∀ w, pageOfWord w ≠ p → ph₁.mem w = ph.mem w)
    (hstart : ph₁.page.startAddr = ph.page.startAddr)
    (htotal : ph₁.page.totalPages = ph.page.totalPages) (hq : q % pageSize = 0)
    (hqr : (own q).isTable = true ∧ (own q).tree q = some r) (hρ : ρ ≠ .free)
    (htree : ∀ t, ρ.tree p = some t → t = r) :
    Extends r ph own (ph₁.setEntry q j e) (Function.update own p ρ) where
  keep p' hp' := Function.update_of_ne (by rintro rfl; exact hp' hfree) ..
  new p' hp' t ht := by
    by_cases hpp : p' = p
    · subst hpp
      rw [Function.update_self] at ht
      exact htree t ht
    · rw [Function.update_of_ne hpp, hp'] at ht
      simp [Role.tree] at ht
  writes w hne := by
    by_cases hwp : pageOfWord w = p
    · exact Or.inr ⟨by rw [hwp, hfree], by rw [hwp, Function.update_self]; exact hρ⟩
    · left
      have hword : w = q / 8 + j := by
        by_contra hwq
        exact hne ((Function.update_of_ne hwq ..).trans (hw w hwp))
      have hpage : pageOfWord w = q := by rw [hword, pageOfWord_entry hq]
      rw [hpage] at hwp ⊢
      rwa [Function.update_of_ne hwp]
  start := hstart
  total := htotal

/-- A level of `walk` from the root. -/
lemma descend_root {ph : Phys} {own : ℕ → Role} {r : ℕ} (hT : Tables ph own) (hr : own r = .root)
    (i : Fin 512) : ∃ o ph' own', descend true r i ph = some (o, ph') ∧ Grown r ph own ph' own' ∧
      ph.page.freePages ≤ ph'.page.freePages + 1 ∧ (∀ q, o = some q → own' q = .mid r i) ∧
      (o = none → ph.page.freePages = 0) ∧
      (∀ q, own q = .mid r i → o = some q ∧ ph' = ph ∧ own' = own) := by
  cases hflag : hasFlag (ph.entry r i) pteV with
  | true =>
    obtain ⟨p, hp, he⟩ := hT.root_entry r i hr hflag
    refine ⟨some p, ph, own, ?_, Grown.refl r hT, Nat.le_succ _, ?_, by simp, fun q hq => ?_⟩
    · simp [descend, he, hasFlag_pointer, isLeaf_pointer, hT.pteToPa_link (p := p) (by simp [hp])]
    · rintro _ ⟨⟩
      exact hp
    · exact ⟨by rw [hT.mid_unique hq hp], rfl, rfl⟩
  | false =>
    have hnone : ∀ q, own q ≠ .mid r i := fun q hq => by
      rw [(hT.mid_link q r i hq).2, hasFlag_pointer] at hflag
      simp at hflag
    rcases create_cases hT with ⟨hcreate, hzero⟩ |
      ⟨p, ph₁, hcreate, hfree, hT₁, hempty, hw, hstart, htotal, hcount⟩
    · refine ⟨none, ph, own, ?_, Grown.refl r hT, Nat.le_succ _, by simp, fun _ => hzero,
        fun q hq => absurd hq (hnone q)⟩
      simp only [descend, Fallible.gets_bind, hflag, Bool.not_false, if_true]
      exact Fallible.bind_of_none hcreate
    · have hrp : r ≠ p := by
        rintro rfl
        simp [hr] at hfree
      have hra := hT.page_aligned (p := r) (by simp [hr])
      have hr₁ : Function.update own p .lost r = .root := by rw [Function.update_of_ne hrp, hr]
      have hslot : hasFlag (ph₁.entry r i) pteV = false := by
        rw [entry_of_writes hra fun w h => hw w (by rw [h]; exact hrp), hflag]
      have hT₂ := hT₁.linkMid (p := p) (by simp [Role.plain, Role.isTable])
        (fun k => by rw [hempty, hasFlag_zero]) hr₁ hslot
      rw [Function.update_idem] at hT₂
      have hext : Extends r ph own (ph₁.setEntry r i (paToPte p pteV))
          (Function.update own p (.mid r i)) :=
        Extends.link hfree hw hstart htotal hra ⟨by rw [hr]; rfl, by rw [hr]; rfl⟩ (by simp)
          (by simp [Role.tree])
      refine ⟨some p, ph₁.setEntry r i (paToPte p pteV), Function.update own p (.mid r i), ?_,
        ⟨hext, hT₂, fun q => ?_, fun n => ?_⟩, hcount.ge, ?_, by simp,
        fun q hq => absurd hq (hnone q)⟩
      · simp only [descend, Fallible.gets_bind, hflag, Bool.not_false, if_true]
        rw [Fallible.bind_of_some hcreate]
        rfl
      · by_cases hqp : q = p
        · subst hqp
          exact Or.inr ⟨hfree, by simp [Role.isTable]⟩
        · exact Or.inl (Function.update_of_ne hqp ..)
      · refine Option.ext fun e => ?_
        rw [hT₂.lookup_eq_some (by rw [Function.update_of_ne hrp, hr]), hT.lookup_eq_some hr]
        refine exists_congr fun q => ?_
        by_cases hqp : q = p
        · subst hqp
          simp [hfree]
        · rw [Function.update_of_ne hqp]
          refine and_congr_right fun hq => ?_
          have hqa := hT.page_aligned (p := q) (by simp [hq])
          have hqr : q ≠ r := by
            rintro rfl
            simp [hr] at hq
          rw [entry_setEntry hqa hra, if_neg (fun h => hqr h.1),
            entry_of_writes hqa fun w h => hw w (by rw [h]; exact hqp)]
      · rintro _ ⟨⟩
        exact Function.update_self ..

/-- A level of `walk` from a table of the middle level. -/
lemma descend_mid {ph : Phys} {own : ℕ → Role} {r q : ℕ} {i : Fin 512} (hT : Tables ph own)
    (hq : own q = .mid r i) (j : Fin 512) :
    ∃ o ph' own', descend true q j ph = some (o, ph') ∧ Grown r ph own ph' own' ∧
      ph.page.freePages ≤ ph'.page.freePages + 1 ∧ (∀ p, o = some p → own' p = .low r i j) ∧
      (o = none → ph.page.freePages = 0) ∧
      (∀ p, own p = .low r i j → o = some p ∧ ph' = ph ∧ own' = own) := by
  have hr := (hT.mid_link q r i hq).1
  cases hflag : hasFlag (ph.entry q j) pteV with
  | true =>
    obtain ⟨p, hp, he⟩ := hT.mid_entry q r i j hq hflag
    refine ⟨some p, ph, own, ?_, Grown.refl r hT, Nat.le_succ _, ?_, by simp, fun p' hp' => ?_⟩
    · simp [descend, he, hasFlag_pointer, isLeaf_pointer, hT.pteToPa_link (p := p) (by simp [hp])]
    · rintro _ ⟨⟩
      exact hp
    · exact ⟨by rw [hT.low_unique hp' hp], rfl, rfl⟩
  | false =>
    have hnone : ∀ p, own p ≠ .low r i j := fun p hp => by
      obtain ⟨q', hq', he⟩ := hT.low_link p r i j hp
      obtain rfl := hT.mid_unique hq' hq
      rw [he, hasFlag_pointer] at hflag
      simp at hflag
    rcases create_cases hT with ⟨hcreate, hzero⟩ |
      ⟨p, ph₁, hcreate, hfree, hT₁, hempty, hw, hstart, htotal, hcount⟩
    · refine ⟨none, ph, own, ?_, Grown.refl r hT, Nat.le_succ _, by simp, fun _ => hzero,
        fun p' hp' => absurd hp' (hnone p')⟩
      simp only [descend, Fallible.gets_bind, hflag, Bool.not_false, if_true]
      exact Fallible.bind_of_none hcreate
    · have hqp : q ≠ p := by
        rintro rfl
        simp [hq] at hfree
      have hqa := hT.page_aligned (p := q) (by simp [hq])
      have hq₁ : Function.update own p .lost q = .mid r i := by rw [Function.update_of_ne hqp, hq]
      have hslot : hasFlag (ph₁.entry q j) pteV = false := by
        rw [entry_of_writes hqa fun w h => hw w (by rw [h]; exact hqp), hflag]
      have hT₂ := hT₁.linkLow (p := p) (by simp [Role.plain, Role.isTable]) hq₁ hslot
      rw [Function.update_idem] at hT₂
      have hext : Extends r ph own (ph₁.setEntry q j (paToPte p pteV))
          (Function.update own p (.low r i j)) :=
        Extends.link hfree hw hstart htotal hqa ⟨by rw [hq]; rfl, by rw [hq]; rfl⟩ (by simp)
          (by simp [Role.tree])
      refine ⟨some p, ph₁.setEntry q j (paToPte p pteV), Function.update own p (.low r i j), ?_,
        ⟨hext, hT₂, fun q' => ?_, fun n => ?_⟩, hcount.ge, ?_, by simp,
        fun p' hp' => absurd hp' (hnone p')⟩
      · simp only [descend, Fallible.gets_bind, hflag, Bool.not_false, if_true]
        rw [Fallible.bind_of_some hcreate]
        rfl
      · by_cases hqp' : q' = p
        · subst hqp'
          exact Or.inr ⟨hfree, by simp [Role.isTable]⟩
        · exact Or.inl (Function.update_of_ne hqp' ..)
      · have hrp : r ≠ p := by
          rintro rfl
          simp [hr] at hfree
        have hpa := hT₁.page_aligned (p := p) (by simp)
        refine Option.ext fun e => ?_
        rw [hT₂.lookup_eq_some (by rw [Function.update_of_ne hrp, hr]), hT.lookup_eq_some hr]
        refine exists_congr fun q' => ?_
        by_cases hq'p : q' = p
        · subst hq'p
          rw [entry_setEntry hpa hqa, if_neg (fun h => hqp h.1.symm), hempty]
          simp only [hfree, reduceCtorEq, false_and, iff_false, not_and]
          rintro - rfl
          simp
        · rw [Function.update_of_ne hq'p]
          refine and_congr_right fun hq' => ?_
          have hq'a := hT.page_aligned (p := q') (by simp [hq'])
          have hq'q : q' ≠ q := by
            rintro rfl
            simp [hq] at hq'
          rw [entry_setEntry hq'a hqa, if_neg (fun h => hq'q h.1),
            entry_of_writes hq'a fun w h => hw w (by rw [h]; exact hq'p)]
      · rintro _ ⟨⟩
        exact Function.update_self ..

/-- `walk` with allocation. -/
lemma walk_true {ph : Phys} {own : ℕ → Role} {r : ℕ} (hT : Tables ph own) (hr : own r = .root)
    (va : ℕ) : ∃ o ph' own', walk r va true ph = some (o, ph') ∧ Grown r ph own ph' own' ∧
      ph.page.freePages ≤ ph'.page.freePages + 2 ∧
      (∀ slot, o = some slot →
        own' slot.1 = .low r (digit (pageNumber va) 2) (digit (pageNumber va) 1) ∧
          slot.2 = digit (pageNumber va) 0) ∧
      (o = none → ph.page.freePages < 2) ∧
      (∀ q, own q = .low r (digit (pageNumber va) 2) (digit (pageNumber va) 1) →
        o = some (q, digit (pageNumber va) 0) ∧ ph' = ph ∧ own' = own) := by
  rw [walk, vpn_eq_digit (by decide), vpn_eq_digit (by decide), vpn_eq_digit (by decide)]
  obtain ⟨o₁, ph₁, own₁, h₁, hg₁, hcost₁, hsome₁, hnone₁, hkeep₁⟩ :=
    descend_root hT hr (digit (pageNumber va) 2)
  rcases o₁ with _ | q₁
  · refine ⟨none, ph₁, own₁, Fallible.bind_of_none h₁, hg₁, by omega, by simp,
      fun _ => by have := hnone₁ rfl; omega, fun q hq => ?_⟩
    obtain ⟨mid, hmid, -⟩ := hT.low_link q _ _ _ hq
    simp [(hkeep₁ mid hmid).1] at hsome₁ ⊢
    simpa using (hkeep₁ mid hmid).1
  · have hq₁ := hsome₁ q₁ rfl
    obtain ⟨o₂, ph₂, own₂, h₂, hg₂, hcost₂, hsome₂, hnone₂, hkeep₂⟩ :=
      descend_mid hg₁.tables hq₁ (digit (pageNumber va) 1)
    rw [Fallible.bind_of_some h₁]
    have hkeep : ∀ q, own q = .low r (digit (pageNumber va) 2) (digit (pageNumber va) 1) →
        o₂ = some q ∧ ph₂ = ph ∧ own₂ = own := fun q hq => by
      obtain ⟨mid, hmid, -⟩ := hT.low_link q _ _ _ hq
      obtain ⟨-, rfl, rfl⟩ := hkeep₁ mid hmid
      exact hkeep₂ q hq
    rcases o₂ with _ | q₂
    · refine ⟨none, ph₂, own₂, Fallible.bind_of_none h₂, hg₁.trans hg₂, by omega, by simp,
        fun _ => by have := hnone₂ rfl; omega, fun q hq => ?_⟩
      simpa using (hkeep q hq).1
    · refine ⟨some (q₂, digit (pageNumber va) 0), ph₂, own₂, by rw [Fallible.bind_of_some h₂]; rfl,
        hg₁.trans hg₂, by omega, ?_, by simp, fun q hq => ?_⟩
      · rintro _ ⟨⟩
        exact ⟨hsome₂ q₂ rfl, rfl⟩
      · obtain ⟨h, hph, hown⟩ := hkeep q hq
        exact ⟨by rw [Option.some.inj h], hph, hown⟩

/-! ### Last-level entries -/

/-- Overwriting an entry of a last-level table. -/
lemma Tables.setLow {ph : Phys} {own : ℕ → Role} {r q n : ℕ} (hT : Tables ph own)
    (hq : own q = .low r (digit n 2) (digit n 1)) (hn : n < 2 ^ 27) (e : ℕ) :
    Tables (ph.setEntry q (digit n 0) e) own ∧
      Extends r ph own (ph.setEntry q (digit n 0) e) own ∧
      ∀ m < 2 ^ 27, lookup (ph.setEntry q (digit n 0) e) r m =
        if m = n then (if hasFlag e pteV then some e else none) else lookup ph r m := by
  have hqa := hT.page_aligned (p := q) (by simp [hq])
  have hT' : Tables (ph.setEntry q (digit n 0) e) own := by
    refine hT.congr rfl rfl hT.counted hT.free_iff (fun p hp => absurd rfl hp) fun p i hp => ?_
    have hpq : p ≠ q := by
      rintro rfl
      simp [hq, Role.isUpper] at hp
    rw [entry_setEntry (hT.page_aligned (by rintro h; simp [h, Role.isUpper] at hp)) hqa,
      if_neg fun h => hpq h.1]
  obtain ⟨mid, hmid, -⟩ := hT.low_link q _ _ _ hq
  have hr := (hT.mid_link mid _ _ hmid).1
  refine ⟨hT', ⟨fun _ _ => rfl, fun p hp t ht => by simp [hp, Role.tree] at ht, fun w hw => ?_, rfl,
    rfl⟩, fun m hm => ?_⟩
  · have hword : w = q / 8 + digit n 0 := by
      by_contra hne
      exact hw (Function.update_of_ne hne ..)
    rw [hword, pageOfWord_entry hqa, hq]
    exact Or.inl ⟨rfl, rfl⟩
  · refine Option.ext fun e' => ?_
    rw [hT'.lookup_eq_some hr]
    split
    · rename_i hmn
      subst hmn
      constructor
      · rintro ⟨q', hq', he, hflag⟩
        obtain rfl := hT.low_unique hq' hq
        rw [entry_setEntry hqa hqa, if_pos ⟨rfl, rfl⟩] at he
        rw [he, if_pos hflag]
      · intro h
        split at h
        · rename_i hflag
          obtain rfl := Option.some.inj h
          exact ⟨q, hq, by rw [entry_setEntry hqa hqa, if_pos ⟨rfl, rfl⟩], hflag⟩
        · simp at h
    · rename_i hmn
      rw [hT.lookup_eq_some hr]
      refine exists_congr fun q' => and_congr_right fun hq' => ?_
      rw [entry_setEntry (hT.page_aligned (by simp [hq'])) hqa, if_neg]
      rintro ⟨rfl, h₀⟩
      rw [hq, Role.low.injEq] at hq'
      exact hmn (digit_inj hm hn hq'.2.1.symm hq'.2.2.symm h₀)

/-- One iteration of `map`: the address was not mapped and is now, or the translation is as
before. -/
structure Mapped (r n e : ℕ) (ph : Phys) (own : ℕ → Role) (o : Option Unit) (ph' : Phys)
    (own' : ℕ → Role) : Prop extends Extends r ph own ph' own' where
  tables : Tables ph' own'
  only : ∀ p, own' p = own p ∨ (own p = .free ∧ (own' p).isTable = true)
  cost : ph.page.freePages ≤ ph'.page.freePages + 2
  /-- Success adds one entry. -/
  done : o = some () → lookup ph r n = none ∧
    ∀ m < 2 ^ 27, lookup ph' r m = if m = n then some e else lookup ph r m
  /-- A failure adds none. -/
  failed : o = none → (∀ m, lookup ph' r m = lookup ph r m) ∧
    ((lookup ph r n).isSome = true ∨ ph.page.freePages < 2)
  /-- Next to a mapped page no table is needed. -/
  near : ∀ m, digit m 2 = digit n 2 → digit m 1 = digit n 1 → (lookup ph r m).isSome = true →
    ph'.page = ph.page ∧ own' = own ∧ (o = none → (lookup ph r n).isSome = true)

/-- What one iteration of `map` does. -/
lemma mapPage_spec {ph : Phys} {own : ℕ → Role} {r : ℕ} (hT : Tables ph own) (hr : own r = .root)
    (va pa : ℕ) {flags : ℕ} (hf : flags < 1024) :
    ∃ o ph' own', mapPage r va pa flags ph = some (o, ph') ∧
      Mapped r (pageNumber va) (paToPte pa (flags ||| pteV)) ph own o ph' own' := by
  have hvalid : hasFlag (paToPte pa (flags ||| pteV)) pteV = true := by
    rw [hasFlag_paToPte (flags_or_lt hf) (by decide), hasFlag_or_pteV]
  obtain ⟨o, ph₁, own₁, hwalk, hg, hcost, hslot, hnone, hkeep⟩ := walk_true hT hr va
  have hnear : ∀ m, digit m 2 = digit (pageNumber va) 2 → digit m 1 = digit (pageNumber va) 1 →
      (lookup ph r m).isSome = true → ph₁ = ph ∧ own₁ = own ∧ o ≠ none := fun m h₂ h₁ hm => by
    obtain ⟨e, he⟩ := Option.isSome_iff_exists.mp hm
    obtain ⟨q, hq, -, -⟩ := (hT.lookup_eq_some hr).mp he
    rw [h₂, h₁] at hq
    obtain ⟨rfl, hph, hown⟩ := hkeep q hq
    exact ⟨hph, hown, by simp⟩
  rw [mapPage]
  rcases o with _ | ⟨q, k⟩
  · refine ⟨none, ph₁, own₁, Fallible.bind_of_none hwalk, hg.toExtends, hg.tables, hg.only, hcost,
      by simp, fun _ => ⟨hg.lookups, Or.inr (hnone rfl)⟩, fun m h₂ h₁ hm => ?_⟩
    exact absurd rfl (hnear m h₂ h₁ hm).2.2
  · obtain ⟨hq, hk⟩ := hslot (q, k) rfl
    dsimp only at hq hk
    subst hk
    have hlookup : lookup ph₁ r (pageNumber va) =
        if hasFlag (ph₁.entry q (digit (pageNumber va) 0)) pteV then
          some (ph₁.entry q (digit (pageNumber va) 0)) else none := by
      have hr₁ := (hg.keep r (by simp [hr])).trans hr
      refine Option.ext fun e => ?_
      rw [hg.tables.lookup_eq_some hr₁]
      constructor
      · rintro ⟨q', hq', rfl, hflag⟩
        obtain rfl := hg.tables.low_unique hq' hq
        rw [if_pos hflag]
      · intro h
        split at h
        · exact ⟨q, hq, Option.some.inj h, by rwa [← Option.some.inj h]⟩
        · simp at h
    rw [Fallible.bind_of_some hwalk]
    simp only [Fallible.gets_bind]
    rw [hg.lookups] at hlookup
    by_cases hflag : hasFlag (ph₁.entry q (digit (pageNumber va) 0)) pteV = true
    · rw [if_pos hflag] at hlookup
      refine ⟨none, ph₁, own₁, by rw [if_pos hflag]; rfl, hg.toExtends, hg.tables, hg.only, hcost,
        by simp, fun _ => ⟨hg.lookups, Or.inl (by rw [hlookup]; rfl)⟩, fun m h₂ h₁ hm => ?_⟩
      obtain ⟨rfl, rfl, -⟩ := hnear m h₂ h₁ hm
      exact ⟨rfl, rfl, fun _ => by rw [hlookup]; rfl⟩
    · rw [if_neg hflag] at hlookup
      obtain ⟨hT₂, hext, hset⟩ := hg.tables.setLow hq (pageNumber_lt va)
        (paToPte pa (flags ||| pteV))
      refine ⟨some (), _, own₁, by rw [if_neg hflag]; rfl, hg.toExtends.trans hext, hT₂, hg.only,
        hcost, fun _ => ⟨hlookup, fun m hm => ?_⟩, by simp, fun m h₂ h₁ hm => ?_⟩
      · rw [hset m hm, if_pos hvalid, hg.lookups]
      · obtain ⟨rfl, rfl, -⟩ := hnear m h₂ h₁ hm
        exact ⟨rfl, rfl, by simp⟩

end NekOS
