import NekOS.AddressSpace.Space

/-!
# Building address spaces

Loading a program, forking and growing the heap add pages to one tree of page tables: each takes a page
from the allocator, fills it and maps it.  `Building` is what holds throughout, and `Adds` what a step
leaves as it was: the pages of programs and the translations of the tree.
-/

namespace NekOS

open PageTable

/-- What adding pages to the tree with the root `r` has made of a memory. -/
structure Building (r : ℕ) (ph₀ : Phys) (own₀ : ℕ → Role) (ph : Phys) (own : ℕ → Role) : Prop
    extends Extends r ph₀ own₀ ph own where
  tables : Tables ph own
  root : own r = .root
  space : Space ph own r

/-- What a step that adds pages to the tree with the root `r` leaves as it was. -/
structure Adds (r : ℕ) (ph : Phys) (own : ℕ → Role) (ph' : Phys) (own' : ℕ → Role) : Prop where
  data : ∀ p t n, own p = .data t n → own' p = .data t n
  stack : ∀ p, own p = .stack → own' p = .stack
  bytes : ∀ t n w, own (pageOfWord w) = .data t n → ph'.mem w = ph.mem w
  lookups : ∀ n < 2 ^ 27, ∀ e, lookup ph r n = some e → lookup ph' r n = some e

namespace Adds

variable {r : ℕ} {ph ph₁ ph' : Phys} {own own₁ own' : ℕ → Role}

/-- Doing nothing. -/
lemma refl (r : ℕ) (ph : Phys) (own : ℕ → Role) : Adds r ph own ph own where
  data _ _ _ h := h
  stack _ h := h
  bytes _ _ _ _ := rfl
  lookups _ _ _ h := h

/-- One after the other. -/
lemma trans (h₁ : Adds r ph own ph₁ own₁) (h₂ : Adds r ph₁ own₁ ph' own') :
    Adds r ph own ph' own' where
  data p t n hp := h₂.data p t n (h₁.data p t n hp)
  stack p hp := h₂.stack p (h₁.stack p hp)
  bytes t n w hw := (h₂.bytes t n w (h₁.data _ t n hw)).trans (h₁.bytes t n w hw)
  lookups n hn e he := h₂.lookups n hn e (h₁.lookups n hn e he)

/-- Roles that stay. -/
lemma of_keep {ph ph' : Phys} (hkeep : ∀ p, own p ≠ .free → own p ≠ .lost → own' p = own p)
    (hbytes : ∀ t n w, own (pageOfWord w) = .data t n → ph'.mem w = ph.mem w)
    (hlookups : ∀ n < 2 ^ 27, ∀ e, lookup ph r n = some e → lookup ph' r n = some e) :
    Adds r ph own ph' own' where
  data p t n hp := by rw [hkeep p (by simp [hp]) (by simp [hp]), hp]
  stack p hp := by rw [hkeep p (by simp [hp]) (by simp [hp]), hp]
  bytes := hbytes
  lookups := hlookups

/-- The pages of the kernel stay mapped. -/
lemma kernelMapped (h : Adds r ph own ph' own') (hk : KernelMapped ph r) : KernelMapped ph' r :=
  fun n hn => by
    obtain ⟨e, he, hleaf⟩ := hk n hn
    exact ⟨e, h.lookups n hn.lt e he, hleaf⟩

end Adds

/-- What was free at some time before was free at the start. -/
lemma Extends.free_of_free {r p : ℕ} {ph ph' : Phys} {own own' : ℕ → Role}
    (h : Extends r ph own ph' own') (hp : own' p = .free) : own p = .free := by
  by_contra hne
  exact hne ((h.keep p hne).symm.trans hp)

/-- No page has been taken in vain: the new pages are tables of the tree with the root `r`, or they are
mapped where nothing was. -/
structure Settles (r : ℕ) (ph : Phys) (own own' : ℕ → Role) : Prop where
  new : ∀ p, own p = .free → own' p = .free ∨
    ((own' p).isTable = true ∧ (own' p).tree p = some r) ∨
    ∃ n < 2 ^ 27, own' p = .data r n ∧ lookup ph r n = none
  keep : ∀ p, (own p).tree p = some r → own' p = own p

namespace Settles

variable {r : ℕ} {ph ph₁ ph' : Phys} {own own₁ own' : ℕ → Role}

/-- Doing nothing. -/
lemma refl (r : ℕ) (ph : Phys) (own : ℕ → Role) : Settles r ph own own :=
  ⟨fun _ hp => Or.inl hp, fun _ _ => rfl⟩

/-- One after the other. -/
lemma trans (h₁ : Settles r ph own own₁) (hadds : Adds r ph own ph₁ own₁)
    (h₂ : Settles r ph₁ own₁ own') : Settles r ph own own' where
  new p hp := by
    rcases h₁.new p hp with hfree | ⟨htable, htree⟩ | ⟨n, hn, hdata, hnone⟩
    · refine (h₂.new p hfree).imp_right (Or.imp_right ?_)
      rintro ⟨n, hn, hdata, hnone⟩
      refine ⟨n, hn, hdata, ?_⟩
      by_contra hsome
      obtain ⟨e, he⟩ := Option.ne_none_iff_exists'.mp hsome
      simp [hadds.lookups n hn e he] at hnone
    · have hkeep := h₂.keep p htree
      exact Or.inr (Or.inl ⟨by rwa [hkeep], by rwa [hkeep]⟩)
    · have hkeep := h₂.keep p (by rw [hdata, Role.tree])
      exact Or.inr (Or.inr ⟨n, hn, hkeep.trans hdata, hnone⟩)
  keep p hp := by
    have hkeep := h₁.keep p hp
    exact (h₂.keep p (by rwa [hkeep])).trans hkeep

/-- The new pages are tables. -/
lemma of_only (hext : Extends r ph own ph' own')
    (honly : ∀ p, own' p = own p ∨ (own p = .free ∧ (own' p).isTable = true)) :
    Settles r ph own own' where
  new p hp := by
    rcases honly p with heq | ⟨-, htable⟩
    · exact Or.inl (heq.trans hp)
    · obtain ⟨t, ht⟩ : ∃ t, (own' p).tree p = some t := by
        cases hown : own' p <;> simp_all [Role.isTable, Role.tree]
      exact Or.inr (Or.inl ⟨htable, by rw [ht, hext.new p hp t ht]⟩)
  keep p hp := by
    refine hext.keep p fun hfree => ?_
    simp [hfree, Role.tree] at hp

end Settles

/-- `allocPage` fails when no page is left, or takes a page. -/
lemma allocPage_cases {ph : Phys} {own : ℕ → Role} (hT : Tables ph own) :
    (allocPage ph = some (none, ph) ∧ ph.page.freePages = 0) ∨
    ∃ p ph', allocPage ph = some (some p, ph') ∧ own p = .free ∧
      Tables ph' (Function.update own p .lost) ∧ ph'.mem = ph.mem ∧
      ph'.page.startAddr = ph.page.startAddr ∧ ph'.page.totalPages = ph.page.totalPages ∧
      ph'.page.freePages + 1 = ph.page.freePages := by
  rcases halloc : ph.page.alloc with _ | ⟨p, a⟩
  · exact Or.inl ⟨by rw [allocPage, halloc],
      PageAllocator.freePages_of_alloc_eq_none hT.counted halloc⟩
  · obtain ⟨hfree, hT'⟩ := hT.alloc halloc (ρ := .lost) (by simp [Role.plain, Role.isTable])
    obtain ⟨-, -, hstart, htotal, hcount⟩ := PageAllocator.alloc_eq_some halloc
    exact Or.inr ⟨p, { ph with page := a }, by rw [allocPage, halloc], hfree, hT', rfl, hstart,
      htotal, hcount⟩

/-- Mapping one page. -/
lemma map_page {ph : Phys} {r va pa flags : ℕ} (hva : va % pageSize = 0) (hva' : va < 2 ^ 64)
    (hpa : pa % pageSize = 0) (hpa' : pa < 2 ^ 56) :
    PageTable.map r va pa pageSize flags ph = mapPage r va pa flags ph := by
  rw [PageTable.map, if_neg (by rw [hva, hpa]; decide), Nat.div_self (by decide),
    Fallible.forRange_succ, Fallible.bind_of_some rfl, Nat.zero_mul, Nat.add_zero, Nat.add_zero,
    wrap_of_lt hva', wrap_of_lt (by omega)]

namespace Building

variable {r : ℕ} {ph₀ ph : Phys} {own₀ own : ℕ → Role}

/-- Adding pages to a tree keeps all trees. -/
lemma spaces (h : Building r ph₀ own₀ ph own) (hS : Spaces ph₀ own₀) : Spaces ph own :=
  hS.of_local h.toLocal h.tables h.start (fun _ => h.space) fun _ _ _ => h.root

/-- The start. -/
lemma refl (hS : Spaces ph own) (hr : own r = .root) : Building r ph own ph own :=
  ⟨Extends.refl .., hS.tables, hr, hS.space r hr⟩

/-- A page is taken. -/
lemma take (h : Building r ph₀ own₀ ph own) {p : ℕ} {ph' : Phys} (hfree : own p = .free)
    (hT : Tables ph' (Function.update own p .lost)) (hmem : ph'.mem = ph.mem)
    (hstart : ph'.page.startAddr = ph.page.startAddr)
    (htotal : ph'.page.totalPages = ph.page.totalPages) :
    Building r ph₀ own₀ ph' (Function.update own p .lost) where
  toExtends := h.toExtends.trans (Extends.take r hfree hmem hstart htotal rfl)
  tables := hT
  root := by
    rw [Function.update_of_ne (by rintro rfl; simp [h.root] at hfree), h.root]
  space := by
    refine h.space.of_lookups (fun n _ => lookup_of_mem hmem r n) fun q n => ?_
    by_cases hqp : q = p
    · subst hqp
      simp [hfree]
    · rw [Function.update_of_ne hqp]

/-- A page that has been taken is written to. -/
lemma fill (h : Building r ph₀ own₀ ph own) {p : ℕ} {ph' : Phys} (hfree : own₀ p = .free)
    (hp : (own p).plain) (htree : (own p).tree p = none) (hpage : ph'.page = ph.page)
    (hw : ∀ w, pageOfWord w ≠ p → ph'.mem w = ph.mem w) : Building r ph₀ own₀ ph' own := by
  have hT' : Tables ph' own := h.tables.write hpage hp.2 hw
  refine ⟨h.toExtends.fill hfree hp.1 hpage hw, hT', h.root, ?_⟩
  exact h.space.of_local (Local.write (r + 1) htree hw) h.tables hT' h.root (by omega)

/-- A page outside the trees that has been taken gets another role. -/
lemma relabel (h : Building r ph₀ own₀ ph own) {p : ℕ} {ρ : Role} (hfree : own₀ p = .free)
    (hp : (own p).plain) (htree : (own p).tree p = none) (hρ : ρ.plain) (hρ' : ρ.tree p = none) :
    Building r ph₀ own₀ ph (Function.update own p ρ) := by
  have hT' := h.tables.relabel hp hρ
  refine ⟨h.toExtends.relabel hfree hp.2 hρ.1 (by simp [hρ']), hT', ?_, ?_⟩
  · rw [Function.update_of_ne (by rintro rfl; simp [h.root, Role.tree] at htree), h.root]
  · exact h.space.of_local (Local.update (r + 1) rfl htree hρ') h.tables hT' h.root (by omega)

/-- A page that has been taken is mapped. -/
lemma map (h : Building r ph₀ own₀ ph own) {p : ℕ} (va flags : ℕ) (hfree : own₀ p = .free)
    (hp : own p = .lost) (hva : va % pageSize = 0) (hva' : va < 2 ^ 64) (hf : flags < 1024)
    (huser : hasFlag flags pteU = true ∨ (lookup ph r (pageNumber va)).isSome = true) :
    ∃ o ph' own', PageTable.map r va p pageSize flags ph = some (o, ph') ∧
      Building r ph₀ own₀ ph' own' ∧ Adds r ph own ph' own' ∧
      (∀ w, (own (pageOfWord w)).plain → ph'.mem w = ph.mem w) ∧
      ph.page.freePages ≤ ph'.page.freePages + 2 ∧
      (o = some () → lookup ph r (pageNumber va) = none ∧ own' p = .data r (pageNumber va) ∧
        (∀ m < 2 ^ 27, lookup ph' r m =
          if m = pageNumber va then some (paToPte p (flags ||| pteV)) else lookup ph r m) ∧
        Settles r ph own own') ∧
      (o = none → own' p = .lost ∧ (∀ m, lookup ph' r m = lookup ph r m) ∧
        ((lookup ph r (pageNumber va)).isSome = true ∨ ph.page.freePages < 2)) := by
  have hpa := h.tables.page_aligned (p := p) (by simp [hp])
  have hpa' := h.tables.page_lt (p := p) (by simp [hp])
  rw [map_page hva hva' hpa hpa']
  obtain ⟨o, ph', own', hrun, hone⟩ := mapPage_spec h.tables h.root va p hf
  have hr' := (hone.keep r (by simp [h.root])).trans h.root
  have hp' := (hone.keep p (by simp [hp])).trans hp
  have hdata : ∀ q n, own' q = .data r n ↔ own q = .data r n := fun q n => by
    rcases hone.only q with heq | ⟨hq, htable⟩
    · rw [heq]
    · constructor
      · intro hd
        simp [hd, Role.isTable] at htable
      · intro hd
        simp [hd] at hq
  have hbytes : ∀ w, (own (pageOfWord w)).plain → ph'.mem w = ph.mem w := fun w hw =>
    hone.mem_eq hw.1 (fun ht => by simp [hw.2] at ht) rfl
  rcases o with _ | u
  · obtain ⟨hlookups, hwhy⟩ := hone.failed rfl
    refine ⟨none, ph', own', hrun, ⟨h.toExtends.trans hone.toExtends, hone.tables, hr',
      h.space.of_lookups (fun n _ => hlookups n) hdata⟩, Adds.of_keep (fun q hq _ => hone.keep q hq)
      (fun t n w hw => hbytes w (by simp [hw, Role.plain, Role.isTable]))
      (fun n _ e he => by rwa [hlookups]), hbytes, hone.cost, by simp, fun _ => ⟨hp', hlookups, hwhy⟩⟩
  · obtain ⟨habsent, hlookups⟩ := hone.done rfl
    have hu : hasFlag flags pteU = true := by
      rcases huser with hu | hsome
      · exact hu
      · simp [habsent] at hsome
    have hval : pteToPa (paToPte p (flags ||| pteV)) = p := pteToPa_paToPte (flags_or_lt hf) hpa hpa'
    have huser' : hasFlag (paToPte p (flags ||| pteV)) pteU = true := by
      rw [hasFlag_paToPte (flags_or_lt hf) (by decide), hasFlag, Nat.and_or_distrib_right]
      rw [hasFlag, bne_iff_ne] at hu
      rw [bne_iff_ne]
      intro hzero
      rw [Nat.or_eq_zero_iff] at hzero
      exact hu hzero.1
    have hsame : ∀ q, q ≠ p → Function.update own' p (.data r (pageNumber va)) q = own' q :=
      fun q hq => Function.update_of_ne hq ..
    refine ⟨some (), ph', Function.update own' p (.data r (pageNumber va)), hrun,
      ⟨(h.toExtends.trans hone.toExtends).relabel hfree (by simp [hp', Role.isTable]) (by simp)
        (fun t ht => (by simpa [Role.tree] using ht.symm)), ?_, ?_, ?_⟩,
      Adds.of_keep (fun q hq hlost => ?_)
        (fun t n w hw => hbytes w (by simp [hw, Role.plain, Role.isTable]))
        (fun n hn e he => ?_), hbytes, hone.cost,
      fun _ => ⟨habsent, Function.update_self .., hlookups, fun q hq => ?_, fun q hq => ?_⟩, by simp⟩
    · exact hone.tables.relabel (by simp [hp', Role.plain, Role.isTable])
        (by simp [Role.plain, Role.isTable])
    · rw [hsame r (by rintro rfl; simp [h.root] at hp), hr']
    · constructor
      · intro n hn e he
        rw [hlookups n hn] at he
        split at he
        · rename_i hnn
          obtain rfl := Option.some.inj he
          subst hnn
          exact Or.inr ⟨by rw [hval, Function.update_self], huser'⟩
        · refine (h.space.leaf n hn e he).imp_right fun hl => ⟨?_, hl.user⟩
          have hne : pteToPa e ≠ p := fun heq => by
            have := hl.owned
            rw [heq, hp] at this
            simp at this
          rw [hsame _ hne, hdata]
          exact hl.owned
      · intro q n hq
        by_cases hqp : q = p
        · subst hqp
          rw [Function.update_self, Role.data.injEq] at hq
          obtain rfl := hq.2
          exact ⟨pageNumber_lt va, _, by rw [hlookups _ (pageNumber_lt va), if_pos rfl], hval⟩
        · rw [hsame q hqp, hdata] at hq
          obtain ⟨hn, e, he, heq⟩ := h.space.data q n hq
          refine ⟨hn, e, ?_, heq⟩
          rw [hlookups n hn, if_neg]
          · exact he
          · rintro rfl
            simp [habsent] at he
    · rw [hsame q (by rintro rfl; exact hlost hp), hone.keep q hq]
    · rw [hlookups n hn, if_neg]
      · exact he
      · rintro rfl
        simp [habsent] at he
    · rw [hsame q (by rintro rfl; simp [hp] at hq)]
      exact (Settles.of_only hone.toExtends hone.only).new q hq
    · rw [hsame q (by rintro rfl; simp [hp, Role.tree] at hq)]
      exact (Settles.of_only hone.toExtends hone.only).keep q hq

/-- A page is taken, filled and mapped. -/
lemma addPage (h : Building r ph₀ own₀ ph own) (fill : ℕ → Phys → Phys) (va flags : ℕ)
    (hfill : ∀ p ph, p % pageSize = 0 → (fill p ph).page = ph.page ∧
      ∀ w, pageOfWord w ≠ p → (fill p ph).mem w = ph.mem w)
    (hva : va % pageSize = 0) (hva' : va < 2 ^ 64) (hf : flags < 1024)
    (huser : hasFlag flags pteU = true ∨ (lookup ph r (pageNumber va)).isSome = true) :
    (allocPage ph = some (none, ph) ∧ ph.page.freePages = 0) ∨
    ∃ p ph₁ o ph' own', allocPage ph = some (some p, ph₁) ∧ own p = .free ∧ ph₁.mem = ph.mem ∧
      PageTable.map r va p pageSize flags (fill p ph₁) = some (o, ph') ∧
      Building r ph₀ own₀ ph' own' ∧ Adds r ph own ph' own' ∧
      ph.page.freePages ≤ ph'.page.freePages + 3 ∧
      (o = some () → lookup ph r (pageNumber va) = none ∧ own' p = .data r (pageNumber va) ∧
        (∀ m < 2 ^ 27, lookup ph' r m =
          if m = pageNumber va then some (paToPte p (flags ||| pteV)) else lookup ph r m) ∧
        (∀ w, pageOfWord w = p → ph'.mem w = (fill p ph₁).mem w) ∧ Settles r ph own own') ∧
      (o = none → own' p = .lost ∧ (∀ m, lookup ph' r m = lookup ph r m) ∧
        ((lookup ph r (pageNumber va)).isSome = true ∨ ph.page.freePages < 3)) := by
  rcases allocPage_cases h.tables with hnone |
    ⟨p, ph₁, hsome, hfree, hT₁, hmem, hstart, htotal, hcount⟩
  · exact Or.inl hnone
  have hpa : p % pageSize = 0 := hT₁.page_aligned (by simp)
  obtain ⟨hpage, hw⟩ := hfill p ph₁ hpa
  have hfree₀ := h.free_of_free hfree
  have hlost : Function.update own p .lost p = .lost := Function.update_self ..
  have h₂ : Building r ph₀ own₀ (fill p ph₁) (Function.update own p .lost) :=
    (h.take hfree hT₁ hmem hstart htotal).fill hfree₀ (by simp [Role.plain, Role.isTable])
      (by simp [Role.tree]) hpage hw
  have hlookups₂ : ∀ m, lookup (fill p ph₁) r m = lookup ph r m := fun m => by
    have hlocal : Local (r + 1) ph own (fill p ph₁) (Function.update own p .lost) :=
      (Local.update (r + 1) hmem (by simp [hfree, Role.tree]) rfl).trans
        (Local.write (r + 1) (by simp [Role.tree]) hw)
    exact hlocal.lookup_eq h.tables h₂.tables h.root (by omega) m
  obtain ⟨o, ph', own', hrun, hB, hadds, hbytes, hcost, hdone, hfailed⟩ :=
    h₂.map va flags hfree₀ hlost hva hva' hf (by rwa [hlookups₂])
  rw [hlookups₂] at hdone hfailed
  have hcost' : (fill p ph₁).page.freePages + 1 = ph.page.freePages := by rw [hpage, hcount]
  have hsame : ∀ q, own q ≠ .free → Function.update own p .lost q = own q := fun q hq =>
    Function.update_of_ne (by rintro rfl; exact hq hfree) ..
  refine Or.inr ⟨p, ph₁, o, ph', own', hsome, hfree, hmem, hrun, hB,
    ⟨fun q t n hq => ?_, fun q hq => ?_, fun t n w hwn => ?_, fun n hn e he => ?_⟩, by omega,
    fun ho => ?_, fun ho => ?_⟩
  · exact hadds.data q t n (by rw [hsame q (by simp [hq]), hq])
  · exact hadds.stack q (by rw [hsame q (by simp [hq]), hq])
  · have hne : own (pageOfWord w) ≠ .free := by simp [hwn]
    have hwp : pageOfWord w ≠ p := by
      rintro heq
      exact hne (by rw [heq, hfree])
    rw [hadds.bytes t n w (by rw [hsame _ hne, hwn]), hw w hwp, hmem]
  · exact hadds.lookups n hn e (by rwa [hlookups₂])
  · obtain ⟨habsent, hrole, hlookups, hsettles⟩ := hdone ho
    refine ⟨habsent, hrole, fun m hm => ?_, fun w hwp => ?_, fun q hq => ?_, fun q hq => ?_⟩
    · rw [hlookups m hm, hlookups₂]
    · exact hbytes w (by rw [hwp, hlost]; simp [Role.plain, Role.isTable])
    · by_cases hqp : q = p
      · subst hqp
        exact Or.inr (Or.inr ⟨_, pageNumber_lt va, hrole, habsent⟩)
      · rcases hsettles.new q (by rwa [Function.update_of_ne hqp]) with h | h | ⟨n, hn, hdata, hnone⟩
        · exact Or.inl h
        · exact Or.inr (Or.inl h)
        · exact Or.inr (Or.inr ⟨n, hn, hdata, by rwa [← hlookups₂]⟩)
    · have hkeep := hsame q (by rintro hfree; simp [hfree, Role.tree] at hq)
      rw [hsettles.keep q (by rwa [hkeep]), hkeep]
  · obtain ⟨hlost', hlookups, hwhy⟩ := hfailed ho
    refine ⟨hlost', fun m => by rw [hlookups, hlookups₂], hwhy.imp_right fun hlt => by omega⟩

/-- The three steps as one program, which the loops of `elf_load` and `fork` repeat. -/
lemma addPage_run (h : Building r ph₀ own₀ ph own) (fill : ℕ → Phys → Phys) (va flags : ℕ)
    (hfill : ∀ p ph, p % pageSize = 0 → (fill p ph).page = ph.page ∧
      ∀ w, pageOfWord w ≠ p → (fill p ph).mem w = ph.mem w)
    (hva : va % pageSize = 0) (hva' : va < 2 ^ 64) (hf : flags < 1024)
    (huser : hasFlag flags pteU = true ∨ (lookup ph r (pageNumber va)).isSome = true) :
    ∃ o ph' own', (do
        let page ← allocPage
        Fallible.modify (fill page)
        PageTable.map r va page pageSize flags) ph = some (o, ph') ∧
      Building r ph₀ own₀ ph' own' ∧ Adds r ph own ph' own' ∧
      ph.page.freePages ≤ ph'.page.freePages + 3 ∧
      (o = some () → lookup ph r (pageNumber va) = none ∧ ∃ p ph₁, own p = .free ∧
        own' p = .data r (pageNumber va) ∧ (∀ m < 2 ^ 27, lookup ph' r m =
          if m = pageNumber va then some (paToPte p (flags ||| pteV)) else lookup ph r m) ∧
        ph₁.mem = ph.mem ∧ (∀ w, pageOfWord w = p → ph'.mem w = (fill p ph₁).mem w) ∧
        Settles r ph own own') ∧
      (o = none → (∀ m, lookup ph' r m = lookup ph r m) ∧
        ((lookup ph r (pageNumber va)).isSome = true ∨ ph.page.freePages < 3)) := by
  rcases h.addPage fill va flags hfill hva hva' hf huser with ⟨hnone, hzero⟩ |
    ⟨p, ph₁, o, ph', own', hsome, hfree, hmem, hrun, hB, hadds, hcost, hdone, hfailed⟩
  · exact ⟨none, ph, own, Fallible.bind_of_none hnone, h, Adds.refl .., Nat.le_add_right .., by simp,
      fun _ => ⟨fun _ => rfl, Or.inr (by omega)⟩⟩
  refine ⟨o, ph', own', by rw [Fallible.bind_of_some hsome]; exact hrun, hB, hadds, hcost,
    fun ho => ?_, fun ho => (hfailed ho).2⟩
  obtain ⟨habsent, hrole, hlookups, hbytes, hsettles⟩ := hdone ho
  exact ⟨habsent, p, ph₁, hfree, hrole, hlookups, hmem, hbytes, hsettles⟩

/-- What has been added to since the tree was new. -/
lemma of_extends {r : ℕ} {ph₀ ph₁ ph : Phys} {own₀ own₁ own : ℕ → Role}
    (h₁ : Extends r ph₀ own₀ ph₁ own₁) (h : Building r ph₁ own₁ ph own) :
    Building r ph₀ own₀ ph own :=
  ⟨h₁.trans h.toExtends, h.tables, h.root, h.space⟩

end Building

end NekOS
