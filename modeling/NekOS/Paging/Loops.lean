import NekOS.Paging.Growth

/-!
# Ranges of pages

The loops of `map`, `set_flags` and `unmap` over the pages of a range.  Each lemma says which pages
of the range have been changed when the loop ends, with or without an error.
-/

namespace NekOS

open PageTable

/-- The number of last-level tables that the `k` pages from page `n` on need. -/
def chunks (n k : ℕ) : ℕ := if k = 0 then 0 else (n + k - 1) / 512 - n / 512 + 1

/-- A page in a new table. -/
lemma chunks_succ_le (n k : ℕ) : chunks n (k + 1) ≤ chunks n k + 1 := by
  unfold chunks
  split_ifs <;> omega

/-- The number of tables grows with the range. -/
lemma chunks_mono {n k l : ℕ} (h : k ≤ l) : chunks n k ≤ chunks n l := by
  unfold chunks
  split_ifs <;> omega

/-- The first page of a range and every page at the start of a table need a table more. -/
lemma chunks_succ {n k : ℕ} (h : k = 0 ∨ (n + k) % 512 = 0) :
    chunks n (k + 1) = chunks n k + 1 := by
  unfold chunks
  split_ifs <;> omega

/-- Pages of one table have the same upper digits. -/
lemma digit_eq_of_div {n m level : ℕ} (h : n / 512 = m / 512) (hl : level = 1 ∨ level = 2) :
    digit n level = digit m level := by
  refine Fin.ext ?_
  simp only [digit]
  rcases hl with rfl | rfl
  · simp only [pow_one]
    omega
  · simp only [Nat.reducePow]
    omega

/-- The page number of a page of a range. -/
lemma pageNumber_add {n i : ℕ} (h : n + i < 2 ^ 27) :
    pageNumber (wrap (n * pageSize + i * pageSize)) = n + i := by
  have hlt : n * pageSize + i * pageSize < 2 ^ 39 := by
    simp only [pageSize]
    omega
  rw [wrap_of_lt (by omega), pageNumber_of_lt hlt, ← Nat.add_mul,
    Nat.mul_div_cancel _ (by decide : 0 < pageSize)]

/-- What the loop of `map` has done: the first `k` pages of the range were not mapped and are now,
the other translations are as before. -/
structure MappedRange (r n pa flags k : ℕ) (ph : Phys) (own : ℕ → Role) (ph' : Phys)
    (own' : ℕ → Role) : Prop extends Extends r ph own ph' own' where
  tables : Tables ph' own'
  only : ∀ p, own' p = own p ∨ (own p = .free ∧ (own' p).isTable = true)
  absent : ∀ i < k, lookup ph r (n + i) = none
  lookups : ∀ m < 2 ^ 27, lookup ph' r m = if n ≤ m ∧ m < n + k then
    some (paToPte (pa + (m - n) * pageSize) (flags ||| pteV)) else lookup ph r m

/-- The loop of `map`. -/
lemma mapPages_spec {ph : Phys} {own : ℕ → Role} {r : ℕ} (hT : Tables ph own) (hr : own r = .root)
    {n flags : ℕ} (hf : flags < 1024) (pa count : ℕ) (hend : n + count ≤ 2 ^ 27)
    (hpa : pa + count * pageSize ≤ 2 ^ 56) :
    ∃ o ph' own' k, Fallible.forRange count (fun i => mapPage r
        (wrap (n * pageSize + i * pageSize)) (wrap (pa + i * pageSize)) flags) ph = some (o, ph') ∧
      k ≤ count ∧ (o = some () ↔ k = count) ∧ MappedRange r n pa flags k ph own ph' own' ∧
      (o = some () → ph.page.freePages ≤ ph'.page.freePages + 2 * chunks n count) ∧
      (k < count → (lookup ph r (n + k)).isSome = true ∨
        ph.page.freePages < 2 * chunks n (k + 1)) := by
  induction count with
  | zero =>
    refine ⟨some (), ph, own, 0, rfl, le_rfl, by simp, ⟨Extends.refl .., hT, fun _ => Or.inl rfl,
      by simp, fun m _ => ?_⟩, fun _ => Nat.le_add_right .., by simp⟩
    rw [if_neg (by omega)]
  | succ count ih =>
    have hpa' : pa + count * pageSize < 2 ^ 56 := by
      simp only [pageSize] at hpa ⊢
      omega
    obtain ⟨o₁, ph₁, own₁, k, hrun, hk, hdone, hmap, hcost₁, hfail⟩ := ih (by omega) hpa'.le
    rw [Fallible.forRange_succ]
    rcases o₁ with _ | u
    · have hne : k ≠ count := fun h => by simpa using hdone.mpr h
      exact ⟨none, ph₁, own₁, k, Fallible.bind_of_none hrun, hk.trans (Nat.le_succ _),
        by simp; omega, hmap, by simp, fun _ => hfail (by omega)⟩
    obtain rfl := hdone.mp rfl
    have hr₁ := (hmap.keep r (by simp [hr])).trans hr
    obtain ⟨o₂, ph₂, own₂, hpage, hone⟩ := mapPage_spec hmap.tables hr₁
      (wrap (n * pageSize + k * pageSize)) (wrap (pa + k * pageSize)) hf
    rw [pageNumber_add (by omega), wrap_of_lt (x := pa + k * pageSize) (by omega)] at hone
    rw [Fallible.bind_of_some hrun]
    have hn : n + k < 2 ^ 27 := by omega
    have hhere : lookup ph₁ r (n + k) = lookup ph r (n + k) := by
      rw [hmap.lookups _ hn, if_neg (by omega)]
    have honly : ∀ p, own₂ p = own p ∨ (own p = .free ∧ (own₂ p).isTable = true) := fun p => by
      rcases hmap.only p with h | ⟨hfree, htable⟩
      · rw [← h]
        exact hone.only p
      · refine Or.inr ⟨hfree, ?_⟩
        rwa [hone.keep p (by rintro h; simp [h, Role.isTable] at htable)]
    -- Unless a new table starts here, the page before is mapped through the same table.
    have hnear : k ≠ 0 → (n + k) % 512 ≠ 0 → ph₂.page = ph₁.page ∧
        (o₂ = none → (lookup ph r (n + k)).isSome = true) := fun hk₀ hstart => by
      have hprev : (lookup ph₁ r (n + k - 1)).isSome = true := by
        rw [hmap.lookups _ (by omega), if_pos (by omega)]
        rfl
      have hdiv : (n + k - 1) / 512 = (n + k) / 512 := by omega
      obtain ⟨hpage₂, -, hsome⟩ := hone.near _ (digit_eq_of_div hdiv (Or.inr rfl))
        (digit_eq_of_div hdiv (Or.inl rfl)) hprev
      exact ⟨hpage₂, fun ho => by rw [← hhere]; exact hsome ho⟩
    have hcost₁ := hcost₁ rfl
    rcases o₂ with _ | u
    · refine ⟨none, ph₂, own₂, k, hpage, Nat.le_succ _, by simp,
        ⟨hmap.toExtends.trans hone.toExtends, hone.tables, honly, hmap.absent, fun m hm => ?_⟩,
        by simp, fun _ => ?_⟩
      · rw [(hone.failed rfl).1, hmap.lookups m hm]
      · by_cases hstart : k = 0 ∨ (n + k) % 512 = 0
        · rw [chunks_succ hstart]
          rcases (hone.failed rfl).2 with h | h
          · exact Or.inl (by rwa [← hhere])
          · exact Or.inr (by omega)
        · rw [not_or] at hstart
          exact Or.inl ((hnear hstart.1 hstart.2).2 rfl)
    · refine ⟨some (), ph₂, own₂, k + 1, hpage, le_rfl, by simp, ⟨hmap.toExtends.trans hone.toExtends,
        hone.tables, honly, fun i hi => ?_, fun m hm => ?_⟩, fun _ => ?_, by simp⟩
      · rcases Nat.lt_succ_iff_lt_or_eq.mp hi with hi | rfl
        · exact hmap.absent i hi
        · rw [← hhere]
          exact (hone.done rfl).1
      · rw [(hone.done rfl).2 m hm, hmap.lookups m hm]
        by_cases hm' : m = n + k
        · subst hm'
          rw [if_pos rfl, if_pos (by omega), show n + k - n = k by omega]
        · rw [if_neg hm']
          by_cases hin : n ≤ m ∧ m < n + k
          · rw [if_pos hin, if_pos (by omega)]
          · rw [if_neg hin, if_neg (by omega)]
      · by_cases hstart : k = 0 ∨ (n + k) % 512 = 0
        · have hcost₂ := hone.cost
          rw [chunks_succ hstart]
          omega
        · rw [not_or] at hstart
          have hmono := chunks_mono (n := n) (Nat.le_succ k)
          rw [(hnear hstart.1 hstart.2).1]
          simp only [Nat.succ_eq_add_one] at hmono
          omega

/-! ### Changing and removing entries -/

/-- The slot of an address, when `walk` finds its table. -/
lemma walk_false {ph : Phys} {own : ℕ → Role} {r : ℕ} (hT : Tables ph own) (hr : own r = .root)
    (va : ℕ) : (walk r va false ph = some (none, ph) ∧ lookup ph r (pageNumber va) = none) ∨
    ∃ q, own q = .low r (digit (pageNumber va) 2) (digit (pageNumber va) 1) ∧
      walk r va false ph = some (some (q, digit (pageNumber va) 0), ph) ∧
      lookup ph r (pageNumber va) =
        if hasFlag (ph.entry q (digit (pageNumber va) 0)) pteV then
          some (ph.entry q (digit (pageNumber va) 0)) else none := by
  have hwalk : walk r va false ph = some (slotOf ph r va, ph) := by
    rw [slotOf, walk]
    rcases h₁ : child ph r (vpn va 2) with _ | mid
    · rw [Fallible.bind_of_none (by rw [descend_false, h₁])]
      rfl
    · rw [Fallible.bind_of_some (by rw [descend_false, h₁])]
      rcases h₂ : child ph mid (vpn va 1) with _ | low
      · rw [Fallible.bind_of_none (by rw [descend_false, h₂])]
        rfl
      · rw [Fallible.bind_of_some (by rw [descend_false, h₂])]
        rfl
  rcases hslot : slotOf ph r va with _ | ⟨q, k⟩
  · refine Or.inl ⟨by rw [hwalk, hslot], ?_⟩
    rw [← findPte_filter, findPte, hslot]
    rfl
  · have hfind := hslot
    rw [hT.slotOf_eq_some hr] at hslot
    obtain ⟨hq, rfl⟩ := hslot
    refine Or.inr ⟨q, hq, by rw [hwalk, hfind], ?_⟩
    rw [← findPte_filter, findPte, hfind]
    simp [Option.filter]

/-- One iteration of `set_flags`. -/
lemma setFlagsPage_spec {ph : Phys} {own : ℕ → Role} {r : ℕ} (hT : Tables ph own)
    (hr : own r = .root) (va : ℕ) {flags : ℕ} (hf : flags < 1024) :
    ∃ o ph', setFlagsPage r va flags ph = some (o, ph') ∧ Tables ph' own ∧
      Extends r ph own ph' own ∧ ph'.page = ph.page ∧
      ((o = none ∧ ph' = ph ∧ lookup ph r (pageNumber va) = none) ∨
       (o = some () ∧ ∃ e, lookup ph r (pageNumber va) = some e ∧ ∀ m < 2 ^ 27,
        lookup ph' r m = if m = pageNumber va then some (paToPte (pteToPa e) (flags ||| pteV))
          else lookup ph r m)) := by
  rw [setFlagsPage]
  rcases walk_false hT hr va with ⟨hwalk, hnone⟩ | ⟨q, hq, hwalk, hlookup⟩
  · exact ⟨none, ph, Fallible.bind_of_none hwalk, hT, Extends.refl .., rfl,
      Or.inl ⟨rfl, rfl, hnone⟩⟩
  · rw [Fallible.bind_of_some hwalk]
    simp only [Fallible.gets_bind]
    cases hflag : hasFlag (ph.entry q (digit (pageNumber va) 0)) pteV with
    | false =>
      rw [hflag] at hlookup
      exact ⟨none, ph, rfl, hT, Extends.refl .., rfl, Or.inl ⟨rfl, rfl, hlookup⟩⟩
    | true =>
      rw [hflag] at hlookup
      obtain ⟨hT', hext, hset⟩ := hT.setLow hq (pageNumber_lt va)
        (paToPte (pteToPa (ph.entry q (digit (pageNumber va) 0))) (flags ||| pteV))
      refine ⟨some (), _, rfl, hT', hext, rfl, Or.inr ⟨rfl, _, hlookup, fun m hm => ?_⟩⟩
      rw [hset m hm, hasFlag_paToPte (flags_or_lt hf) (by decide), hasFlag_or_pteV]
      rfl

/-- What the loop of `set_flags` has done: the first `k` pages of the range were mapped and have the
new flags, the other translations are as before. -/
structure FlagsRange (r n flags k : ℕ) (ph : Phys) (own : ℕ → Role) (ph' : Phys) : Prop
    extends Extends r ph own ph' own where
  tables : Tables ph' own
  page : ph'.page = ph.page
  present : ∀ i < k, (lookup ph r (n + i)).isSome = true
  lookups : ∀ m < 2 ^ 27, lookup ph' r m = if n ≤ m ∧ m < n + k then
    (lookup ph r m).map fun e => paToPte (pteToPa e) (flags ||| pteV) else lookup ph r m

/-- The loop of `set_flags`. -/
lemma setFlagsPages_spec {ph : Phys} {own : ℕ → Role} {r : ℕ} (hT : Tables ph own)
    (hr : own r = .root) {n flags : ℕ} (hf : flags < 1024) (count : ℕ) (hend : n + count ≤ 2 ^ 27) :
    ∃ o ph' k, Fallible.forRange count (fun i => setFlagsPage r
        (wrap (n * pageSize + i * pageSize)) flags) ph = some (o, ph') ∧
      k ≤ count ∧ (o = some () ↔ k = count) ∧ FlagsRange r n flags k ph own ph' ∧
      (k < count → lookup ph r (n + k) = none) := by
  induction count with
  | zero =>
    refine ⟨some (), ph, 0, rfl, le_rfl, by simp, ⟨Extends.refl .., hT, rfl, by simp,
      fun m _ => ?_⟩, by simp⟩
    rw [if_neg (by omega)]
  | succ count ih =>
    obtain ⟨o₁, ph₁, k, hrun, hk, hdone, hset, hfail⟩ := ih (by omega)
    rw [Fallible.forRange_succ]
    rcases o₁ with _ | u
    · have hne : k ≠ count := fun h => by simpa using hdone.mpr h
      exact ⟨none, ph₁, k, Fallible.bind_of_none hrun, hk.trans (Nat.le_succ _),
        by simp; omega, hset, fun _ => hfail (by omega)⟩
    obtain rfl := hdone.mp rfl
    obtain ⟨o₂, ph₂, hpage, hT₂, hext, hpages, h⟩ := setFlagsPage_spec hset.tables hr
      (wrap (n * pageSize + k * pageSize)) hf
    rw [pageNumber_add (by omega)] at h
    rw [Fallible.bind_of_some hrun]
    have hhere : lookup ph₁ r (n + k) = lookup ph r (n + k) := by
      rw [hset.lookups _ (by omega), if_neg (by omega)]
    rw [hhere] at h
    rcases h with ⟨rfl, rfl, hnone⟩ | ⟨rfl, e, he, hlookups⟩
    · exact ⟨none, ph₂, k, hpage, Nat.le_succ _, by simp, hset, fun _ => hnone⟩
    · refine ⟨some (), ph₂, k + 1, hpage, le_rfl, by simp, ⟨hset.toExtends.trans hext, hT₂,
        hpages.trans hset.page, fun i hi => ?_, fun m hm => ?_⟩, by simp⟩
      · rcases Nat.lt_succ_iff_lt_or_eq.mp hi with hi | rfl
        · exact hset.present i hi
        · rw [he]
          rfl
      · rw [hlookups m hm, hset.lookups m hm]
        by_cases hm' : m = n + k
        · subst hm'
          rw [if_pos rfl, if_pos (by omega), he, Option.map_some]
        · rw [if_neg hm']
          by_cases hin : n ≤ m ∧ m < n + k
          · rw [if_pos hin, if_pos (by omega)]
          · rw [if_neg hin, if_neg (by omega)]

/-- A page that an operation on the tree with the root `r` may free: it is no table and belongs to no
other tree. -/
def Freeable (r : ℕ) (own : ℕ → Role) (p : ℕ) : Prop :=
  (own p).isTable = false ∧ ∀ t, (own p).tree p = some t → t = r

/-- The pages that the first `k` iterations of a loop visit. -/
def visited (page : ℕ → ℕ) (k : ℕ) : Finset ℕ := (Finset.range k).image page

/-- The pages visited, by iterations. -/
lemma mem_visited {page : ℕ → ℕ} {k m : ℕ} : m ∈ visited page k ↔ ∃ i < k, page i = m := by
  simp [visited]

/-- One more page is visited. -/
lemma visited_succ (page : ℕ → ℕ) (k : ℕ) :
    visited page (k + 1) = insert (page k) (visited page k) := by
  rw [visited, Finset.range_add_one, Finset.image_insert, visited]

/-- The pages of a range. -/
lemma mem_visited_add {n k m : ℕ} : m ∈ visited (n + ·) k ↔ n ≤ m ∧ m < n + k := by
  rw [mem_visited]
  constructor
  · rintro ⟨i, hi, rfl⟩
    omega
  · rintro ⟨h₁, h₂⟩
    exact ⟨m - n, by omega, by omega⟩

/-- What clearing the entries of the pages in `V` has done.  With `freePage` the pages that were
mapped are free. -/
structure Unmapped (r : ℕ) (V : Finset ℕ) (freePage : Bool) (ph : Phys) (own : ℕ → Role)
    (ph' : Phys) (own' : ℕ → Role) : Prop extends Local r ph own ph' own' where
  tables : Tables ph' own'
  start : ph'.page.startAddr = ph.page.startAddr
  /-- Only tables of the tree are written. -/
  inside : ∀ w, ph'.mem w ≠ ph.mem w →
    (own (pageOfWord w)).isTable = true ∧ (own (pageOfWord w)).tree (pageOfWord w) = some r
  freed : ∀ m ∈ V, ∀ e, freePage = true → lookup ph r m = some e → own' (pteToPa e) = .free
  kept : ∀ p, own' p = own p ∨ own' p = .free ∧ ∃ m ∈ V, ∃ e, freePage = true ∧
    lookup ph r m = some e ∧ pteToPa e = p
  lookups : ∀ m < 2 ^ 27, lookup ph' r m = if m ∈ V then none else lookup ph r m

namespace Unmapped

variable {r n q e : ℕ} {V : Finset ℕ} {freePage : Bool} {ph ph' : Phys} {own own' : ℕ → Role}

/-- Nothing has been done. -/
lemma refl (hT : Tables ph own) (r : ℕ) (freePage : Bool) : Unmapped r ∅ freePage ph own ph own where
  toLocal := Local.refl ..
  tables := hT
  start := rfl
  inside w hw := absurd rfl hw
  freed m hm := by simp at hm
  kept _ := Or.inl rfl
  lookups m _ := by simp

/-- A page that is not mapped is passed over. -/
lemma skip (h : Unmapped r V freePage ph own ph' own') (hn : n < 2 ^ 27)
    (hnone : lookup ph' r n = none) : Unmapped r (insert n V) freePage ph own ph' own' where
  toLocal := h.toLocal
  tables := h.tables
  start := h.start
  inside := h.inside
  freed m hm e hfree he := by
    rcases Finset.mem_insert.mp hm with rfl | hm
    · by_cases hmV : m ∈ V
      · exact h.freed m hmV e hfree he
      · rw [h.lookups m hn, if_neg hmV, he] at hnone
        simp at hnone
    · exact h.freed m hm e hfree he
  kept p := by
    rcases h.kept p with h | ⟨hfree, m, hm, h⟩
    · exact Or.inl h
    · exact Or.inr ⟨hfree, m, Finset.mem_insert_of_mem hm, h⟩
  lookups m hm := by
    by_cases hmn : m = n
    · subst hmn
      rw [hnone, if_pos (Finset.mem_insert_self ..)]
    · rw [h.lookups m hm]
      simp [Finset.mem_insert, hmn]

/-- A page that is still mapped has not been visited. -/
lemma lookup_of_some (h : Unmapped r V freePage ph own ph' own') (hn : n < 2 ^ 27)
    (he : lookup ph' r n = some e) : n ∉ V ∧ lookup ph r n = some e := by
  rw [h.lookups n hn] at he
  split at he
  · simp at he
  · exact ⟨‹_›, he⟩

/-- The page that an entry still mapped refers to may be freed when it might at the start. -/
lemma freeable (h : Unmapped r V freePage ph own ph' own') {p : ℕ} (hp : Freeable r own p) :
    Freeable r own' p := by
  rcases h.kept p with hk | ⟨hk, -⟩
  · rwa [Freeable, hk]
  · simp [Freeable, hk, Role.isTable, Role.tree]

/-- One entry is cleared, and its page freed. -/
lemma erase (h : Unmapped r V freePage ph own ph' own')
    (hq : own' q = .low r (digit n 2) (digit n 1)) (hn : n < 2 ^ 27)
    (he : lookup ph' r n = some e) (hfree : freePage = true → Freeable r own (pteToPa e)) :
    ∃ own'', Unmapped r (insert n V) freePage ph own
      ((if freePage then ph'.freePage (pteToPa e) else ph').setEntry q (digit n 0) 0) own'' := by
  have hfree' : freePage = true → Freeable r own' (pteToPa e) := fun hf => h.freeable (hfree hf)
  obtain ⟨hnV, he₀⟩ := h.lookup_of_some hn he
  -- The state after the page is freed, before the entry is cleared.
  obtain ⟨ph₁, own₁, hph₁, hown₁, hT₁⟩ : ∃ ph₁ own₁,
      ph₁ = (if freePage then ph'.freePage (pteToPa e) else ph') ∧
      own₁ = (if freePage then Function.update own' (pteToPa e) .free else own') ∧
      Tables ph₁ own₁ := by
    refine ⟨_, _, rfl, rfl, ?_⟩
    cases freePage with
    | false => exact h.tables
    | true => exact h.tables.free (hfree' rfl).1 (pteToPa_mod e)
  have hmem₁ : ph₁.mem = ph'.mem := by
    rw [hph₁]
    cases freePage <;> rfl
  have hstart₁ : ph₁.page.startAddr = ph'.page.startAddr := by
    rw [hph₁]
    cases freePage
    · rfl
    · exact PageAllocator.free_startAddr ..
  have hsame : ∀ p, own₁ p = own' p ∨ own₁ p = .free ∧ freePage = true ∧ p = pteToPa e := fun p => by
    rw [hown₁]
    cases freePage with
    | false => exact Or.inl rfl
    | true =>
      by_cases hp : p = pteToPa e
      · exact Or.inr ⟨by simp [hp], rfl, hp⟩
      · exact Or.inl (by simp [hp])
  have hq₁ : own₁ q = .low r (digit n 2) (digit n 1) := by
    rcases hsame q with hs | ⟨-, hf, rfl⟩
    · rw [hs, hq]
    · have := (hfree' hf).1
      simp [hq, Role.isTable] at this
  obtain ⟨hT₂, hext, hset⟩ := hT₁.setLow hq₁ hn 0
  have hlocal₁ : Local r ph' own' ph₁ own₁ := by
    refine ⟨fun p t ht hp => ?_, fun w hw => absurd (by rw [hmem₁]) hw⟩
    rcases hsame p with hs | ⟨hs, hf, rfl⟩
    · exact hs
    · rcases hp with hp | hp
      · exact absurd ((hfree' hf).2 t hp) ht
      · simp [hs, Role.tree] at hp
  have hback : ∀ p, own₁ p = own p ∨ own₁ p = .free ∧ ∃ m ∈ insert n V, ∃ e, freePage = true ∧
      lookup ph r m = some e ∧ pteToPa e = p := fun p => by
    rcases hsame p with hs | ⟨hs, hf, rfl⟩
    · rw [hs]
      rcases h.kept p with hk | ⟨hk, m, hm, hm'⟩
      · exact Or.inl hk
      · exact Or.inr ⟨hk, m, Finset.mem_insert_of_mem hm, hm'⟩
    · exact Or.inr ⟨hs, n, Finset.mem_insert_self .., e, hf, he₀, rfl⟩
  rw [← hph₁]
  refine ⟨own₁, (h.toLocal.trans hlocal₁).trans hext.toLocal, hT₂, hstart₁.trans h.start,
    fun w hw => ?_, fun m hm e' hf he' => ?_, hback, fun m hm => ?_⟩
  · by_cases hw' : ph'.mem w = ph.mem w
    · have hw₁ : (ph₁.setEntry q (digit n 0) 0).mem w ≠ ph₁.mem w := by
        rwa [hmem₁, hw']
      rcases hext.writes w hw₁ with ⟨htable, htree⟩ | ⟨hfree₁, hne⟩
      · rcases hback (pageOfWord w) with hb | ⟨hb, -⟩
        · rw [← hb]
          exact ⟨htable, htree⟩
        · simp [hb, Role.isTable] at htable
      · exact absurd hfree₁ hne
    · exact h.inside w hw'
  · rcases Finset.mem_insert.mp hm with rfl | hm
    · rw [he₀, Option.some.injEq] at he'
      subst he'
      rw [hown₁, hf, if_pos rfl, Function.update_self]
    · have hf' := h.freed m hm e' hf he'
      rcases hsame (pteToPa e') with hs | ⟨hs, -⟩
      · rw [hs, hf']
      · exact hs
  · rw [hset m hm]
    simp only [lookup_of_mem hmem₁, h.lookups m hm, hasFlag_zero, Bool.false_eq_true, if_false]
    by_cases hmn : m = n
    · subst hmn
      rw [if_pos rfl, if_pos (Finset.mem_insert_self ..)]
    · simp [Finset.mem_insert, hmn]

/-- More pages are cleared. -/
lemma trans {V' : Finset ℕ} {ph'' : Phys} {own'' : ℕ → Role}
    (h : Unmapped r V freePage ph own ph' own') (h' : Unmapped r V' freePage ph' own' ph'' own'')
    (hV' : ∀ m ∈ V', m < 2 ^ 27) : Unmapped r (V ∪ V') freePage ph own ph'' own'' where
  toLocal := h.toLocal.trans h'.toLocal
  tables := h'.tables
  start := h'.start.trans h.start
  inside w hw := by
    by_cases hw' : ph'.mem w = ph.mem w
    · have hin := h'.inside w (by rwa [hw'])
      rcases h.kept (pageOfWord w) with hk | ⟨hk, -⟩
      · rwa [hk] at hin
      · simp [hk, Role.isTable] at hin
    · exact h.inside w hw'
  freed m hm e hf he := by
    by_cases hmV : m ∈ V
    · have hfree := h.freed m hmV e hf he
      rcases h'.kept (pteToPa e) with hk | ⟨hk, -⟩
      · rw [hk, hfree]
      · exact hk
    · have hmV' := (Finset.mem_union.mp hm).resolve_left hmV
      refine h'.freed m hmV' e hf ?_
      rw [h.lookups m (hV' m hmV'), if_neg hmV, he]
  kept p := by
    rcases h'.kept p with hk | ⟨hk, m, hm, e, hf, he, hp⟩
    · rw [hk]
      exact (h.kept p).imp_right (And.imp_right fun hm => hm.imp fun m hm =>
        ⟨Finset.mem_union_left _ hm.1, hm.2⟩)
    · refine Or.inr ⟨hk, m, Finset.mem_union_right _ hm, e, hf, ?_, hp⟩
      exact (h.lookup_of_some (hV' m hm) he).2
  lookups m hm := by
    rw [h'.lookups m hm, h.lookups m hm]
    by_cases h₁ : m ∈ V <;> by_cases h₂ : m ∈ V' <;> simp [h₁, h₂]

/-- The root stays. -/
lemma root (h : Unmapped r V freePage ph own ph' own') (hr : own r = .root)
    (hfree : ∀ m ∈ V, ∀ e, freePage = true → lookup ph r m = some e →
      Freeable r own (pteToPa e)) : own' r = .root := by
  rcases h.kept r with hk | ⟨-, m, hm, e, hf, he, rfl⟩
  · rw [hk, hr]
  · have := (hfree m hm e hf he).1
    simp [hr, Role.isTable] at this

end Unmapped

/-- The loop of `unmap`. -/
lemma unmapPages_spec {ph : Phys} {own : ℕ → Role} {r : ℕ} (hT : Tables ph own)
    (hr : own r = .root) (n : ℕ) (freePage : Bool) (count : ℕ) (hend : n + count ≤ 2 ^ 27)
    (hfree : ∀ i < count, ∀ e, freePage = true → lookup ph r (n + i) = some e →
      Freeable r own (pteToPa e)) :
    ∃ o ph' own' k, Fallible.forRange count (fun i => unmapPage r
        (wrap (n * pageSize + i * pageSize)) freePage) ph = some (o, ph') ∧
      k ≤ count ∧ (o = some () ↔ k = count) ∧
      Unmapped r (visited (n + ·) k) freePage ph own ph' own' ∧
      (k < count → lookup ph r (n + k) = none) := by
  induction count with
  | zero => exact ⟨some (), ph, own, 0, rfl, le_rfl, by simp, Unmapped.refl hT r freePage, by simp⟩
  | succ count ih =>
    obtain ⟨o₁, ph₁, own₁, k, hrun, hk, hdone, hun, hfail⟩ := ih (by omega) fun i hi =>
      hfree i (Nat.lt_succ_of_lt hi)
    rw [Fallible.forRange_succ]
    rcases o₁ with _ | u
    · have hne : k ≠ count := fun h => by simpa using hdone.mpr h
      exact ⟨none, ph₁, own₁, k, Fallible.bind_of_none hrun, hk.trans (Nat.le_succ _),
        by simp; omega, hun, fun _ => hfail (by omega)⟩
    obtain rfl := hdone.mp rfl
    have hfree' : ∀ m ∈ visited (n + ·) k, ∀ e, freePage = true → lookup ph r m = some e →
        Freeable r own (pteToPa e) := fun m hm e hf he => by
      obtain ⟨i, hi, rfl⟩ := mem_visited.mp hm
      exact hfree i (Nat.lt_succ_of_lt hi) e hf he
    have hr₁ := hun.root hr hfree'
    have hnext : lookup ph₁ r (n + k) = lookup ph r (n + k) := by
      rw [hun.lookups _ (by omega), if_neg]
      rw [mem_visited_add]
      omega
    have hnum : pageNumber (wrap (n * pageSize + k * pageSize)) = n + k := pageNumber_add (by omega)
    have hwalk := walk_false hun.tables hr₁ (wrap (n * pageSize + k * pageSize))
    rw [hnum] at hwalk
    rw [Fallible.bind_of_some hrun, unmapPage]
    rcases hwalk with ⟨hwalk, hnone⟩ | ⟨q, hq, hwalk, hlookup⟩
    · exact ⟨none, ph₁, own₁, k, Fallible.bind_of_none hwalk, Nat.le_succ _, by simp, hun,
        fun _ => hnext.symm.trans hnone⟩
    · rw [Fallible.bind_of_some hwalk]
      simp only [Fallible.gets_bind]
      cases hflag : hasFlag (ph₁.entry q (digit (n + k) 0)) pteV with
      | false =>
        rw [hflag] at hlookup
        refine ⟨some (), ph₁, own₁, k + 1, rfl, le_rfl, by simp, ?_, by simp⟩
        rw [visited_succ]
        exact hun.skip (by omega) hlookup
      | true =>
        rw [hflag] at hlookup
        obtain ⟨own₂, h₂⟩ := hun.erase hq (by omega) hlookup fun hf =>
          hfree k (Nat.lt_succ_self k) _ hf (hnext.symm.trans hlookup)
        refine ⟨some (), _, own₂, k + 1, ?_, le_rfl, by simp, by rw [visited_succ]; exact h₂, by simp⟩
        cases freePage <;> rfl

end NekOS
