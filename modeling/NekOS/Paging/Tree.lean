import NekOS.Paging.Entry

/-!
# Trees of page tables

Page tables live in pages of the allocator.  `Role` says what a page is used for, and `Tables` that
the roles of the table pages describe the pointers between them exactly: every table is linked from
the one entry its role names, and every valid entry of a table above the last level links a table.
Because a page has one role, no page is used twice.

`Extends r` is what an operation on the tree with the root `r` may do to the rest of memory: it
keeps the roles that pages have and writes only to tables of the tree and to pages that it has
allocated.
-/

namespace NekOS

open PageTable

/-- What a page is used for. -/
inductive Role
  /-- The page is not allocated. -/
  | free
  /-- The root of a tree of page tables. -/
  | root
  /-- The table below entry `i` of the root `r`. -/
  | mid (r : ℕ) (i : Fin 512)
  /-- The table below entry `j` of the table below entry `i` of the root `r`. -/
  | low (r : ℕ) (i j : Fin 512)
  /-- Page `n` of the user program whose page table has the root `r`. -/
  | data (r n : ℕ)
  /-- A kernel stack. -/
  | stack
  /-- Allocated and not referred to. -/
  | lost
  deriving DecidableEq

/-- The roles of page tables. -/
def Role.isTable : Role → Bool
  | .root | .mid _ _ | .low _ _ _ => true
  | _ => false

/-- The roles of tables whose entries link other tables. -/
def Role.isUpper : Role → Bool
  | .root | .mid _ _ => true
  | _ => false

/-- The roles of allocated pages that are no page tables. -/
def Role.plain (ρ : Role) : Prop := ρ ≠ .free ∧ ρ.isTable = false

/-- The tree that a page belongs to. -/
def Role.tree (p : ℕ) : Role → Option ℕ
  | .root => some p
  | .mid r _ | .low r _ _ | .data r _ => some r
  | _ => none

/-- The page that a word of memory lies in. -/
def pageOfWord (w : ℕ) : ℕ := w / 512 * pageSize

/-- The words of a page. -/
lemma pageOfWord_entry {p : ℕ} (hp : p % pageSize = 0) (i : Fin 512) :
    pageOfWord (p / 8 + i) = p := by
  simp only [pageOfWord, pageSize] at hp ⊢
  omega

/-- A word lies in a page when its index is in the range of the page. -/
lemma pageOfWord_eq {p w : ℕ} (hp : p % pageSize = 0) :
    pageOfWord w = p ↔ p / 8 ≤ w ∧ w < p / 8 + 512 := by
  simp only [pageOfWord, pageSize] at hp ⊢
  omega

namespace PageTable

/-! ### Translation -/

/-- The table that an entry points to. -/
def child (ph : Phys) (pt : ℕ) (i : Fin 512) : Option ℕ :=
  if hasFlag (ph.entry pt i) pteV && !isLeaf (ph.entry pt i) then some (pteToPa (ph.entry pt i))
  else none

/-- The valid last-level entry of a page number. -/
def lookup (ph : Phys) (r n : ℕ) : Option ℕ :=
  (child ph r (digit n 2)).bind fun mid => (child ph mid (digit n 1)).bind fun low =>
    if hasFlag (ph.entry low (digit n 0)) pteV then some (ph.entry low (digit n 0)) else none

/-- Translation depends on memory alone. -/
lemma lookup_of_mem {ph ph' : Phys} (h : ph'.mem = ph.mem) (r n : ℕ) :
    lookup ph' r n = lookup ph r n := by
  obtain ⟨page, mem⟩ := ph
  obtain ⟨page', mem'⟩ := ph'
  obtain rfl : mem' = mem := h
  rfl

/-- A level of `walk` that creates nothing follows the pointer. -/
lemma descend_false (ph : Phys) (pt : ℕ) (i : Fin 512) :
    descend false pt i ph = some (child ph pt i, ph) := by
  simp only [descend, child, Fallible.gets_bind]
  cases hasFlag (ph.entry pt i) pteV <;> cases isLeaf (ph.entry pt i) <;> rfl

/-- The slot of an address, found through the pointers. -/
lemma slotOf_eq (ph : Phys) (r va : ℕ) :
    slotOf ph r va = (child ph r (digit (pageNumber va) 2)).bind fun mid =>
      (child ph mid (digit (pageNumber va) 1)).map fun low => (low, digit (pageNumber va) 0) := by
  rw [slotOf, walk, vpn_eq_digit (by decide), vpn_eq_digit (by decide), vpn_eq_digit (by decide)]
  rcases hmid : child ph r (digit (pageNumber va) 2) with _ | mid
  · rw [Fallible.bind_of_none (by rw [descend_false, hmid])]
    rfl
  · rw [Fallible.bind_of_some (by rw [descend_false, hmid])]
    rcases hlow : child ph mid (digit (pageNumber va) 1) with _ | low
    · rw [Fallible.bind_of_none (by rw [descend_false, hlow])]
      simp [hlow]
    · rw [Fallible.bind_of_some (by rw [descend_false, hlow])]
      simp [hlow]

/-- The valid entries that the kernel finds. -/
lemma findPte_filter (ph : Phys) (r va : ℕ) :
    (findPte ph r va).filter (fun pte => hasFlag pte pteV) = lookup ph r (pageNumber va) := by
  rw [findPte, slotOf_eq, lookup]
  rcases child ph r (digit (pageNumber va) 2) with _ | mid
  · rfl
  · rcases hlow : child ph mid (digit (pageNumber va) 1) with _ | low
    · simp [hlow]
    · simp [hlow, Option.filter]

/-- `virt_to_phys` translates by the valid entry. -/
lemma virtToPhys_eq (ph : Phys) (r va : ℕ) :
    virtToPhys ph r va = (lookup ph r (pageNumber va)).map fun pte => pteToPa pte + va % pageSize := by
  rw [← findPte_filter, virtToPhys]
  rcases findPte ph r va with _ | pte
  · rfl
  · cases h : hasFlag pte pteV <;> simp [Option.filter, h]

end PageTable

/-! ### The tables in memory -/

/-- The roles describe the allocated pages and the pointers between the tables. -/
structure Tables (ph : Phys) (own : ℕ → Role) : Prop where
  /-- The managed pages lie on page boundaries. -/
  aligned : ph.page.startAddr % pageSize = 0
  /-- The managed pages have 56-bit addresses. -/
  bounded : ph.page.startAddr + ph.page.totalPages * pageSize ≤ 2 ^ 56
  /-- The free counter is right. -/
  counted : ph.page.Counted
  /-- Free are the pages that are not allocated. -/
  free_iff : ∀ p, own p = .free ↔ ¬ ph.page.Allocated p
  /-- A table of the middle level is linked from its root. -/
  mid_link : ∀ p r i, own p = .mid r i → own r = .root ∧ ph.entry r i = paToPte p pteV
  /-- A table of the last level is linked from the middle level. -/
  low_link : ∀ p r i j, own p = .low r i j →
    ∃ q, own q = .mid r i ∧ ph.entry q j = paToPte p pteV
  /-- The valid entries of a root link tables of the middle level. -/
  root_entry : ∀ r i, own r = .root → hasFlag (ph.entry r i) pteV = true →
    ∃ p, own p = .mid r i ∧ ph.entry r i = paToPte p pteV
  /-- The valid entries of a table of the middle level link tables of the last level. -/
  mid_entry : ∀ q r i j, own q = .mid r i → hasFlag (ph.entry q j) pteV = true →
    ∃ p, own p = .low r i j ∧ ph.entry q j = paToPte p pteV

namespace Tables

variable {ph ph' : Phys} {own own' : ℕ → Role} {r p q : ℕ}

/-- Allocated pages lie on page boundaries. -/
lemma allocated_aligned (hT : Tables ph own) (h : ph.page.Allocated p) :
    p % pageSize = 0 ∧ p < 2 ^ 56 := by
  obtain ⟨i, hi, rfl, -⟩ := h
  have h₁ := hT.aligned
  have h₂ := hT.bounded
  simp only [pageSize] at h₁ h₂ ⊢
  omega

/-- Pages with a role are allocated. -/
lemma allocated (hT : Tables ph own) (h : own p ≠ .free) : ph.page.Allocated p :=
  not_not.mp fun hp => h ((hT.free_iff p).mpr hp)

/-- Pages with a role lie on page boundaries. -/
lemma page_aligned (hT : Tables ph own) (h : own p ≠ .free) : p % pageSize = 0 :=
  (hT.allocated_aligned (hT.allocated h)).1

/-- Pages with a role have 56-bit addresses. -/
lemma page_lt (hT : Tables ph own) (h : own p ≠ .free) : p < 2 ^ 56 :=
  (hT.allocated_aligned (hT.allocated h)).2

/-- The table that a pointer with a role refers to. -/
lemma pteToPa_link (hT : Tables ph own) (h : own p ≠ .free) : pteToPa (paToPte p pteV) = p :=
  pteToPa_pointer (hT.page_aligned h) (hT.page_lt h)

/-- The tables below a root. -/
lemma child_root (hT : Tables ph own) (hr : own r = .root) {i : Fin 512} :
    child ph r i = some p ↔ own p = .mid r i := by
  rw [child]
  constructor
  · intro h
    split at h
    · rename_i hflag
      rw [Bool.and_eq_true] at hflag
      obtain ⟨q, hq, he⟩ := hT.root_entry r i hr hflag.1
      rw [he, hT.pteToPa_link (by rw [hq]; simp), Option.some.injEq] at h
      rwa [← h]
    · simp at h
  · intro h
    rw [(hT.mid_link p r i h).2, hasFlag_pointer, isLeaf_pointer, hT.pteToPa_link (by rw [h]; simp)]
    rfl

/-- The tables below a table of the middle level. -/
lemma child_mid (hT : Tables ph own) {i j : Fin 512} (hq : own q = .mid r i) :
    child ph q j = some p ↔ own p = .low r i j := by
  rw [child]
  constructor
  · intro h
    split at h
    · rename_i hflag
      rw [Bool.and_eq_true] at hflag
      obtain ⟨q', hq', he⟩ := hT.mid_entry q r i j hq hflag.1
      rw [he, hT.pteToPa_link (by rw [hq']; simp), Option.some.injEq] at h
      rwa [← h]
    · simp at h
  · intro h
    obtain ⟨q', hq', he⟩ := hT.low_link p r i j h
    have hroot := (hT.mid_link q r i hq).1
    obtain rfl : q = q' := by
      have h₁ := (hT.child_root hroot).mpr hq
      rw [(hT.child_root hroot).mpr hq', Option.some.injEq] at h₁
      exact h₁.symm
    rw [he, hasFlag_pointer, isLeaf_pointer, hT.pteToPa_link (by rw [h]; simp)]
    rfl

/-- A translation goes through the last-level table of the page number. -/
lemma lookup_eq_some (hT : Tables ph own) (hr : own r = .root) {n e : ℕ} :
    lookup ph r n = some e ↔ ∃ q, own q = .low r (digit n 2) (digit n 1) ∧
      ph.entry q (digit n 0) = e ∧ hasFlag e pteV = true := by
  rw [lookup]
  constructor
  · intro h
    obtain ⟨mid, hmid, h⟩ := Option.bind_eq_some_iff.mp h
    obtain ⟨low, hlow, h⟩ := Option.bind_eq_some_iff.mp h
    rw [hT.child_root hr] at hmid
    rw [hT.child_mid hmid] at hlow
    split at h
    · rename_i hflag
      rw [Option.some.injEq] at h
      subst h
      exact ⟨low, hlow, rfl, hflag⟩
    · simp at h
  · rintro ⟨low, hlow, rfl, hflag⟩
    obtain ⟨mid, hmid, -⟩ := hT.low_link low _ _ _ hlow
    rw [(hT.child_root hr).mpr hmid, Option.bind_some, (hT.child_mid hmid).mpr hlow,
      Option.bind_some, if_pos hflag]

/-- The slot of an address lies in the last-level table of its page number. -/
lemma slotOf_eq_some (hT : Tables ph own) (hr : own r = .root) {va : ℕ} {k : Fin 512} :
    slotOf ph r va = some (q, k) ↔
      own q = .low r (digit (pageNumber va) 2) (digit (pageNumber va) 1) ∧
        k = digit (pageNumber va) 0 := by
  rw [slotOf_eq]
  constructor
  · intro h
    obtain ⟨mid, hmid, h⟩ := Option.bind_eq_some_iff.mp h
    obtain ⟨low, hlow, h⟩ := Option.map_eq_some_iff.mp h
    rw [hT.child_root hr] at hmid
    rw [hT.child_mid hmid] at hlow
    obtain ⟨rfl, rfl⟩ := Prod.mk.inj h
    exact ⟨hlow, rfl⟩
  · rintro ⟨hlow, rfl⟩
    obtain ⟨mid, hmid, -⟩ := hT.low_link q _ _ _ hlow
    rw [(hT.child_root hr).mpr hmid, Option.bind_some, (hT.child_mid hmid).mpr hlow,
      Option.map_some]

/-- There is one last-level table for a page number. -/
lemma low_unique (hT : Tables ph own) {i j : Fin 512} (hp : own p = .low r i j)
    (hq : own q = .low r i j) : p = q := by
  obtain ⟨mid, hmid, -⟩ := hT.low_link p _ _ _ hp
  have h := (hT.child_mid hmid).mpr hp
  rw [(hT.child_mid hmid).mpr hq, Option.some.injEq] at h
  exact h.symm

/-- There is one table of the middle level for an entry of the root. -/
lemma mid_unique (hT : Tables ph own) {i : Fin 512} (hp : own p = .mid r i)
    (hq : own q = .mid r i) : p = q := by
  have hr := (hT.mid_link p r i hp).1
  have h := (hT.child_root hr).mpr hp
  rw [(hT.child_root hr).mpr hq, Option.some.injEq] at h
  exact h.symm

/-- A memory without tables. -/
lemma of_no_table (haligned : ph.page.startAddr % pageSize = 0)
    (hbounded : ph.page.startAddr + ph.page.totalPages * pageSize ≤ 2 ^ 56)
    (hcounted : ph.page.Counted) (hfree : ∀ p, own p = .free ↔ ¬ ph.page.Allocated p)
    (hno : ∀ p, (own p).isTable = false) : Tables ph own := by
  have habsurd : ∀ {p ρ}, ρ.isTable = true → own p ≠ ρ := by
    rintro p ρ hρ rfl
    simp [hno p] at hρ
  exact ⟨haligned, hbounded, hcounted, hfree, fun p r i h => absurd h (habsurd rfl),
    fun p r i j h => absurd h (habsurd rfl), fun r i h => absurd h (habsurd rfl),
    fun q r i j h => absurd h (habsurd rfl)⟩

/-- A change of the roles of pages that are no tables, and of memory outside the upper tables. -/
lemma congr (hT : Tables ph own) (hstart : ph'.page.startAddr = ph.page.startAddr)
    (htotal : ph'.page.totalPages = ph.page.totalPages) (hcounted : ph'.page.Counted)
    (hfree : ∀ p, own' p = .free ↔ ¬ ph'.page.Allocated p)
    (hown : ∀ p, own' p ≠ own p → (own p).isTable = false ∧ (own' p).isTable = false)
    (hentry : ∀ p i, (own p).isUpper = true → ph'.entry p i = ph.entry p i) : Tables ph' own' := by
  have hto : ∀ p, (own p).isTable = true → own' p = own p := fun p hp => by
    by_contra hne
    simp [(hown p hne).1] at hp
  have hfrom : ∀ p, (own' p).isTable = true → own' p = own p := fun p hp => by
    by_contra hne
    simp [(hown p hne).2] at hp
  have hroot : ∀ r, own' r = .root → own r = .root := fun r hr =>
    (hfrom r (by rw [hr]; rfl)).symm.trans hr
  have hmid : ∀ p r i, own' p = .mid r i → own p = .mid r i := fun p r i hp =>
    (hfrom p (by rw [hp]; rfl)).symm.trans hp
  have hlow : ∀ p r i j, own' p = .low r i j → own p = .low r i j := fun p r i j hp =>
    (hfrom p (by rw [hp]; rfl)).symm.trans hp
  refine ⟨?_, ?_, hcounted, hfree, ?_, ?_, ?_, ?_⟩
  · rw [hstart]
    exact hT.aligned
  · rw [hstart, htotal]
    exact hT.bounded
  · intro p r i hp
    obtain ⟨hr, he⟩ := hT.mid_link p r i (hmid p r i hp)
    exact ⟨(hto r (by rw [hr]; rfl)).trans hr, by rw [hentry r i (by rw [hr]; rfl), he]⟩
  · intro p r i j hp
    obtain ⟨q, hq, he⟩ := hT.low_link p r i j (hlow p r i j hp)
    exact ⟨q, (hto q (by rw [hq]; rfl)).trans hq, by rw [hentry q j (by rw [hq]; rfl), he]⟩
  · intro r i hr hflag
    rw [hentry r i (by rw [hroot r hr]; rfl)] at hflag ⊢
    obtain ⟨p, hp, he⟩ := hT.root_entry r i (hroot r hr) hflag
    exact ⟨p, (hto p (by rw [hp]; rfl)).trans hp, he⟩
  · intro q r i j hq hflag
    rw [hentry q j (by rw [hmid q r i hq]; rfl)] at hflag ⊢
    obtain ⟨p, hp, he⟩ := hT.mid_entry q r i j (hmid q r i hq) hflag
    exact ⟨p, (hto p (by rw [hp]; rfl)).trans hp, he⟩

end Tables

/-! ### Entries of different pages -/

/-- Writing an entry of a table. -/
lemma entry_setEntry {ph : Phys} {p q : ℕ} (hp : p % pageSize = 0) (hq : q % pageSize = 0)
    (i j : Fin 512) (e : ℕ) :
    (ph.setEntry q j e).entry p i = if p = q ∧ i = j then e else ph.entry p i := by
  simp only [Phys.entry, Phys.setEntry, Function.update_apply]
  have hiff : p / 8 + (i : ℕ) = q / 8 + j ↔ p = q ∧ i = j := by
    simp only [pageSize] at hp hq
    rw [Fin.ext_iff]
    omega
  rw [if_congr hiff rfl rfl]

/-- The entries of a page that is written to only elsewhere. -/
lemma entry_of_writes {ph ph' : Phys} {p : ℕ} (hp : p % pageSize = 0)
    (h : ∀ w, pageOfWord w = p → ph'.mem w = ph.mem w) (i : Fin 512) :
    ph'.entry p i = ph.entry p i :=
  h _ (pageOfWord_entry hp i)

/-- Clearing a page changes no other page. -/
lemma zeroPage_mem {ph : Phys} {p w : ℕ} (hp : p % pageSize = 0) :
    (ph.zeroPage p).mem w = if pageOfWord w = p then 0 else ph.mem w := by
  simp only [Phys.zeroPage, Memory.clear]
  rw [if_congr (pageOfWord_eq hp).symm rfl rfl]

/-- The entries of a cleared page. -/
lemma entry_zeroPage {ph : Phys} {p : ℕ} (hp : p % pageSize = 0) (i : Fin 512) :
    (ph.zeroPage p).entry p i = 0 := by
  rw [Phys.entry, zeroPage_mem hp, if_pos (pageOfWord_entry hp i)]

/-- The entries of other pages. -/
lemma entry_zeroPage_of_ne {ph : Phys} {p q : ℕ} (hp : p % pageSize = 0) (hq : q % pageSize = 0)
    (h : q ≠ p) (i : Fin 512) : (ph.zeroPage p).entry q i = ph.entry q i := by
  refine entry_of_writes hq (fun w hw => ?_) i
  rw [zeroPage_mem hp, if_neg (by rw [hw]; exact h)]

end NekOS
