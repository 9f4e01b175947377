import NekOS.Foundation.Machine
import NekOS.Paging.Loops

/-!
# Page tables refine partial maps

A page table stands for a partial map from page numbers to leaves.  Whatever sequence of `map`,
`set_flags` and `unmap` a table has gone through since `create`, every operation acts on the map: it
adds, changes or removes the leaves of a range, all of them when it succeeds and an initial part of
the range when it reports an error.  The tables themselves form a tree that uses no page twice.
-/

namespace NekOS

open PageTable

/-- What a page table says about a page: where it is and its flags. -/
structure Leaf where
  pa : ℕ
  flags : ℕ
  deriving DecidableEq

/-- The entry that holds a leaf. -/
def Leaf.pte (l : Leaf) : ℕ := paToPte l.pa l.flags

/-- The leaf can be stored in an entry. -/
structure Leaf.Ok (l : Leaf) : Prop where
  aligned : l.pa % pageSize = 0
  pa_lt : l.pa < 2 ^ 56
  flags_lt : l.flags < 1024
  valid : hasFlag l.flags pteV = true

/-- An address space: a partial map from page numbers to leaves. -/
abbrev PageMap := ℕ → Option Leaf

/-- The page table with the root `r` stands for a partial map. -/
structure Represents (ph : Phys) (r : ℕ) (M : PageMap) : Prop where
  lookups : ∀ n < 2 ^ 27, lookup ph r n = (M n).map Leaf.pte
  ok : ∀ n < 2 ^ 27, ∀ l, M n = some l → l.Ok

/-- The page read back from the entry of a leaf. -/
lemma Leaf.Ok.pteToPa {l : Leaf} (h : l.Ok) : pteToPa l.pte = l.pa :=
  pteToPa_paToPte h.flags_lt h.aligned h.pa_lt

/-- The address that `virt_to_phys` returns. -/
lemma Represents.virtToPhys {ph : Phys} {r : ℕ} {M : PageMap} (h : Represents ph r M) (va : ℕ) :
    PageTable.virtToPhys ph r va = (M (pageNumber va)).map fun l => l.pa + va % pageSize := by
  rw [virtToPhys_eq, h.lookups _ (pageNumber_lt va)]
  cases hM : M (pageNumber va) with
  | none => rfl
  | some l => rw [Option.map_some, Option.map_some, Option.map_some,
      (h.ok _ (pageNumber_lt va) l hM).pteToPa]

/-- A page table stands for one map. -/
lemma Represents.unique {ph : Phys} {r : ℕ} {M M' : PageMap} (h : Represents ph r M)
    (h' : Represents ph r M') {n : ℕ} (hn : n < 2 ^ 27) : M n = M' n := by
  have heq := (h.lookups n hn).symm.trans (h'.lookups n hn)
  cases hM : M n with
  | none => cases hM' : M' n <;> simp [hM, hM'] at heq ⊢
  | some l =>
    cases hM' : M' n with
    | none => simp [hM, hM'] at heq
    | some l' =>
      rw [hM, hM', Option.map_some, Option.map_some, Option.some.injEq] at heq
      have hl := h.ok n hn l hM
      have hl' := h'.ok n hn l' hM'
      have hpa : l.pa = l'.pa := by rw [← hl.pteToPa, heq, hl'.pteToPa]
      rw [Leaf.pte, Leaf.pte, paToPte_eq hl.flags_lt, paToPte_eq hl'.flags_lt, hpa] at heq
      obtain ⟨pa, flags⟩ := l
      obtain ⟨pa', flags'⟩ := l'
      simp only at hpa heq
      rw [hpa, Nat.add_left_cancel heq]

/-! ### Operations -/

/-- The operations on a page table. -/
inductive TableOp
  | map (va pa size flags : ℕ)
  | setFlags (va size flags : ℕ)
  | unmap (va size : ℕ) (freePage : Bool)

namespace TableOp

/-- The operation on the table with the root `r`. -/
def run (r : ℕ) : TableOp → Fallible Phys Unit
  | map va pa size flags => PageTable.map r va pa size flags
  | setFlags va size flags => PageTable.setFlags r va size flags
  | unmap va size freePage => PageTable.unmap r va size freePage

/-- The first page of the range. -/
def first : TableOp → ℕ
  | map va _ _ _ | setFlags va _ _ | unmap va _ _ => va / pageSize

/-- The number of pages of the range. -/
def count : TableOp → ℕ
  | map _ _ size _ | setFlags _ size _ | unmap _ size _ => size / pageSize

/-- Page-aligned addresses, virtual ones below `2 ^ 39` and physical ones below `2 ^ 56`, a size in
pages and ten bits of flags. -/
def WellFormed : TableOp → Prop
  | map va pa size flags => va % pageSize = 0 ∧ pa % pageSize = 0 ∧ size % pageSize = 0 ∧
      va + size ≤ 2 ^ 39 ∧ pa + size ≤ 2 ^ 56 ∧ flags < 2 ^ 10
  | setFlags va size flags => va % pageSize = 0 ∧ size % pageSize = 0 ∧ va + size ≤ 2 ^ 39 ∧
      flags < 2 ^ 10
  | unmap va size _ => va % pageSize = 0 ∧ size % pageSize = 0 ∧ va + size ≤ 2 ^ 39

/-- The operation on the first `k` pages of its range, on partial maps. -/
def apply (k : ℕ) (M : PageMap) : TableOp → PageMap
  | map va pa _ flags => fun n => if va / pageSize ≤ n ∧ n < va / pageSize + k then
      some ⟨pa + (n - va / pageSize) * pageSize, flags ||| pteV⟩ else M n
  | setFlags va _ flags => fun n => if va / pageSize ≤ n ∧ n < va / pageSize + k then
      (M n).map fun l => ⟨l.pa, flags ||| pteV⟩ else M n
  | unmap va _ _ => fun n => if va / pageSize ≤ n ∧ n < va / pageSize + k then none else M n

/-- What the operation needs of the first `k` pages of its range. -/
def Enabled (k : ℕ) (M : PageMap) : TableOp → Prop
  | map va _ _ _ => ∀ i < k, M (va / pageSize + i) = none
  | setFlags va _ _ => ∀ i < k, (M (va / pageSize + i)).isSome = true
  | unmap _ _ _ => True

/-- No operation changes the map outside its range. -/
lemma apply_of_not_mem (op : TableOp) {k n : ℕ} (M : PageMap)
    (h : n < op.first ∨ op.first + k ≤ n) : op.apply k M n = M n := by
  cases op <;> exact if_neg (by simp only [first] at h; omega)

end TableOp

/-! ### The tree -/

/-- The table at a path of indices from the root. -/
def nodeAt (ph : Phys) (r : ℕ) : List (Fin 512) → Option ℕ
  | [] => some r
  | [i] => child ph r i
  | [i, j] => (child ph r i).bind fun q => child ph q j
  | _ => none

/-- `page::alloc` returns fresh pages: the operation frees no table of the tree. -/
def FreshAlloc (r : ℕ) (ph : Phys) : TableOp → Prop
  | .unmap va size true => ∀ i < size / pageSize, ∀ e,
      lookup ph r (va / pageSize + i) = some e → ∀ path, nodeAt ph r path ≠ some (pteToPa e)
  | _ => True

/-- The machine of one page table. -/
def tableMachine (r : ℕ) : Machine Phys TableOp where
  init ph := ∃ ph₀ : Phys, ph₀.page.startAddr % pageSize = 0 ∧
    ph₀.page.startAddr + ph₀.page.totalPages * pageSize ≤ 2 ^ 56 ∧ ph₀.page.Counted ∧
    create ph₀ = some (some r, ph)
  step ph op := (op.run r ph).map Prod.snd

/-- The roles in a memory with one tree. -/
structure OneTree (r : ℕ) (ph : Phys) (own : ℕ → Role) : Prop where
  tables : Tables ph own
  root : own r = .root
  only : ∀ p, own p = .free ∨ own p = .lost ∨ (own p).isTable = true ∧ (own p).tree p = some r

namespace OneTree

variable {r : ℕ} {ph : Phys} {own : ℕ → Role}

/-- The tables of the tree are those with a path. -/
lemma isTable_iff (h : OneTree r ph own) {p : ℕ} :
    (own p).isTable = true ↔ ∃ path, nodeAt ph r path = some p := by
  constructor
  · intro hp
    rcases h.only p with h' | h' | ⟨-, htree⟩
    · simp [h', Role.isTable] at hp
    · simp [h', Role.isTable] at hp
    cases hown : own p with
    | root =>
      rw [hown] at htree
      exact ⟨[], htree.symm⟩
    | mid r' i =>
      obtain rfl : r' = r := by simpa [hown, Role.tree] using htree
      exact ⟨[i], (h.tables.child_root h.root).mpr hown⟩
    | low r' i j =>
      obtain rfl : r' = r := by simpa [hown, Role.tree] using htree
      obtain ⟨q, hq, -⟩ := h.tables.low_link p r' i j hown
      refine ⟨[i, j], ?_⟩
      rw [nodeAt, (h.tables.child_root h.root).mpr hq, Option.bind_some,
        (h.tables.child_mid hq).mpr hown]
    | free | data | stack | lost => simp [hown, Role.isTable] at hp
  · rintro ⟨path, hpath⟩
    rcases path with _ | ⟨i, _ | ⟨j, _ | ⟨k, path⟩⟩⟩
    · obtain rfl := Option.some.inj hpath
      rw [h.root]
      rfl
    · rw [(h.tables.child_root h.root).mp hpath]
      rfl
    · obtain ⟨q, hq, hp⟩ := Option.bind_eq_some_iff.mp hpath
      rw [(h.tables.child_mid ((h.tables.child_root h.root).mp hq)).mp hp]
      rfl
    · simp [nodeAt] at hpath

/-- The role of the table at a path. -/
lemma role_of_nodeAt (h : OneTree r ph own) {path : List (Fin 512)} {p : ℕ}
    (hp : nodeAt ph r path = some p) :
    (path = [] ∧ own p = .root) ∨ (∃ i, path = [i] ∧ own p = .mid r i) ∨
      ∃ i j, path = [i, j] ∧ own p = .low r i j := by
  match path with
  | [] =>
    obtain rfl := Option.some.inj hp
    exact Or.inl ⟨rfl, h.root⟩
  | [i] => exact Or.inr (Or.inl ⟨i, rfl, (h.tables.child_root h.root).mp hp⟩)
  | [i, j] =>
    obtain ⟨q, hq, hp⟩ := Option.bind_eq_some_iff.mp hp
    exact Or.inr (Or.inr ⟨i, j, rfl,
      (h.tables.child_mid ((h.tables.child_root h.root).mp hq)).mp hp⟩)
  | _ :: _ :: _ :: _ => simp [nodeAt] at hp

/-- No page is used for two tables. -/
lemma nodeAt_inj (h : OneTree r ph own) {path path' : List (Fin 512)} {p : ℕ}
    (hp : nodeAt ph r path = some p) (hp' : nodeAt ph r path' = some p) : path = path' := by
  rcases h.role_of_nodeAt hp with ⟨rfl, hr⟩ | ⟨i, rfl, hr⟩ | ⟨i, j, rfl, hr⟩ <;>
    rcases h.role_of_nodeAt hp' with ⟨rfl, hr'⟩ | ⟨i', rfl, hr'⟩ | ⟨i', j', rfl, hr'⟩ <;>
    rw [hr] at hr' <;> simp_all

/-- The tree grows. -/
lemma extend (h : OneTree r ph own) {ph' : Phys} {own' : ℕ → Role}
    (hext : Extends r ph own ph' own') (hT : Tables ph' own')
    (honly : ∀ p, own' p = own p ∨ (own p = .free ∧ (own' p).isTable = true)) :
    OneTree r ph' own' where
  tables := hT
  root := (hext.keep r (by simp [h.root])).trans h.root
  only p := by
    rcases honly p with hp | ⟨hp, htable⟩
    · rw [hp]
      exact h.only p
    · refine Or.inr (Or.inr ⟨htable, ?_⟩)
      cases hown : own' p with
      | root =>
        have := hext.new p hp p (by rw [hown]; rfl)
        rw [this]
        rfl
      | mid r' i =>
        have := hext.new p hp r' (by rw [hown]; rfl)
        rw [this]
        rfl
      | low r' i j =>
        have := hext.new p hp r' (by rw [hown]; rfl)
        rw [this]
        rfl
      | free | data | stack | lost => simp [hown, Role.isTable] at htable

end OneTree

/-- An address on a page boundary is that of a page. -/
lemma exists_page {va : ℕ} (h : va % pageSize = 0) : ∃ n, va = n * pageSize :=
  ⟨va / pageSize, (Nat.div_mul_cancel (Nat.dvd_of_mod_eq_zero h)).symm⟩

section Step

variable {r : ℕ} {ph : Phys} {own : ℕ → Role} {M : PageMap}

/-- What an operation does to the memory and to the map that it stands for. -/
structure Stepped (r : ℕ) (M : PageMap) (op : TableOp) (k : ℕ) (o : Option Unit) (ph' : Phys) :
    Prop where
  le : k ≤ op.count
  done : o = some () ↔ k = op.count ∧ 0 < op.count
  enabled : op.Enabled k M
  represents : Represents ph' r (op.apply k M)

/-- An operation on an empty range reports an error. -/
lemma stepped_empty (op : TableOp) (hM : Represents ph r M) (hcount : op.count = 0) :
    Stepped r M op 0 none ph where
  le := Nat.zero_le _
  done := by simp [hcount]
  enabled := by cases op <;> simp [TableOp.Enabled]
  represents := by
    have : op.apply 0 M = M := funext fun n => op.apply_of_not_mem M (by omega)
    rwa [this]

/-- `map`. -/
lemma map_step (h : OneTree r ph own) (hM : Represents ph r M) {va pa size flags : ℕ}
    (hwf : (TableOp.map va pa size flags).WellFormed) :
    ∃ o ph' own' k, PageTable.map r va pa size flags ph = some (o, ph') ∧ OneTree r ph' own' ∧
      Stepped r M (.map va pa size flags) k o ph' := by
  obtain ⟨hva, hpa, hsize, hend, hpend, hf⟩ := hwf
  by_cases hzero : size = 0
  · exact ⟨none, ph, own, 0, by rw [PageTable.map, if_pos (Or.inl hzero)]; rfl, h,
      stepped_empty _ hM (by simp [TableOp.count, hzero])⟩
  obtain ⟨n, rfl⟩ := exists_page hva
  obtain ⟨c, rfl⟩ := exists_page hsize
  have hn : n * pageSize / pageSize = n := Nat.mul_div_cancel _ (by decide)
  have hc : c * pageSize / pageSize = c := Nat.mul_div_cancel _ (by decide)
  have hrange : n + c ≤ 2 ^ 27 := by
    simp only [pageSize] at hend
    omega
  obtain ⟨o, ph', own', k, hrun, hk, hdone, hmap, -⟩ :=
    mapPages_spec h.tables h.root hf _ c hrange hpend
  refine ⟨o, ph', own', k, ?_, h.extend hmap.toExtends hmap.tables hmap.only, ?_, ?_, ?_, ?_, ?_⟩
  · rw [PageTable.map, if_neg (by simp [hzero, hva, hpa]), hc, hrun]
  · rwa [TableOp.count, hc]
  · rw [TableOp.count, hc, hdone]
    refine ⟨fun hkc => ⟨hkc, ?_⟩, fun hkc => hkc.1⟩
    rcases Nat.eq_zero_or_pos c with rfl | hpos
    · simp at hzero
    · exact hpos
  · intro i hi
    have habsent := hmap.absent i hi
    rw [hM.lookups _ (by omega), Option.map_eq_none_iff] at habsent
    rwa [hn]
  · intro m hm
    simp only [TableOp.apply, hn]
    rw [hmap.lookups m hm]
    split
    · rfl
    · exact hM.lookups m hm
  · intro m hm l hl
    simp only [TableOp.apply, hn] at hl
    split at hl
    · rename_i hin
      obtain rfl := Option.some.inj hl
      refine ⟨?_, ?_, flags_or_lt hf, hasFlag_or_pteV flags⟩
      · simp only [pageSize] at hpa ⊢
        omega
      · simp only [pageSize] at hpend ⊢
        omega
    · exact hM.ok m hm l hl

/-- `set_flags`. -/
lemma setFlags_step (h : OneTree r ph own) (hM : Represents ph r M) {va size flags : ℕ}
    (hwf : (TableOp.setFlags va size flags).WellFormed) :
    ∃ o ph' own' k, PageTable.setFlags r va size flags ph = some (o, ph') ∧ OneTree r ph' own' ∧
      Stepped r M (.setFlags va size flags) k o ph' := by
  obtain ⟨hva, hsize, hend, hf⟩ := hwf
  by_cases hzero : size = 0
  · exact ⟨none, ph, own, 0, by rw [PageTable.setFlags, if_pos (Or.inl hzero)]; rfl, h,
      stepped_empty _ hM (by simp [TableOp.count, hzero])⟩
  obtain ⟨n, rfl⟩ := exists_page hva
  obtain ⟨c, rfl⟩ := exists_page hsize
  have hn : n * pageSize / pageSize = n := Nat.mul_div_cancel _ (by decide)
  have hc : c * pageSize / pageSize = c := Nat.mul_div_cancel _ (by decide)
  have hsteps : pageSteps 0 (c * pageSize) = c := by
    simp only [pageSteps, pageSize]
    omega
  have hrange : n + c ≤ 2 ^ 27 := by
    simp only [pageSize] at hend
    omega
  obtain ⟨o, ph', k, hrun, hk, hdone, hset, -⟩ := setFlagsPages_spec h.tables h.root hf c hrange
  refine ⟨o, ph', own, k, ?_, h.extend hset.toExtends hset.tables fun _ => Or.inl rfl, ?_, ?_, ?_,
    ?_, ?_⟩
  · rw [PageTable.setFlags, if_neg (by simp [hzero, hva, hsize]), hsteps, hrun]
  · rwa [TableOp.count, hc]
  · rw [TableOp.count, hc, hdone]
    refine ⟨fun hkc => ⟨hkc, ?_⟩, fun hkc => hkc.1⟩
    rcases Nat.eq_zero_or_pos c with rfl | hpos
    · simp at hzero
    · exact hpos
  · intro i hi
    have hpresent := hset.present i hi
    rw [hM.lookups _ (by omega), Option.isSome_map] at hpresent
    rwa [hn]
  · intro m hm
    simp only [TableOp.apply, hn]
    rw [hset.lookups m hm, hM.lookups m hm]
    split
    · cases hMm : M m with
      | none => rfl
      | some l =>
        rw [Option.map_some, Option.map_some, Option.map_some, Option.map_some,
          (hM.ok m hm l hMm).pteToPa]
        rfl
    · rfl
  · intro m hm l hl
    simp only [TableOp.apply, hn] at hl
    split at hl
    · obtain ⟨l', hl', rfl⟩ := Option.map_eq_some_iff.mp hl
      have hok := hM.ok m hm l' hl'
      exact ⟨hok.aligned, hok.pa_lt, flags_or_lt hf, hasFlag_or_pteV flags⟩
    · exact hM.ok m hm l hl

/-- `unmap`. -/
lemma unmap_step (h : OneTree r ph own) (hM : Represents ph r M) {va size : ℕ} {freePage : Bool}
    (hwf : (TableOp.unmap va size freePage).WellFormed)
    (hfresh : FreshAlloc r ph (.unmap va size freePage)) :
    ∃ o ph' own' k, PageTable.unmap r va size freePage ph = some (o, ph') ∧ OneTree r ph' own' ∧
      Stepped r M (.unmap va size freePage) k o ph' := by
  obtain ⟨hva, hsize, hend⟩ := hwf
  by_cases hzero : size = 0
  · exact ⟨none, ph, own, 0, by rw [PageTable.unmap, if_pos (Or.inl hzero)]; rfl, h,
      stepped_empty _ hM (by simp [TableOp.count, hzero])⟩
  obtain ⟨n, rfl⟩ := exists_page hva
  obtain ⟨c, rfl⟩ := exists_page hsize
  have hn : n * pageSize / pageSize = n := Nat.mul_div_cancel _ (by decide)
  have hc : c * pageSize / pageSize = c := Nat.mul_div_cancel _ (by decide)
  have hrange : n + c ≤ 2 ^ 27 := by
    simp only [pageSize] at hend
    omega
  have hfree : ∀ i < c, ∀ e, freePage = true → lookup ph r (n + i) = some e →
      Freeable r own (pteToPa e) := by
    rintro i hi e rfl he
    simp only [FreshAlloc, hn, hc] at hfresh
    have hnot : (own (pteToPa e)).isTable = false := by
      by_contra htable
      rw [Bool.not_eq_false] at htable
      obtain ⟨path, hpath⟩ := h.isTable_iff.mp htable
      exact hfresh i hi e he path hpath
    refine ⟨hnot, fun t ht => ?_⟩
    rcases h.only (pteToPa e) with h' | h' | ⟨h', -⟩
    · simp [h', Role.tree] at ht
    · simp [h', Role.tree] at ht
    · simp [h'] at hnot
  obtain ⟨o, ph', own', k, hrun, hk, hdone, hun, -⟩ := unmapPages_spec h.tables h.root _ _ c hrange hfree
  refine ⟨o, ph', own', k, ?_, ⟨hun.tables, ?_, fun p => ?_⟩, ?_, ?_, trivial, ?_, ?_⟩
  · rw [PageTable.unmap, if_neg (by simp [hzero, hva]), hc, hrun]
  · refine hun.root h.root fun m hm => ?_
    obtain ⟨i, hi, rfl⟩ := mem_visited.mp hm
    exact hfree i (Nat.lt_of_lt_of_le hi hk)
  · rcases hun.kept p with hp | ⟨hp, -⟩
    · rw [hp]
      exact h.only p
    · exact Or.inl hp
  · rwa [TableOp.count, hc]
  · rw [TableOp.count, hc, hdone]
    refine ⟨fun hkc => ⟨hkc, ?_⟩, fun hkc => hkc.1⟩
    rcases Nat.eq_zero_or_pos c with rfl | hpos
    · simp at hzero
    · exact hpos
  · intro m hm
    simp only [TableOp.apply, hn]
    rw [hun.lookups m hm, if_congr mem_visited_add rfl rfl]
    split
    · rfl
    · exact hM.lookups m hm
  · intro m hm l hl
    simp only [TableOp.apply, hn] at hl
    split at hl
    · simp at hl
    · exact hM.ok m hm l hl

/-- **Step lemma.**  Every operation acts on the map that the table stands for. -/
theorem tableOp_step (h : OneTree r ph own) (hM : Represents ph r M) {op : TableOp}
    (hwf : op.WellFormed) (hfresh : FreshAlloc r ph op) :
    ∃ o ph' own' k, op.run r ph = some (o, ph') ∧ OneTree r ph' own' ∧ Stepped r M op k o ph' := by
  cases op with
  | map va pa size flags => exact map_step h hM hwf
  | setFlags va size flags => exact setFlags_step h hM hwf
  | unmap va size freePage => exact unmap_step h hM hwf hfresh

end Step

/-- A new table stands for the empty map. -/
lemma create_represents {r : ℕ} {ph₀ ph : Phys} (haligned : ph₀.page.startAddr % pageSize = 0)
    (hbounded : ph₀.page.startAddr + ph₀.page.totalPages * pageSize ≤ 2 ^ 56)
    (hcounted : ph₀.page.Counted) (h : create ph₀ = some (some r, ph)) :
    ∃ own, OneTree r ph own ∧ Represents ph r fun _ => none := by
  classical
  have hT : Tables ph₀ fun p => if ph₀.page.Allocated p then .lost else .free := by
    refine Tables.of_no_table haligned hbounded hcounted (fun p => ?_) fun p => ?_
    · by_cases hp : ph₀.page.Allocated p <;> simp [hp]
    · by_cases hp : ph₀.page.Allocated p <;> simp [hp, Role.isTable]
  rcases create_cases hT with ⟨hnone, -⟩ | ⟨p, ph', hsome, -, hT', hempty, -⟩
  · simp [hnone] at h
  rw [hsome, Option.some.injEq, Prod.mk.injEq, Option.some.injEq] at h
  obtain ⟨rfl, rfl⟩ := h
  have hT'' := hT'.newRoot (p := p) (by simp [Role.plain, Role.isTable])
    fun i => by rw [hempty, hasFlag_zero]
  refine ⟨_, ⟨hT'', Function.update_self .., fun q => ?_⟩, fun n hn => ?_, by simp⟩
  · by_cases hqp : q = p
    · subst hqp
      rw [Function.update_self]
      exact Or.inr (Or.inr ⟨rfl, rfl⟩)
    · rw [Function.update_of_ne hqp, Function.update_of_ne hqp]
      by_cases hq : ph₀.page.Allocated q <;> simp [hq]
  · rw [Option.map_none, lookup, child, hempty, hasFlag_zero]
    rfl

/-- **Page tables refine partial maps.**  In every state that a page table reaches it stands for a
partial map, by which `virt_to_phys` translates every address; its tables form a tree without
sharing; and every operation on it acts on the map: on the whole range when it succeeds, and on
the first pages of the range when it reports an error. -/
theorem page_table_refines {r : ℕ} {ph : Phys}
    (h : (tableMachine r).Reaches (fun ph op => op.WellFormed ∧ FreshAlloc r ph op) ph) :
    ∃ M : PageMap, Represents ph r M ∧
      ((tableMachine r).init ph → ∀ n < 2 ^ 27, M n = none) ∧
      (∀ va, virtToPhys ph r va = (M (pageNumber va)).map fun l => l.pa + va % pageSize) ∧
      (∀ path path' p, nodeAt ph r path = some p → nodeAt ph r path' = some p → path = path') ∧
      ∀ op : TableOp, op.WellFormed → FreshAlloc r ph op → ∃ o ph' k,
        op.run r ph = some (o, ph') ∧ k ≤ op.count ∧
        (o = some () ↔ k = op.count ∧ 0 < op.count) ∧ op.Enabled k M ∧
        Represents ph' r (op.apply k M) := by
  have hinv : ∃ own M, OneTree r ph own ∧ Represents ph r M := by
    refine h.invariant (I := fun ph => ∃ own M, OneTree r ph own ∧ Represents ph r M) ?_ ?_
    · rintro ph ⟨ph₀, haligned, hbounded, hcounted, hcreate⟩
      obtain ⟨own, htree, hM⟩ := create_represents haligned hbounded hcounted hcreate
      exact ⟨own, _, htree, hM⟩
    · rintro ph op ph' ⟨own, M, htree, hM⟩ ⟨hwf, hfresh⟩ hstep
      obtain ⟨o, ph₁, own₁, k, hrun, htree₁, hstepped⟩ := tableOp_step htree hM hwf hfresh
      obtain rfl : ph₁ = ph' := by simpa [tableMachine, hrun] using hstep
      exact ⟨own₁, _, htree₁, hstepped.represents⟩
  obtain ⟨own, M, htree, hM⟩ := hinv
  refine ⟨M, hM, ?_, hM.virtToPhys, fun path path' p => htree.nodeAt_inj, fun op hwf hfresh => ?_⟩
  · rintro ⟨ph₀, haligned, hbounded, hcounted, hcreate⟩ n hn
    obtain ⟨_, -, hempty⟩ := create_represents haligned hbounded hcounted hcreate
    exact hM.unique hempty hn
  · obtain ⟨o, ph', _, k, hrun, -, hstepped⟩ := tableOp_step htree hM hwf hfresh
    exact ⟨o, ph', k, hrun, hstepped.le, hstepped.done, hstepped.enabled, hstepped.represents⟩

/-- The theorem for a new table in a memory of 16 pages, and a `map` of two pages on it. -/
theorem page_table_refines_new : ∃ r ph M o ph' k, (tableMachine r).init ph ∧ Represents ph r M ∧
    PageTable.map r 0x10000 0x80600000 0x2000 (pteR ||| pteU) ph = some (o, ph') ∧ k ≤ 2 ∧
    Represents ph' r ((TableOp.map 0x10000 0x80600000 0x2000 (pteR ||| pteU)).apply k M) := by
  let ph₀ : Phys := ⟨PageAllocator.new 0x80400000 16, fun _ => 0⟩
  have hcounted : ph₀.page.Counted := PageAllocator.counted_new _ _
  obtain ⟨r, ph, hcreate⟩ : ∃ r ph, create ph₀ = some (some r, ph) := by
    obtain ⟨p, a, halloc⟩ := PageAllocator.alloc_isSome hcounted (by decide)
    have hsome : allocPage ph₀ = some (some p, { ph₀ with page := a }) := by rw [allocPage, halloc]
    exact ⟨p, ({ ph₀ with page := a } : Phys).zeroPage p, by
      rw [create, Fallible.bind_of_some hsome]
      rfl⟩
  have hinit : (tableMachine r).init ph := ⟨ph₀, by decide, by decide, hcounted, hcreate⟩
  obtain ⟨M, hM, -, -, -, hops⟩ := page_table_refines (.init hinit)
  obtain ⟨o, ph', k, hrun, hk, -, -, hM'⟩ :=
    hops (.map 0x10000 0x80600000 0x2000 (pteR ||| pteU)) ⟨by decide, by decide, by decide, by decide,
      by decide, by decide⟩ trivial
  exact ⟨r, ph, M, o, ph', k, hinit, hM, hrun, hk, hM'⟩

end NekOS
