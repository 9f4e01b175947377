import Mathlib.Data.Finset.Card
import Mathlib.Data.Finset.Range
import Mathlib.Data.Fintype.Basic
import Mathlib.Tactic.Ring
import NekOS.Kernel.Arch

/-!
# The page allocator

The bitmap allocator of `kernel/page.rs`.  Its abstract reading is the set of addresses that are
handed out (`Allocated`): `alloc` adds one page that was not in the set, `free` removes the page
with the given address and ignores every address outside the managed range.
-/

namespace NekOS

/-- `BITMAP_SIZE`. -/
def bitmapSize : ℕ := 64

/-- `MAX_PAGES`: the number of pages the bitmap has bits for. -/
def maxPages : ℕ := bitmapSize * 64

/-- `PageAllocator`.  The field `total_le` records that every managed page has a bit. -/
structure PageAllocator where
  /-- One bit for each page, 64 pages to a word. -/
  bitmap : Fin bitmapSize → BitVec 64
  /-- The number of managed pages. -/
  totalPages : ℕ
  /-- The number of pages not handed out. -/
  freePages : ℕ
  /-- The address of the first managed page. -/
  startAddr : ℕ
  /-- The bitmap is large enough. -/
  total_le : totalPages ≤ maxPages

namespace PageAllocator

/-- `PageAllocator::new`. -/
def new (startAddr totalPages : ℕ) : PageAllocator where
  bitmap _ := 0
  totalPages := min totalPages maxPages
  freePages := min totalPages maxPages
  startAddr := startAddr
  total_le := Nat.min_le_right ..

/-- The word of the bitmap that holds the bit of page `i`. -/
def wordIdx (i : ℕ) : Fin bitmapSize := ⟨i / 64 % bitmapSize, Nat.mod_lt _ (by decide)⟩

/-- The test `bitmap[i / 64] & (1 << (i % 64)) != 0`. -/
def isUsed (a : PageAllocator) (i : ℕ) : Bool :=
  a.bitmap (wordIdx i) &&& (1#64 <<< (i % 64)) != 0#64

/-- Set the bit of page `i` and count one free page less. -/
def markUsed (a : PageAllocator) (i : ℕ) : PageAllocator :=
  { a with
    bitmap := Function.update a.bitmap (wordIdx i)
      (a.bitmap (wordIdx i) ||| (1#64 <<< (i % 64)))
    freePages := a.freePages - 1 }

/-- Clear the bit of page `i` and count one free page more. -/
def markFree (a : PageAllocator) (i : ℕ) : PageAllocator :=
  { a with
    bitmap := Function.update a.bitmap (wordIdx i)
      (a.bitmap (wordIdx i) &&& ~~~(1#64 <<< (i % 64)))
    freePages := a.freePages + 1 }

/-- `PageAllocator::alloc`: the first page whose bit is clear. -/
def alloc (a : PageAllocator) : Option (ℕ × PageAllocator) :=
  if a.freePages = 0 then none
  else match (List.range a.totalPages).find? fun i => !a.isUsed i with
    | none => none
    | some i => some (a.startAddr + i * pageSize, a.markUsed i)

/-- `PageAllocator::free`. -/
def free (a : PageAllocator) (addr : ℕ) : PageAllocator :=
  if addr < a.startAddr ∨ a.startAddr + a.totalPages * pageSize ≤ addr then a
  else if a.isUsed ((addr - a.startAddr) / pageSize) then
    a.markFree ((addr - a.startAddr) / pageSize)
  else a

/-- The address is that of a managed page which is handed out. -/
def Allocated (a : PageAllocator) (addr : ℕ) : Prop :=
  ∃ i < a.totalPages, addr = a.startAddr + i * pageSize ∧ a.isUsed i = true

/-- The free counter agrees with the bitmap. -/
def Counted (a : PageAllocator) : Prop :=
  a.freePages = ((Finset.range a.totalPages).filter fun i => a.isUsed i = false).card

/-! ### Bits -/

/-- The bit test reads the bit. -/
lemma isUsed_eq (a : PageAllocator) (i : ℕ) :
    a.isUsed i = (a.bitmap (wordIdx i)).getLsbD (i % 64) := by
  have hi : i % 64 < 64 := Nat.mod_lt _ (by decide)
  have hne : BitVec.twoPow 64 (i % 64) ≠ 0#64 := fun h => by
    have := congrArg (fun x => x.getLsbD (i % 64)) h
    simp [hi] at this
  rw [isUsed, ← BitVec.twoPow_eq, BitVec.and_twoPow]
  split <;> simp_all

/-- Two pages with bits in one place are the same page. -/
lemma wordIdx_inj {i j : ℕ} (hi : i < maxPages) (hj : j < maxPages)
    (hw : wordIdx i = wordIdx j) (hb : i % 64 = j % 64) : i = j := by
  have hw' : i / 64 % bitmapSize = j / 64 % bitmapSize := congrArg Fin.val hw
  simp only [maxPages, bitmapSize] at hi hj hw'
  omega

/-- Setting a bit marks that page and no other. -/
lemma isUsed_markUsed (a : PageAllocator) {i j : ℕ} (hi : i < maxPages) (hj : j < maxPages) :
    (a.markUsed i).isUsed j = (decide (j = i) || a.isUsed j) := by
  have hj64 : j % 64 < 64 := Nat.mod_lt _ (by decide)
  rw [isUsed_eq, isUsed_eq]
  simp only [markUsed]
  by_cases hw : wordIdx j = wordIdx i
  · rw [hw, Function.update_self, BitVec.getLsbD_or, ← BitVec.twoPow_eq, BitVec.getLsbD_twoPow,
      Bool.or_comm]
    congr 1
    by_cases hb : i % 64 = j % 64
    · obtain rfl := wordIdx_inj hj hi hw hb.symm
      simp [hj64]
    · have hne : j ≠ i := fun h => hb (by rw [h])
      simp [hb, hne]
  · have hne : j ≠ i := fun h => hw (by rw [h])
    rw [Function.update_of_ne hw]
    simp [hne]

/-- Clearing a bit unmarks that page and no other. -/
lemma isUsed_markFree (a : PageAllocator) {i j : ℕ} (hi : i < maxPages) (hj : j < maxPages) :
    (a.markFree i).isUsed j = (!decide (j = i) && a.isUsed j) := by
  have hj64 : j % 64 < 64 := Nat.mod_lt _ (by decide)
  rw [isUsed_eq, isUsed_eq]
  simp only [markFree]
  by_cases hw : wordIdx j = wordIdx i
  · rw [hw, Function.update_self, BitVec.getLsbD_and, BitVec.getLsbD_not, ← BitVec.twoPow_eq,
      BitVec.getLsbD_twoPow, Bool.and_comm]
    congr 1
    by_cases hb : i % 64 = j % 64
    · obtain rfl := wordIdx_inj hj hi hw hb.symm
      simp [hj64]
    · have hne : j ≠ i := fun h => hb (by rw [h])
      simp [hb, hne, hj64]
  · have hne : j ≠ i := fun h => hw (by rw [h])
    rw [Function.update_of_ne hw]
    simp [hne]

/-! ### The allocated set -/

/-- The managed pages have pairwise different addresses. -/
lemma addr_inj {s i j : ℕ} (h : s + i * pageSize = s + j * pageSize) : i = j := by
  simp only [pageSize] at h
  omega

/-- An allocated address lies in the managed range. -/
lemma Allocated.start_le {a : PageAllocator} {p : ℕ} (h : a.Allocated p) : a.startAddr ≤ p := by
  obtain ⟨i, -, rfl, -⟩ := h
  exact Nat.le_add_right ..

/-- What `alloc` does when it succeeds: it hands out a page of the managed range that was not
allocated, and the rest of the allocated set stays. -/
theorem alloc_eq_some {a a' : PageAllocator} {p : ℕ} (h : a.alloc = some (p, a')) :
    ¬ a.Allocated p ∧ (∀ q, a'.Allocated q ↔ q = p ∨ a.Allocated q) ∧
      a'.startAddr = a.startAddr ∧ a'.totalPages = a.totalPages ∧
      a'.freePages + 1 = a.freePages := by
  unfold alloc at h
  split at h
  · simp at h
  · rename_i hfree
    split at h
    · simp at h
    · rename_i i hfind
      simp only [Option.some.injEq, Prod.mk.injEq] at h
      obtain ⟨rfl, rfl⟩ := h
      have hi : i < a.totalPages := List.mem_range.mp (List.mem_of_find?_eq_some hfind)
      have himax : i < maxPages := hi.trans_le a.total_le
      have hused : a.isUsed i = false := by simpa using List.find?_some hfind
      refine ⟨?_, fun q => ?_, rfl, rfl, ?_⟩
      · rintro ⟨j, -, hj, hju⟩
        rw [← addr_inj hj, hused] at hju
        simp at hju
      · have hset : ∀ j < a.totalPages,
            (a.markUsed i).isUsed j = (decide (j = i) || a.isUsed j) := fun j hj =>
          isUsed_markUsed a himax (hj.trans_le a.total_le)
        constructor
        · rintro ⟨j, hj, rfl, hju⟩
          rw [hset j hj, Bool.or_eq_true, decide_eq_true_eq] at hju
          rcases hju with rfl | hju
          · exact Or.inl rfl
          · exact Or.inr ⟨j, hj, rfl, hju⟩
        · rintro (rfl | ⟨j, hj, rfl, hju⟩)
          · exact ⟨i, hi, rfl, by rw [hset i hi]; simp⟩
          · exact ⟨j, hj, rfl, by rw [hset j hj, hju]; simp⟩
      · exact Nat.succ_pred hfree

/-- A free page of the managed range is what `alloc` needs. -/
theorem alloc_isSome {a : PageAllocator} (hc : a.Counted) (h : 0 < a.freePages) :
    ∃ p a', a.alloc = some (p, a') := by
  have hcard := h
  rw [hc, Finset.card_pos] at hcard
  obtain ⟨i, hi⟩ := hcard
  rw [Finset.mem_filter, Finset.mem_range] at hi
  have hsome : ((List.range a.totalPages).find? fun i => !a.isUsed i).isSome := by
    rw [List.find?_isSome]
    exact ⟨i, List.mem_range.mpr hi.1, by simp [hi.2]⟩
  obtain ⟨j, hj⟩ := Option.isSome_iff_exists.mp hsome
  exact ⟨_, _, by rw [alloc, if_neg (Nat.pos_iff_ne_zero.mp h), hj]⟩

/-- A failing `alloc` means that no page is left. -/
lemma freePages_of_alloc_eq_none {a : PageAllocator} (hc : a.Counted) (h : a.alloc = none) :
    a.freePages = 0 := by
  by_contra hne
  obtain ⟨p, a', hsome⟩ := alloc_isSome hc (Nat.pos_of_ne_zero hne)
  rw [h] at hsome
  simp at hsome

/-- `free` keeps the managed range. -/
@[simp] lemma free_startAddr (a : PageAllocator) (p : ℕ) : (a.free p).startAddr = a.startAddr := by
  unfold free
  split_ifs <;> rfl

/-- `free` keeps the managed range. -/
@[simp] lemma free_totalPages (a : PageAllocator) (p : ℕ) :
    (a.free p).totalPages = a.totalPages := by
  unfold free
  split_ifs <;> rfl

/-- `free` ignores addresses below the managed range. -/
lemma free_of_lt {a : PageAllocator} {p : ℕ} (h : p < a.startAddr) : a.free p = a :=
  if_pos (Or.inl h)

/-- `free` removes the page from the allocated set, and nothing else, when the address is on a
page boundary of the managed range. -/
theorem allocated_free {a : PageAllocator} {i : ℕ} (q : ℕ) (hi : i < a.totalPages) :
    (a.free (a.startAddr + i * pageSize)).Allocated q ↔
      a.Allocated q ∧ q ≠ a.startAddr + i * pageSize := by
  have hidx : (a.startAddr + i * pageSize - a.startAddr) / pageSize = i := by
    rw [Nat.add_sub_cancel_left]
    exact Nat.mul_div_cancel _ (by decide)
  have hin : ¬ (a.startAddr + i * pageSize < a.startAddr ∨
      a.startAddr + a.totalPages * pageSize ≤ a.startAddr + i * pageSize) := by
    simp only [pageSize]
    omega
  have himax : i < maxPages := hi.trans_le a.total_le
  rw [free, if_neg hin, hidx]
  by_cases hused : a.isUsed i = true
  · rw [if_pos hused]
    have hclear : ∀ j < a.totalPages,
        (a.markFree i).isUsed j = (!decide (j = i) && a.isUsed j) := fun j hj =>
      isUsed_markFree a himax (hj.trans_le a.total_le)
    constructor
    · rintro ⟨j, hj, rfl, hju⟩
      rw [hclear j hj] at hju
      simp only [Bool.and_eq_true, Bool.not_eq_true', decide_eq_false_iff_not] at hju
      exact ⟨⟨j, hj, rfl, hju.2⟩, fun h => hju.1 (addr_inj h)⟩
    · rintro ⟨⟨j, hj, rfl, hju⟩, hne⟩
      refine ⟨j, hj, rfl, ?_⟩
      rw [hclear j hj, hju]
      have hji : j ≠ i := fun h => hne (by rw [h])
      simp [hji]
  · rw [if_neg hused]
    refine ⟨fun h => ⟨h, ?_⟩, fun h => h.1⟩
    rintro rfl
    obtain ⟨j, -, hj, hju⟩ := h
    rw [addr_inj hj] at hused
    exact hused hju

/-- `free` removes a page address from the allocated set, and nothing else, in or out of the managed
range. -/
theorem allocated_free_iff {a : PageAllocator} {p : ℕ} (hstart : a.startAddr % pageSize = 0)
    (hp : p % pageSize = 0) (q : ℕ) : (a.free p).Allocated q ↔ a.Allocated q ∧ q ≠ p := by
  by_cases hin : p < a.startAddr ∨ a.startAddr + a.totalPages * pageSize ≤ p
  · have hnot : ¬ a.Allocated p := by
      rintro ⟨i, hi, rfl, -⟩
      simp only [pageSize] at hin
      omega
    rw [free, if_pos hin]
    exact ⟨fun h => ⟨h, by rintro rfl; exact hnot h⟩, fun h => h.1⟩
  · simp only [pageSize] at hin hp hstart
    obtain ⟨i, hi, rfl⟩ : ∃ i < a.totalPages, p = a.startAddr + i * pageSize := by
      refine ⟨(p - a.startAddr) / pageSize, ?_, ?_⟩ <;> simp only [pageSize] <;> omega
    exact allocated_free q hi

/-- Freeing any address only takes pages out of the allocated set. -/
lemma Allocated.of_free {a : PageAllocator} {p q : ℕ} (h : (a.free p).Allocated q) :
    a.Allocated q := by
  obtain ⟨j, hj, rfl, hju⟩ := h
  refine ⟨j, by simpa using hj, by simp, ?_⟩
  rw [free_totalPages] at hj
  unfold free at hju
  split_ifs at hju with h₁ h₂
  · exact hju
  · have himax : (p - a.startAddr) / pageSize < maxPages := by
      refine lt_of_lt_of_le ?_ a.total_le
      rw [Nat.div_lt_iff_lt_mul (by decide)]
      simp only [pageSize] at h₁ ⊢
      omega
    rw [isUsed_markFree a himax (hj.trans_le a.total_le), Bool.and_eq_true] at hju
    exact hju.2
  · exact hju

/-! ### The free counter -/

/-- The counter of a new allocator is right. -/
lemma counted_new (start total : ℕ) : (new start total).Counted := by
  have hnone : ∀ i, (new start total).isUsed i = false := fun i => by
    rw [isUsed_eq]
    simp [new]
  simp [Counted, hnone]
  rfl

/-- By how much the free counter exceeds the number of free pages. -/
def slack (a : PageAllocator) : ℤ :=
  a.freePages - ((Finset.range a.totalPages).filter fun i => a.isUsed i = false).card

/-- The counter is right when there is no difference. -/
lemma counted_iff_slack {a : PageAllocator} : a.Counted ↔ a.slack = 0 := by
  rw [Counted, slack]
  omega

/-- Allocation changes the counter and the free pages alike. -/
lemma slack_alloc {a a' : PageAllocator} {p : ℕ} (h : a.alloc = some (p, a')) : a'.slack = a.slack := by
  unfold PageAllocator.alloc at h
  split at h
  · simp at h
  · rename_i hpages
    split at h
    · simp at h
    · rename_i i hfind
      simp only [Option.some.injEq, Prod.mk.injEq] at h
      obtain ⟨-, rfl⟩ := h
      have hi : i < a.totalPages := List.mem_range.mp (List.mem_of_find?_eq_some hfind)
      have hused : a.isUsed i = false := by simpa using List.find?_some hfind
      have hset : ((Finset.range a.totalPages).filter fun j => (a.markUsed i).isUsed j = false) =
          ((Finset.range a.totalPages).filter fun j => a.isUsed j = false).erase i := by
        ext j
        simp only [Finset.mem_filter, Finset.mem_range, Finset.mem_erase]
        refine ⟨fun ⟨hj, hju⟩ => ?_, fun ⟨hne, hj, hju⟩ => ⟨hj, ?_⟩⟩
        · rw [isUsed_markUsed a (hi.trans_le a.total_le) (hj.trans_le a.total_le)] at hju
          simp only [Bool.or_eq_false_iff, decide_eq_false_iff_not] at hju
          exact ⟨hju.1, hj, hju.2⟩
        · rw [isUsed_markUsed a (hi.trans_le a.total_le) (hj.trans_le a.total_le), hju]
          simp [hne]
      have hmem : i ∈ (Finset.range a.totalPages).filter fun j => a.isUsed j = false := by
        simp [hi, hused]
      have hcard := Finset.card_erase_add_one hmem
      change ((a.freePages - 1 : ℕ) : ℤ) - ((Finset.range a.totalPages).filter _).card = _
      rw [hset, slack]
      omega

/-- So does freeing. -/
lemma slack_free (a : PageAllocator) (p : ℕ) : (a.free p).slack = a.slack := by
  unfold PageAllocator.free
  split_ifs with h₁ h₂
  · rfl
  · have hi : (p - a.startAddr) / pageSize < a.totalPages := by
      rw [Nat.div_lt_iff_lt_mul (by decide)]
      simp only [pageSize] at h₁ ⊢
      omega
    generalize (p - a.startAddr) / pageSize = i at h₂ hi ⊢
    have hset : ((Finset.range a.totalPages).filter fun j => (a.markFree i).isUsed j = false) =
        insert i ((Finset.range a.totalPages).filter fun j => a.isUsed j = false) := by
      ext j
      simp only [Finset.mem_filter, Finset.mem_range, Finset.mem_insert]
      constructor
      · rintro ⟨hj, hju⟩
        rw [isUsed_markFree a (hi.trans_le a.total_le) (hj.trans_le a.total_le)] at hju
        simp only [Bool.and_eq_false_iff, Bool.not_eq_false', decide_eq_true_eq] at hju
        exact hju.imp id fun h => ⟨hj, h⟩
      · rintro (rfl | ⟨hj, hju⟩)
        · refine ⟨hi, ?_⟩
          rw [isUsed_markFree a (hi.trans_le a.total_le) (hi.trans_le a.total_le)]
          simp
        · refine ⟨hj, ?_⟩
          rw [isUsed_markFree a (hi.trans_le a.total_le) (hj.trans_le a.total_le), hju]
          simp
    change ((a.freePages + 1 : ℕ) : ℤ) - ((Finset.range a.totalPages).filter _).card = _
    rw [hset, Finset.card_insert_of_notMem (by simp [h₂]), slack]
    omega
  · rfl

/-- Allocation keeps the counter right. -/
lemma Counted.alloc {a a' : PageAllocator} {p : ℕ} (hc : a.Counted)
    (h : a.alloc = some (p, a')) : a'.Counted := by
  rw [counted_iff_slack] at hc ⊢
  rw [slack_alloc h, hc]

/-- Freeing keeps the counter right. -/
lemma Counted.free {a : PageAllocator} (hc : a.Counted) (p : ℕ) : (a.free p).Counted := by
  rw [counted_iff_slack] at hc ⊢
  rw [slack_free, hc]

end PageAllocator

end NekOS
