import Mathlib.Data.List.Basic
import Mathlib.Data.List.Range
import Mathlib.Logic.Function.Basic
import Mathlib.Tactic.Ring

/-!
# Ring buffers as bounded queues

A ring buffer keeps its elements in `cap` cells, from the cell `head` on and wrapping around, with
the redundant cell index `tail` where the next element goes.  The three indices are tied together
by fields of the structure, so that an inconsistent buffer cannot be built.

The view `toList` reads the elements in order.  Through it `push` appends at the end, `pop` takes
from the front, and a buffer is full exactly when it holds `cap` elements.
-/

namespace NekOS

/-- A ring buffer with `cap` cells for elements of `α`. -/
structure RingBuffer (α : Type) (cap : ℕ) where
  /-- The cells; only those with an index below `cap` are used. -/
  buf : ℕ → α
  /-- The cell of the oldest element. -/
  head : ℕ
  /-- The cell after the newest element. -/
  tail : ℕ
  /-- The number of elements. -/
  count : ℕ
  /-- The head is a cell. -/
  head_lt : head < cap
  /-- The tail is `count` cells after the head. -/
  tail_eq : tail = (head + count) % cap
  /-- There are at most as many elements as cells. -/
  count_le : count ≤ cap

namespace RingBuffer

variable {α : Type} {cap : ℕ}

/-- The buffer without elements, all cells holding `a`. -/
def new (a : α) (h : 0 < cap) : RingBuffer α cap where
  buf _ := a
  head := 0
  tail := 0
  count := 0
  head_lt := h
  tail_eq := by simp
  count_le := Nat.zero_le _

/-- Every cell is taken. -/
def isFull (r : RingBuffer α cap) : Bool := r.count == cap

/-- There is no element. -/
def isEmpty (r : RingBuffer α cap) : Bool := r.count == 0

/-- The index arithmetic of `push`: the tail moves one cell on. -/
private lemma tail_push (r : RingBuffer α cap) :
    (r.tail + 1) % cap = (r.head + (r.count + 1)) % cap := by
  rw [r.tail_eq, Nat.mod_add_mod, Nat.add_assoc]

/-- The index arithmetic of `pop`: the head moves one cell on and the tail stays. -/
private lemma tail_pop (r : RingBuffer α cap) (h : r.count ≠ 0) :
    r.tail = ((r.head + 1) % cap + (r.count - 1)) % cap := by
  rw [r.tail_eq, Nat.mod_add_mod]
  congr 1
  omega

/-- Append an element; `none` when the buffer is full. -/
def push (r : RingBuffer α cap) (a : α) : Option (RingBuffer α cap) :=
  if h : r.isFull then none
  else some
    { buf := Function.update r.buf r.tail a
      head := r.head
      tail := (r.tail + 1) % cap
      count := r.count + 1
      head_lt := r.head_lt
      tail_eq := r.tail_push
      count_le := Nat.lt_of_le_of_ne r.count_le (by simpa [isFull] using h) }

/-- Take the oldest element; `none` when there is no element. -/
def pop (r : RingBuffer α cap) : Option (α × RingBuffer α cap) :=
  if h : r.isEmpty then none
  else some (r.buf r.head,
    { buf := r.buf
      head := (r.head + 1) % cap
      tail := r.tail
      count := r.count - 1
      head_lt := Nat.mod_lt _ (Nat.zero_lt_of_lt r.head_lt)
      tail_eq := r.tail_pop (by simpa [isEmpty] using h)
      count_le := (Nat.sub_le _ _).trans r.count_le })

/-- The elements in order, oldest first. -/
def toList (r : RingBuffer α cap) : List α :=
  (List.range r.count).map fun i => r.buf ((r.head + i) % cap)

/-- The view has as many elements as the count says. -/
@[simp] lemma length_toList (r : RingBuffer α cap) : r.toList.length = r.count := by
  simp [toList]

/-- The view has at most `cap` elements. -/
lemma length_toList_le (r : RingBuffer α cap) : r.toList.length ≤ cap := by
  rw [length_toList]
  exact r.count_le

/-- A new buffer has no element. -/
@[simp] lemma toList_new (a : α) (h : 0 < cap) : (new a h).toList = [] := rfl

/-- A buffer is full when it holds as many elements as it has cells. -/
lemma isFull_iff (r : RingBuffer α cap) : r.isFull = true ↔ r.toList.length = cap := by
  simp [isFull]

/-- A buffer is empty when its view is. -/
lemma isEmpty_iff (r : RingBuffer α cap) : r.isEmpty = true ↔ r.toList = [] := by
  rw [← List.length_eq_zero_iff, length_toList]
  simp [isEmpty]

/-- The cells in use are pairwise different, so none of them is the tail cell of a buffer that is
not full. -/
private lemma cell_ne_tail (r : RingBuffer α cap) (hfull : r.count ≠ cap) {i : ℕ}
    (hi : i < r.count) : (r.head + i) % cap ≠ r.tail := by
  have hcount := r.count_le
  have hhead := r.head_lt
  rw [r.tail_eq]
  intro heq
  rcases Nat.lt_or_ge (r.head + i) cap with h₁ | h₁ <;>
    rcases Nat.lt_or_ge (r.head + r.count) cap with h₂ | h₂
  · rw [Nat.mod_eq_of_lt h₁, Nat.mod_eq_of_lt h₂] at heq
    omega
  · rw [Nat.mod_eq_of_lt h₁, Nat.mod_eq_sub_mod h₂, Nat.mod_eq_of_lt (by omega)] at heq
    omega
  · omega
  · rw [Nat.mod_eq_sub_mod h₁, Nat.mod_eq_of_lt (by omega), Nat.mod_eq_sub_mod h₂,
      Nat.mod_eq_of_lt (by omega)] at heq
    omega

/-- Pushing onto a buffer that is not full succeeds and appends the element. -/
theorem push_of_not_isFull {r : RingBuffer α cap} (h : r.isFull = false) (a : α) :
    ∃ r', r.push a = some r' ∧ r'.toList = r.toList ++ [a] := by
  have hfull : r.count ≠ cap := by simpa [isFull] using h
  refine ⟨_, dif_neg (by simp [h]), ?_⟩
  simp only [toList, List.range_succ, List.map_append, List.map_cons, List.map_nil]
  congr 1
  · refine List.map_congr_left fun i hi => ?_
    exact Function.update_of_ne (r.cell_ne_tail hfull (List.mem_range.mp hi)) _ _
  · rw [← r.tail_eq, Function.update_self]

/-- Pushing onto a full buffer fails. -/
lemma push_of_isFull {r : RingBuffer α cap} (h : r.isFull = true) (a : α) : r.push a = none :=
  dif_pos h

/-- Popping an empty buffer fails. -/
lemma pop_eq_none_iff {r : RingBuffer α cap} : r.pop = none ↔ r.toList = [] := by
  rw [← isEmpty_iff]
  simp [pop]

/-- Popping takes the first element of the view. -/
theorem pop_eq_some {r r' : RingBuffer α cap} {a : α} (h : r.pop = some (a, r')) :
    r.toList = a :: r'.toList := by
  unfold pop at h
  split at h
  · simp at h
  · rename_i hne
    have hcount : r.count ≠ 0 := by simpa [isEmpty] using hne
    simp only [Option.some.injEq, Prod.mk.injEq] at h
    obtain ⟨rfl, rfl⟩ := h
    obtain ⟨n, hn⟩ := Nat.exists_eq_succ_of_ne_zero hcount
    simp only [toList, hn, List.range_succ_eq_map, List.map_cons, List.map_map, Nat.succ_sub_one,
      Nat.add_zero, Nat.mod_eq_of_lt r.head_lt]
    congr 1
    refine List.map_congr_left fun i _ => ?_
    simp only [Function.comp, Nat.succ_eq_add_one, Nat.mod_add_mod]
    congr 2
    ring

/-- Popping a buffer with elements succeeds. -/
lemma pop_of_toList_eq_cons {r : RingBuffer α cap} {a : α} {l : List α} (h : r.toList = a :: l) :
    ∃ r', r.pop = some (a, r') ∧ r'.toList = l := by
  rcases hp : r.pop with _ | ⟨b, r'⟩
  · rw [pop_eq_none_iff.mp hp] at h
    simp at h
  · have hlist := pop_eq_some hp
    rw [h, List.cons.injEq] at hlist
    obtain ⟨rfl, rfl⟩ := hlist
    exact ⟨r', rfl, rfl⟩

end RingBuffer

end NekOS
