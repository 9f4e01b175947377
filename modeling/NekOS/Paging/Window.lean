import NekOS.Kernel.Syscall

/-!
# The allocator and the kernel window

`page::init` hands the allocator up to 4096 pages from the end of the kernel image on, and
`vm::init` maps 16 MB from the start of the kernel image on.  Both describe 16 MB, but of different
places: a kernel image of any size pushes the last managed pages out of the window.
-/

namespace NekOS

/-- The operations on the allocator. -/
inductive PageOp
  | alloc
  | free (addr : ℕ)

namespace PageAllocator

/-- The allocator after an operation.  An `alloc` that returns nothing changes nothing. -/
def after (a : PageAllocator) : PageOp → PageAllocator
  | .alloc => (a.alloc.map Prod.snd).getD a
  | .free addr => a.free addr

/-- The operations keep the managed range. -/
lemma after_range (a : PageAllocator) (op : PageOp) :
    (a.after op).startAddr = a.startAddr ∧ (a.after op).totalPages = a.totalPages := by
  cases op with
  | alloc =>
    rcases h : a.alloc with _ | ⟨p, a'⟩
    · simp [after, h]
    · obtain ⟨-, -, hstart, htotal, -⟩ := alloc_eq_some h
      simp [after, h, hstart, htotal]
  | free addr => exact ⟨free_startAddr a addr, free_totalPages a addr⟩

/-- What `alloc` returns is a page of the managed range. -/
lemma alloc_mem_range {a a' : PageAllocator} {p : ℕ} (h : a.alloc = some (p, a')) :
    ∃ i < a.totalPages, p = a.startAddr + i * pageSize := by
  obtain ⟨-, hset, hstart, htotal, -⟩ := alloc_eq_some h
  obtain ⟨i, hi, hp, -⟩ := (hset p).mpr (Or.inl rfl)
  exact ⟨i, by rwa [htotal] at hi, by rwa [hstart] at hp⟩

/-- The first `k` pages are handed out. -/
structure Prefix (a : PageAllocator) (k : ℕ) : Prop where
  free : a.freePages = a.totalPages - k
  used : ∀ i < a.totalPages, a.isUsed i = decide (i < k)

/-- A new allocator has handed out nothing. -/
lemma prefix_new (start total : ℕ) : (new start total).Prefix 0 where
  free := rfl
  used i _ := by
    rw [isUsed_eq]
    simp [new]

/-- Pages are handed out in the order of their addresses. -/
lemma Prefix.alloc {a : PageAllocator} {k : ℕ} (h : a.Prefix k) (hk : k < a.totalPages) :
    ∃ a', a.alloc = some (a.startAddr + k * pageSize, a') ∧ a'.Prefix (k + 1) := by
  have hfind : (List.range a.totalPages).find? (fun i => !a.isUsed i) = some k := by
    rw [List.find?_range_eq_some]
    refine ⟨by simp [h.used k hk], List.mem_range.mpr hk, fun j hj => ?_⟩
    simp [h.used j (hj.trans hk), hj]
  have hfree : a.freePages ≠ 0 := by
    rw [h.free]
    omega
  refine ⟨a.markUsed k, by rw [PageAllocator.alloc, if_neg hfree, hfind], ?_, fun i hi => ?_⟩
  · change a.freePages - 1 = a.totalPages - (k + 1)
    rw [h.free]
    omega
  · have hi' : i < a.totalPages := hi
    rw [isUsed_markUsed a (hk.trans_le a.total_le) (hi'.trans_le a.total_le), h.used i hi']
    simp only [← Bool.decide_or, decide_eq_decide]
    omega

end PageAllocator

namespace Config

/-- The allocator that `page::init` creates, under `alloc` and `free`. -/
def allocator (c : Config) : Machine PageAllocator PageOp where
  init a := a = c.powerOn.phys.page
  step a op := some (a.after op)

/-- The page lies in the window that `vm::init` and `map_kernel` install, and in memory. -/
def Usable (p : ℕ) : Prop :=
  kernelStart ≤ p ∧ p < kernelStart + kernelSize ∧ p < 0x80000000 + 128 * 1024 * 1024

/-- The managed range of every allocator reached. -/
lemma allocator_range {c : Config} {a : PageAllocator}
    (h : c.allocator.Reaches (fun _ _ => True) a) :
    a.startAddr = c.alignedEnd ∧
      a.totalPages = min ((128 * 1024 * 1024 - (c.alignedEnd - 0x80000000)) / pageSize) maxPages := by
  refine h.invariant (I := fun a => a.startAddr = c.alignedEnd ∧ a.totalPages =
    min ((128 * 1024 * 1024 - (c.alignedEnd - 0x80000000)) / pageSize) maxPages) ?_ ?_
  · rintro a rfl
    exact ⟨rfl, rfl⟩
  · rintro a op b ⟨hstart, htotal⟩ - hstep
    obtain rfl : a.after op = b := Option.some.inj hstep
    obtain ⟨h₁, h₂⟩ := a.after_range op
    exact ⟨h₁.trans hstart, h₂.trans htotal⟩

/-- Every number of pages can be handed out. -/
lemma allocator_prefix (c : Config) (k : ℕ)
    (hk : k ≤ min ((128 * 1024 * 1024 - (c.alignedEnd - 0x80000000)) / pageSize) maxPages) :
    ∃ a, c.allocator.Reaches (fun _ _ => True) a ∧ a.Prefix k := by
  induction k with
  | zero => exact ⟨_, .init rfl, PageAllocator.prefix_new _ _⟩
  | succ k ih =>
    obtain ⟨a, ha, hprefix⟩ := ih (by omega)
    obtain ⟨a', halloc, hprefix'⟩ := hprefix.alloc (by rw [(allocator_range ha).2]; omega)
    refine ⟨a', .step (e := .alloc) ha trivial ?_, hprefix'⟩
    simp [allocator, PageAllocator.after, halloc]

/-- The page boundary at the end of the kernel image. -/
lemma alignedEnd_bounds (c : Config) : c.alignedEnd % pageSize = 0 ∧
    c.kernelEnd ≤ c.alignedEnd ∧ c.alignedEnd < c.kernelEnd + pageSize := by
  have hlt := c.end_le
  rw [alignedEnd, pageCeil, wrap_of_lt (by simp only [pageSize]; omega)]
  simp only [pageFloor, pageSize]
  omega

/-- **The allocator and the window.**  Whatever sequence of `alloc` and `free` is made, every page
that `alloc` returns lies in the window and in memory, exactly when the kernel image is empty or
ends in the last page of memory, which leaves no page to manage. -/
theorem alloc_usable_iff (c : Config) :
    (∀ a, c.allocator.Reaches (fun _ _ => True) a →
      ∀ p a', a.alloc = some (p, a') → Usable p) ↔
    c.kernelEnd = kernelStart ∨ 0x88000000 - pageSize < c.kernelEnd := by
  obtain ⟨haligned, hle, hlt⟩ := c.alignedEnd_bounds
  have hstart := c.start_le
  have hend := c.end_le
  constructor
  · intro h
    by_contra hneg
    rw [not_or, Nat.not_lt] at hneg
    -- The last managed page lies outside the window.
    have hpos : 0 < min ((128 * 1024 * 1024 - (c.alignedEnd - 0x80000000)) / pageSize) maxPages := by
      simp only [pageSize, maxPages, bitmapSize, kernelStart] at *
      omega
    obtain ⟨a, ha, hprefix⟩ := c.allocator_prefix
      (min ((128 * 1024 * 1024 - (c.alignedEnd - 0x80000000)) / pageSize) maxPages - 1) (by omega)
    obtain ⟨hs, ht⟩ := allocator_range ha
    obtain ⟨a', halloc, -⟩ := hprefix.alloc (by rw [ht]; omega)
    obtain ⟨-, hwindow, -⟩ := h a ha _ _ halloc
    rw [hs] at hwindow
    simp only [pageSize, maxPages, bitmapSize, kernelStart, kernelSize] at *
    omega
  · intro h a ha p a' halloc
    obtain ⟨i, hi, rfl⟩ := PageAllocator.alloc_mem_range halloc
    obtain ⟨hs, ht⟩ := allocator_range ha
    rw [ht] at hi
    rw [hs]
    simp only [Usable, pageSize, maxPages, bitmapSize, kernelStart, kernelSize] at *
    omega

/-- A kernel image of one page: after 4095 pages, `alloc` returns the first address after the
window. -/
theorem alloc_not_usable : ¬ ∀ c : Config, ∀ a, c.allocator.Reaches (fun _ _ => True) a →
    ∀ p a', a.alloc = some (p, a') → Usable p := by
  intro h
  let c : Config := ⟨0x80201000, 0, [], fun _ => 0, by decide, by decide⟩
  obtain ⟨a, ha, hprefix⟩ := c.allocator_prefix 4095 (by decide)
  obtain ⟨hs, ht⟩ := allocator_range ha
  obtain ⟨a', halloc, -⟩ := hprefix.alloc (by rw [ht]; decide)
  obtain ⟨-, hwindow, -⟩ := h c a ha _ _ halloc
  rw [hs] at hwindow
  exact absurd hwindow (by decide)

end Config

end NekOS
