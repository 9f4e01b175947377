import NekOS.Kernel.Page

/-!
# Runs of the page allocator

The allocator on 64-bit addresses, over any sequence of allocations and of frees with any address.  The
counter and the bitmap agree in every state, and a page that is handed out stays used until an address in it
is freed.
-/

namespace NekOS

/-- A call of the allocator. -/
inductive PageCall
  | alloc
  | free (addr : ℕ)

namespace PageAllocator

/-- `alloc`, whose address is a 64-bit number. -/
def allocWord (a : PageAllocator) : Option (ℕ × PageAllocator) :=
  a.alloc.map fun r => (wrap r.1, r.2)

/-- `free`, whose bound is a 64-bit number. -/
def freeWord (a : PageAllocator) (addr : ℕ) : PageAllocator :=
  if addr < a.startAddr ∨ wrap (a.startAddr + a.totalPages * pageSize) ≤ addr then a
  else if a.isUsed ((addr - a.startAddr) / pageSize) then
    a.markFree ((addr - a.startAddr) / pageSize)
  else a

/-- The allocator after a call. -/
def call (a : PageAllocator) : PageCall → PageAllocator
  | .alloc =>
    match a.allocWord with
    | some (_, a') => a'
    | none => a
  | .free addr => a.freeWord addr

/-- The allocator after a sequence of calls. -/
def run (a : PageAllocator) (ops : List PageCall) : PageAllocator := ops.foldl call a

variable {a a' : PageAllocator} {p addr i j : ℕ}

/-- The page that `alloc` hands out. -/
lemma alloc_index (h : a.alloc = some (p, a')) :
    ∃ i < a.totalPages, p = a.startAddr + i * pageSize ∧ a.isUsed i = false ∧ a' = a.markUsed i := by
  unfold alloc at h
  split at h
  · cases h
  · split at h
    · cases h
    next i hfind =>
      cases h
      exact ⟨i, List.mem_range.mp (List.mem_of_find?_eq_some hfind), rfl,
        by simpa using List.find?_some hfind, rfl⟩

/-- The page that `allocWord` hands out. -/
lemma allocWord_index (h : a.allocWord = some (p, a')) :
    ∃ i < a.totalPages, p = wrap (a.startAddr + i * pageSize) ∧ a.isUsed i = false ∧
      a' = a.markUsed i ∧ a.alloc = some (a.startAddr + i * pageSize, a') := by
  obtain ⟨⟨p', a''⟩, halloc, heq⟩ := Option.map_eq_some_iff.mp h
  cases heq
  obtain ⟨i, hi, rfl, hused, rfl⟩ := alloc_index halloc
  exact ⟨i, hi, rfl, hused, rfl, halloc⟩

/-- If the managed range ends in the address space, `free` removes the page of an address; otherwise it does
nothing. -/
lemma freeWord_eq (a : PageAllocator) (addr : ℕ) :
    (a.startAddr + a.totalPages * pageSize < 2 ^ 64 ∧ a.freeWord addr = a.free addr) ∨
      a.freeWord addr = a := by
  by_cases hlt : a.startAddr + a.totalPages * pageSize < 2 ^ 64
  · left
    rw [freeWord, free, wrap_of_lt hlt]
    exact ⟨hlt, rfl⟩
  · right
    have hle := a.total_le
    have hwrap : wrap (a.startAddr + a.totalPages * pageSize) ≤ a.startAddr := by
      simp only [maxPages, bitmapSize, pageSize] at *
      unfold wrap
      omega
    exact if_pos (by omega)

/-- Different pages have different addresses. -/
lemma wrap_inj {start : ℕ} (hi : i < maxPages) (hj : j < maxPages)
    (h : wrap (start + i * pageSize) = wrap (start + j * pageSize)) : i = j := by
  simp only [maxPages, bitmapSize, pageSize, wrap] at *
  omega

/-- Freeing changes the bit of the page of the address alone. -/
lemma free_isUsed (hi : i < a.totalPages) (haddr : ¬ (a.startAddr + i * pageSize ≤ addr ∧
    addr < a.startAddr + i * pageSize + pageSize)) : (a.free addr).isUsed i = a.isUsed i := by
  rw [free]
  split_ifs with hout hused
  · rfl
  · have hj : (addr - a.startAddr) / pageSize < a.totalPages := by
      rw [Nat.div_lt_iff_lt_mul (by decide)]
      omega
    have hne : i ≠ (addr - a.startAddr) / pageSize := by
      simp only [pageSize] at *
      omega
    rw [isUsed_markFree a (hj.trans_le a.total_le) (hi.trans_le a.total_le)]
    simp [hne]
  · rfl

/-- A call keeps the managed range, and the counter agrees with the bitmap. -/
lemma call_keeps (op : PageCall) : (a.call op).startAddr = a.startAddr ∧
    (a.call op).totalPages = a.totalPages ∧ (a.Counted → (a.call op).Counted) := by
  cases op with
  | alloc =>
    rw [call]
    cases h : a.allocWord with
    | none => exact ⟨rfl, rfl, id⟩
    | some r =>
      obtain ⟨p, a'⟩ := r
      obtain ⟨i, -, -, -, rfl, halloc⟩ := allocWord_index h
      exact ⟨rfl, rfl, fun hc => hc.alloc halloc⟩
  | free addr =>
    rw [call]
    rcases a.freeWord_eq addr with ⟨-, h⟩ | h
    · rw [h]
      exact ⟨free_startAddr a addr, free_totalPages a addr, fun hc => hc.free addr⟩
    · rw [h]
      exact ⟨rfl, rfl, id⟩

/-- A run keeps the managed range, and the counter agrees with the bitmap. -/
lemma run_keeps (a : PageAllocator) (ops : List PageCall) : (a.run ops).startAddr = a.startAddr ∧
    (a.run ops).totalPages = a.totalPages ∧ (a.Counted → (a.run ops).Counted) := by
  induction ops generalizing a with
  | nil => exact ⟨rfl, rfl, id⟩
  | cons op ops ih =>
    obtain ⟨h₁, h₂, h₃⟩ := call_keeps (a := a) op
    obtain ⟨h₄, h₅, h₆⟩ := ih (a.call op)
    exact ⟨h₄.trans h₁, h₅.trans h₂, fun hc => h₆ (h₃ hc)⟩

/-- A page stays used as long as no address in it is freed. -/
lemma run_isUsed (ops : List PageCall) (hi : i < a.totalPages) (hused : a.isUsed i = true)
    (hops : ∀ addr, PageCall.free addr ∈ ops → a.startAddr + a.totalPages * pageSize < 2 ^ 64 →
      ¬ (a.startAddr + i * pageSize ≤ addr ∧ addr < a.startAddr + i * pageSize + pageSize)) :
    (a.run ops).isUsed i = true := by
  induction ops generalizing a with
  | nil => exact hused
  | cons op ops ih =>
    obtain ⟨hstart, htotal, -⟩ := call_keeps (a := a) op
    refine ih (by rwa [htotal]) ?_ (fun addr haddr => ?_)
    · cases op with
      | alloc =>
        rw [call]
        cases h : a.allocWord with
        | none => exact hused
        | some r =>
          obtain ⟨p, a'⟩ := r
          obtain ⟨j, hj, -, -, rfl, -⟩ := allocWord_index h
          have hset := isUsed_markUsed a (hj.trans_le a.total_le) (hi.trans_le a.total_le)
          rwa [hused, Bool.or_true] at hset
      | free addr =>
        rw [call]
        rcases a.freeWord_eq addr with ⟨hlt, h⟩ | h
        · rw [h, free_isUsed hi (hops addr (List.mem_cons_self ..) hlt), hused]
        · rw [h, hused]
    · rw [hstart, htotal]
      exact hops addr (List.mem_cons_of_mem _ haddr)

end PageAllocator

end NekOS
