import NekOS.AddressSpace.Release

/-!
# Releasing a space whatever it maps

`free_user_space` frees whatever the visited entries map, also the pages of the kernel: a rejected
image that spans the window takes every page there out of the allocated set.  The contents of the
freed pages stay, so the tables are read as before, and the walk over them goes through.
-/

namespace NekOS

open PageTable

/-- The pages in `S` have been taken out of the allocated set. -/
structure Reclaimed (S : ℕ → Prop) (a a' : PageAllocator) : Prop where
  start : a'.startAddr = a.startAddr
  total : a'.totalPages = a.totalPages
  counted : a.Counted → a'.Counted
  allocated : ∀ q, a'.Allocated q ↔ a.Allocated q ∧ ¬ S q

namespace Reclaimed

variable {S T : ℕ → Prop} {a a₁ a' : PageAllocator}

/-- Nothing. -/
lemma refl (a : PageAllocator) : Reclaimed (fun _ => False) a a := ⟨rfl, rfl, id, by simp⟩

/-- One page. -/
lemma free (halign : a.startAddr % pageSize = 0) {p : ℕ} (hp : p % pageSize = 0) :
    Reclaimed (· = p) a (a.free p) :=
  ⟨PageAllocator.free_startAddr .., PageAllocator.free_totalPages .., fun h => h.free p,
    PageAllocator.allocated_free_iff halign hp⟩

/-- Some pages after others. -/
lemma trans (h₁ : Reclaimed S a a₁) (h₂ : Reclaimed T a₁ a') :
    Reclaimed (fun p => S p ∨ T p) a a' where
  start := h₂.start.trans h₁.start
  total := h₂.total.trans h₁.total
  counted h := h₂.counted (h₁.counted h)
  allocated q := by rw [h₂.allocated, h₁.allocated, not_or, and_assoc]

/-- The same pages. -/
lemma congr (h : Reclaimed S a a') (hST : ∀ p, S p ↔ T p) : Reclaimed T a a' := by
  rwa [show T = S from funext fun p => propext (hST p).symm]

end Reclaimed

/-- The slot of an address depends on memory alone. -/
lemma PageTable.slotOf_of_mem {ph ph' : Phys} (h : ph'.mem = ph.mem) (r va : ℕ) :
    slotOf ph' r va = slotOf ph r va := by
  obtain ⟨page, mem⟩ := ph
  obtain ⟨page', mem'⟩ := ph'
  obtain rfl : mem' = mem := h
  rw [slotOf_eq, slotOf_eq]
  rfl

/-- The pages that the entries of the page numbers in `V` refer to. -/
def Reached (ph : Phys) (r : ℕ) (V : Finset ℕ) (p : ℕ) : Prop :=
  ∃ n ∈ V, ∃ e, lookup ph r n = some e ∧ pteToPa e = p

section Raw

variable {ph : Phys} {own : ℕ → Role} {r : ℕ}

/-- The loops of `free_user_space`, in a memory with the contents of `ph`: the entries of the visited
pages are cleared, and the pages they refer to are freed. -/
lemma freeUserPages_raw (hT : Tables ph own) (hr : own r = .root) (va : ℕ → ℕ) (count : ℕ)
    {real : Phys} (hmem : real.mem = ph.mem) (halign : real.page.startAddr % pageSize = 0) :
    ∃ ph' real', Fallible.forRange count
        (fun i => Fallible.modify (Kernel.freeUserPage r (va i))) real = some (some (), real') ∧
      real'.mem = ph'.mem ∧
      Unmapped r (visited (fun i => pageNumber (va i)) count) false ph own ph' own ∧
      Reclaimed (Reached ph r (visited (fun i => pageNumber (va i)) count)) real.page real'.page := by
  induction count with
  | zero =>
    refine ⟨ph, real, rfl, hmem, Unmapped.refl hT r false, (Reclaimed.refl _).congr fun p => ?_⟩
    simp [Reached, visited]
  | succ count ih =>
    obtain ⟨ph₁, real₁, hrun, hmem₁, hun, hrec⟩ := ih
    have hn := pageNumber_lt (va count)
    have hpage : lookup ph₁ r (pageNumber (va count)) =
        (findPte ph₁ r (va count)).filter fun pte => hasFlag pte pteV := by
      rw [findPte_filter]
    -- A page that is not mapped is passed over.
    have hskip : lookup ph₁ r (pageNumber (va count)) = none →
        Unmapped r (visited (fun i => pageNumber (va i)) (count + 1)) false ph own ph₁ own ∧
        Reclaimed (Reached ph r (visited (fun i => pageNumber (va i)) (count + 1))) real.page
          real₁.page := fun hnone => by
      rw [visited_succ]
      refine ⟨hun.skip hn hnone, hrec.congr fun p => ⟨?_, ?_⟩⟩
      · rintro ⟨m, hm, hp⟩
        exact ⟨m, Finset.mem_insert_of_mem hm, hp⟩
      · rintro ⟨m, hm, e, he, hp⟩
        rcases Finset.mem_insert.mp hm with rfl | hm
        · rw [hun.lookups _ hn] at hnone
          split at hnone
          · exact ⟨_, ‹_›, e, he, hp⟩
          · simp [he] at hnone
        · exact ⟨m, hm, e, he, hp⟩
    rw [Fallible.forRange_succ, Fallible.bind_of_some hrun]
    rw [findPte] at hpage
    rcases hslot : slotOf ph₁ r (va count) with _ | ⟨q, idx⟩
    · rw [hslot] at hpage
      refine ⟨ph₁, real₁, ?_, hmem₁, hskip hpage⟩
      simp [Kernel.freeUserPage, slotOf_of_mem hmem₁, hslot]
    · rw [hslot] at hpage
      have hslot' := hslot
      rw [hun.tables.slotOf_eq_some hr] at hslot
      obtain ⟨hq, rfl⟩ := hslot
      have hentry : real₁.entry q (digit (pageNumber (va count)) 0) =
          ph₁.entry q (digit (pageNumber (va count)) 0) := by rw [Phys.entry, Phys.entry, hmem₁]
      cases hflag : hasFlag (ph₁.entry q (digit (pageNumber (va count)) 0)) pteV with
      | false =>
        rw [Option.map_some, Option.filter, hflag] at hpage
        refine ⟨ph₁, real₁, ?_, hmem₁, hskip hpage⟩
        simp [Kernel.freeUserPage, slotOf_of_mem hmem₁, hslot', hentry, hflag]
      | true =>
        rw [Option.map_some, Option.filter, hflag] at hpage
        obtain ⟨hnV, he₀⟩ := hun.lookup_of_some hn hpage
        obtain ⟨own₂, h₂⟩ := hun.erase hq hn hpage (by simp)
        obtain rfl : own₂ = own := funext fun p => (h₂.kept p).resolve_right (by simp)
        refine ⟨_, (real₁.freePage (pteToPa (ph₁.entry q (digit (pageNumber (va count)) 0)))).setEntry
          q (digit (pageNumber (va count)) 0) 0, ?_, ?_, by rw [visited_succ]; exact h₂, ?_⟩
        · simp [Kernel.freeUserPage, slotOf_of_mem hmem₁, hslot', hentry, hflag]
        · change Function.update real₁.mem _ _ = Function.update ph₁.mem _ _
          rw [hmem₁]
        · refine (hrec.trans (Reclaimed.free (by rw [hrec.start]; exact halign)
            (pteToPa_mod _))).congr fun p => ?_
          rw [visited_succ]
          constructor
          · rintro (⟨m, hm, hp⟩ | rfl)
            · exact ⟨m, Finset.mem_insert_of_mem hm, hp⟩
            · exact ⟨_, Finset.mem_insert_self .., _, he₀, rfl⟩
          · rintro ⟨m, hm, e, he, rfl⟩
            rcases Finset.mem_insert.mp hm with rfl | hm
            · rw [he₀, Option.some.injEq] at he
              exact Or.inr (by rw [he])
            · exact Or.inl ⟨m, hm, e, he, rfl⟩

/-- **Releasing a space.**  `free_user_space` takes the pages that it visits, the stack and the tables
of the tree out of the allocated set, whatever they are, and writes to tables of the tree only. -/
theorem freeUserSpace_raw (hT : Tables ph own) (hr : own r = .root)
    {userStack imageBase imageSize heapBase heapEnd : ℕ} (hstack : userStack % pageSize = 0)
    (hleaf : ∀ n < 2 ^ 27, n ∉ spacePages imageBase imageSize heapBase heapEnd → ∀ e,
      lookup ph r n = some e → isLeaf e = true) :
    ∃ ph', Kernel.freeUserSpace r userStack imageBase imageSize heapBase heapEnd ph =
        some (some (), ph') ∧
      Reclaimed (fun p => Reached ph r (spacePages imageBase imageSize heapBase heapEnd) p ∨
        (p = userStack ∧ userStack ≠ 0) ∨ ((own p).isTable = true ∧ (own p).tree p = some r))
        ph.page ph'.page ∧
      (∀ w, ph'.mem w ≠ ph.mem w →
        (own (pageOfWord w)).isTable = true ∧ (own (pageOfWord w)).tree (pageOfWord w) = some r) ∧
      ∀ s, own s = .root → s ≠ r → ∀ n, lookup ph' s n = lookup ph s n := by
  generalize hV : spacePages imageBase imageSize heapBase heapEnd = V at *
  rw [spacePages] at hV
  rw [Kernel.freeUserSpace, Kernel.freeUserRange, Kernel.freeUserRange]
  obtain ⟨ph₁, real₁, hrun₁, hmem₁, hun₁, hrec₁⟩ := freeUserPages_raw hT hr
    (fun i => pageFloor imageBase + i * pageSize)
    (pageSteps (pageFloor imageBase) (pageCeil (wrap (imageBase + imageSize)))) rfl hT.aligned
  obtain ⟨ph₂, real₂, hrun₂, hmem₂, hun₂, hrec₂⟩ := freeUserPages_raw hun₁.tables hr
    (fun i => heapBase + i * pageSize)
    (pageSteps heapBase ((TaskManager.alignUp heapEnd).getD heapBase)) hmem₁
    (by rw [hrec₁.start]; exact hT.aligned)
  have hun : Unmapped r V false ph own ph₂ own := by
    rw [← hV]
    refine hun₁.trans hun₂ fun m hm => ?_
    obtain ⟨i, -, rfl⟩ := mem_visited.mp hm
    exact pageNumber_lt _
  have hrec := (hrec₁.trans hrec₂).congr (T := Reached ph r V) fun p => by
    rw [← hV]
    constructor
    · rintro (⟨n, hn, hp⟩ | ⟨n, hn, e, he, hp⟩)
      · exact ⟨n, Finset.mem_union_left _ hn, hp⟩
      · obtain ⟨i, -, rfl⟩ := mem_visited.mp hn
        exact ⟨_, Finset.mem_union_right _ hn, e, (hun₁.lookup_of_some (pageNumber_lt _) he).2, hp⟩
    · rintro ⟨n, hn, e, he, hp⟩
      rcases Finset.mem_union.mp hn with hn | hn
      · exact Or.inl ⟨n, hn, e, he, hp⟩
      by_cases hn₁ : n ∈ visited (fun i => pageNumber (pageFloor imageBase + i * pageSize))
          (pageSteps (pageFloor imageBase) (pageCeil (wrap (imageBase + imageSize))))
      · exact Or.inl ⟨n, hn₁, e, he, hp⟩
      · obtain ⟨i, -, rfl⟩ := mem_visited.mp hn
        exact Or.inr ⟨_, hn, e, by rw [hun₁.lookups _ (pageNumber_lt _), if_neg hn₁, he], hp⟩
  -- The stack.
  obtain ⟨real₃, hrun₃, hmem₃, hrec₃⟩ : ∃ real₃,
      (if userStack ≠ 0 then Fallible.modify (fun ph => ph.freePage userStack) >>= fun _ => free r
        else free r) real₂ = free r real₃ ∧ real₃.mem = real₂.mem ∧
      Reclaimed (fun p => p = userStack ∧ userStack ≠ 0) real₂.page real₃.page := by
    by_cases hzero : userStack = 0
    · exact ⟨real₂, by rw [if_neg (by simpa using hzero)], rfl,
        (Reclaimed.refl _).congr fun p => by simp [hzero]⟩
    · refine ⟨real₂.freePage userStack, ?_, rfl, ?_⟩
      · rw [if_pos hzero]
        exact Fallible.bind_of_some rfl
      refine (Reclaimed.free ?_ hstack).congr fun p => by simp [hzero]
      rw [hrec.start]
      exact hT.aligned
  -- The tables.
  have hfree : freeWith false r = free r := by
    rw [freeWith, freeWalkWith_false, checkedFree_false]
    rfl
  obtain ⟨real₄, hrun₄, hfreed⟩ := hun.tables.frees_tree hr false (fun n hn e he => by
    obtain ⟨hnV, he₀⟩ := hun.lookup_of_some hn he
    exact hleaf n hn hnV e he₀) real₃ (hmem₃.trans hmem₂)
      (hrec₃.start.trans (hrec.start.trans hun.start.symm)) (by simp)
  rw [hfree] at hrun₄
  have hmem₄ : real₄.mem = ph₂.mem := hfreed.mem.trans (hmem₃.trans hmem₂)
  refine ⟨real₄, ?_, ?_, fun w hw => hun.inside w (by rwa [hmem₄] at hw), fun s hs hne n => ?_⟩
  · rw [Fallible.bind_of_some hrun₁, Fallible.bind_of_some hrun₂]
    exact hrun₃.trans hrun₄
  · exact ((hrec.trans hrec₃).trans
      ⟨hfreed.start, hfreed.total, hfreed.counted, hfreed.allocated⟩).congr fun p => or_assoc
  · rw [lookup_of_mem hmem₄, hun.toLocal.lookup_eq hT hun.tables hs hne]

end Raw

end NekOS
