import NekOS.Kernel.PageTable

/-!
# Page table entries

The arithmetic of Sv39 entries: packing a page address with ten flag bits and reading both back, and
the indices into the three levels as digits of a page number.
-/

namespace NekOS

/-! ### Flags -/

/-- A mask of ten bits sees only the ten low bits of an entry. -/
lemma and_low {pte m : ℕ} (hm : m < 1024) : pte &&& m = pte % 1024 &&& m := by
  refine Nat.eq_of_testBit_eq fun i => ?_
  rw [Nat.testBit_and, Nat.testBit_and, show (1024 : ℕ) = 2 ^ 10 from rfl, Nat.testBit_mod_two_pow]
  rcases Nat.lt_or_ge i 10 with hi | hi
  · simp [hi]
  · have hle : 2 ^ 10 ≤ 2 ^ i := Nat.pow_le_pow_right (by decide : 0 < 2) hi
    have hzero : m.testBit i = false := Nat.testBit_lt_two_pow (Nat.lt_of_lt_of_le hm hle)
    simp [hzero]

/-- An entry is its page number followed by its flags. -/
lemma paToPte_eq {pa flags : ℕ} (hf : flags < 1024) :
    paToPte pa flags = pa / 4096 * 1024 + flags := by
  have hf' : flags < 2 ^ 10 := hf
  rw [paToPte, ← Nat.shiftLeft_add_eq_or_of_lt hf', Nat.shiftLeft_eq, Nat.shiftRight_eq_div_pow]

/-- The page number of an entry, as an address. -/
lemma pteToPa_eq (pte : ℕ) : pteToPa pte = pte / 1024 % 2 ^ 44 * 4096 := by
  rw [pteToPa, show (0x0FFFFFFFFFFF : ℕ) = 2 ^ 44 - 1 from rfl, Nat.and_two_pow_sub_one_eq_mod,
    Nat.shiftLeft_eq, Nat.shiftRight_eq_div_pow]

/-- The page address read back. -/
lemma pteToPa_paToPte {pa flags : ℕ} (hf : flags < 1024) (halign : pa % pageSize = 0)
    (hpa : pa < 2 ^ 56) : pteToPa (paToPte pa flags) = pa := by
  rw [pteToPa_eq, paToPte_eq hf]
  simp only [pageSize] at halign
  have hdiv : (pa / 4096 * 1024 + flags) / 1024 = pa / 4096 := by omega
  rw [hdiv, Nat.mod_eq_of_lt (by omega)]
  omega

/-- The flags read back. -/
lemma hasFlag_paToPte {pa flags m : ℕ} (hf : flags < 1024) (hm : m < 1024) :
    hasFlag (paToPte pa flags) m = hasFlag flags m := by
  have hmod : paToPte pa flags % 1024 = flags := by
    rw [paToPte_eq hf]
    omega
  rw [hasFlag, hasFlag, and_low hm, hmod]

/-- The page address of an entry lies on a page boundary. -/
lemma pteToPa_mod (pte : ℕ) : pteToPa pte % pageSize = 0 := by
  rw [pteToPa_eq]
  exact Nat.mul_mod_left _ _

/-- The flags of a new leaf. -/
lemma flags_or_lt {flags : ℕ} (hf : flags < 1024) : flags ||| pteV < 1024 :=
  Nat.or_lt_two_pow (n := 10) hf (by decide)

/-- A new leaf is valid. -/
lemma hasFlag_or_pteV (flags : ℕ) : hasFlag (flags ||| pteV) pteV = true := by
  have hbit : (flags ||| pteV) &&& pteV = pteV := by
    refine Nat.eq_of_testBit_eq fun i => ?_
    simp only [Nat.testBit_and, Nat.testBit_or]
    cases pteV.testBit i <;> simp
  rw [hasFlag, hbit]
  rfl

/-- An entry that points to a table is valid. -/
lemma hasFlag_pointer (p : ℕ) : hasFlag (paToPte p pteV) pteV = true := by
  rw [hasFlag_paToPte (by decide) (by decide)]
  rfl

/-- An entry that points to a table is no leaf. -/
lemma isLeaf_pointer (p : ℕ) : isLeaf (paToPte p pteV) = false := by
  rw [isLeaf, hasFlag_paToPte (by decide) (by decide)]
  rfl

/-- The table that an entry points to. -/
lemma pteToPa_pointer {p : ℕ} (halign : p % pageSize = 0) (hp : p < 2 ^ 56) :
    pteToPa (paToPte p pteV) = p :=
  pteToPa_paToPte (by decide) halign hp

/-- An entry of zero is not valid. -/
@[simp] lemma hasFlag_zero (m : ℕ) : hasFlag 0 m = false := by
  rw [hasFlag, Nat.zero_and]
  rfl

/-! ### Indices -/

/-- The index of a page number into the tables of a level. -/
def digit (n level : ℕ) : Fin 512 := ⟨n / 512 ^ level % 512, Nat.mod_lt _ (by decide)⟩

/-- The number of the page that a virtual address lies in, as the three levels see it. -/
def pageNumber (va : ℕ) : ℕ := va / pageSize % 2 ^ 27

/-- The index computed from the address is a digit of the page number. -/
lemma vpn_eq_digit {va level : ℕ} (h : level < 3) : vpn va level = digit (pageNumber va) level := by
  have hva : ∀ e, va >>> (12 + e) = va / 4096 / 2 ^ e := fun e => by
    rw [Nat.shiftRight_eq_div_pow, pow_add, ← Nat.div_div_eq_div_mul]
    rfl
  refine Fin.ext ?_
  simp only [vpn, digit, pageNumber, pageSize, hva]
  obtain rfl | rfl | rfl : level = 0 ∨ level = 1 ∨ level = 2 := by omega
  · simp only [Nat.mul_zero, pow_zero, Nat.div_one]
    omega
  · simp only [Nat.mul_one, pow_one]
    omega
  · simp only [Nat.reduceMul, Nat.reducePow]
    omega

/-- The digits determine a page number. -/
lemma digit_inj {n m : ℕ} (hn : n < 2 ^ 27) (hm : m < 2 ^ 27) (h₂ : digit n 2 = digit m 2)
    (h₁ : digit n 1 = digit m 1) (h₀ : digit n 0 = digit m 0) : n = m := by
  simp only [digit, Fin.mk.injEq] at h₂ h₁ h₀
  omega

/-- Page numbers have 27 bits. -/
lemma pageNumber_lt (va : ℕ) : pageNumber va < 2 ^ 27 := Nat.mod_lt _ (by decide)

/-- The page number of an address below the end of the address space. -/
lemma pageNumber_of_lt {va : ℕ} (h : va < 2 ^ 39) : pageNumber va = va / pageSize :=
  Nat.mod_eq_of_lt (by simp only [pageSize]; omega)

end NekOS
