import Mathlib.Algebra.Order.Group.Nat
import Mathlib.Logic.Function.Basic
import Mathlib.Tactic.Ring

/-!
# Word memories with a byte view

A memory maps word indices to 64-bit words; the word with index `w` holds the bytes at the
addresses `8 * w` to `8 * w + 7`, the lowest byte first.  Words and bytes can be read and written,
and a whole block of words can be cleared or copied.  The lemmas say what each read returns after
each write.
-/

namespace NekOS

/-- A memory of 64-bit words. -/
abbrev Memory := ℕ → ℕ

namespace Memory

/-- The byte of a word at the position `j`. -/
def getDigit (w j : ℕ) : ℕ := w / 256 ^ j % 256

/-- The word with the byte at the position `j` replaced. -/
def setDigit (w j b : ℕ) : ℕ := w / 256 ^ (j + 1) * 256 ^ (j + 1) + (b * 256 ^ j + w % 256 ^ j)

/-- The byte at an address. -/
def byteAt (m : Memory) (a : ℕ) : UInt8 := UInt8.ofNat (getDigit (m (a / 8)) (a % 8))

/-- Write the byte at an address. -/
def setByte (m : Memory) (a : ℕ) (b : UInt8) : Memory :=
  Function.update m (a / 8) (setDigit (m (a / 8)) (a % 8) b.toNat)

/-- Clear `n` words from the index `w` on. -/
def clear (m : Memory) (w n : ℕ) : Memory := fun v => if w ≤ v ∧ v < w + n then 0 else m v

/-- Copy `n` words from the index `src` on to the index `dst` on. -/
def copy (m : Memory) (src dst n : ℕ) : Memory := fun v =>
  if dst ≤ v ∧ v < dst + n then m (src + (v - dst)) else m v

/-- Write the bytes of a list from the address `a` on. -/
def setBytes (m : Memory) (a : ℕ) : List UInt8 → Memory
  | [] => m
  | b :: bs => setBytes (m.setByte a b) (a + 1) bs

/-! ### Digits -/

/-- The replaced byte is the new one. -/
lemma getDigit_setDigit_self (w j : ℕ) {b : ℕ} (hb : b < 256) : getDigit (setDigit w j b) j = b := by
  have hpos : 0 < 256 ^ j := Nat.pow_pos (by decide)
  have hlow : w % 256 ^ j < 256 ^ j := Nat.mod_lt _ hpos
  have hsplit : setDigit w j b = 256 ^ j * (w / 256 ^ (j + 1) * 256 + b) + w % 256 ^ j := by
    rw [setDigit, pow_succ]
    ring
  rw [getDigit, hsplit, Nat.mul_add_div hpos, Nat.div_eq_of_lt hlow, Nat.add_zero, Nat.add_comm,
    Nat.add_mul_mod_self_right, Nat.mod_eq_of_lt hb]

/-- A lower byte is not changed. -/
lemma getDigit_setDigit_of_lt (w b : ℕ) {i j : ℕ} (h : i < j) :
    getDigit (setDigit w j b) i = getDigit w i := by
  obtain ⟨d, rfl⟩ := Nat.exists_eq_add_of_lt h
  have hpos : 0 < 256 ^ i := Nat.pow_pos (by decide)
  have hmod : setDigit w (i + d + 1) b % 256 ^ (i + 1) = w % 256 ^ (i + 1) := by
    have hsplit : setDigit w (i + d + 1) b =
        256 ^ (i + 1) * (256 ^ d * (w / 256 ^ (i + d + 1 + 1) * 256 + b)) +
          w % 256 ^ (i + d + 1) := by
      rw [setDigit, show i + d + 1 = (i + 1) + d by omega, pow_succ 256 (i + 1 + d),
        pow_add 256 (i + 1) d]
      ring
    rw [hsplit, Nat.mul_add_mod]
    exact Nat.mod_mod_of_dvd _ (pow_dvd_pow _ (by omega))
  have hdigit : ∀ v, getDigit v i = v % 256 ^ (i + 1) / 256 ^ i := fun v => by
    rw [pow_succ, Nat.mod_mul_right_div_self, getDigit]
  rw [hdigit, hdigit, hmod]

/-- A higher byte is not changed. -/
lemma getDigit_setDigit_of_gt (w : ℕ) {b i j : ℕ} (hb : b < 256) (h : j < i) :
    getDigit (setDigit w j b) i = getDigit w i := by
  obtain ⟨d, rfl⟩ := Nat.exists_eq_add_of_lt h
  have hpos : 0 < 256 ^ j := Nat.pow_pos (by decide)
  have hlow : w % 256 ^ j < 256 ^ j := Nat.mod_lt _ hpos
  have hsmall : b * 256 ^ j + w % 256 ^ j < 256 ^ (j + 1) := by
    have : b * 256 ^ j ≤ 255 * 256 ^ j := Nat.mul_le_mul_right _ (by omega)
    rw [pow_succ]
    omega
  have hdiv : setDigit w j b / 256 ^ (j + 1) = w / 256 ^ (j + 1) := by
    rw [setDigit, Nat.mul_comm, Nat.mul_add_div (Nat.pow_pos (by decide)),
      Nat.div_eq_of_lt hsmall, Nat.add_zero]
  have hdigit : ∀ v, getDigit v (j + d + 1) = v / 256 ^ (j + 1) / 256 ^ d % 256 := fun v => by
    rw [getDigit, Nat.div_div_eq_div_mul, ← pow_add, show j + d + 1 = j + 1 + d by omega]
  rw [hdigit, hdigit, hdiv]

/-- The bytes of a word with one byte replaced. -/
lemma getDigit_setDigit (w : ℕ) {b : ℕ} (i j : ℕ) (hb : b < 256) :
    getDigit (setDigit w j b) i = if i = j then b else getDigit w i := by
  rcases Nat.lt_trichotomy i j with h | rfl | h
  · rw [if_neg (Nat.ne_of_lt h), getDigit_setDigit_of_lt w b h]
  · rw [if_pos rfl, getDigit_setDigit_self w i hb]
  · rw [if_neg (Nat.ne_of_gt h), getDigit_setDigit_of_gt w hb h]

/-- Replacing a byte by itself. -/
lemma setDigit_getDigit (w j : ℕ) : setDigit w j (getDigit w j) = w := by
  have hlow : getDigit w j * 256 ^ j + w % 256 ^ j = w % 256 ^ (j + 1) := by
    rw [getDigit, pow_succ, Nat.mod_mul, Nat.mul_comm, Nat.add_comm]
  rw [setDigit, hlow]
  exact Nat.div_add_mod' w _

/-- The last of two replacements of a byte counts. -/
lemma setDigit_setDigit (w j : ℕ) {b b' : ℕ} (hb : b < 256) :
    setDigit (setDigit w j b) j b' = setDigit w j b' := by
  have hpos : 0 < 256 ^ j := Nat.pow_pos (by decide)
  have hlow : w % 256 ^ j < 256 ^ j := Nat.mod_lt _ hpos
  have hsmall : b * 256 ^ j + w % 256 ^ j < 256 ^ (j + 1) := by
    have : b * 256 ^ j ≤ 255 * 256 ^ j := Nat.mul_le_mul_right _ (by omega)
    rw [pow_succ]
    omega
  have hdiv : setDigit w j b / 256 ^ (j + 1) = w / 256 ^ (j + 1) := by
    rw [setDigit, Nat.mul_comm, Nat.mul_add_div (Nat.pow_pos (by decide)),
      Nat.div_eq_of_lt hsmall, Nat.add_zero]
  have hmod : setDigit w j b % 256 ^ j = w % 256 ^ j := by
    have hsplit : setDigit w j b = 256 ^ j * (w / 256 ^ (j + 1) * 256 + b) + w % 256 ^ j := by
      rw [setDigit, pow_succ]
      ring
    rw [hsplit, Nat.mul_add_mod, Nat.mod_mod]
  rw [setDigit, hdiv, hmod, ← setDigit]

/-! ### Bytes -/

/-- The byte read back after a byte is written. -/
lemma byteAt_setByte (m : Memory) (a a' : ℕ) (b : UInt8) :
    (m.setByte a b).byteAt a' = if a' = a then b else m.byteAt a' := by
  by_cases hw : a' / 8 = a / 8
  · rw [byteAt, setByte, hw, Function.update_self, getDigit_setDigit _ _ _ b.toNat_lt]
    by_cases hj : a' % 8 = a % 8
    · have heq : a' = a := by omega
      rw [if_pos hj, if_pos heq, UInt8.ofNat_toNat]
    · have hne : a' ≠ a := fun h => hj (by rw [h])
      rw [if_neg hj, if_neg hne, byteAt, hw]
  · have hne : a' ≠ a := fun h => hw (by rw [h])
    rw [byteAt, setByte, Function.update_of_ne hw, if_neg hne, byteAt]

/-- Writing the byte that is there. -/
lemma setByte_byteAt (m : Memory) (a : ℕ) : m.setByte a (m.byteAt a) = m := by
  have hdigit : (m.byteAt a).toNat = getDigit (m (a / 8)) (a % 8) :=
    Nat.mod_eq_of_lt (Nat.mod_lt _ (by decide))
  rw [setByte, hdigit, setDigit_getDigit, Function.update_eq_self]

/-- The last of two writes to an address counts. -/
lemma setByte_setByte (m : Memory) (a : ℕ) (b b' : UInt8) :
    (m.setByte a b).setByte a b' = m.setByte a b' := by
  rw [setByte, setByte, Function.update_self, setDigit_setDigit _ _ b.toNat_lt,
    Function.update_idem, setByte]

/-- Writing a byte keeps the other words. -/
lemma setByte_of_ne {m : Memory} {a w : ℕ} (b : UInt8) (h : w ≠ a / 8) : m.setByte a b w = m w :=
  Function.update_of_ne h ..

/-- Writing bytes keeps the words outside the written range. -/
lemma setBytes_of_not_mem {a w : ℕ} {bs : List UInt8} (m : Memory)
    (h : w < a / 8 ∨ (a + bs.length) ≤ 8 * w) : m.setBytes a bs w = m w := by
  induction bs generalizing m a with
  | nil => rfl
  | cons b bs ih =>
    rw [List.length_cons] at h
    rw [setBytes, ih _ (by omega), setByte_of_ne b (by omega)]

/-- The byte read back after a list of bytes is written. -/
lemma byteAt_setBytes (m : Memory) (a a' : ℕ) (bs : List UInt8) :
    (m.setBytes a bs).byteAt a' =
      if a ≤ a' ∧ a' < a + bs.length then bs.getD (a' - a) 0 else m.byteAt a' := by
  induction bs generalizing m a with
  | nil => rw [if_neg (by simp), setBytes]
  | cons b bs ih =>
    rw [setBytes, ih, byteAt_setByte, List.length_cons]
    rcases Nat.lt_trichotomy a' a with h | rfl | h
    · rw [if_neg (by omega), if_neg (by omega), if_neg (by omega)]
    · rw [if_neg (by omega), if_pos rfl, if_pos (by omega), Nat.sub_self, List.getD_cons_zero]
    · by_cases hin : a' < a + (bs.length + 1)
      · rw [if_pos (by omega), if_pos (by omega), show a' - a = a' - (a + 1) + 1 by omega,
          List.getD_cons_succ]
      · rw [if_neg (by omega), if_neg (by omega), if_neg (by omega)]

/-- Clearing a block keeps the words outside. -/
lemma clear_of_not_mem {m : Memory} {w n v : ℕ} (h : v < w ∨ w + n ≤ v) : m.clear w n v = m v :=
  if_neg (by omega)

/-- Copying a block keeps the words outside its destination. -/
lemma copy_of_not_mem {m : Memory} {src dst n v : ℕ} (h : v < dst ∨ dst + n ≤ v) :
    m.copy src dst n v = m v :=
  if_neg (by omega)

end Memory

end NekOS
