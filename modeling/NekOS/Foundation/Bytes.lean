import Mathlib.Data.Nat.Basic
import Mathlib.Logic.Function.Basic
import Mathlib.Tactic.Ring

/-!
# Memory as bytes

The memory of one program: numbers of several bytes, little-endian, and the byte loops that fill and
copy a range.
-/

namespace NekOS

/-- A memory of bytes. -/
abbrev Bytes := ℕ → UInt8

namespace Bytes

/-- A memory of zeros. -/
def zero : Bytes := fun _ => 0

/-- The number in the `n` bytes from `a` on. -/
def load (m : Bytes) (a : ℕ) : ℕ → ℕ
  | 0 => 0
  | n + 1 => (m a).toNat + 256 * load m (a + 1) n

/-- Write a number to the `n` bytes from `a` on. -/
def store (m : Bytes) (a v : ℕ) : ℕ → Bytes
  | 0 => m
  | n + 1 => store (Function.update m a (UInt8.ofNat v)) (a + 1) (v / 256) n

/-- Write one byte. -/
def set (m : Bytes) (a : ℕ) (c : UInt8) : Bytes := Function.update m a c

/-- Write a byte to the `n` bytes from `dst` on. -/
def fill (m : Bytes) (dst : ℕ) (c : UInt8) : ℕ → Bytes
  | 0 => m
  | n + 1 => fill (Function.update m dst c) (dst + 1) c n

/-- Copy the `n` bytes from `src` on to `dst`, one after the other. -/
def copy (m : Bytes) (src dst : ℕ) : ℕ → Bytes
  | 0 => m
  | n + 1 => copy (Function.update m dst (m src)) (src + 1) (dst + 1) n

/-- Copy the `n` bytes of another memory from `off` on to `dst`. -/
def blit (m : Bytes) (dst : ℕ) (src : Bytes) (off n : ℕ) : Bytes := fun i =>
  if dst ≤ i ∧ i < dst + n then src (off + (i - dst)) else m i

/-- The byte that is written. -/
@[simp] lemma set_self (m : Bytes) (a : ℕ) (c : UInt8) : m.set a c a = c := Function.update_self ..

/-- Another byte. -/
lemma set_ne {m : Bytes} {a x : ℕ} {c : UInt8} (h : x ≠ a) : m.set a c x = m x :=
  Function.update_of_ne h ..

/-- The memories agree on the `n` bytes from `a` on. -/
def Agree (m m' : Bytes) (a n : ℕ) : Prop := ∀ x, a ≤ x → x < a + n → m' x = m x

/-- Agreement on a part of a range. -/
lemma Agree.mono {m m' : Bytes} {a n b k : ℕ} (h : Agree m m' a n) (hab : a ≤ b)
    (hle : b + k ≤ a + n) : Agree m m' b k :=
  fun x hx hlt => h x (hab.trans hx) (hlt.trans_le hle)

/-- Agreement of a third memory. -/
lemma Agree.trans {m m₁ m' : Bytes} {a n : ℕ} (h₁ : Agree m m₁ a n) (h₂ : Agree m₁ m' a n) :
    Agree m m' a n :=
  fun x hx hlt => (h₂ x hx hlt).trans (h₁ x hx hlt)

/-- Where the memories agree they hold the same number. -/
lemma Agree.load_eq {m m' : Bytes} {a n : ℕ} (h : Agree m m' a n) : m'.load a n = m.load a n := by
  induction n generalizing a with
  | zero => rfl
  | succ n ih =>
    rw [load, load, h a le_rfl (by omega), ih]
    exact h.mono (by omega) (by omega)

/-- Inside of what is copied. -/
lemma blit_inside {m src : Bytes} {dst off n i : ℕ} (hi : i < n) :
    m.blit dst src off n (dst + i) = src (off + i) := by
  rw [blit, if_pos ⟨by omega, by omega⟩, Nat.add_sub_cancel_left]

/-- Outside of what is copied. -/
lemma blit_outside {m src : Bytes} {dst off n x : ℕ} (hx : x < dst ∨ dst + n ≤ x) :
    m.blit dst src off n x = m x :=
  if_neg (by omega)

/-- A store writes to its range alone. -/
lemma store_apply {m : Bytes} {a v n x : ℕ} (hx : x < a ∨ a + n ≤ x) : m.store a v n x = m x := by
  induction n generalizing m a v with
  | zero => rfl
  | succ n ih =>
    rw [store, ih (by omega), Function.update_of_ne (by omega)]

/-- Filling writes to its range alone. -/
lemma fill_apply {m : Bytes} {dst n x : ℕ} {c : UInt8} (hx : x < dst ∨ dst + n ≤ x) :
    m.fill dst c n x = m x := by
  induction n generalizing m dst with
  | zero => rfl
  | succ n ih =>
    rw [fill, ih (by omega), Function.update_of_ne (by omega)]

/-- A copy writes to its target alone. -/
lemma copy_apply {m : Bytes} {src dst n x : ℕ} (hx : x < dst ∨ dst + n ≤ x) :
    m.copy src dst n x = m x := by
  induction n generalizing m src dst with
  | zero => rfl
  | succ n ih =>
    rw [copy, ih (by omega), Function.update_of_ne (by omega)]

/-- What is filled. -/
lemma fill_self {m : Bytes} {dst n x : ℕ} {c : UInt8} (hx : dst ≤ x) (hlt : x < dst + n) :
    m.fill dst c n x = c := by
  induction n generalizing m dst with
  | zero => omega
  | succ n ih =>
    rw [fill]
    by_cases heq : x = dst
    · rw [fill_apply (by omega), heq, Function.update_self]
    · exact ih (by omega) (by omega)

/-- What is copied from one range to another that it does not overlap. -/
lemma copy_self {m : Bytes} {src dst n i : ℕ} (hapart : dst + n ≤ src ∨ src + n ≤ dst)
    (hi : i < n) : m.copy src dst n (dst + i) = m (src + i) := by
  induction n generalizing m src dst i with
  | zero => omega
  | succ n ih =>
    rw [copy]
    cases i with
    | zero => rw [copy_apply (by omega), Nat.add_zero, Nat.add_zero, Function.update_self]
    | succ i =>
      rw [show dst + (i + 1) = dst + 1 + i by omega, show src + (i + 1) = src + 1 + i by omega,
        ih (by omega) (by omega), Function.update_of_ne (by omega)]

/-- A store elsewhere. -/
lemma agree_store {m : Bytes} {a v n b k : ℕ} (h : b + k ≤ a ∨ a + n ≤ b) :
    Agree m (m.store a v n) b k :=
  fun _ hx hlt => store_apply (by omega)

/-- Reading a number back. -/
lemma load_store {m : Bytes} {a v n : ℕ} : (m.store a v n).load a n = v % 256 ^ n := by
  induction n generalizing m a v with
  | zero => rw [load, pow_zero, Nat.mod_one]
  | succ n ih =>
    rw [load, store, ih, store_apply (Or.inl (Nat.lt_succ_self a)), Function.update_self, pow_succ',
      Nat.mod_mul]
    rfl

/-- Reading back a number that fits. -/
lemma load_store_of_lt {m : Bytes} {a v n : ℕ} (hv : v < 256 ^ n) :
    (m.store a v n).load a n = v := by
  rw [load_store, Nat.mod_eq_of_lt hv]

/-- A number in a part of a memory. -/
lemma load_shift {m : Bytes} {a b n : ℕ} : Bytes.load (fun i => m (a + i)) b n = m.load (a + b) n := by
  induction n generalizing b with
  | zero => rfl
  | succ n ih => rw [load, load, ih, Nat.add_assoc]

/-- A number that is stored in a part of a memory. -/
lemma store_shift {m : Bytes} {a b v n i : ℕ} :
    Bytes.store (fun i => m (a + i)) b v n i = m.store (a + b) v n (a + i) := by
  induction n generalizing m b v with
  | zero => rfl
  | succ n ih =>
    have hpart : Function.update (fun i => m (a + i)) b (UInt8.ofNat v) =
        fun i => Function.update m (a + b) (UInt8.ofNat v) (a + i) := by
      funext j
      by_cases hj : j = b
      · rw [hj, Function.update_self, Function.update_self]
      · rw [Function.update_of_ne hj, Function.update_of_ne (by omega)]
    rw [store, store, hpart, ih, Nat.add_assoc]

/-- Copying a part of a memory back after a number has been stored in it. -/
lemma blit_store {m : Bytes} {a b v n k : ℕ} (h : b + n ≤ k) :
    m.blit a (Bytes.store (fun i => m (a + i)) b v n) 0 k = m.store (a + b) v n := by
  funext x
  by_cases hx : a ≤ x ∧ x < a + k
  · rw [blit, if_pos hx, store_shift, Nat.zero_add, Nat.add_sub_cancel' hx.1]
  · rw [blit, if_neg hx, store_apply (by omega)]

/-- A number of `n` bytes. -/
lemma load_lt (m : Bytes) (a n : ℕ) : m.load a n < 256 ^ n := by
  induction n generalizing a with
  | zero => exact Nat.one_pos
  | succ n ih =>
    have hrest := ih (a + 1)
    have hbyte := (m a).toNat_lt
    rw [load, pow_succ]
    omega

/-- Numbers that are stored one after the other leave the other bytes alone. -/
lemma foldl_store_apply {ks : List ℕ} {f g : ℕ → ℕ} {n x : ℕ}
    (hx : ∀ k ∈ ks, x < f k ∨ f k + n ≤ x) (m : Bytes) :
    ks.foldl (fun m k => m.store (f k) (g k) n) m x = m x := by
  induction ks generalizing m with
  | nil => rfl
  | cons k ks ih =>
    obtain ⟨hk, hks⟩ := List.forall_mem_cons.mp hx
    rw [List.foldl_cons, ih hks, store_apply hk]

/-- Numbers that are stored apart from each other are read back. -/
lemma load_foldl_store {ks : List ℕ} {f g : ℕ → ℕ} {n k : ℕ} (hnodup : ks.Nodup)
    (hapart : ∀ i ∈ ks, ∀ j ∈ ks, i ≠ j → f i + n ≤ f j ∨ f j + n ≤ f i) (hk : k ∈ ks)
    (m : Bytes) :
    (ks.foldl (fun m k => m.store (f k) (g k) n) m).load (f k) n = g k % 256 ^ n := by
  induction ks generalizing m with
  | nil => cases hk
  | cons i ks ih =>
    obtain ⟨hi, hnodup⟩ := List.nodup_cons.mp hnodup
    rw [List.foldl_cons]
    by_cases hki : k ∈ ks
    · exact ih hnodup (fun i hi j hj => hapart i (List.mem_cons_of_mem _ hi) j (List.mem_cons_of_mem _ hj))
        hki _
    · obtain rfl := (List.mem_cons.mp hk).resolve_right hki
      refine (Agree.load_eq fun x hx hlt => foldl_store_apply (fun j hj => ?_) _).trans load_store
      have hne : k ≠ j := fun heq => hki (heq ▸ hj)
      have h := hapart k hk j (List.mem_cons_of_mem _ hj) hne
      omega

end Bytes

end NekOS
