import Mathlib.Algebra.Order.Group.Nat
import Mathlib.Data.Nat.Bitwise
import Mathlib.Tactic.Ring

/-!
# Machine constants, machine integers and trap frames

A `usize` or `u64` of the source is a natural number.  Where a sum can leave the 64-bit range the
release build wraps, and the model reduces explicitly with `wrap`.  The layout constants are those
of `arch/riscv/mod.rs`, the frame is the one of `kernel/trap.rs`.
-/

namespace NekOS

/-! ### Machine integers -/

/-- Reduction to 64 bits. -/
def wrap (x : ℕ) : ℕ := x % 2 ^ 64

/-- `usize::MAX`, the error value of the system call interface. -/
def usizeMax : ℕ := 2 ^ 64 - 1

/-- `usize::checked_add`. -/
def checkedAdd (x y : ℕ) : Option ℕ := if x + y < 2 ^ 64 then some (x + y) else none

/-- Wrapping subtraction of 64-bit values. -/
def wrapSub (x y : ℕ) : ℕ := (x + 2 ^ 64 - y % 2 ^ 64) % 2 ^ 64

/-- The cast `x as i32`. -/
def asI32 (x : ℕ) : ℤ :=
  if x % 2 ^ 32 < 2 ^ 31 then (x % 2 ^ 32 : ℕ) else (x % 2 ^ 32 : ℕ) - 2 ^ 32

/-- The cast `c as usize` of a signed value. -/
def asUsize (c : ℤ) : ℕ := (c % 2 ^ 64).toNat

/-- The cast `x as isize`. -/
def asIsize (x : ℕ) : ℤ :=
  if x % 2 ^ 64 < 2 ^ 63 then (x % 2 ^ 64 : ℕ) else (x % 2 ^ 64 : ℕ) - 2 ^ 64

/-- `usize::checked_add_signed`. -/
def checkedAddSigned (x : ℕ) (d : ℤ) : Option ℕ :=
  if 0 ≤ (x : ℤ) + d ∧ (x : ℤ) + d < 2 ^ 64 then some ((x : ℤ) + d).toNat else none

/-- A difference of two `usize` that must not be negative. -/
def strictSub (x y : ℕ) : Option ℕ := if y ≤ x then some (x - y) else none

/-- `usize::checked_mul`. -/
def checkedMul (x y : ℕ) : Option ℕ := if x * y < 2 ^ 64 then some (x * y) else none

/-- A slice `&bytes[start..stop]`. -/
def slice (bytes : List UInt8) (start stop : ℕ) : Option (List UInt8) :=
  if start ≤ stop ∧ stop ≤ bytes.length then some (bytes.extract start stop) else none

/-- A value in the 64-bit range is not changed. -/
lemma wrap_of_lt {x : ℕ} (h : x < 2 ^ 64) : wrap x = x := Nat.mod_eq_of_lt h

/-- A difference that is not negative. -/
lemma wrapSub_of_le {x y : ℕ} (h : y ≤ x) (hx : x < 2 ^ 64) : wrapSub x y = x - y := by
  have hshift : x + 2 ^ 64 - y = 2 ^ 64 + (x - y) := by omega
  rw [wrapSub, Nat.mod_eq_of_lt (h.trans_lt hx), hshift, Nat.add_mod_left,
    Nat.mod_eq_of_lt ((Nat.sub_le _ _).trans_lt hx)]

/-- A checked sum is the sum. -/
lemma checkedAdd_eq_some {x y z : ℕ} : checkedAdd x y = some z ↔ x + y < 2 ^ 64 ∧ x + y = z := by
  unfold checkedAdd
  split <;> simp_all

/-- A checked product is the product. -/
lemma checkedMul_eq_some {x y z : ℕ} : checkedMul x y = some z ↔ x * y < 2 ^ 64 ∧ x * y = z := by
  unfold checkedMul
  split <;> simp_all

/-- A checked difference is the difference. -/
lemma strictSub_eq_some {x y z : ℕ} : strictSub x y = some z ↔ y ≤ x ∧ x - y = z := by
  unfold strictSub
  split <;> simp_all

/-- A slice in range. -/
lemma slice_eq_some {bytes : List UInt8} {start stop : ℕ} (h : start ≤ stop) (hstop : stop ≤ bytes.length) :
    slice bytes start stop = some (bytes.extract start stop) :=
  if_pos ⟨h, hstop⟩

/-! ### Layout -/

/-- `PAGE_SIZE`. -/
def pageSize : ℕ := 4096

/-- `USER_STACK_TOP`. -/
def userStackTop : ℕ := 0x40000000

/-- The kernel image and its identity-mapped window start here (`kernel_start`). -/
def kernelStart : ℕ := 0x80200000

/-- The size of the identity-mapped window (`kernel_size`, 16 MB). -/
def kernelSize : ℕ := 0x01000000

/-- The page of the UART registers. -/
def uartBase : ℕ := 0x10000000

/-- The pages of the PLIC registers that `map_plic` maps. -/
def plicPages : List ℕ := [0x0c000000, 0x0c002000, 0x0c201000]

/-- `value & !(PAGE_SIZE - 1)`: round down to a page boundary. -/
def pageFloor (x : ℕ) : ℕ := x / pageSize * pageSize

/-- `(value + PAGE_SIZE - 1) & !(PAGE_SIZE - 1)` on 64-bit values. -/
def pageCeil (x : ℕ) : ℕ := pageFloor (wrap (x + (pageSize - 1)))

/-- The number of iterations of `(start..end).step_by(PAGE_SIZE)`. -/
def pageSteps (start stop : ℕ) : ℕ := (stop - start + (pageSize - 1)) / pageSize

/-! ### Trap frames -/

/-- `TrapFrame`: the registers of an interrupted task. -/
structure TrapFrame where
  ra : ℕ
  sp : ℕ
  gp : ℕ
  tp : ℕ
  t0 : ℕ
  t1 : ℕ
  t2 : ℕ
  s0 : ℕ
  s1 : ℕ
  a0 : ℕ
  a1 : ℕ
  a2 : ℕ
  a3 : ℕ
  a4 : ℕ
  a5 : ℕ
  a6 : ℕ
  a7 : ℕ
  s2 : ℕ
  s3 : ℕ
  s4 : ℕ
  s5 : ℕ
  s6 : ℕ
  s7 : ℕ
  s8 : ℕ
  s9 : ℕ
  s10 : ℕ
  s11 : ℕ
  t3 : ℕ
  t4 : ℕ
  t5 : ℕ
  t6 : ℕ
  sstatus : ℕ
  sepc : ℕ
  deriving DecidableEq, Repr

/-- `TrapFrame::new`: all registers zero. -/
def TrapFrame.new : TrapFrame where
  ra := 0
  sp := 0
  gp := 0
  tp := 0
  t0 := 0
  t1 := 0
  t2 := 0
  s0 := 0
  s1 := 0
  a0 := 0
  a1 := 0
  a2 := 0
  a3 := 0
  a4 := 0
  a5 := 0
  a6 := 0
  a7 := 0
  s2 := 0
  s3 := 0
  s4 := 0
  s5 := 0
  s6 := 0
  s7 := 0
  s8 := 0
  s9 := 0
  s10 := 0
  s11 := 0
  t3 := 0
  t4 := 0
  t5 := 0
  t6 := 0
  sstatus := 0
  sepc := 0

/-- The four message words `[usize; 4]` of the IPC interface. -/
structure Words where
  w0 : ℕ
  w1 : ℕ
  w2 : ℕ
  w3 : ℕ
  deriving DecidableEq, Repr

/-- `SSTATUS_SPIE`. -/
def sstatusSpie : ℕ := 1 <<< 5

/-- `SSTATUS_SPP`. -/
def sstatusSpp : ℕ := 1 <<< 8

/-- `SSTATUS_SUM`. -/
def sstatusSum : ℕ := 1 <<< 18

end NekOS
