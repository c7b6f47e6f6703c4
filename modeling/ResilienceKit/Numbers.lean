import Mathlib.Algebra.Order.Field.Rat
import Mathlib.Data.Rat.Cast.Order
import Mathlib.Tactic.NormNum
import Mathlib.Tactic.Positivity
import Mathlib.Tactic.SplitIfs
import ResilienceKit.Exceptions

/-!
# Numbers — `int` and `float`

An `int` is exact and has no bound.  A `float` is an exact number here, too; what it cannot do is take an
`int` beyond its range, or be a power there.
-/

namespace ResilienceKit

/-- From here on a double rounds to infinity. -/
def floatLimit : ℚ := 2 ^ 1024 - 2 ^ 970

theorem two_pow_lt_floatLimit : (2 : ℚ) ^ 63 < floatLimit :=
  calc (2 : ℚ) ^ 63 ≤ 2 ^ 970 := pow_le_pow_right₀ one_le_two (by decide)
    _ < 2 ^ 970 * (2 ^ 54 - 1) := lt_mul_of_one_lt_right (by positivity) (by norm_num)
    _ = floatLimit := by rw [floatLimit, mul_sub, mul_one, ← pow_add]

inductive PyNum
  | int (n : ℤ)
  | float (q : ℚ)
  deriving DecidableEq, Repr

namespace PyNum

def val : PyNum → ℚ
  | .int n => n
  | .float q => q

/-- The operand of a `float` operation: an `int` out of range is an `OverflowError`. -/
def toFloat : PyNum → Except PyExc ℚ
  | .int n => if floatLimit ≤ |(n : ℚ)| then .error ⟨.overflowError, 0⟩ else .ok n
  | .float q => .ok q

/-- Two `int`s give an `int`, anything else a `float`. -/
def arith (onInt : ℤ → ℤ → ℤ) (onFloat : ℚ → ℚ → ℚ) : PyNum → PyNum → Except PyExc PyNum
  | .int m, .int n => .ok (.int (onInt m n))
  | x, y => do
    let a ← x.toFloat
    let b ← y.toFloat
    return .float (onFloat a b)

def add : PyNum → PyNum → Except PyExc PyNum := arith (· + ·) (· + ·)

def sub : PyNum → PyNum → Except PyExc PyNum := arith (· - ·) (· - ·)

def mul : PyNum → PyNum → Except PyExc PyNum := arith (· * ·) (· * ·)

/-- `x ** n`: of a `float` it is an `OverflowError` when the result is out of range. -/
def pow : PyNum → ℕ → Except PyExc PyNum
  | .int m, n => .ok (.int (m ^ n))
  | .float q, n => if floatLimit ≤ |q ^ n| then .error ⟨.overflowError, 0⟩ else .ok (.float (q ^ n))

/-- `min(x, y)`, the first of two equal ones. -/
protected def min (x y : PyNum) : PyNum := if y.val < x.val then y else x

/-- `max(x, y)`, the first of two equal ones. -/
protected def max (x y : PyNum) : PyNum := if x.val < y.val then y else x

/-! ### Values -/

variable {x y z : PyNum} {n : ℕ} {a : ℚ}

@[simp] theorem val_int (n : ℤ) : (int n).val = n := rfl

@[simp] theorem val_float (q : ℚ) : (float q).val = q := rfl

theorem toFloat_ok (h : x.toFloat = .ok a) : a = x.val := by
  cases x with
  | int n =>
    simp only [toFloat] at h
    split_ifs at h
    exact (Except.ok.inj h).symm
  | float q => exact (Except.ok.inj h).symm

theorem arith_ok {onInt : ℤ → ℤ → ℤ} {onFloat : ℚ → ℚ → ℚ}
    (hcast : ∀ m n : ℤ, ((onInt m n : ℤ) : ℚ) = onFloat m n) (h : arith onInt onFloat x y = .ok z) :
    z.val = onFloat x.val y.val := by
  have hfloats : (do
      let a ← x.toFloat
      let b ← y.toFloat
      return float (onFloat a b) : Except PyExc PyNum) = .ok z → z.val = onFloat x.val y.val := by
    intro h
    cases ha : x.toFloat with
    | error e =>
      rw [ha] at h
      cases h
    | ok a =>
      cases hb : y.toFloat with
      | error e =>
        rw [ha, hb] at h
        cases h
      | ok b =>
        rw [ha, hb] at h
        obtain rfl := Except.ok.inj h
        rw [toFloat_ok ha, toFloat_ok hb]
        rfl
  cases x with
  | int m =>
    cases y with
    | int n =>
      obtain rfl := Except.ok.inj h
      exact hcast m n
    | float q => exact hfloats h
  | float q => exact hfloats h

theorem add_ok (h : x.add y = .ok z) : z.val = x.val + y.val := arith_ok Int.cast_add h

theorem sub_ok (h : x.sub y = .ok z) : z.val = x.val - y.val := arith_ok Int.cast_sub h

theorem mul_ok (h : x.mul y = .ok z) : z.val = x.val * y.val := arith_ok Int.cast_mul h

theorem pow_ok (h : x.pow n = .ok z) : z.val = x.val ^ n := by
  cases x with
  | int m =>
    obtain rfl := Except.ok.inj h
    exact Int.cast_pow m n
  | float q =>
    simp only [pow] at h
    split_ifs at h
    obtain rfl := Except.ok.inj h
    rfl

@[simp] theorem val_min (x y : PyNum) : (x.min y).val = min x.val y.val := by
  unfold PyNum.min
  split_ifs with h
  · exact (min_eq_right h.le).symm
  · exact (min_eq_left (not_lt.mp h)).symm

@[simp] theorem val_max (x y : PyNum) : (x.max y).val = max x.val y.val := by
  unfold PyNum.max
  split_ifs with h
  · exact (max_eq_right h.le).symm
  · exact (max_eq_left (not_lt.mp h)).symm

end PyNum

end ResilienceKit
