import Mathlib.Algebra.Order.Field.Basic
import Mathlib.Algebra.Order.Ring.Abs
import Mathlib.Algebra.Order.Ring.Pow
import Mathlib.Tactic.Linarith
import Mathlib.Tactic.Ring

/-! Rounded arithmetic on positive numbers: results that carry a number of
relative errors, and when so few of them cannot turn a comparison around. -/

namespace Foundation

/-- A rounding with relative error at most `unit`: floating-point arithmetic away
from underflow and overflow, and with `unit = 0` exact arithmetic. -/
structure Rounding (K : Type*) [Field K] [LinearOrder K] where
  round : K → K
  unit : K
  unit_nonneg : 0 ≤ unit
  unit_lt_one : unit < 1
  error : ∀ x, |round x - x| ≤ unit * |x|

namespace Rounding

variable {K : Type*} [Field K] [LinearOrder K] [IsStrictOrderedRing K]

/-- No rounding at all. -/
def exact : Rounding K where
  round := id
  unit := 0
  unit_nonneg := le_refl 0
  unit_lt_one := one_pos
  error x := by simp

variable (r : Rounding K)

/-- The positive number `y` is `x` up to `n` relative errors. -/
structure Near (n : ℕ) (x y : K) : Prop where
  positive : 0 < x
  lower : (1 - r.unit) ^ n * x ≤ y
  upper : (1 - r.unit) ^ n * y ≤ x

variable {r} {n m : ℕ} {x y x' y' : K}

theorem factor_pos : 0 < 1 - r.unit := sub_pos.mpr r.unit_lt_one

@[simp] theorem round_zero : r.round 0 = 0 := by
  have error := r.error 0
  simpa using error

theorem Near.pos (near : r.Near n x y) : 0 < y :=
  lt_of_lt_of_le (mul_pos (pow_pos factor_pos n) near.positive) near.lower

omit [IsStrictOrderedRing K] in
theorem near_self (positive : 0 < x) : r.Near 0 x x := ⟨positive, by simp, by simp⟩

/-- Rounding costs one relative error. -/
theorem Near.round (near : r.Near n x y) : r.Near (n + 1) x (r.round y) := by
  have bounds := abs_le.mp (r.error y)
  rw [abs_of_pos near.pos] at bounds
  have power := pow_pos (factor_pos (r := r)) n
  refine ⟨near.positive, ?_, ?_⟩
  · calc (1 - r.unit) ^ (n + 1) * x = (1 - r.unit) * ((1 - r.unit) ^ n * x) := by ring
      _ ≤ (1 - r.unit) * y := mul_le_mul_of_nonneg_left near.lower factor_pos.le
      _ ≤ r.round y := by linarith
  · have square : (1 - r.unit) * (1 + r.unit) ≤ 1 := by nlinarith [sq_nonneg r.unit]
    calc (1 - r.unit) ^ (n + 1) * r.round y
        ≤ (1 - r.unit) ^ (n + 1) * ((1 + r.unit) * y) :=
          mul_le_mul_of_nonneg_left (by linarith) (pow_pos factor_pos _).le
      _ = (1 - r.unit) ^ n * y * ((1 - r.unit) * (1 + r.unit)) := by ring
      _ ≤ (1 - r.unit) ^ n * y * 1 :=
          mul_le_mul_of_nonneg_left square (mul_pos power near.pos).le
      _ ≤ x := by rw [mul_one]; exact near.upper

theorem Near.mul (left : r.Near n x y) (right : r.Near m x' y') :
    r.Near (n + m) (x * x') (y * y') := by
  have power := pow_pos (factor_pos (r := r)) m
  refine ⟨mul_pos left.positive right.positive, ?_, ?_⟩
  · calc (1 - r.unit) ^ (n + m) * (x * x')
        = ((1 - r.unit) ^ n * x) * ((1 - r.unit) ^ m * x') := by ring
      _ ≤ y * y' := mul_le_mul left.lower right.lower (mul_pos power right.positive).le left.pos.le
  · calc (1 - r.unit) ^ (n + m) * (y * y')
        = ((1 - r.unit) ^ n * y) * ((1 - r.unit) ^ m * y') := by ring
      _ ≤ x * x' := mul_le_mul left.upper right.upper (mul_pos power right.pos).le left.positive.le

theorem Near.inv (near : r.Near n x y) : r.Near n x⁻¹ y⁻¹ := by
  refine ⟨inv_pos.mpr near.positive, ?_, ?_⟩
  · rw [← div_eq_mul_inv, ← one_div y, div_le_div_iff₀ near.positive near.pos, one_mul]
    exact near.upper
  · rw [← div_eq_mul_inv, ← one_div x, div_le_div_iff₀ near.pos near.positive, one_mul]
    exact near.lower

theorem Near.div (left : r.Near n x y) (right : r.Near m x' y') :
    r.Near (n + m) (x / x') (y / y') := by
  rw [div_eq_mul_inv, div_eq_mul_inv]
  exact left.mul right.inv

theorem Near.add (left : r.Near n x y) (right : r.Near n x' y') :
    r.Near n (x + x') (y + y') := by
  refine ⟨add_pos left.positive right.positive, ?_, ?_⟩
  · rw [mul_add]
    exact add_le_add left.lower right.lower
  · rw [mul_add]
    exact add_le_add left.upper right.upper

/-- Two results keep the order of what they are near to when the gap is wider than
their relative errors. -/
theorem Near.lt_of_gap {gap : K} (left : r.Near n x y) (right : r.Near n x' y')
    (apart : x ≤ (1 - gap) * x') (precise : 2 * n * r.unit < gap) : y < y' := by
  have power := pow_pos (factor_pos (r := r)) n
  have bernoulli : 1 - 2 * n * r.unit ≤ (1 - r.unit) ^ n * (1 - r.unit) ^ n := by
    have sum := one_add_mul_le_pow (a := -r.unit) (by linarith [r.unit_lt_one]) (n + n)
    rw [← pow_add]
    push_cast at sum
    have same : 1 + -r.unit = 1 - r.unit := by ring
    rw [same] at sum
    linarith
  have scaled : (1 - r.unit) ^ n * y < (1 - r.unit) ^ n * y' := by
    calc (1 - r.unit) ^ n * y ≤ x := left.upper
      _ ≤ (1 - gap) * x' := apart
      _ < (1 - 2 * n * r.unit) * x' := mul_lt_mul_of_pos_right (by linarith) right.positive
      _ ≤ (1 - r.unit) ^ n * (1 - r.unit) ^ n * x' :=
          mul_le_mul_of_nonneg_right bernoulli right.positive.le
      _ = (1 - r.unit) ^ n * ((1 - r.unit) ^ n * x') := by ring
      _ ≤ (1 - r.unit) ^ n * y' := mul_le_mul_of_nonneg_left right.lower power.le
  exact lt_of_mul_lt_mul_left scaled power.le

end Rounding

end Foundation
