import EquationSystem.Decimal.Arithmetic
import Mathlib.Data.Rat.Floor
import Mathlib.Tactic.Linarith
import Mathlib.Tactic.Positivity
import Mathlib.Tactic.Ring

/-!
# The number that a decimal stands for

Many decimals stand for one rational number. Sums, differences, exact products, remainders and
changes of sign depend on the numbers only: whatever the scales, the result stands for what the same
operation makes of the rationals. The shortcuts for zero and one are therefore visible in the scale
of a result and not in its value. Wrapping a scale that is out of range leads to another number, but
never to or from zero, nor across it.
-/

namespace EquationSystem

namespace Rational

/-- A rational without its fraction. -/
def truncate (q : ℚ) : ℤ := if 0 ≤ q then ⌊q⌋ else ⌈q⌉

/-- The remainder with the sign of the dividend. -/
def remainder (p q : ℚ) : ℚ := p - q * truncate (p / q)

theorem truncate_neg (q : ℚ) : truncate (-q) = -truncate q := by
  rcases lt_trichotomy q 0 with neg | rfl | pos
  · rw [truncate, truncate, if_pos (by linarith), if_neg (by linarith), Int.floor_neg]
  · simp [truncate]
  · rw [truncate, truncate, if_neg (by linarith), if_pos pos.le, Int.ceil_neg]

theorem truncate_div_natCast (m n : ℕ) : truncate (m / n) = (m / n : ℕ) := by
  rw [truncate, if_pos (by positivity), Rat.floor_natCast_div_natCast]
  rfl

theorem truncate_div (m n : ℤ) : truncate (m / n) = m.tdiv n := by
  obtain ⟨m, rfl | rfl⟩ := m.eq_nat_or_neg <;> obtain ⟨n, rfl | rfl⟩ := n.eq_nat_or_neg <;>
    simp [neg_div, div_neg, truncate_neg, truncate_div_natCast, Int.neg_tdiv, Int.tdiv_neg]

theorem unit_pos (t : ℤ) : (0 : ℚ) < 10 ^ t := zpow_pos (by norm_num) t

theorem unit_ne_zero (t : ℤ) : (10 : ℚ) ^ t ≠ 0 := (unit_pos t).ne'

/-- A power of ten that is computed in naturals. -/
theorem natCast_pow_toNat {t : ℤ} (h : 0 ≤ t) : ((10 ^ t.toNat : ℕ) : ℚ) = 10 ^ t := by
  rw [Nat.cast_pow, Nat.cast_ofNat, ← zpow_natCast, Int.toNat_of_nonneg h]

end Rational

namespace Decimal

open Rational

/-- The number that a decimal stands for. -/
def value (x : Decimal) : ℚ := x.digits * 10 ^ (-x.scale)

variable {a b x : Decimal} {t : ℤ}

@[simp] theorem value_ofInt (n : ℤ) : (ofInt n).value = n := by
  simp [value, ofInt]

@[simp] theorem value_neg (x : Decimal) : (-x).value = -x.value := by
  change (Decimal.neg x).value = _
  rw [value, value, Decimal.neg, Int.cast_neg, neg_mul]

@[simp] theorem value_abs (x : Decimal) : x.abs.value = |x.value| := by
  rw [value, value, abs_mul, abs_of_pos (unit_pos _)]
  simp [abs, magnitude]

theorem isZero_iff : x.isZero = true ↔ x.value = 0 := by
  simp [isZero, value, unit_ne_zero]

theorem isZero_eq_false_iff : x.isZero = false ↔ x.digits ≠ 0 := by
  rw [isZero, beq_eq_false_iff_ne]

theorem magnitude_pos (nonzero : x.isZero = false) : 0 < x.magnitude :=
  Int.natAbs_pos.2 (isZero_eq_false_iff.1 nonzero)

theorem sign_mul_magnitude (x : Decimal) : x.digits.sign * (x.magnitude : ℤ) = x.digits :=
  Int.sign_mul_natAbs x.digits

theorem isNegative_iff : x.isNegative = true ↔ x.value < 0 := by
  simp [isNegative, value, mul_neg_iff, unit_pos, (unit_pos _).not_gt]

theorem value_nonneg_iff : 0 ≤ x.value ↔ 0 ≤ x.digits := by
  rw [value, mul_nonneg_iff_of_pos_right (unit_pos _), Int.cast_nonneg_iff]

/-- A number of many places is not above its digits. -/
theorem value_le_digits (nonneg : 0 ≤ x.digits) (places : 0 ≤ x.scale) : x.value ≤ x.digits :=
  mul_le_of_le_one_right (Int.cast_nonneg nonneg)
    (zpow_le_one_of_nonpos₀ (by norm_num) (Int.neg_nonpos_of_nonneg places))

theorem digits_le_value (nonneg : 0 ≤ x.digits) (zeros : x.scale ≤ 0) : x.digits ≤ x.value :=
  le_mul_of_one_le_right (Int.cast_nonneg nonneg)
    (one_le_zpow₀ (by norm_num) (Int.neg_nonneg_of_nonpos zeros))

theorem value_of_isOne (h : x.isOne = true) : x.value = 1 := by
  simp only [isOne, Bool.and_eq_true, decide_eq_true_eq, beq_iff_eq] at h
  rw [value, h.2, Int.cast_natCast, natCast_pow_toNat h.1.1, ← zpow_add₀ (by norm_num),
    Int.add_right_neg, zpow_zero]

/-- Zeros that are appended leave the number as it is. -/
theorem value_rescale (h : x.scale ≤ t) : (x.rescale t).value = x.value := by
  unfold rescale
  split
  · next zero => rw [isZero_iff.1 zero, value, Int.cast_zero, zero_mul]
  · rw [value, value, Int.cast_mul, Int.cast_natCast, natCast_pow_toNat (by omega), mul_assoc,
      ← zpow_add₀ (by norm_num), show t - x.scale + -t = -x.scale by ring]

/-- Zero and the signs are in the digits. -/
theorem value_wrapped_eq_zero_iff : x.wrapped.value = 0 ↔ x.value = 0 := by
  rw [← isZero_iff, ← isZero_iff]
  rfl

theorem scale_rescale (x : Decimal) (t : ℤ) : (x.rescale t).scale = t := by
  unfold rescale
  split
  · rfl
  · split <;> rfl

/-- Two decimals are aligned at a scale at which both are integers. -/
theorem exists_aligned (a b : Decimal) : ∃ (m n t : ℤ), a.value = m * 10 ^ (-t) ∧
    b.value = n * 10 ^ (-t) ∧ ∀ f, aligned f a b = ⟨f m n, t⟩ := by
  refine ⟨_, _, max a.scale b.scale, ?_, ?_, fun f => rfl⟩
  · rw [← value_rescale (le_max_left a.scale b.scale), value, scale_rescale]
  · rw [← value_rescale (le_max_right a.scale b.scale), value, scale_rescale]

theorem value_aligned_add (a b : Decimal) : (aligned (· + ·) a b).value = a.value + b.value := by
  obtain ⟨m, n, t, ha, hb, h⟩ := exists_aligned a b
  rw [h, ha, hb, value, Int.cast_add, add_mul]

theorem value_aligned_sub (a b : Decimal) : (aligned (· - ·) a b).value = a.value - b.value := by
  obtain ⟨m, n, t, ha, hb, h⟩ := exists_aligned a b
  rw [h, ha, hb, value, Int.cast_sub, sub_mul]

@[simp] theorem value_add (a b : Decimal) : (a + b).value = a.value + b.value := by
  change (Decimal.add a b).value = _
  unfold Decimal.add
  split
  · next zero => rw [value_rescale (le_max_left _ _), isZero_iff.1 zero, add_zero]
  · split
    · next zero => rw [value_rescale (le_max_right _ _), isZero_iff.1 zero, zero_add]
    · exact value_aligned_add a b

@[simp] theorem value_sub (a b : Decimal) : (a - b).value = a.value - b.value := by
  change (Decimal.sub a b).value = _
  unfold Decimal.sub
  split
  · next zero => rw [isZero_iff.1 zero, sub_zero]
  · split
    · next zero => rw [value_neg, isZero_iff.1 zero, zero_sub]
    · exact value_aligned_sub a b

@[simp] theorem value_product (a b : Decimal) : (product a b).value = a.value * b.value := by
  unfold product
  split
  · next one => rw [value_of_isOne one, one_mul]
  · split
    · next one => rw [value_of_isOne one, mul_one]
    · rw [value, value, value, Int.cast_mul, mul_mul_mul_comm, ← zpow_add₀ (by norm_num), neg_add]

theorem value_mul (h : (product a b).ScaleInRange) : (a * b).value = a.value * b.value := by
  change (product a b).wrapped.value = _
  rw [h.wrapped_eq, value_product]

theorem value_rem (nonzero : b.isZero = false) :
    (a.rem b nonzero).value = remainder a.value b.value := by
  obtain ⟨m, n, t, ha, hb, h⟩ := exists_aligned a b
  rw [rem, h, ha, hb, remainder, mul_div_mul_right _ _ (unit_ne_zero _), truncate_div, value,
    Int.tmod_def]
  push_cast
  ring

theorem value_foldl {f : Decimal → Decimal → Decimal}
    (adds : ∀ a b, (f a b).value = a.value + b.value) (acc : Decimal) (xs : List Decimal) :
    (xs.foldl f acc).value = acc.value + (xs.map value).sum := by
  induction xs generalizing acc with
  | nil => rw [List.foldl_nil, List.map_nil, List.sum_nil, add_zero]
  | cons x xs ih =>
    rw [List.foldl_cons, ih, adds, List.map_cons, List.sum_cons, add_assoc]

theorem value_sum (xs : List Decimal) : (sum xs).value = (xs.map value).sum := by
  rw [sum, value_foldl value_add, value_ofInt, Int.cast_zero, zero_add]

end Decimal

end EquationSystem
