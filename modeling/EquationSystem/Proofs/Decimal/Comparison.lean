import EquationSystem.Decimal.Order
import EquationSystem.Formula.Arithmetic
import EquationSystem.Proofs.Decimal.Value
import Mathlib.Data.Sign.Basic

/-!
# Decimals are ordered as the numbers they stand for

The position of the leading digit encloses a decimal between two powers of ten, so that decimals
with different positions are in the order of these. Decimals with the same position are compared at
a common scale, where they are integers.
-/

namespace EquationSystem

theorem digitCount_le_iff {n k : ℕ} (h : 0 < k) : digitCount n ≤ k ↔ n < 10 ^ k :=
  Nat.length_toDigits_le_iff (by decide) h

theorem lt_ten_pow_digitCount (n : ℕ) : n < 10 ^ digitCount n :=
  (digitCount_le_iff Nat.length_toDigits_pos).1 le_rfl

theorem ten_pow_le_of_digitCount {n : ℕ} (h : n ≠ 0) : 10 ^ (digitCount n - 1) ≤ n := by
  rcases Nat.eq_zero_or_pos (digitCount n - 1) with short | long
  · rw [short, pow_zero]
    exact Nat.one_le_iff_ne_zero.2 h
  · by_contra below
    have := (digitCount_le_iff long).2 (not_le.1 below)
    omega

namespace Decimal

open Rational

variable {a b x : Decimal} {t : ℤ}

theorem abs_value (x : Decimal) : |x.value| = x.magnitude * 10 ^ (-x.scale) := by
  rw [value, abs_mul, abs_of_pos (unit_pos _), magnitude, ← Int.cast_abs, Int.abs_eq_natAbs,
    Int.cast_natCast]

theorem abs_value_eq_magnitudeAt (h : x.scale ≤ t) : |x.value| = x.magnitudeAt t * 10 ^ (-t) := by
  rw [abs_value, magnitudeAt, Nat.cast_mul, natCast_pow_toNat (by omega), mul_assoc,
    ← zpow_add₀ (by norm_num), show t - x.scale + -t = -x.scale by ring]

theorem abs_value_lt (x : Decimal) : |x.value| < 10 ^ x.leading := by
  have below : (x.magnitude : ℚ) < 10 ^ digitCount x.magnitude := by
    exact_mod_cast lt_ten_pow_digitCount x.magnitude
  rw [abs_value, leading, sub_eq_add_neg, zpow_add₀ (by norm_num), zpow_natCast]
  exact mul_lt_mul_of_pos_right below (unit_pos _)

theorem le_abs_value (h : x.digits ≠ 0) : 10 ^ (x.leading - 1) ≤ |x.value| := by
  have above : (10 : ℚ) ^ (digitCount x.magnitude - 1) ≤ x.magnitude := by
    exact_mod_cast ten_pow_le_of_digitCount (Int.natAbs_ne_zero.2 h)
  have split : x.leading - 1 = (digitCount x.magnitude - 1 : ℕ) + -x.scale := by
    have : 0 < digitCount x.magnitude := Nat.length_toDigits_pos
    rw [leading]
    omega
  rw [abs_value, split, zpow_add₀ (by norm_num), zpow_natCast]
  exact mul_le_mul_of_nonneg_right above (unit_pos _).le

theorem abs_value_lt_of_leading (hb : b.digits ≠ 0) (h : a.leading < b.leading) :
    |a.value| < |b.value| :=
  calc |a.value| < 10 ^ a.leading := abs_value_lt a
    _ ≤ 10 ^ (b.leading - 1) := zpow_le_zpow_right₀ (by norm_num) (by omega)
    _ ≤ |b.value| := le_abs_value hb

/-- Naturals keep their order when they are multiplied by a power of ten. -/
theorem compare_mul_unit (m n : ℕ) (t : ℤ) :
    compare ((m : ℚ) * 10 ^ t) (n * 10 ^ t) = compare m n := by
  have mono : StrictMono fun k : ℕ => (k : ℚ) * 10 ^ t :=
    (strictMono_mul_right_of_pos (unit_pos t)).comp Nat.strictMono_cast
  rw [← cmp_eq_compare, ← cmp_eq_compare]
  exact mono.cmp_map_eq m n

theorem compare_neg (p q : ℚ) : compare (-q) (-p) = compare p q := by
  rw [← cmp_eq_compare, ← cmp_eq_compare]
  exact StrictAnti.cmp_map_eq (fun _ _ => neg_lt_neg) q p

theorem compareMagnitudes_eq (ha : a.digits ≠ 0) (hb : b.digits ≠ 0) :
    a.compareMagnitudes b = compare |a.value| |b.value| := by
  rw [compareMagnitudes]
  rcases lt_trichotomy a.leading b.leading with less | same | greater
  · rw [compare_lt_iff_lt.2 less, compare_lt_iff_lt.2 (abs_value_lt_of_leading hb less)]
    rfl
  · rw [compare_eq_iff_eq.2 same, abs_value_eq_magnitudeAt (le_max_left a.scale b.scale),
      abs_value_eq_magnitudeAt (le_max_right a.scale b.scale), compare_mul_unit]
    rfl
  · rw [compare_gt_iff_gt.2 greater, compare_gt_iff_gt.2 (abs_value_lt_of_leading ha greater)]
    rfl

theorem digits_ne_zero_iff : x.digits ≠ 0 ↔ x.value ≠ 0 := by
  rw [value, mul_ne_zero_iff, Int.cast_ne_zero, and_iff_left (unit_ne_zero _)]

theorem sign_digits (x : Decimal) : x.digits.sign = SignType.sign x.value := by
  rw [Int.sign_eq_sign, value, sign_mul, sign_pos (unit_pos _), mul_one]
  simp

theorem sign_coe_lt : ∀ {s t : SignType}, s < t → (s : ℤ) < t := by decide

theorem compare_of_sign_eq (h : SignType.sign a.value = SignType.sign b.value) :
    (if a.isZero then .eq else if a.isNegative then b.compareMagnitudes a
      else a.compareMagnitudes b) = compare a.value b.value := by
  rcases lt_trichotomy a.value 0 with neg | zero | pos
  · have hb : b.value < 0 := sign_eq_neg_one_iff.1 (h ▸ sign_neg neg)
    rw [if_neg (mt isZero_iff.1 neg.ne), if_pos (isNegative_iff.2 neg),
      compareMagnitudes_eq (digits_ne_zero_iff.2 hb.ne) (digits_ne_zero_iff.2 neg.ne),
      abs_of_neg neg, abs_of_neg hb, compare_neg]
  · have hb : b.value = 0 := sign_eq_zero_iff.1 (h ▸ sign_eq_zero_iff.2 zero)
    rw [if_pos (isZero_iff.2 zero), compare_eq_iff_eq.2 (zero.trans hb.symm)]
  · have hb : 0 < b.value := sign_eq_one_iff.1 (h ▸ sign_pos pos)
    rw [if_neg (mt isZero_iff.1 pos.ne'), if_neg (mt isNegative_iff.1 pos.not_gt),
      compareMagnitudes_eq (digits_ne_zero_iff.2 pos.ne') (digits_ne_zero_iff.2 hb.ne'),
      abs_of_pos pos, abs_of_pos hb]

/-- Comparing two decimals compares the numbers that they stand for. -/
theorem compare_eq (a b : Decimal) : compare a b = compare a.value b.value := by
  change Decimal.compare a b = _
  unfold Decimal.compare
  rw [sign_digits, sign_digits]
  rcases lt_trichotomy (SignType.sign a.value) (SignType.sign b.value) with less | same | greater
  · have apart := SignType.sign.monotone.reflect_lt less
    rw [compare_lt_iff_lt.2 (sign_coe_lt less), compare_lt_iff_lt.2 apart]
  · rw [same, compare_eq_iff_eq.2 rfl]
    exact compare_of_sign_eq same
  · have apart := SignType.sign.monotone.reflect_lt greater
    rw [compare_gt_iff_gt.2 (sign_coe_lt greater), compare_gt_iff_gt.2 apart]

theorem lt_iff : a.lt b = true ↔ a.value < b.value := by
  rw [lt, beq_iff_eq, compare_eq, compare_lt_iff_lt]

theorem le_iff : a.le b = true ↔ a.value ≤ b.value := by
  rw [le, bne_iff_ne, compare_eq, Ne, compare_gt_iff_gt, not_lt]

theorem same_iff : a.same b = true ↔ a.value = b.value := by
  rw [same, beq_iff_eq, compare_eq, compare_eq_iff_eq]

/-! ## Least and greatest members -/

theorem value_foldl_pick {order : Ordering} {f : ℚ → ℚ → ℚ}
    (pick : ∀ best y : Decimal, (if compare y best = order then y else best).value =
      f best.value y.value) (best : Decimal) (xs : List Decimal) :
    (xs.foldl (fun best y => if compare y best = order then y else best) best).value =
      (xs.map value).foldl f best.value := by
  induction xs generalizing best with
  | nil => rfl
  | cons x xs ih => rw [List.foldl_cons, ih, pick, List.map_cons, List.foldl_cons]

theorem value_extremum?_lt (xs : List Decimal) :
    (extremum? .lt xs).map value = (xs.map value).min? := by
  cases xs with
  | nil => rfl
  | cons x xs =>
    refine congrArg some (value_foldl_pick (fun best y => ?_) x xs)
    rw [min_comm, min_def_lt, apply_ite value]
    simp only [compare_eq, compare_lt_iff_lt]

theorem value_extremum?_gt (xs : List Decimal) :
    (extremum? .gt xs).map value = (xs.map value).max? := by
  cases xs with
  | nil => rfl
  | cons x xs =>
    refine congrArg some (value_foldl_pick (fun best y => ?_) x xs)
    rw [max_def_lt, apply_ite value]
    simp only [compare_eq, compare_gt_iff_gt]

end Decimal

/-! ## Score tables -/

/-- The score of the first row `lower, upper, score` with `lower ≤ q < upper`, or zero. -/
def Rational.lookUpScore (q : ℚ) : List ℚ → ℚ
  | lower :: upper :: score :: rows =>
    if lower ≤ q ∧ q < upper then score else lookUpScore q rows
  | _ => 0

theorem Decimal.value_lookUpScore (x : Decimal) (rows : List Decimal) :
    (x.lookUpScore rows).value = Rational.lookUpScore x.value (rows.map value) := by
  fun_induction Decimal.lookUpScore x rows with
  | case1 lower upper score rows found =>
    rw [Bool.and_eq_true, le_iff, lt_iff] at found
    rw [List.map_cons, List.map_cons, List.map_cons, Rational.lookUpScore, if_pos found]
  | case2 lower upper score rows missed ih =>
    rw [Bool.and_eq_true, le_iff, lt_iff] at missed
    rw [List.map_cons, List.map_cons, List.map_cons, Rational.lookUpScore, if_neg missed, ih]
  | case3 rows short =>
    rw [value_ofInt, Int.cast_zero]
    match rows with
    | [] | [_] | [_, _] => rfl
    | lower :: upper :: score :: rows => exact (short _ _ _ _ rfl).elim

end EquationSystem
