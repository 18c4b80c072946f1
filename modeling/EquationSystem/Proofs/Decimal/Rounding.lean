import EquationSystem.Decimal.Rounding
import EquationSystem.Proofs.Decimal.Value

/-!
# Rounding depends on the number only

A decimal is rounded by its digits: the places that are given up are a power of ten by which the
digits are divided, and whether they are all zeros decides between two neighbours. The result is
the number rounded as a rational.
-/

namespace EquationSystem

namespace Rational

open Decimal (Direction)

/-- An integer next to a rational: the nearest, of two as near the one farther from zero, or the
next below or above. -/
def round (direction : Direction) (q : ℚ) : ℤ :=
  match direction with
  | .nearest => if 0 ≤ q then ⌊q + 1 / 2⌋ else -⌊-q + 1 / 2⌋
  | .down => ⌊q⌋
  | .up => ⌈q⌉

/-- A rational rounded to a number of places behind the point. -/
def roundTo (direction : Direction) (places : ℤ) (q : ℚ) : ℚ :=
  round direction (q * 10 ^ places) * 10 ^ (-places)

/-- The 64-bit integer that a rational is, if it is one. -/
def toInt64? (q : ℚ) : Option ℤ :=
  if (⌊q⌋ : ℚ) = q ∧ -0x8000000000000000 ≤ ⌊q⌋ ∧ ⌊q⌋ < 0x8000000000000000 then some ⌊q⌋ else none

theorem floor_intCast_add_half (n : ℤ) : ⌊(n + 1 / 2 : ℚ)⌋ = n := by
  rw [Int.floor_eq_iff]
  constructor <;> linarith

theorem round_intCast (direction : Direction) (n : ℤ) : round direction n = n := by
  cases direction with
  | nearest =>
    rw [round, floor_intCast_add_half, ← Int.cast_neg, floor_intCast_add_half, neg_neg, ite_self]
  | down => exact Int.floor_intCast n
  | up => exact Int.ceil_intCast n

variable {n : ℕ}

theorem floor_div_natCast (m n : ℕ) : ⌊(m / n : ℚ)⌋ = (m / n : ℕ) := by
  rw [Rat.floor_natCast_div_natCast]
  rfl

theorem ceil_div_natCast (m : ℕ) (pos : 0 < n) :
    ⌈(m / n : ℚ)⌉ = if n ∣ m then ((m / n : ℕ) : ℤ) else (m / n : ℕ) + 1 := by
  rw [Rat.ceil_natCast_div_natCast, Int.neg_ediv, Int.sign_eq_one_of_pos (by exact_mod_cast pos)]
  simp only [Int.natCast_dvd_natCast]
  split
  · rw [sub_zero, neg_neg, Int.natCast_div]
  · rw [neg_sub, sub_neg_eq_add, add_comm, Int.natCast_div]

theorem floor_div_add_half (m k : ℕ) :
    ⌊(m / (10 ^ (k + 1) : ℕ) + 1 / 2 : ℚ)⌋ = ((m / 10 ^ k + 5) / 10 : ℕ) := by
  have split : (m / (10 ^ (k + 1) : ℕ) + 1 / 2 : ℚ) =
      ((m + 5 * 10 ^ k : ℕ) : ℚ) / (10 ^ (k + 1) : ℕ) := by
    push_cast
    field_simp
    ring
  rw [split, floor_div_natCast, Nat.pow_succ, ← Nat.div_div_eq_div_mul,
    Nat.add_mul_div_right _ _ (by positivity)]

end Rational

namespace Decimal

open Rational hiding round

theorem endsInZeros_cases {α : Type*} (n k : ℕ) (a b : α) :
    (if 10 ^ k ∣ n then a else b) = if endsInZeros n k then a else b := by
  simp only [endsInZeros_iff]

section
variable {x : Decimal}

theorem round_digits_pos (h : 0 < x.digits) (direction : Direction) (k : ℕ) :
    Rational.round direction (x.magnitude / (10 ^ (k + 1) : ℕ)) = roundMagnitude direction x k := by
  have positive : x.isNegative = false := decide_eq_false (not_lt.2 h.le)
  cases direction with
  | nearest =>
    rw [Rational.round, if_pos (by positivity), floor_div_add_half, roundMagnitude, dropDigits_eq]
  | down =>
    rw [Rational.round, floor_div_natCast, roundMagnitude, positive, dropDigits_eq]
    rfl
  | up =>
    rw [Rational.round, ceil_div_natCast _ (by positivity), endsInZeros_cases, roundMagnitude,
      positive, dropDigits_eq]
    cases endsInZeros x.magnitude (k + 1) <;> simp

theorem round_digits_neg (h : x.digits < 0) (direction : Direction) (k : ℕ) :
    Rational.round direction (-(x.magnitude / (10 ^ (k + 1) : ℕ))) =
      -roundMagnitude direction x k := by
  have negative : x.isNegative = true := decide_eq_true h
  have below : (0 : ℚ) < x.magnitude / (10 ^ (k + 1) : ℕ) :=
    div_pos (Nat.cast_pos.2 (Int.natAbs_pos.2 h.ne)) (by positivity)
  cases direction with
  | nearest =>
    rw [Rational.round, if_neg (by linarith), neg_neg, floor_div_add_half, roundMagnitude,
      dropDigits_eq]
  | down =>
    rw [Rational.round, Int.floor_neg, ceil_div_natCast _ (by positivity), endsInZeros_cases,
      roundMagnitude, negative, dropDigits_eq]
    cases endsInZeros x.magnitude (k + 1) <;> simp
  | up =>
    rw [Rational.round, Int.ceil_neg, floor_div_natCast, roundMagnitude, negative, dropDigits_eq]
    rfl

end

theorem round_digits (direction : Direction) (x : Decimal) (k : ℕ) :
    Rational.round direction (x.digits / (10 ^ (k + 1) : ℕ)) =
      x.digits.sign * roundMagnitude direction x k := by
  rcases lt_trichotomy x.digits 0 with neg | zero | pos
  · have digits : x.digits = -(x.magnitude : ℤ) := by rw [magnitude]; omega
    rw [Int.sign_eq_neg_one_of_neg neg, neg_one_mul, ← round_digits_neg neg]
    rw [digits, Int.cast_neg, neg_div, Int.cast_natCast]
  · rw [zero, Int.sign_zero, zero_mul, Int.cast_zero, zero_div]
    exact_mod_cast round_intCast direction 0
  · have digits : x.digits = x.magnitude := by rw [magnitude]; omega
    rw [Int.sign_eq_one_of_pos pos, one_mul, ← round_digits_pos pos, digits, Int.cast_natCast]

theorem value_round (direction : Direction) (x : Decimal) (places : ℤ) :
    (x.round direction places).value = roundTo direction places x.value := by
  unfold round
  split
  · next short =>
    have integer : x.value * 10 ^ places =
        (x.digits * (10 ^ (places - x.scale).toNat : ℕ) : ℤ) := by
      rw [value, mul_assoc, ← zpow_add₀ (by norm_num), neg_add_eq_sub, Int.cast_mul,
        Int.cast_natCast, natCast_pow_toNat (by omega)]
    rw [roundTo, integer, round_intCast, ← integer, mul_assoc, ← zpow_add₀ (by norm_num),
      Int.add_right_neg, zpow_zero, mul_one]
  · next long =>
    have quotient : x.value * 10 ^ places =
        x.digits / (10 ^ ((x.scale - places - 1).toNat + 1) : ℕ) := by
      have power : (x.scale - places - 1).toNat + 1 = (x.scale - places).toNat := by omega
      rw [power, natCast_pow_toNat (by omega), value, mul_assoc, ← zpow_add₀ (by norm_num),
        div_eq_mul_inv, ← zpow_neg, neg_sub, neg_add_eq_sub]
    rw [roundTo, quotient, round_digits, value]

/-! ## Integers -/

variable {x : Decimal}

/-- Digits behind the point that are all zeros can be dropped. -/
theorem value_rescale_zero (h : x.isInteger = true) : (x.rescale 0).value = x.value := by
  rcases le_or_gt x.scale 0 with short | long
  · exact value_rescale short
  · simp only [isInteger, Bool.or_eq_true, decide_eq_true_eq, endsInZeros_iff] at h
    obtain ⟨n, hn⟩ := h.resolve_left (not_le.2 long)
    have digits : (x.digits : ℚ) = x.digits.sign * n * 10 ^ x.scale := by
      rw [← natCast_pow_toNat long.le, mul_assoc, mul_comm (n : ℚ), ← Nat.cast_mul, ← hn,
        ← Int.cast_natCast x.magnitude, ← Int.cast_mul, sign_mul_magnitude]
    unfold rescale
    split
    · next zero => rw [isZero_iff.1 zero, value, Int.cast_zero, zero_mul]
    · rw [if_neg (not_le.2 long), value, value, digits, mul_assoc _ (10 ^ x.scale),
        ← zpow_add₀ (by norm_num), Int.add_right_neg, sub_zero, dropDigits_eq, hn,
        Nat.mul_div_cancel_left _ (by positivity)]
      simp

theorem rescale_zero_digits (h : x.isInteger = true) : ((x.rescale 0).digits : ℚ) = x.value := by
  rw [← value_rescale_zero h, value, scale_rescale, neg_zero, zpow_zero, mul_one]

theorem floor_value (h : x.isInteger = true) : ⌊x.value⌋ = (x.rescale 0).digits := by
  rw [← rescale_zero_digits h, Int.floor_intCast]

theorem isInteger_iff : x.isInteger = true ↔ (⌊x.value⌋ : ℚ) = x.value := by
  refine ⟨fun h => floor_value h ▸ rescale_zero_digits h, fun h => ?_⟩
  rw [isInteger, Bool.or_eq_true, decide_eq_true_eq, endsInZeros_iff, or_iff_not_imp_left, not_le]
  intro long
  have digits : x.digits = ⌊x.value⌋ * (10 ^ x.scale.toNat : ℕ) := by
    have exact : (x.digits : ℚ) = ⌊x.value⌋ * (10 ^ x.scale.toNat : ℕ) := by
      rw [h, natCast_pow_toNat long.le, value, mul_assoc, ← zpow_add₀ (by norm_num),
        Int.add_left_neg, zpow_zero, mul_one]
    exact_mod_cast exact
  rw [magnitude, digits, Int.natAbs_mul, Int.natAbs_natCast]
  exact Nat.dvd_mul_left _ _

/-- Nineteen zeros left of the point lead out of the range of 64-bit integers. -/
theorem floor_out_of_range (nonzero : x.value ≠ 0) (h : x.scale ≤ -19) :
    ¬(-0x8000000000000000 ≤ ⌊x.value⌋ ∧ ⌊x.value⌋ < 0x8000000000000000) := by
  have unit : (10 ^ 19 : ℚ) ≤ 10 ^ (-x.scale) := by
    rw [← zpow_natCast]
    exact zpow_le_zpow_right₀ (by norm_num) (by omega)
  rintro ⟨low, high⟩
  rcases lt_trichotomy x.digits 0 with neg | zero | pos
  · have digits : (x.digits : ℚ) ≤ -1 := by exact_mod_cast Int.le_sub_one_of_lt neg
    have below : x.value ≤ -10 ^ 19 := by
      rw [value]
      nlinarith
    have floor : (⌊x.value⌋ : ℚ) ≤ (-10 ^ 19 : ℤ) := by
      push_cast
      exact (Int.floor_le _).trans below
    rw [Int.cast_le] at floor
    omega
  · exact nonzero (by rw [value, zero, Int.cast_zero, zero_mul])
  · have digits : (1 : ℚ) ≤ x.digits := by exact_mod_cast pos
    have floor : 10 ^ 19 ≤ ⌊x.value⌋ := by
      rw [Int.le_floor, value]
      push_cast
      nlinarith
    omega

theorem toInt_toInt64? (x : Decimal) : x.toInt64?.map Int64.toInt = Rational.toInt64? x.value := by
  unfold toInt64?
  split
  · next zero =>
    rw [isZero_iff.1 zero]
    simp [Rational.toInt64?]
  · next nonzero =>
    rw [isZero_iff] at nonzero
    rw [Rational.toInt64?]
    split
    · next outside =>
      rw [Bool.or_eq_true, Bool.not_eq_true', ← Bool.not_eq_true, isInteger_iff,
        decide_eq_true_eq] at outside
      rw [if_neg]
      · rfl
      · rintro ⟨integer, range⟩
        exact outside.elim (· integer) fun h => floor_out_of_range nonzero h range
    · next inside =>
      simp only [Bool.or_eq_true, Bool.not_eq_true', ← Bool.not_eq_true, not_or, not_not] at inside
      rw [isInteger_iff.1 inside.1, floor_value inside.1]
      dsimp only
      split
      · next range =>
        rw [if_pos ⟨rfl, range⟩, Option.map_some, Int64.toInt_ofInt_of_le range.1 range.2]
      · next range => rw [if_neg fun h => range h.2, Option.map_none]

end Decimal

end EquationSystem
