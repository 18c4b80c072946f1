import EquationSystem.Formula.Arithmetic
import EquationSystem.Proofs.Decimal.Comparison
import EquationSystem.Proofs.Decimal.Grid

/-!
# Quotients are rounded once

A long division keeps what it divides as a balance of the digits found and the remainder. Where it
stops, the digit that would come next rounds those found to the nearest number of as many places.
A quotient of decimals is therefore the rational quotient, rounded to nearest at the scale of the
result, if that is a word. That scale is no smaller than the difference of the operands' scales, and
unless the quotient is exact it shows at least 100 digits.
-/

namespace EquationSystem

open Rational

/-! ## Long division -/

namespace LongDivision

variable {n m : ℕ} {d : LongDivision}

/-- A division of `n` by `m` in progress. The remainder has the next digit's zero already. -/
structure Divides (n m : ℕ) (d : LongDivision) : Prop where
  remainder_lt : d.remainder < 10 * m
  balance : n * 10 ^ (d.places + 1) = d.quotient * (10 * m) + d.remainder

theorem divides_start (pos : 0 < m) (n : ℕ) : Divides n m ⟨n / m, n % m * 10, 0⟩ := by
  constructor
  · have := Nat.mod_lt n pos
    dsimp only
    omega
  · dsimp only
    calc n * 10 ^ (0 + 1) = (m * (n / m) + n % m) * 10 := by rw [Nat.div_add_mod, zero_add, pow_one]
      _ = n / m * (10 * m) + n % m * 10 := by ring

theorem Divides.digit (pos : 0 < m) (h : Divides n m d) :
    Divides n m ⟨d.quotient * 10 + d.remainder / m, d.remainder % m * 10, d.places + 1⟩ := by
  constructor
  · have := Nat.mod_lt d.remainder pos
    dsimp only
    omega
  · have split := Nat.div_add_mod d.remainder m
    dsimp only
    calc n * 10 ^ (d.places + 1 + 1) = n * 10 ^ (d.places + 1) * 10 := by rw [pow_succ, mul_assoc]
      _ = (d.quotient * (10 * m) + (m * (d.remainder / m) + d.remainder % m)) * 10 := by
        rw [h.balance, split]
      _ = (d.quotient * 10 + d.remainder / m) * (10 * m) + d.remainder % m * 10 := by ring

theorem Divides.extend (pos : 0 < m) (h : Divides n m d) (room : ℕ) :
    Divides n m (extend m room d) := by
  induction room generalizing d with
  | zero => exact h
  | succ room ih =>
    rw [LongDivision.extend]
    split
    · exact h
    · exact ih (h.digit pos)

/-- A division stops early only when it comes out even. -/
theorem remainder_extend_eq_zero_or (m room : ℕ) (d : LongDivision) :
    (extend m room d).remainder = 0 ∨ (extend m room d).places = d.places + room := by
  induction room generalizing d with
  | zero => exact .inr rfl
  | succ room ih =>
    rw [extend]
    split
    · exact .inl ‹_›
    · refine (ih _).imp_right fun places => ?_
      rw [places]
      dsimp only
      omega

theorem Divides.value_eq (pos : 0 < m) (h : Divides n m d) :
    (n * 10 ^ d.places / m : ℚ) = d.quotient + d.remainder / (10 * m) := by
  have balance : (n * 10 ^ (d.places + 1) : ℚ) = d.quotient * (10 * m) + d.remainder := by
    exact_mod_cast h.balance
  have : (m : ℚ) ≠ 0 := by positivity
  rw [pow_succ] at balance
  field_simp
  linarith

theorem Divides.rounded_eq (pos : 0 < m) (h : Divides n m d) :
    (d.rounded m : ℤ) = ⌊(n * 10 ^ d.places / m + 1 / 2 : ℚ)⌋ := by
  have positive : (0 : ℚ) < 10 * m := by positivity
  have below : (d.remainder / (10 * m) : ℚ) < 1 := by
    rw [div_lt_one positive]
    exact_mod_cast h.remainder_lt
  have above : (0 : ℚ) ≤ d.remainder / (10 * m) := by positivity
  rw [h.value_eq pos, eq_comm, Int.floor_eq_iff, rounded]
  split
  · next half =>
    have : (1 / 2 : ℚ) ≤ d.remainder / (10 * m) := by
      rw [le_div_iff₀ positive]
      have : (5 * m : ℚ) ≤ d.remainder := by
        exact_mod_cast (Nat.le_div_iff_mul_le pos).1 half.2
      linarith
    push_cast
    constructor <;> linarith
  · next half =>
    have : (d.remainder / (10 * m) : ℚ) < 1 / 2 := by
      rw [div_lt_iff₀ positive]
      have : d.remainder < 5 * m := by
        rw [Nat.le_div_iff_mul_le pos] at half
        omega
      have : (d.remainder : ℚ) < 5 * m := by exact_mod_cast this
      linarith
    push_cast
    constructor <;> linarith

theorem Divides.le_quotient (h : Divides n m d) :
    n / m * 10 ^ d.places ≤ d.quotient := by
  have within : n * 10 ^ d.places < (d.quotient + 1) * m := by
    have balance := h.balance
    have remainder := h.remainder_lt
    rw [pow_succ] at balance
    linarith
  refine Nat.le_of_lt_succ (Nat.lt_of_mul_lt_mul_right (a := m) ?_)
  calc n / m * 10 ^ d.places * m = n / m * m * 10 ^ d.places := by ring
    _ ≤ n * 10 ^ d.places := Nat.mul_le_mul_right _ (Nat.div_mul_le_self n m)
    _ < (d.quotient + 1) * m := within

end LongDivision

theorem lt_digitCount {n k : ℕ} (h : 10 ^ k ≤ n) : k < digitCount n :=
  (Nat.pow_lt_pow_iff_right (by decide)).1 (h.trans_lt (lt_ten_pow_digitCount n))

/-- Digits that follow others count in addition to them. -/
theorem digitCount_add_le {n q k : ℕ} (nonzero : n ≠ 0) (h : n * 10 ^ k ≤ q) :
    digitCount n + k ≤ digitCount q := by
  have leading : 10 ^ (digitCount n - 1 + k) ≤ q := by
    rw [pow_add]
    exact (Nat.mul_le_mul_right _ (ten_pow_le_of_digitCount nonzero)).trans h
  have := lt_digitCount leading
  omega

/-- The digits `q`, with `places` of them behind the point, are those of `n / m`, rounded to nearest
and either exact or as many as are carried. -/
structure IsQuotient (n m q places : ℕ) : Prop where
  nearest : (q : ℤ) = ⌊(n * 10 ^ places / m + 1 / 2 : ℚ)⌋
  precise : (q : ℚ) = n * 10 ^ places / m ∨ precision ≤ digitCount q

namespace LongDivision

variable {n m k : ℕ} {d : LongDivision}

theorem rounded_of_even (m : ℕ) (even : d.remainder = 0) : d.rounded m = d.quotient :=
  if_neg fun h => h.1.ne' even

theorem quotient_le_rounded (m : ℕ) (d : LongDivision) : d.quotient ≤ d.rounded m := by
  unfold rounded
  split <;> omega

/-- A division that has come out even or has found enough digits is rounded to the quotient. -/
theorem Divides.isQuotient (pos : 0 < m) (h : Divides (n * 10 ^ k) m d)
    (stopped : d.remainder = 0 ∨ precision ≤ digitCount d.quotient) :
    IsQuotient n m (d.rounded m) (k + d.places) := by
  have shifted : (n * 10 ^ (k + d.places) : ℚ) = (n * 10 ^ k : ℕ) * 10 ^ d.places := by
    push_cast
    ring
  constructor
  · rw [shifted, h.rounded_eq pos]
  · rw [shifted, h.value_eq pos]
    rcases stopped with even | enough
    · left
      rw [rounded_of_even m even, even, Nat.cast_zero, zero_div, add_zero]
    · right
      have nonzero : d.quotient ≠ 0 := by
        intro zero
        rw [zero] at enough
        exact absurd enough (by decide)
      exact enough.trans (digitCount_add_le nonzero (k := 0) (by
        rw [pow_zero, mul_one]
        exact quotient_le_rounded m d))

end LongDivision

theorem raiseTo_eq (m n shift : ℕ) (pos : 0 < n) :
    ∃ k, raiseTo m n shift pos = (n * 10 ^ k, shift + k) ∧ m ≤ n * 10 ^ k := by
  fun_induction raiseTo m n shift pos with
  | case1 n shift pos below ih =>
    obtain ⟨k, eq, le⟩ := ih
    refine ⟨k + 1, ?_, ?_⟩
    · rw [eq, pow_succ', mul_assoc, Nat.add_assoc, Nat.add_comm 1]
    · rwa [pow_succ', ← mul_assoc]
  | case2 n shift pos above => exact ⟨0, by rw [pow_zero, mul_one, add_zero], by omega⟩

theorem isQuotient_divideDigits {n m : ℕ} (pos : 0 < n) (nonzero : 0 < m) :
    IsQuotient n m (divideDigits n m pos).1 (divideDigits n m pos).2 := by
  obtain ⟨k, raised, above⟩ := raiseTo_eq m n 0 pos
  have start := LongDivision.divides_start nonzero (n * 10 ^ k)
  unfold divideDigits
  rw [raised, zero_add]
  dsimp only
  split
  · next even =>
    rw [even] at start
    have := start.isQuotient nonzero (.inl rfl)
    rwa [LongDivision.rounded_of_even m rfl] at this
  · have leading : n * 10 ^ k / m ≠ 0 := (Nat.div_pos above nonzero).ne'
    have divides := start.extend nonzero (precision - digitCount (n * 10 ^ k / m))
    refine divides.isQuotient nonzero ?_
    refine (LongDivision.remainder_extend_eq_zero_or m _ _).imp_right fun places => ?_
    have := digitCount_add_le leading divides.le_quotient
    dsimp only at places
    omega

theorem divideDigits_of_dvd {n m : ℕ} (pos : 0 < n) (even : m ∣ n) :
    divideDigits n m pos = (n / m, 0) := by
  have raised : raiseTo m n 0 pos = (n, 0) := by
    rw [raiseTo, if_neg (not_lt.2 (Nat.le_of_dvd pos even))]
  unfold divideDigits
  rw [raised]
  exact if_pos (Nat.mod_eq_zero_of_dvd even)

namespace Decimal

variable {a b x : Decimal} {q : ℚ}

/-- A decimal that stands for a number as a quotient does: rounded to nearest at its own scale, and
with at least 100 digits unless it is exact. -/
structure Approximates (x : Decimal) (q : ℚ) : Prop where
  nearest : IsNearest x.scale q x.value
  precise : x.value = q ∨ precision ≤ digitCount x.magnitude

theorem Approximates.of_value_eq (h : x.value = q) : x.Approximates q := by
  have nearest := isNearest_roundTo x.scale x.value
  rw [roundTo_of_mem_grid _ (value_mem_grid le_rfl), h] at nearest
  exact ⟨h ▸ nearest, .inl h⟩

theorem sign_mul_cases (ha : a.isZero = false) (hb : b.isZero = false) :
    a.digits.sign * b.digits.sign = 1 ∨ a.digits.sign * b.digits.sign = -1 := by
  rw [← Int.natAbs_eq_natAbs_iff, Int.natAbs_mul,
    Int.natAbs_sign_of_ne_zero (isZero_eq_false_iff.1 ha),
    Int.natAbs_sign_of_ne_zero (isZero_eq_false_iff.1 hb)]
  rfl

theorem digits_div_digits (hb : b.isZero = false) : (a.digits / b.digits : ℚ) =
    (a.digits.sign * b.digits.sign : ℤ) * (a.magnitude / b.magnitude) := by
  have signed (x : Decimal) : (x.digits : ℚ) = x.digits.sign * x.magnitude := by
    rw [← Int.cast_natCast, ← Int.cast_mul, sign_mul_magnitude]
  have square : (b.digits.sign * b.digits.sign : ℚ) = 1 := by
    have := Int.natAbs_sign_of_ne_zero (isZero_eq_false_iff.1 hb)
    have : b.digits.sign * b.digits.sign = 1 := by
      rw [← Int.natAbs_mul_self, this]
      rfl
    exact_mod_cast this
  calc (a.digits / b.digits : ℚ)
      = a.digits.sign * a.magnitude / (b.digits.sign * b.magnitude) := by rw [← signed, ← signed]
    _ = a.digits.sign * (b.digits.sign : ℚ)⁻¹ * (a.magnitude / b.magnitude) := by ring
    _ = _ := by rw [inv_eq_of_mul_eq_one_left square, Int.cast_mul]

/-- The quotient of two decimals by their digits, at a scale that has room for `places` more. -/
theorem value_div_value (hb : b.isZero = false) (places : ℕ) :
    a.value / b.value * 10 ^ (a.scale - b.scale + places) =
      (a.digits.sign * b.digits.sign : ℤ) * (a.magnitude * 10 ^ places / b.magnitude) := by
  calc a.value / b.value * 10 ^ (a.scale - b.scale + places)
      = a.digits / b.digits * (10 ^ (-a.scale + b.scale + (a.scale - b.scale + places))) := by
        rw [value, value, mul_div_mul_comm, zpow_add₀ (by norm_num) (-a.scale + b.scale),
          zpow_add₀ (by norm_num) (-a.scale), zpow_neg _ b.scale, div_inv_eq_mul, mul_assoc]
    _ = a.digits / b.digits * 10 ^ places := by
        rw [← zpow_natCast]
        congr 2
        ring
    _ = _ := by
        rw [digits_div_digits hb]
        ring

theorem round_nearest_mul {u : ℤ} (unit : u = 1 ∨ u = -1) (nonneg : 0 ≤ q) :
    Rational.round .nearest (u * q) = u * ⌊q + 1 / 2⌋ := by
  have positive : Rational.round .nearest q = ⌊q + 1 / 2⌋ := if_pos nonneg
  rcases unit with rfl | rfl
  · rw [Int.cast_one, one_mul, one_mul, positive]
  · rw [Int.cast_neg, Int.cast_one, neg_one_mul, neg_one_mul, round_nearest_neg, positive]

theorem approximates_of_isQuotient (ha : a.isZero = false) (hb : b.isZero = false) {n places : ℕ}
    (h : IsQuotient a.magnitude b.magnitude n places) :
    Approximates ⟨a.digits.sign * b.digits.sign * n, a.scale - b.scale + places⟩
      (a.value / b.value) := by
  have scaled := value_div_value (a := a) hb places
  have unit := sign_mul_cases ha hb
  generalize a.digits.sign * b.digits.sign = u at scaled unit ⊢
  constructor
  · have nearest := isNearest_roundTo (a.scale - b.scale + places) (a.value / b.value)
    rwa [roundTo, scaled, round_nearest_mul unit (by positivity), ← h.nearest] at nearest
  · refine h.precise.imp (fun exact => ?_) fun enough => ?_
    · rw [value]
      dsimp only
      rw [Int.cast_mul, Int.cast_natCast, exact, ← scaled, mul_assoc, ← zpow_add₀ (by norm_num),
        Int.add_right_neg, zpow_zero, mul_one]
    · rw [magnitude]
      dsimp only
      rcases unit with rfl | rfl <;> simpa using enough

/-- A quotient of decimals is the rational quotient, rounded to nearest at its own scale. -/
theorem approximates_quotient (a : Decimal) (nonzero : b.isZero = false) :
    (a.quotient b).Approximates (a.value / b.value) := by
  unfold quotient
  split
  · next plain =>
    refine .of_value_eq ?_
    rw [Bool.or_eq_true] at plain
    rcases plain with zero | one
    · rw [isZero_iff.1 zero, zero_div]
    · rw [value_of_isOne one, div_one]
  · next other =>
    rw [Bool.or_eq_true, not_or, Bool.not_eq_true] at other
    split
    · next same =>
      refine .of_value_eq ?_
      have unit : (b.digits : ℚ) ≠ 0 := by exact_mod_cast isZero_eq_false_iff.1 nonzero
      rw [value, value, value, same, mul_div_mul_left _ _ unit, ← zpow_sub₀ (by norm_num),
        Int.cast_one, one_mul]
      congr 1
      ring
    · exact approximates_of_isQuotient other.1 nonzero
        (isQuotient_divideDigits (magnitude_pos other.1) (magnitude_pos nonzero))

/-- A quotient shows the places that the dividend has beyond those of the divisor. -/
theorem le_scale_quotient (a : Decimal) (places : 0 ≤ b.scale) :
    a.scale - b.scale ≤ (a.quotient b).scale := by
  unfold quotient
  split
  · omega
  · split
    · exact le_rfl
    · dsimp only
      omega

/-- A division that comes out even looks for no more places. -/
theorem scale_quotient_of_dvd (even : b.digits ∣ a.digits) (integer : b.scale = 0) :
    (a.quotient b).scale = a.scale := by
  unfold quotient
  split
  · rfl
  · next other =>
    rw [Bool.or_eq_true, not_or, Bool.not_eq_true] at other
    split
    · rw [integer, sub_zero]
    · have divides : b.magnitude ∣ a.magnitude := Int.natAbs_dvd_natAbs.2 even
      rw [divideDigits_of_dvd (magnitude_pos other.1) divides]
      dsimp only
      rw [integer, sub_zero, Nat.cast_zero, add_zero]

/-! ## Quotients that can fail -/

theorem divide_eq_divisionByZero_iff :
    divide a b = .error .divisionByZero ↔ b.value = 0 := by
  unfold divide
  split
  · next nonzero => simp [← isZero_iff, nonzero]
  · next zero => simp [← isZero_iff, zero]

theorem exists_divide (a : Decimal) (nonzero : b.value ≠ 0) :
    divide a b = .ok (a.quotient b).wrapped ∧ (a.quotient b).Approximates (a.value / b.value) := by
  have h : b.isZero = false := by
    rwa [← Bool.not_eq_true, isZero_iff]
  exact ⟨dif_pos h, approximates_quotient a h⟩

end Decimal

end EquationSystem
