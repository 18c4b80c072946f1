import EquationSystem.Formula.Arithmetic
import EquationSystem.Proofs.Decimal.Normal
import EquationSystem.Proofs.Decimal.Quotient

/-!
# Powers

Repeated squaring multiplies exactly as long as the scales on the way are words, and a factor one
that brings the other factor into normal form is visible in the scale of a power and not in its value.
The exponents that are computed so are the integers of size up to 1024 and, since the size is taken on
words, the least word: for every other exponent the power goes by way of binary64.
-/

namespace EquationSystem.Decimal

variable {x base exponent : Decimal} {word : Int64}

theorem value_productNormal (a b : Decimal) : (productNormal a b).value = a.value * b.value := by
  unfold productNormal
  split
  · next one => rw [value_stripped, value_of_isOne one, one_mul]
  · split
    · next one => rw [value_stripped, value_of_isOne one, mul_one]
    · rw [value, value, value, Int.cast_mul, mul_mul_mul_comm, ← zpow_add₀ (by norm_num), neg_add]

theorem value_mulNormal {a b : Decimal} (h : (productNormal a b).ScaleInRange) :
    (mulNormal a b).value = a.value * b.value := by
  rw [mulNormal, h.wrapped_eq, value_productNormal]

theorem value_mulNormal_eq_zero_iff {a b : Decimal} :
    (mulNormal a b).value = 0 ↔ a.value = 0 ∨ b.value = 0 := by
  rw [mulNormal, value_wrapped_eq_zero_iff, value_productNormal, mul_eq_zero]

theorem value_square_eq_zero_iff : x.square.value = 0 ↔ x.value = 0 := by
  rw [square, value_mulNormal_eq_zero_iff, or_self]

/-! ## Repeated squaring -/

/-- The products on the way to `powAux acc x n` have scales of 64 bits. -/
def PowAuxInRange (acc x : Decimal) (n : ℕ) : Prop :=
  if h : n = 0 then True
  else
    (n % 2 = 1 → (productNormal acc x).ScaleInRange) ∧
    (n / 2 ≠ 0 → (productNormal x x).ScaleInRange ∧
      PowAuxInRange (if n % 2 = 1 then mulNormal acc x else acc) x.square (n / 2))
termination_by n
decreasing_by exact Nat.div_lt_self (Nat.pos_of_ne_zero h) (by decide)

/-- The products on the way to `x ^ n` have scales of 64 bits. -/
def PowInRange (x : Decimal) (n : ℕ) : Prop := PowAuxInRange (ofInt 1) x n

/-- One binary digit of the exponent is used up. -/
theorem value_powAux_step {acc x : Decimal} {n : ℕ}
    (odd : n % 2 = 1 → (productNormal acc x).ScaleInRange)
    (more : n / 2 ≠ 0 → (productNormal x x).ScaleInRange) :
    (if n % 2 = 1 then mulNormal acc x else acc).value * x.square.value ^ (n / 2) =
      acc.value * x.value ^ n := by
  have digits := Nat.div_add_mod n 2
  have squares : x.square.value ^ (n / 2) = x.value ^ (2 * (n / 2)) := by
    by_cases last : n / 2 = 0
    · rw [last, pow_zero, mul_zero, pow_zero]
    · rw [square, value_mulNormal (more last), ← sq, ← pow_mul]
  rw [squares]
  split
  · next isOdd =>
    rw [value_mulNormal (odd isOdd), mul_assoc, ← pow_succ']
    congr 2
    omega
  · next even =>
    congr 2
    omega

theorem value_powAux {acc x : Decimal} {n : ℕ} (h : PowAuxInRange acc x n) :
    (powAux acc x n).value = acc.value * x.value ^ n := by
  fun_induction powAux acc x n with
  | case1 acc x => rw [pow_zero, mul_one]
  | case2 acc x n nonzero acc' last =>
    rw [PowAuxInRange, dif_neg nonzero] at h
    rw [← value_powAux_step h.1 fun more => absurd last more, last, pow_zero, mul_one]
    rfl
  | case3 acc x n nonzero acc' more ih =>
    rw [PowAuxInRange, dif_neg nonzero] at h
    obtain ⟨range, others⟩ := h.2 more
    rw [ih others, ← value_powAux_step h.1 fun _ => range]
    rfl

theorem value_pow {n : ℕ} (h : x.PowInRange n) : (x.pow n).value = x.value ^ n := by
  rw [pow, value_powAux h, value_ofInt, Int.cast_one, one_mul]

theorem value_powAux_eq_zero_iff (acc x : Decimal) (n : ℕ) :
    (powAux acc x n).value = 0 ↔ acc.value = 0 ∨ n ≠ 0 ∧ x.value = 0 := by
  have factor (acc x : Decimal) (n : ℕ) : (if n % 2 = 1 then mulNormal acc x else acc).value = 0 ↔
      acc.value = 0 ∨ n % 2 = 1 ∧ x.value = 0 := by
    split
    · next odd => rw [value_mulNormal_eq_zero_iff, and_iff_right odd]
    · next even => rw [or_iff_left fun h => even h.1]
  fun_induction powAux acc x n with
  | case1 acc x => rw [or_iff_left fun h => h.1 rfl]
  | case2 acc x n nonzero acc' last =>
    have odd : n % 2 = 1 := by omega
    refine (factor acc x n).trans ?_
    rw [and_iff_right odd, and_iff_right nonzero]
  | case3 acc x n nonzero acc' more ih =>
    refine ih.trans ((or_congr (factor acc x n) Iff.rfl).trans ?_)
    rw [value_square_eq_zero_iff, and_iff_right more, and_iff_right nonzero, or_assoc,
      or_iff_right_of_imp And.right]

/-- A power is zero for zero only, whatever the scales on the way. -/
theorem value_pow_eq_zero_iff {n : ℕ} (positive : n ≠ 0) : (x.pow n).value = 0 ↔ x.value = 0 := by
  rw [pow, value_powAux_eq_zero_iff, value_ofInt, Int.cast_one, or_iff_right one_ne_zero,
    and_iff_right positive]

/-! ## The exponent as a word -/

/-- A word has the size of its integer, except that the least word is its own size. -/
theorem toInt_abs (word : Int64) :
    word.abs.toInt = if word = Int64.minValue then word.toInt else |word.toInt| := by
  have least : word = Int64.minValue ↔ word.toBitVec = BitVec.intMin 64 := by
    rw [← Int64.toBitVec_inj]
    rfl
  rw [← Int64.toInt_toBitVec, Int64.toBitVec_abs, BitVec.toInt_abs_eq_natAbs, Int64.toInt_toBitVec]
  simp only [← least]
  split
  · next h => rw [h]; rfl
  · exact (Int.abs_eq_natAbs _).symm

theorem toInt64?_eq_some_iff : x.toInt64? = some word ↔ x.value = word.toInt := by
  have seen := toInt_toInt64? x
  rw [Rational.toInt64?] at seen
  constructor
  · intro found
    rw [found, Option.map_some] at seen
    split at seen
    · next integer =>
      rw [Option.some_inj.1 seen, integer.1]
    · cases seen
  · intro integer
    rw [integer, Int.floor_intCast, if_pos ⟨rfl, word.le_toInt, word.toInt_lt⟩] at seen
    obtain ⟨word', found, same⟩ := Option.map_eq_some_iff.1 seen
    rw [found, Int64.toInt_inj.1 same]

/-- A power is exact for small exponents, and for the least word. -/
theorem exactExponent?_eq_some_iff : x.exactExponent? = some word ↔
    x.value = word.toInt ∧ (|word.toInt| ≤ 1024 ∨ word = Int64.minValue) := by
  have bound : maxExactExponent.toInt = 1024 := rfl
  rw [exactExponent?, Option.filter_eq_some_iff, toInt64?_eq_some_iff, decide_eq_true_eq,
    Int64.le_iff_toInt_le, toInt_abs, bound]
  refine and_congr_right fun _ => ?_
  split
  · next least =>
    rw [least]
    decide
  · next other => rw [or_iff_left other]

/-! ## Which exponents are exact -/

theorem power_of_exactExponent? (base : Decimal) (h : exponent.exactExponent? = some word) :
    power base exponent =
      if word.toInt < 0 then divide (ofInt 1) (base.pow word.toInt.natAbs)
      else .ok (base.pow word.toInt.natAbs) := by
  have sign : word < 0 ↔ word.toInt < 0 := Int64.lt_iff_toInt_lt
  rw [power, h]
  simp only [sign]

/-- The size of an exponent is computed without an overflow, only sizes up to 1024 lead to repeated
squaring, and all other exponents lead to binary64. -/
structure Guarded (base exponent : Decimal) : Prop where
  fits : ∀ word, exponent.toInt64? = some word → word.abs.toInt = |word.toInt|
  small : ∀ word, exponent.exactExponent? = some word → |word.toInt| ≤ 1024
  others : (∀ n : ℤ, exponent.value = n → 1024 < |n|) →
    power base exponent = floatPower base exponent

theorem not_guarded_of_least (base : Decimal) (least : exponent.value = -0x8000000000000000) :
    ¬Guarded base exponent := by
  intro guarded
  have found : exponent.toInt64? = some Int64.minValue := by
    rw [toInt64?_eq_some_iff, least, Int64.toInt_minValue]
    norm_num
  exact absurd (guarded.fits _ found) (by decide)

/-- The least word is the only exponent whose size is misjudged. -/
theorem guarded_iff_ne_least (base exponent : Decimal) :
    Guarded base exponent ↔ exponent.value ≠ -0x8000000000000000 := by
  refine ⟨fun guarded least => not_guarded_of_least base least guarded, fun other => ?_⟩
  have notLeast {word : Int64} (integral : exponent.value = word.toInt) :
      word ≠ Int64.minValue := by
    rintro rfl
    rw [integral, Int64.toInt_minValue] at other
    norm_num at other
  constructor
  case fits =>
    intro word found
    rw [toInt_abs, if_neg (notLeast (toInt64?_eq_some_iff.1 found))]
  case small =>
    intro word exact
    obtain ⟨integral, small⟩ := exactExponent?_eq_some_iff.1 exact
    exact small.resolve_right (notLeast integral)
  case others =>
    intro large
    cases exact : exponent.exactExponent? with
    | none => rw [power, exact]
    | some word =>
      obtain ⟨integral, small⟩ := exactExponent?_eq_some_iff.1 exact
      exact absurd (small.resolve_right (notLeast integral)) (not_le.2 (large _ integral))

/-- Zero to the least word is squared again and again, and then it is divided by. -/
theorem not_guarded_zero_least :
    ¬Guarded (ofInt 0) (ofInt (-0x8000000000000000)) ∧
    (ofInt (-0x8000000000000000)).exactExponent? = some Int64.minValue ∧
    Int64.minValue.toInt.natAbs = 2 ^ 63 ∧ Int64.minValue.abs = Int64.minValue ∧
    power (ofInt 0) (ofInt (-0x8000000000000000)) = .error .divisionByZero := by
  have exact : (ofInt (-0x8000000000000000)).exactExponent? = some Int64.minValue := by
    rw [exactExponent?_eq_some_iff, value_ofInt]
    exact ⟨rfl, .inr rfl⟩
  refine ⟨not_guarded_of_least _ (by rw [value_ofInt]; norm_num), exact, rfl, rfl, ?_⟩
  rw [power_of_exactExponent? _ exact, if_pos (by decide), divide_eq_divisionByZero_iff,
    value_pow_eq_zero_iff (by decide), value_ofInt, Int.cast_zero]

end EquationSystem.Decimal
