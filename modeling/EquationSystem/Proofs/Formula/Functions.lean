import EquationSystem.Formula.Call
import EquationSystem.Proofs.Decimal.Aggregates
import EquationSystem.Proofs.Decimal.Deviation
import EquationSystem.Proofs.Decimal.Power

/-!
# What formulas make of numbers

The operators and functions of formulas, called with operands that are numbers. The three functions
that round keep the order of numbers and have no effect on what they have rounded. The mean of a
list lies between its extremes, although it is rounded, and its standard deviation vanishes only
where the members are equal. A power with a small integral exponent is exact, or the quotient of one
by an exact power. Means and powers are so as long as no scale is wrapped on the way; for both there
is an input that is not.
-/

namespace EquationSystem

open OrderDual (toDual)
open Decimal Rational

/-- An operand that is a number. -/
def Suspended.given (x : Decimal) : Suspended := fun _ => .ok (.number x)

namespace Builtin

variable {f : Builtin} {x digits : Decimal} {xs : List Decimal} {d : ℤ}

theorem numbers_given (xs : List Decimal) : numbers (xs.map Suspended.given) = .ok xs := by
  induction xs with
  | nil => rfl
  | cons x xs ih =>
    rw [numbers] at ih ⊢
    rw [List.map_cons, List.mapM_cons, ih]
    rfl

/-- A function of a list of numbers, called with numbers. -/
theorem apply_given {result : Except EvalError Decimal} (h : f.ofNumbers? xs = some result) :
    f.apply (xs.map Suspended.given) = (do return .number (← result)) := by
  cases f with
  | choose | round => cases h
  | _ => simp only [apply, numbers_given, bind, Except.bind, h]

theorem places_eq (integral : digits.value = d) (low : -1000 ≤ d) (high : d ≤ 1000) :
    places digits = .ok d := by
  have word : (Int64.ofInt d).toInt = d := Int64.toInt_ofInt_of_le (by omega) (by omega)
  have found : digits.toInt64? = some (Int64.ofInt d) := by
    rw [toInt64?_eq_some_iff, word, integral]
  have range : -EvalError.maxPlaces ≤ d ∧ d ≤ EvalError.maxPlaces := ⟨low, high⟩
  rw [places, found]
  dsimp only
  rw [word, if_pos range]

/-! ## Rounding -/

/-- A function of one number that always leads to the wanted neighbour of that number, keeps the
order of numbers, and leaves what it has rounded as it is written. -/
structure Rounds (call : Decimal → Except EvalError Value) (neighbour : ℚ → ℚ → Prop) : Prop where
  total : ∀ x, ∃ r, call x = .ok (.number r) ∧ neighbour x.value r.value
  monotone : ∀ x y r s, x.value ≤ y.value → call x = .ok (.number r) → call y = .ok (.number s) →
    r.value ≤ s.value
  idempotent : ∀ x r, call x = .ok (.number r) → call r = .ok (.number r)

theorem rounds_of_round {call : Decimal → Except EvalError Value} {neighbour : ℚ → ℚ → Prop}
    (direction : Direction) (places : ℤ)
    (h : ∀ x, call x = .ok (.number (x.round direction places)))
    (near : ∀ q, neighbour q (roundTo direction places q)) : Rounds call neighbour where
  total x := ⟨_, h x, value_round direction x places ▸ near x.value⟩
  monotone x y r s below hr hs := by
    rw [h] at hr hs
    cases hr
    cases hs
    rw [value_round, value_round]
    exact roundTo_mono direction places below
  idempotent x r hr := by
    rw [h] at hr ⊢
    cases hr
    rw [round_round]

/-- Rounding to a number of places, which may be written in any way, leads to the nearest multiple
of the last place, and the other two functions lead to the integers next below and above. -/
theorem rounds_nearest_floor_ceiling (integral : digits.value = d) (low : -1000 ≤ d)
    (high : d ≤ 1000) :
    Rounds (fun x => round.apply [.given x, .given digits]) (IsNearest d) ∧
    Rounds (fun x => floor.apply [.given x]) (fun q r => r = ⌊q⌋) ∧
    Rounds (fun x => ceiling.apply [.given x]) (fun q r => r = ⌈q⌉) := by
  refine ⟨rounds_of_round .nearest d (fun x => ?_) (isNearest_roundTo d),
    rounds_of_round .down 0 (fun x => ?_) fun q => ?_,
    rounds_of_round .up 0 (fun x => ?_) fun q => ?_⟩
  · have called : round.apply [.given x, .given digits] = (do
        let n ← places digits
        return .number (x.round .nearest n)) := rfl
    rw [called, places_eq integral low high]
    rfl
  · exact apply_given (rfl : floor.ofNumbers? [x] = some (.ok (x.round .down 0)))
  · rw [roundTo, zpow_zero, mul_one, neg_zero, zpow_zero, mul_one, Rational.round]
  · exact apply_given (rfl : ceiling.ofNumbers? [x] = some (.ok (x.round .up 0)))
  · rw [roundTo, zpow_zero, mul_one, neg_zero, zpow_zero, mul_one, Rational.round]

/-- Places written as a number with a fraction of zeros, and a carry through all digits. -/
theorem rounds_nearest_floor_ceiling_carry : (⟨20, 1⟩ : Decimal).value = (2 : ℤ) ∧
    (-1000 : ℤ) ≤ 2 ∧ (2 : ℤ) ≤ 1000 ∧
    round.apply [.given ⟨-9995, 3⟩, .given ⟨20, 1⟩] = .ok (.number ⟨-1000, 2⟩) ∧
    IsNearest 2 (⟨-9995, 3⟩ : Decimal).value (⟨-1000, 2⟩ : Decimal).value ∧
    round.apply [.given ⟨-1000, 2⟩, .given ⟨20, 1⟩] = .ok (.number ⟨-1000, 2⟩) := by
  have places : (⟨20, 1⟩ : Decimal).value = (2 : ℤ) := by norm_num [value]
  have rounds := (rounds_nearest_floor_ceiling places (by decide) (by decide)).1
  have called : round.apply [.given ⟨-9995, 3⟩, .given ⟨20, 1⟩] = .ok (.number ⟨-1000, 2⟩) := by
    decide +kernel
  obtain ⟨r, found, near⟩ := rounds.total ⟨-9995, 3⟩
  cases called.symm.trans found
  exact ⟨places, by decide, by decide, called, near, rounds.idempotent _ _ called⟩

/-! ## Extremes and means -/

/-- The least and the greatest member of a list come back as they are written, the first of those
that are equal. The mean, which is rounded, is not below the least nor above the greatest, if the
places found for it are not too many for a scale. It is the members' value where all have the same. -/
theorem average_between_extremes (nonempty : xs ≠ []) : ∃ least greatest average,
    min.apply (xs.map .given) = .ok (.number least) ∧ FirstLeast value xs least ∧
    max.apply (xs.map .given) = .ok (.number greatest) ∧
    FirstLeast (toDual ∘ value) xs greatest ∧
    Builtin.average.apply (xs.map .given) = .ok (.number average) ∧
    ((meanQuotient xs).ScaleInRange → average.Approximates ((xs.map value).sum / xs.length) ∧
      least.value ≤ average.value ∧ average.value ≤ greatest.value) ∧
    ((∀ x ∈ xs, x.ScaleInRange) → ∀ q, (∀ x ∈ xs, x.value = q) → average.value = q) := by
  obtain ⟨least, hleast, first⟩ := exists_extremum?_lt nonempty
  obtain ⟨greatest, hgreatest, last⟩ := exists_extremum?_gt nonempty
  obtain ⟨mean, near⟩ := exists_meanQuotient nonempty
  refine ⟨least, greatest, (meanQuotient xs).wrapped, ?_, first, ?_, last, ?_, fun range => ?_,
    fun range q same => ?_⟩
  · exact apply_given (f := .min) (congrArg (Option.map Except.ok) hleast)
  · exact apply_given (f := .max) (congrArg (Option.map Except.ok) hgreatest)
  · obtain ⟨x, rest, rfl⟩ := List.exists_cons_of_ne_nil nonempty
    rw [apply_given (f := .average) rfl, mean]
    rfl
  · rw [range.wrapped_eq]
    exact ⟨near, le_meanQuotient first.mem first.le, meanQuotient_le last.mem last.le⟩
  · obtain ⟨_, found, value⟩ := exists_mean_of_same nonempty range same
    cases mean.symm.trans found
    exact value

/-- A mean of four thirds, and a one that is written in two ways. -/
theorem average_between_extremes_thirds : ([⟨10, 1⟩, ⟨1, 0⟩, ⟨2, 0⟩] : List Decimal) ≠ [] ∧
    min.apply [.given ⟨10, 1⟩, .given ⟨1, 0⟩, .given ⟨2, 0⟩] = .ok (.number ⟨10, 1⟩) ∧
    max.apply [.given ⟨10, 1⟩, .given ⟨1, 0⟩, .given ⟨2, 0⟩] = .ok (.number ⟨2, 0⟩) ∧
    ∃ average, Builtin.average.apply [.given ⟨10, 1⟩, .given ⟨1, 0⟩, .given ⟨2, 0⟩] =
        .ok (.number average) ∧
      average.Approximates (4 / 3) ∧ 1 ≤ average.value ∧ average.value ≤ 2 := by
  have nonempty : ([⟨10, 1⟩, ⟨1, 0⟩, ⟨2, 0⟩] : List Decimal) ≠ [] := by decide
  have first : min.apply [.given ⟨10, 1⟩, .given ⟨1, 0⟩, .given ⟨2, 0⟩] =
    .ok (.number ⟨10, 1⟩) := by decide +kernel
  have last : max.apply [.given ⟨10, 1⟩, .given ⟨1, 0⟩, .given ⟨2, 0⟩] =
    .ok (.number ⟨2, 0⟩) := by decide +kernel
  obtain ⟨least, greatest, average, hleast, -, hgreatest, -, called, between, -⟩ :=
    average_between_extremes nonempty
  obtain ⟨near, low, high⟩ := between (by decide +kernel)
  cases first.symm.trans hleast
  cases last.symm.trans hgreatest
  have one : (⟨10, 1⟩ : Decimal).value = 1 := by norm_num [value]
  have two : (⟨2, 0⟩ : Decimal).value = 2 := by norm_num [value]
  have mean : ([⟨10, 1⟩, ⟨1, 0⟩, ⟨2, 0⟩] : List Decimal).map value = [1, 1, 2] := by
    norm_num [value]
  rw [one] at low
  rw [two] at high
  rw [mean] at near
  norm_num at near
  exact ⟨nonempty, first, last, average, called, near, low, high⟩

/-- With the most places that a number can have, a mean that needs one more is above both members. -/
theorem average_above_greatest :
    let most : Int := 0x7fffffffffffffff
    (⟨1, most⟩ : Decimal).ScaleInRange ∧ (⟨2, most⟩ : Decimal).ScaleInRange ∧
    max.apply [.given ⟨1, most⟩, .given ⟨2, most⟩] = .ok (.number ⟨2, most⟩) ∧
    Builtin.average.apply [.given ⟨1, most⟩, .given ⟨2, most⟩] =
      .ok (.number ⟨15, -0x8000000000000000⟩) ∧
    (⟨2, most⟩ : Decimal).value < (⟨15, -0x8000000000000000⟩ : Decimal).value := by
  intro most
  refine ⟨by decide, by decide, by decide +kernel, by decide +kernel, ?_⟩
  calc (⟨2, most⟩ : Decimal).value ≤ (2 : ℤ) := value_le_digits (by decide) (by decide)
    _ < (15 : ℤ) := Int.cast_lt.2 (by decide)
    _ ≤ _ := digits_le_value (by decide) (by decide)

end Builtin

namespace BinaryOp

variable {base exponent : Decimal} {n : ℤ}

/-- A power whose exponent is an integer of size up to 1024, written in any way, is exact for an
exponent that is not negative, and for a negative one the quotient of one by the exact power, as long
as the scales on the way are in range. Whatever they are, only zero has no negative powers. -/
theorem apply_power_integral (base : Decimal) (integral : exponent.value = n) (small : |n| ≤ 1024) :
    (∃ word : Int64, word.toInt = n ∧ exponent.exactExponent? = some word) ∧
    (base.PowInRange n.natAbs → (base.pow n.natAbs).value = base.value ^ n.natAbs) ∧
    (0 ≤ n → power.apply (.number base) (.given exponent) = .ok (.number (base.pow n.natAbs))) ∧
    (n < 0 → (power.apply (.number base) (.given exponent) = .error .divisionByZero ↔
        base.value = 0) ∧
      (base.value ≠ 0 → ∃ r,
        Decimal.divide (ofInt 1) (base.pow n.natAbs) = .ok r ∧
        power.apply (.number base) (.given exponent) = .ok (.number r) ∧
        (base.PowInRange n.natAbs → ((ofInt 1).quotient (base.pow n.natAbs)).ScaleInRange →
          r.Approximates (1 / base.value ^ n.natAbs)))) := by
  obtain ⟨low, high⟩ := abs_le.1 small
  have word : (Int64.ofInt n).toInt = n := Int64.toInt_ofInt_of_le (by omega) (by omega)
  have exact : exponent.exactExponent? = some (Int64.ofInt n) := by
    rw [exactExponent?_eq_some_iff, word]
    exact ⟨integral, .inl small⟩
  have called : power.apply (.number base) (.given exponent) =
      (do return .number (← base.power exponent)) := rfl
  rw [called, power_of_exactExponent? base exact, word]
  refine ⟨⟨_, word, exact⟩, value_pow, fun nonneg => ?_, fun neg => ⟨?_, fun nonzero => ?_⟩⟩
  · rw [if_neg (not_lt.2 nonneg)]
    rfl
  · have zero : (base.pow n.natAbs).value = 0 ↔ base.value = 0 := value_pow_eq_zero_iff (by omega)
    rw [if_pos neg, ← zero, ← divide_eq_divisionByZero_iff (a := ofInt 1)]
    cases Decimal.divide (ofInt 1) (base.pow n.natAbs) with
    | ok r => exact ⟨nofun, nofun⟩
    | error e =>
      change (Except.error e : Except EvalError Value) = _ ↔ _
      rw [Except.error.injEq, Except.error.injEq]
  · have nonzero : (base.pow n.natAbs).value ≠ 0 := mt (value_pow_eq_zero_iff (by omega)).1 nonzero
    obtain ⟨quotient, near⟩ := exists_divide (ofInt 1) nonzero
    refine ⟨_, quotient, ?_, fun powers range => ?_⟩
    · rw [if_pos neg, quotient]
      rfl
    · rwa [value_ofInt, Int.cast_one, value_pow powers, ← range.wrapped_eq] at near

/-- Minus two to the power of minus three, with both numbers written with a fraction of zeros. -/
theorem apply_power_integral_negative : (⟨-30, 1⟩ : Decimal).value = (-3 : ℤ) ∧
    |(-3 : ℤ)| ≤ 1024 ∧
    power.apply (.number ⟨-20, 1⟩) (.given ⟨-30, 1⟩) = .ok (.number ⟨-125, 3⟩) ∧
    (⟨-20, 1⟩ : Decimal).PowInRange 3 ∧
    (⟨-125, 3⟩ : Decimal).Approximates (1 / (-2) ^ 3) := by
  have integral : (⟨-30, 1⟩ : Decimal).value = (-3 : ℤ) := by norm_num [value]
  have called : power.apply (.number ⟨-20, 1⟩) (.given ⟨-30, 1⟩) = .ok (.number ⟨-125, 3⟩) := by
    decide +kernel
  have base : (⟨-20, 1⟩ : Decimal).value = -2 := by norm_num [value]
  obtain ⟨-, -, -, negative⟩ := apply_power_integral ⟨-20, 1⟩ integral (by decide)
  have range : (⟨-20, 1⟩ : Decimal).PowInRange 3 := by
    rw [PowInRange, PowAuxInRange, dif_neg (by decide)]
    refine ⟨fun _ => by decide +kernel, fun _ => ⟨by decide +kernel, ?_⟩⟩
    rw [PowAuxInRange, dif_neg (by decide)]
    exact ⟨fun _ => by decide +kernel, fun more => absurd rfl more⟩
  obtain ⟨r, -, found, near⟩ := (negative (by decide)).2 (by rw [base]; norm_num)
  cases called.symm.trans found
  have near := near range (by decide +kernel)
  rw [base] at near
  exact ⟨integral, by decide, called, range, near⟩

/-- A number with the most places that a number can have is squared to a hundred. -/
theorem square_of_most_places :
    let base : Decimal := ⟨1, 0x7fffffffffffffff⟩
    base.ScaleInRange ∧ (⟨2, 0⟩ : Decimal).value = (2 : ℤ) ∧
    power.apply (.number base) (.given ⟨2, 0⟩) = .ok (.number ⟨1, -2⟩) ∧
    (⟨1, -2⟩ : Decimal).value ≠ base.value ^ 2 := by
  intro base
  have small : base.value ^ 2 ≤ 1 := pow_le_one₀ (value_nonneg_iff.2 (by decide))
    ((value_le_digits (by decide) (by decide)).trans_eq Int.cast_one)
  have large : (1 : ℚ) < (⟨1, -2⟩ : Decimal).value := by norm_num [value]
  exact ⟨by decide, by norm_num [value], by decide +kernel, (small.trans_lt large).ne'⟩

end BinaryOp

end EquationSystem
