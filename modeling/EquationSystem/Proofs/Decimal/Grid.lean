import EquationSystem.Proofs.Decimal.Rounding
import Mathlib.Algebra.Order.Round

/-!
# Numbers of few places

The numbers that have at most some number of places behind the point form a grid. Rounding leads to
a point of the grid, keeps the order and leaves the points alone, so that what lies between two
points stays between them. Rounding to nearest leads to the nearest point, and to the one farther
from zero where two are as near.
-/

namespace EquationSystem

namespace Rational

open Decimal (Direction)

variable {places : ℤ} {q r s : ℚ}

/-- The multiples of `10 ^ (-places)`. -/
def grid (places : ℤ) : Set ℚ := {q | ∃ n : ℤ, q = n * 10 ^ (-places)}

theorem grid_subset {places' : ℤ} (h : places ≤ places') : grid places ⊆ grid places' := by
  rintro _ ⟨n, rfl⟩
  refine ⟨n * (10 ^ (places' - places).toNat : ℕ), ?_⟩
  rw [Int.cast_mul, Int.cast_natCast, natCast_pow_toNat (by omega), mul_assoc,
    ← zpow_add₀ (by norm_num)]
  congr 2
  ring

theorem neg_mem_grid (h : q ∈ grid places) : -q ∈ grid places := by
  obtain ⟨n, rfl⟩ := h
  exact ⟨-n, by rw [Int.cast_neg, neg_mul]⟩

/-- A number and a point of the grid, seen at the scale at which the point is an integer. -/
theorem sub_point (q : ℚ) (n : ℤ) (places : ℤ) :
    q - n * 10 ^ (-places) = (q * 10 ^ places - n) * 10 ^ (-places) := by
  rw [sub_mul, mul_assoc, ← zpow_add₀ (by norm_num), Int.add_right_neg, zpow_zero, mul_one]

/-! ## Rounding in one direction -/

theorem roundTo_of_mem_grid (direction : Direction) (h : q ∈ grid places) :
    roundTo direction places q = q := by
  obtain ⟨n, rfl⟩ := h
  rw [roundTo, mul_assoc, ← zpow_add₀ (by norm_num), Int.add_left_neg, zpow_zero, mul_one,
    round_intCast]

theorem abs_sub_round_nearest_le (q : ℚ) : |q - round .nearest q| ≤ 1 / 2 := by
  rw [round]
  split
  · rw [← round_eq]
    exact abs_sub_round q
  · rw [← round_eq, Int.cast_neg, ← abs_neg, neg_sub', neg_neg]
    exact abs_sub_round (-q)

theorem round_mono (direction : Direction) (below : q ≤ r) :
    round direction q ≤ round direction r := by
  cases direction with
  | nearest =>
    refine le_of_not_gt fun apart => ?_
    -- The two errors of a half leave no room for integers in the other order.
    have step : (round .nearest r : ℚ) + 1 ≤ round .nearest q := by
      rw [← Int.cast_one, ← Int.cast_add, Int.cast_le]
      exact Int.add_one_le_of_lt apart
    have left := abs_le.1 (abs_sub_round_nearest_le q)
    have right := abs_le.1 (abs_sub_round_nearest_le r)
    have same : q = r := by linarith
    exact apart.ne (congrArg (round .nearest) same).symm
  | down => exact Int.floor_mono below
  | up => exact Int.ceil_mono below

theorem roundTo_mono (direction : Direction) (places : ℤ) (below : q ≤ r) :
    roundTo direction places q ≤ roundTo direction places r :=
  mul_le_mul_of_nonneg_right
    (Int.cast_le.2 (round_mono direction (mul_le_mul_of_nonneg_right below (unit_pos _).le)))
    (unit_pos _).le

/-! ## Rounding to nearest -/

/-- The number `r` is the multiple of `10 ^ (-places)` that is nearest to `q`, and farthest from
zero if two are as near. -/
structure IsNearest (places : ℤ) (q r : ℚ) : Prop where
  mem : r ∈ grid places
  nearest : ∀ s ∈ grid places, |q - r| ≤ |q - s|
  away : ∀ s ∈ grid places, |q - s| = |q - r| → |s| ≤ |r|

theorem IsNearest.neg (h : IsNearest places q r) : IsNearest places (-q) (-r) := by
  have mirror (s : ℚ) : |-q - s| = |q - -s| := by
    rw [← abs_neg, neg_sub', neg_neg]
  refine ⟨neg_mem_grid h.mem, fun s hs => ?_, fun s hs tie => ?_⟩
  · rw [mirror, mirror, neg_neg]
    exact h.nearest _ (neg_mem_grid hs)
  · rw [mirror, mirror, neg_neg] at tie
    rw [abs_neg, ← abs_neg s]
    exact h.away _ (neg_mem_grid hs) tie

/-- A number between two points of the grid stays between them. -/
theorem IsNearest.point_le (h : IsNearest places q r) (hs : s ∈ grid places) (below : s ≤ q) :
    s ≤ r := by
  by_contra apart
  have near := h.nearest s hs
  rw [abs_of_nonneg (by linarith), abs_of_nonneg (by linarith)] at near
  linarith

theorem IsNearest.le_point (h : IsNearest places q r) (hs : s ∈ grid places) (above : q ≤ s) :
    r ≤ s := by
  have := h.neg.point_le (neg_mem_grid hs) (neg_le_neg above)
  exact neg_le_neg_iff.1 this

theorem round_nearest_neg (q : ℚ) : round .nearest (-q) = -round .nearest q := by
  rcases lt_trichotomy q 0 with neg | rfl | pos
  · rw [round, round, if_pos (by linarith), if_neg (by linarith), neg_neg]
  · rw [neg_zero, ← Int.cast_zero, round_intCast, neg_zero]
  · rw [round, round, if_neg (by linarith), if_pos pos.le, neg_neg]

theorem roundTo_nearest_neg (places : ℤ) (q : ℚ) :
    roundTo .nearest places (-q) = -roundTo .nearest places q := by
  rw [roundTo, roundTo, neg_mul, round_nearest_neg, Int.cast_neg, neg_mul]

/-- Of two integers that are as near to a number that is not negative, the larger one is taken. -/
theorem abs_le_of_tie {n : ℤ} (nonneg : 0 ≤ q) (tie : |q - n| = |q - ⌊q + 1 / 2⌋|) :
    |n| ≤ |⌊q + 1 / 2⌋| := by
  rcases abs_eq_abs.1 tie with same | opposite
  · rw [sub_right_inj, Int.cast_inj] at same
    rw [same]
  · have above := Int.lt_floor_add_one (q + 1 / 2)
    have low : -⌊q + 1 / 2⌋ ≤ n := by
      have : -(⌊q + 1 / 2⌋ : ℚ) ≤ n := by linarith
      exact_mod_cast this
    have high : n < ⌊q + 1 / 2⌋ + 1 := by
      have : (n : ℚ) < ⌊q + 1 / 2⌋ + 1 := by linarith
      exact_mod_cast this
    exact (abs_le.2 ⟨low, by omega⟩).trans (le_abs_self _)

theorem isNearest_roundTo_of_nonneg (places : ℤ) (nonneg : 0 ≤ q) :
    IsNearest places q (roundTo .nearest places q) := by
  have scaled : 0 ≤ q * 10 ^ places := mul_nonneg nonneg (unit_pos _).le
  have unit : 0 < |(10 : ℚ) ^ (-places)| := abs_pos.2 (unit_ne_zero _)
  rw [roundTo, round, if_pos scaled]
  refine ⟨⟨_, rfl⟩, ?nearest, ?away⟩
  case nearest =>
    rintro _ ⟨n, rfl⟩
    rw [sub_point, sub_point, abs_mul, abs_mul _ (10 ^ _), ← round_eq]
    exact mul_le_mul_of_nonneg_right (round_le _ _) unit.le
  case away =>
    rintro _ ⟨n, rfl⟩ tie
    rw [sub_point, sub_point, abs_mul, abs_mul _ (10 ^ _)] at tie
    have within := abs_le_of_tie scaled (mul_right_cancel₀ unit.ne' tie)
    rw [abs_mul, abs_mul, ← Int.cast_abs, ← Int.cast_abs]
    exact mul_le_mul_of_nonneg_right (Int.cast_le.2 within) unit.le

theorem isNearest_roundTo (places : ℤ) (q : ℚ) :
    IsNearest places q (roundTo .nearest places q) := by
  rcases le_total 0 q with nonneg | nonpos
  · exact isNearest_roundTo_of_nonneg places nonneg
  · have := (isNearest_roundTo_of_nonneg places (neg_nonneg.2 nonpos)).neg
    rwa [roundTo_nearest_neg, neg_neg, neg_neg] at this

end Rational

namespace Decimal

open Rational hiding round

variable {x : Decimal} {places : ℤ}

theorem value_mem_grid (h : x.scale ≤ places) : x.value ∈ grid places :=
  grid_subset h ⟨x.digits, rfl⟩

/-! ## Decimals that are rounded already -/

theorem round_of_scale_le (direction : Direction) (h : x.scale ≤ places) :
    x.round direction places = x :=
  if_pos h

theorem scale_round_le (direction : Direction) (x : Decimal) (places : ℤ) :
    (x.round direction places).scale ≤ places := by
  unfold round
  split
  · assumption
  · exact le_rfl

theorem round_round (direction : Direction) (x : Decimal) (places : ℤ) :
    (x.round direction places).round direction places = x.round direction places :=
  round_of_scale_le direction (scale_round_le direction x places)

end Decimal

end EquationSystem
