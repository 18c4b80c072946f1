import EquationSystem.Decimal.Basic

/-!
# Rounding to a number of places

A decimal that has no more than the wanted places stays as it is written.
-/

namespace EquationSystem.Decimal

inductive Direction where
  /-- To the nearer neighbour, from the middle away from zero. -/
  | nearest
  /-- To the smaller neighbour. -/
  | down
  /-- To the larger neighbour. -/
  | up
deriving DecidableEq

/-- The digits of `x`, without its sign, after the last `k + 1` of them are rounded away. -/
def roundMagnitude (direction : Direction) (x : Decimal) (k : Nat) : Nat :=
  let truncated := dropDigits x.magnitude (k + 1)
  let exact := endsInZeros x.magnitude (k + 1)
  match direction with
  | .nearest => (dropDigits x.magnitude k + 5) / 10
  | .down => if x.isNegative && !exact then truncated + 1 else truncated
  | .up => if !x.isNegative && !exact then truncated + 1 else truncated

/-- `x` with at most `places` digits behind the point; for negative `places` the rounding is to
tens, hundreds and so on. -/
def round (direction : Direction) (x : Decimal) (places : Int) : Decimal :=
  if x.scale ≤ places then x
  else
    ⟨x.digits.sign * roundMagnitude direction x (x.scale - places - 1).toNat, places⟩

end EquationSystem.Decimal
