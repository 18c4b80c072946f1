import EquationSystem.Decimal.Basic

/-!
# Normal form of decimals

The normal form has no trailing zero among its digits, and zero has scale zero. The presentation
form is the same for fractions and for very large numbers; an integer that ends in at most 64
zeros is written out.
-/

namespace EquationSystem

-- A power of naturals is that of the core library, whatever else is imported.
attribute [local instance (2000)] instPowNat

/-- The number of zeros at the end of `n`; zero counts as having none. -/
def trailingZeros (n : Nat) : Nat :=
  if h : 0 < n ∧ n % 10 = 0 then trailingZeros (n / 10) + 1 else 0
termination_by n
decreasing_by exact Nat.div_lt_self h.1 (by decide)

namespace Decimal

/-- The decimal of equal value whose digits do not end in a zero. -/
def stripped (x : Decimal) : Decimal :=
  if x.isZero then ofInt 0
  else
    let zeros := trailingZeros x.magnitude
    ⟨x.digits.sign * (x.magnitude / 10 ^ zeros : Nat), x.scale - zeros⟩

def normalize (x : Decimal) : Decimal := x.stripped.wrapped

/-- Integers with at most this many trailing zeros are presented in full. -/
def maxPlainZeros : Int := 64

def present (x : Decimal) : Decimal :=
  let y := x.normalize
  if -maxPlainZeros ≤ y.scale ∧ y.scale < 0 then y.rescale 0 else y

end Decimal

end EquationSystem
