import EquationSystem.Decimal.Basic

/-!
# Order of decimals by value

`2.0` and `2` compare as equal. Two numbers far apart are told apart by the position of their
leading digits, so comparing never writes out an exponent.
-/

namespace EquationSystem.Decimal

-- A power of naturals is that of the core library, whatever else is imported.
attribute [local instance (2000)] instPowNat

/-- A nonzero decimal lies between `10 ^ (x.leading - 1)` and `10 ^ x.leading`. -/
def leading (x : Decimal) : Int := digitCount x.magnitude - x.scale

/-- The digits of the number, without its sign, when it is written at scale `t`. -/
def magnitudeAt (x : Decimal) (t : Int) : Nat := x.magnitude * 10 ^ (t - x.scale).toNat

/-- Compares two nonzero numbers without their signs. Only numbers with the same leading position
are brought to a common scale, and then their scales differ no more than their digit counts. -/
def compareMagnitudes (a b : Decimal) : Ordering :=
  (compare a.leading b.leading).then
    (compare (a.magnitudeAt (max a.scale b.scale)) (b.magnitudeAt (max a.scale b.scale)))

/-- The order by value. -/
protected def compare (a b : Decimal) : Ordering :=
  match compare a.digits.sign b.digits.sign with
  | .eq =>
    if a.isZero then .eq
    else if a.isNegative then b.compareMagnitudes a
    else a.compareMagnitudes b
  | order => order

instance : Ord Decimal := ⟨Decimal.compare⟩

def same (a b : Decimal) : Bool := compare a b == .eq

def lt (a b : Decimal) : Bool := compare a b == .lt

def le (a b : Decimal) : Bool := compare a b != .gt

end EquationSystem.Decimal
