import EquationSystem.Decimal.Quotient

/-!
# Square roots of decimals

The root is carried to well over 100 digits in integers and then rounded to exactly 100, a half
going to the even neighbour. A zero or a one is its own root, as written.
-/

namespace EquationSystem

-- A power of naturals is that of the core library, whatever else is imported.
attribute [local instance (2000)] instPowNat

/-- Heron's iteration from above: the guess falls until it is the integer root. -/
def rootBelow (n guess : Nat) : Nat :=
  let next := (guess + n / guess) / 2
  if next < guess then rootBelow n next else guess
termination_by guess

/-- The largest integer whose square is at most `n`. -/
def integerRoot (n : Nat) : Nat :=
  if n ≤ 1 then n else rootBelow n (2 ^ (n.log2 / 2 + 1))

/-- `n` without its last `k` digits, rounded to nearest, from the middle to the even neighbour. -/
def roundHalfEven (n k : Nat) : Nat :=
  let q := n / 10 ^ k
  let r := n % 10 ^ k
  if 10 ^ k < 2 * r ∨ (2 * r = 10 ^ k ∧ q % 2 = 1) then q + 1 else q

namespace Decimal

def sqrt (x : Decimal) : Decimal :=
  if x.isZero || x.isOne then x
  else
    let room := 2 * (precision + 5) - digitCount x.magnitude
    let room : Nat := if (x.scale - room) % 2 = 0 then room else room + 1
    let root := integerRoot (x.magnitude * 10 ^ room)
    let surplus := digitCount root - precision
    wrapped ⟨roundHalfEven root surplus, (x.scale + room) / 2 - surplus⟩

end Decimal

end EquationSystem
