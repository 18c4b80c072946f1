import EquationSystem.Binary64.Nearest
import EquationSystem.Decimal.Basic

/-!
# From decimals to binary64

A number with many digits loses its last ones, nineteen at a time, before it is converted. A
fraction is then rounded once. An integer with an exponent is rounded and multiplied by a power of
ten, each step in binary64.
-/

namespace EquationSystem.Decimal

-- A power of naturals is that of the core library, whatever else is imported.
attribute [local instance (2000)] instPowNat

open Binary64

/-- `x ^ n` by repeated squaring, with `acc` already multiplied in. -/
def floatPowerAux (acc x : Float) (n : Nat) : Float :=
  let acc := if n % 2 = 1 then acc * x else acc
  if n < 2 then acc else floatPowerAux acc (x * x) (n / 2)
termination_by n

def floatPowerOfTen (n : Nat) : Float := floatPowerAux 1 10 n

def estimatedDigits (n : Nat) : Nat :=
  let bits := if n = 0 then 0 else n.log2 + 1
  (bits + 1) * 30102999566398119521373889472449 / 100000000000000000000000000000000

/-- How many groups of nineteen digits are cut off before the conversion. -/
def surplusGroups (n : Nat) : Nat := (estimatedDigits n - 25) / 19

/-- The bits of the number nearest to `n * 10 ^ (-places)`. A fraction far below the smallest
positive number is zero and its power of ten is never built. -/
def fractionBits (n places : Nat) : Nat :=
  if digitCount n + 330 < places then 0 else nearestBits n (10 ^ places)

/-- The binary64 number for a decimal. A scale beyond 32 bits gives an infinity, whatever its
sign. -/
def toFloat (x : Decimal) : Float :=
  if x.isZero then 0
  else if x.scale = 0 then withSign x.isNegative (nearestBits x.magnitude 1)
  else
    let groups := surplusGroups x.magnitude
    let n := x.magnitude / 10 ^ (19 * groups)
    let scale := x.scale - 19 * groups
    if scale ≤ -0x80000000 ∨ 0x80000000 ≤ scale then withSign x.isNegative infinityBits
    else if scale ≤ 0 then
      withSign x.isNegative (nearestBits n 1) * floatPowerOfTen scale.natAbs
    else withSign x.isNegative (fractionBits n scale.toNat)

end EquationSystem.Decimal
