/-!
# Nearest binary64 number

A positive finite number of the binary64 format is `m * 2 ^ q` with `m < 2 ^ 53` and
`-1074 ≤ q ≤ 971`, and its bits count these numbers in increasing order. A ratio of naturals is
rounded to the nearest of them, from the middle to the one with even `m`.
-/

namespace EquationSystem.Binary64

-- A power of naturals is that of the core library, whatever else is imported.
attribute [local instance (2000)] instPowNat

/-- The exponent of two that belongs to the smallest positive number. -/
def minExponent : Int := -1074

def fractionBits : Nat := 52

/-- The bits of infinity; those of a finite positive number are smaller. -/
def infinityBits : Nat := 0x7FF0000000000000

def signBit : UInt64 := 0x8000000000000000

/-- `n / m` rounded to the nearest integer, from the middle to the even one. -/
def divideToEven (n m : Nat) : Nat :=
  let q := n / m
  let r := n % m
  if m < 2 * r ∨ (2 * r = m ∧ q % 2 = 1) then q + 1 else q

/-- `n * 2 ^ (-e) / m`, as a numerator and a denominator. -/
def unscale (n m : Nat) (e : Int) : Nat × Nat :=
  (n * 2 ^ (-e).toNat, m * 2 ^ e.toNat)

/-- The largest `e` with `2 ^ e ≤ n / m`, for positive `n` and `m`. -/
def ratioLog2 (n m : Nat) : Int :=
  let e : Int := n.log2 - m.log2
  let (a, b) := unscale n m e
  if a < b then e - 1 else e

/-- The bits of the binary64 number nearest to `n / m`, for a positive `m`. With
`m * 2 ^ q` rounded to 53 bits or fewer, they are `(q + 1074) * 2 ^ 52 + m` also when the rounding
carries into the next power of two. -/
def nearestBits (n m : Nat) : Nat :=
  if n = 0 then 0
  else
    let q := max (ratioLog2 n m - fractionBits) minExponent
    let (a, b) := unscale n m q
    min ((q - minExponent).toNat * 2 ^ fractionBits + divideToEven a b) infinityBits

def withSign (negative : Bool) (bits : Nat) : Float :=
  Float.ofBits (if negative then signBit ||| bits.toUInt64 else bits.toUInt64)

end EquationSystem.Binary64
