import EquationSystem.Binary64.Nearest
import EquationSystem.Decimal.Normal

/-!
# Shortest decimal of a binary64 number

Among the decimals that round to a given number those with the fewest digits are sought, and of
these the one nearest to the number; of two equally near ones the larger is taken.
-/

namespace EquationSystem.Binary64

-- A power of naturals is that of the core library, whatever else is imported.
attribute [local instance (2000)] instPowNat

/-- The numbers that round to `m * 2 ^ q` reach from `low` to `high`, with the ends when `m` is
even. All three are over one denominator. -/
structure Interval where
  low : Nat
  value : Nat
  high : Nat
  den : Nat
  closed : Bool

/-- The interval of a positive finite number, from its bits. Below a power of two the numbers are
twice as dense as above it. -/
def Interval.ofBits (bits : Nat) : Interval :=
  let stored := bits / 2 ^ fractionBits
  let fraction := bits % 2 ^ fractionBits
  let m := if stored = 0 then fraction else fraction + 2 ^ fractionBits
  let q : Int := minExponent + (stored - 1 : Nat)
  let (unit, den) := unscale 1 4 (-q)
  let below := if fraction = 0 ∧ 1 < stored then 1 else 2
  ⟨(4 * m - below) * unit, 4 * m * unit, (4 * m + 2) * unit, den, m % 2 = 0⟩

def Interval.contains (i : Interval) (n : Nat) : Bool :=
  if i.closed then i.low ≤ n && n ≤ i.high else i.low < n && n < i.high

/-- The largest `e` with `10 ^ e ≤ n / m`, for positive `n` and `m`. -/
def ratioLog10 (n m : Nat) : Int :=
  let e : Int := (digitCount n : Int) - digitCount m
  if n * 10 ^ (-e).toNat < m * 10 ^ e.toNat then e - 1 else e

/-- The multiple of `10 ^ p` in the interval that is nearest to its number, if there is one. -/
def Interval.multiple? (i : Interval) (p : Int) : Option Nat :=
  let up := 10 ^ (-p).toNat
  let step := i.den * 10 ^ p.toNat
  let scaled : Interval := ⟨i.low * up, i.value * up, i.high * up, 1, i.closed⟩
  let n := scaled.value / step
  let down := scaled.contains (n * step)
  let above := scaled.contains ((n + 1) * step)
  if down && above then
    some (if 2 * (scaled.value % step) < step then n else n + 1)
  else if down then some n
  else if above then some (n + 1)
  else none

/-- Tries the decimals of one digit, then of two, and so on; `count` bounds the digits left to
try and `p` is the place of the last digit. -/
def Interval.shortest (i : Interval) : Nat → Int → Nat × Int
  | 0, p => (i.value * 10 ^ (-p).toNat / (i.den * 10 ^ p.toNat), p)
  | count + 1, p =>
    match i.multiple? p with
    | some n => (n, p)
    | none => i.shortest count (p - 1)

/-- Seventeen digits tell any two binary64 numbers apart. -/
def maxDigits : Nat := 17

/-- The shortest decimal of the positive finite number with the given bits, without an exponent:
an integer has scale zero and a fraction no trailing zero. -/
def shortestDecimal (bits : Nat) : Decimal :=
  if bits = 0 then Decimal.ofInt 0
  else
    let i := Interval.ofBits bits
    let (n, p) := i.shortest maxDigits (ratioLog10 i.value i.den)
    let x := (Decimal.mk n (-p)).normalize
    if x.scale < 0 then x.rescale 0 else x

def toDecimal? (f : Float) : Option Decimal :=
  if f.isFinite then
    let bits := f.toBits
    let x := shortestDecimal (bits &&& (signBit - 1)).toNat
    some (if bits &&& signBit = 0 then x else -x)
  else none

end EquationSystem.Binary64
