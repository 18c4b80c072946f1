import EquationSystem.Binary64.Shortest
import EquationSystem.Decimal.Arithmetic
import EquationSystem.Decimal.Rounding
import EquationSystem.Decimal.SquareRoot
import EquationSystem.Formula.EvalError

/-!
# Arithmetic that can fail

The operations of formulas on decimals: those that are not defined everywhere, and those on lists
of numbers.
-/

namespace EquationSystem.Decimal

def divide (a b : Decimal) : Except EvalError Decimal :=
  if h : b.isZero = false then .ok (a.div b h) else .error .divisionByZero

def remainder (a b : Decimal) : Except EvalError Decimal :=
  if h : b.isZero = false then .ok (a.rem b h) else .error .divisionByZero

def maxExactExponent : Int64 := 1024

/-- The exponent as a 64-bit word, if it is an integer small enough for an exact power. The size
is tested on words, so that the least word, whose size is no word, passes as well. -/
def exactExponent? (x : Decimal) : Option Int64 :=
  x.toInt64?.filter fun n => n.abs ≤ maxExactExponent

def floatPower (base exponent : Decimal) : Except EvalError Decimal :=
  match Binary64.toDecimal? (base.toFloat.pow exponent.toFloat) with
  | some x => .ok x
  | none => .error (.notReal base exponent)

/-- The power: exact for small integral exponents, with a division for the negative ones, and in
binary64 otherwise. -/
def power (base exponent : Decimal) : Except EvalError Decimal :=
  match exponent.exactExponent? with
  | none => floatPower base exponent
  | some n =>
    let p := base.pow n.toInt.natAbs
    if n < 0 then divide (ofInt 1) p else .ok p

def squareRoot (x : Decimal) : Except EvalError Decimal :=
  if x.isNegative then .error (.negativeRoot x) else .ok x.sqrt

/-- The first of the members that no other precedes in `order`. -/
def extremum? (order : Ordering) : List Decimal → Option Decimal
  | [] => none
  | x :: xs => some (xs.foldl (fun best y => if compare y best = order then y else best) x)

def mean (xs : List Decimal) : Except EvalError Decimal :=
  divide (sumAligned xs) (ofInt xs.length)

def deviation (xs : List Decimal) : Except EvalError Decimal := do
  let average ← mean xs
  let squares := xs.map fun x => square (aligned (· - ·) x average)
  squareRoot (← mean squares)

/-- The score of the first row `lower, upper, score` with `lower ≤ x < upper`, or zero. Numbers
after the last whole row are not looked at. -/
def lookUpScore (x : Decimal) : List Decimal → Decimal
  | lower :: upper :: score :: rows =>
    if lower.le x && x.lt upper then score else lookUpScore x rows
  | _ => ofInt 0

end EquationSystem.Decimal
