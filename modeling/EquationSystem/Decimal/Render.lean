import EquationSystem.Decimal.Basic

/-!
# Written form of decimals

A decimal is written with all its digits and with as many places as its scale says. Where that
would need a long run of zeros the exponent is written instead: as `1.23E-8` when more than five
zeros would stand between the point and the digits, and as `15e+16` when more than fifteen would
follow the digits.
-/

namespace EquationSystem.Decimal

def maxLeadingZeros : Int := 5

def maxTrailingZeros : Int := 15

/-- Digits with a point before the last `places` of them, and a zero where none would stand in
front of the point. -/
def renderPlain (digits : List Char) (places : Nat) : List Char :=
  if places < digits.length then
    digits.take (digits.length - places) ++ '.' :: digits.drop (digits.length - places)
  else
    '0' :: '.' :: (List.replicate (places - digits.length) '0' ++ digits)

/-- Digits with a point after the first, if there are more, and an exponent of ten. -/
def renderScientific (digits : List Char) (exponent : Int) : List Char :=
  let mantissa := match digits with
    | first :: second :: rest => first :: '.' :: second :: rest
    | short => short
  mantissa ++ 'E' :: (toString exponent).toList

def renderMagnitude (x : Decimal) : List Char :=
  let digits := Nat.toDigits 10 x.magnitude
  let s := if x.isZero then 0 else x.scale
  if 0 < s ∧ maxLeadingZeros < s - digits.length then
    renderScientific digits (digits.length - s - 1)
  else if maxTrailingZeros < -s then
    digits ++ 'e' :: '+' :: Nat.toDigits 10 s.natAbs
  else if s ≤ 0 then
    digits ++ List.replicate s.natAbs '0'
  else
    renderPlain digits s.toNat

def render (x : Decimal) : String :=
  String.ofList (if x.isNegative then '-' :: renderMagnitude x else renderMagnitude x)

instance : ToString Decimal := ⟨render⟩

end EquationSystem.Decimal
