import EquationSystem.Decimal.Normal

/-!
# Sums, differences, products and remainders

Results are exact as long as their scale is a word. It is that of the written operands: the larger
one for sums and remainders, the sum of both for products. Adding a zero or multiplying by a one
keeps the other operand as it is written.
-/

namespace EquationSystem.Decimal

/-- Applies `f` to the digits of both decimals at their common scale, and keeps that scale. -/
def aligned (f : Int → Int → Int) (a b : Decimal) : Decimal :=
  let t := max a.scale b.scale
  ⟨f (a.rescale t).digits (b.rescale t).digits, t⟩

protected def add (a b : Decimal) : Decimal :=
  if b.isZero then a.rescale (max a.scale b.scale)
  else if a.isZero then b.rescale (max a.scale b.scale)
  else aligned (· + ·) a b

/-- Subtracting zero leaves the scale alone, and so does subtracting from zero. -/
protected def sub (a b : Decimal) : Decimal :=
  if b.isZero then a
  else if a.isZero then -b
  else aligned (· - ·) a b

def product (a b : Decimal) : Decimal :=
  if a.isOne then b
  else if b.isOne then a
  else ⟨a.digits * b.digits, a.scale + b.scale⟩

protected def mul (a b : Decimal) : Decimal := (product a b).wrapped

instance : Add Decimal := ⟨Decimal.add⟩
instance : Sub Decimal := ⟨Decimal.sub⟩
instance : Mul Decimal := ⟨Decimal.mul⟩

/-- The exact product in which a factor one brings the other factor into normal form. -/
def productNormal (a b : Decimal) : Decimal :=
  if a.isOne then b.stripped
  else if b.isOne then a.stripped
  else ⟨a.digits * b.digits, a.scale + b.scale⟩

def mulNormal (a b : Decimal) : Decimal := (productNormal a b).wrapped

/-- The remainder, with the sign of the dividend. -/
def rem (a b : Decimal) (_ : b.isZero = false) : Decimal := aligned Int.tmod a b

def sum (xs : List Decimal) : Decimal := xs.foldl (· + ·) (ofInt 0)

/-- The sum of a list at the largest scale of its members, zero at least. -/
def sumAligned (xs : List Decimal) : Decimal := xs.foldl (aligned (· + ·)) (ofInt 0)

def square (x : Decimal) : Decimal := mulNormal x x

/-- `x ^ n` from the binary digits of `n`: `acc` has the powers already multiplied in and `x` is
the square that belongs to the lowest binary digit left. -/
def powAux (acc x : Decimal) (n : Nat) : Decimal :=
  if h : n = 0 then acc
  else
    let acc := if n % 2 = 1 then mulNormal acc x else acc
    if n / 2 = 0 then acc else powAux acc (square x) (n / 2)
termination_by n
decreasing_by exact Nat.div_lt_self (Nat.pos_of_ne_zero h) (by decide)

/-- The `n`-th power, with `0 ^ 0 = 1`. -/
def pow (x : Decimal) (n : Nat) : Decimal := powAux (ofInt 1) x n

end EquationSystem.Decimal
