import EquationSystem.Decimal.Basic

/-!
# Quotients of decimals

A quotient that terminates is exact. Any other is carried to 100 significant digits by long
division and its last digit rounded to nearest, a half away from zero. An integral part longer
than that is kept whole.
-/

namespace EquationSystem

/-- The significant digits to which an unending quotient or root is carried. -/
def precision : Nat := 100

/-- A long division in progress: the digits found, the remainder that is next divided, and the
number of digits found behind the integral part. -/
structure LongDivision where
  quotient : Nat
  remainder : Nat
  places : Nat

namespace LongDivision

/-- Finds at most `room` more digits of a division by `m`, and stops when it comes out even. -/
def extend (m : Nat) : Nat → LongDivision → LongDivision
  | 0, d => d
  | room + 1, d =>
    if d.remainder = 0 then d
    else extend m room
      ⟨d.quotient * 10 + d.remainder / m, d.remainder % m * 10, d.places + 1⟩

def rounded (m : Nat) (d : LongDivision) : Nat :=
  if 0 < d.remainder ∧ 5 ≤ d.remainder / m then d.quotient + 1 else d.quotient

end LongDivision

/-- Appends zeros to a positive `n` until it is at least `m`; `shift` counts them. -/
def raiseTo (m n shift : Nat) (pos : 0 < n) : Nat × Nat :=
  if n < m then raiseTo m (n * 10) (shift + 1) (by omega) else (n, shift)
termination_by m - n

def divideDigits (n m : Nat) (pos : 0 < n) : Nat × Nat :=
  let (n, shift) := raiseTo m n 0 pos
  let q := n / m
  if n % m = 0 then (q, shift)
  else
    let d := LongDivision.extend m (precision - digitCount q) ⟨q, n % m * 10, 0⟩
    (d.rounded m, shift + d.places)

namespace Decimal

/-- The quotient of `a` by a nonzero `b` with as many places as were found. Zero, and what is divided
by a one, stay as written. -/
def quotient (a b : Decimal) : Decimal :=
  if ha : a.isZero || b.isOne then a
  else if a.digits = b.digits then ⟨1, a.scale - b.scale⟩
  else
    let (q, places) := divideDigits a.magnitude b.magnitude (by
      simp only [isZero, Bool.or_eq_true, beq_iff_eq, not_or] at ha
      exact Int.natAbs_pos.2 ha.1)
    ⟨a.digits.sign * b.digits.sign * q, a.scale - b.scale + places⟩

def div (a b : Decimal) (_ : b.isZero = false) : Decimal := (quotient a b).wrapped

end Decimal

end EquationSystem
