/-!
# Decimals with a written scale

A decimal is a pair of digits and a scale and stands for `digits * 10 ^ (-scale)`. Several pairs
stand for one number: `1.50` and `1.5` are different decimals of equal value. Every operation
says which pair it yields, not only which number.

There is no bound on the digits, but a scale is a word of 64 bits. Products, quotients and normal
forms can ask for a scale that is none. They are defined with the scale that they ask for, and what
is computed is that decimal `wrapped`. So is a root, whose scale is a word unless there is no end of
digits.
-/

namespace EquationSystem

-- A power of naturals is that of the core library, whatever else is imported.
attribute [local instance (2000)] instPowNat

/-- The decimal `digits * 10 ^ (-scale)`; a negative scale stands for zeros left of the point. -/
structure Decimal where
  digits : Int
  scale : Int
deriving DecidableEq

/-- The number of decimal digits of `n`; zero has one. -/
def digitCount (n : Nat) : Nat :=
  (Nat.toDigits 10 n).length

/-- `n` without its last `k` digits. A power above `n` is never built. -/
def dropDigits (n k : Nat) : Nat :=
  if n.log2 < k then 0 else n / 10 ^ k

/-- Whether the last `k` digits of `n` are zeros. A power above `n` is never built. -/
def endsInZeros (n k : Nat) : Bool :=
  if n.log2 < k then n == 0 else n % 10 ^ k == 0

theorem lt_ten_pow_of_log2_lt {n k : Nat} (h : n.log2 < k) : n < 10 ^ k :=
  Nat.lt_of_lt_of_le (Nat.lt_of_lt_of_le Nat.lt_log2_self (Nat.pow_le_pow_right (by decide) h))
    (Nat.pow_le_pow_left (by decide) k)

theorem dropDigits_eq (n k : Nat) : dropDigits n k = n / 10 ^ k := by
  unfold dropDigits
  split
  · next h => exact (Nat.div_eq_of_lt (lt_ten_pow_of_log2_lt h)).symm
  · rfl

theorem endsInZeros_iff {n k : Nat} : endsInZeros n k = true ↔ 10 ^ k ∣ n := by
  unfold endsInZeros
  split
  · next h =>
    simp [Nat.dvd_iff_mod_eq_zero, Nat.mod_eq_of_lt (lt_ten_pow_of_log2_lt h)]
  · simp [Nat.dvd_iff_mod_eq_zero]

namespace Decimal

def ofInt (n : Int) : Decimal := ⟨n, 0⟩

instance : Inhabited Decimal := ⟨ofInt 0⟩

def isZero (x : Decimal) : Bool := x.digits == 0

def isNegative (x : Decimal) : Bool := x.digits < 0

/-- The scale is one of 64 bits. -/
def ScaleInRange (x : Decimal) : Prop :=
  -0x8000000000000000 ≤ x.scale ∧ x.scale < 0x8000000000000000

instance (x : Decimal) : Decidable x.ScaleInRange := inferInstanceAs (Decidable (_ ∧ _))

/-- The decimal with its scale as a word. A scale that is out of range wraps around. -/
def wrapped (x : Decimal) : Decimal := ⟨x.digits, (Int64.ofInt x.scale).toInt⟩

theorem scaleInRange_wrapped (x : Decimal) : x.wrapped.ScaleInRange :=
  ⟨Int64.le_toInt _, Int64.toInt_lt _⟩

theorem ScaleInRange.wrapped_eq {x : Decimal} (h : x.ScaleInRange) : x.wrapped = x := by
  rw [wrapped, Int64.toInt_ofInt_of_le h.1 h.2]

def magnitude (x : Decimal) : Nat := x.digits.natAbs

protected def neg (x : Decimal) : Decimal := ⟨-x.digits, x.scale⟩

instance : Neg Decimal := ⟨Decimal.neg⟩

def abs (x : Decimal) : Decimal := ⟨x.magnitude, x.scale⟩

/-- A one written with at most 38 zeros after the point. -/
def isOne (x : Decimal) : Bool :=
  0 ≤ x.scale && x.scale ≤ 38 && x.digits == (10 ^ x.scale.toNat : Nat)

/-- The decimal at scale `t`: zeros are appended, or digits dropped towards zero. -/
def rescale (x : Decimal) (t : Int) : Decimal :=
  if x.isZero then ⟨0, t⟩
  else if x.scale ≤ t then ⟨x.digits * (10 ^ (t - x.scale).toNat : Nat), t⟩
  else ⟨x.digits.sign * dropDigits x.magnitude (x.scale - t).toNat, t⟩

def isInteger (x : Decimal) : Bool :=
  x.scale ≤ 0 || endsInZeros x.magnitude x.scale.toNat

/-- The value, if it is an integer between `-2 ^ 63` and `2 ^ 63 - 1`. Nineteen zeros left of the
point already lead out of that range. -/
def toInt64? (x : Decimal) : Option Int64 :=
  if x.isZero then some 0
  else if !x.isInteger || x.scale ≤ -19 then none
  else
    let n := (x.rescale 0).digits
    if -0x8000000000000000 ≤ n ∧ n < 0x8000000000000000 then some (Int64.ofInt n) else none

end Decimal

end EquationSystem
