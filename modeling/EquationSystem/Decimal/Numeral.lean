import EquationSystem.Decimal.Basic
import EquationSystem.Text.Ascii

/-!
# Reading decimals

`Decimal.parse` converts a text to the decimal with the digits and the scale that the text shows:
`1.50` has scale two and `15e1` has scale minus one. It also takes digits grouped by underscores
and a point without digits after it. `Decimal.literal?` accepts only numeric literals: a sign,
digits with an optional fraction or a fraction alone, and an exponent.
-/

namespace EquationSystem

inductive NumeralError where
  | empty
  | noDigits
  | invalidDigit
  | exponentTooLarge
  | exponentTooSmall
  /-- The scale that `text` asks for does not fit in 64 bits. -/
  | scaleOutOfRange (text : String)
deriving DecidableEq

def NumeralError.message : NumeralError → String
  | .empty => "Failed to parse empty string"
  | .noDigits => "cannot parse integer from empty string"
  | .invalidDigit => "invalid digit found in string"
  | .exponentTooLarge => "number too large to fit in target type"
  | .exponentTooSmall => "number too small to fit in target type"
  | .scaleOutOfRange text => s!"Exponent overflow when parsing '{text}'"

namespace Decimal

/-- Reads digits from the left up to `limit`. A stray character and a number beyond the limit are
told apart by which of them comes first. -/
def readDigits (limit : Nat) (beyond : NumeralError) (acc : Nat) :
    List Char → Except NumeralError Nat
  | [] => .ok acc
  | c :: cs =>
    if !c.isDigit then .error .invalidDigit
    else
      let acc := acc * 10 + (c.toNat - '0'.toNat)
      if limit < acc then .error beyond else readDigits limit beyond acc cs

/-- One more than the largest exponent that can be read: `2 ^ 127`. -/
def exponentBound : Nat := 0x80000000000000000000000000000000

/-- Reads an exponent with an optional sign, from `-exponentBound` up to `exponentBound - 1`. -/
def readExponent : List Char → Except NumeralError Int
  | [] => .error .noDigits
  | ['+'] | ['-'] => .error .invalidDigit
  | '-' :: cs => return -(← readDigits exponentBound .exponentTooSmall 0 cs)
  | '+' :: cs => return ← readDigits (exponentBound - 1) .exponentTooLarge 0 cs
  | cs => return ← readDigits (exponentBound - 1) .exponentTooLarge 0 cs

def startsWith (c : Char) (cs : List Char) : Bool := cs.head? == some c

/-- Splits off a minus, unless a plus follows it. -/
def splitMinus : List Char → Bool × List Char
  | '-' :: cs => if startsWith '+' cs then (false, '-' :: cs) else (true, cs)
  | cs => (false, cs)

/-- Drops a plus, unless another one follows it. -/
def dropPlus : List Char → List Char
  | '+' :: cs => if startsWith '+' cs then '+' :: cs else cs
  | cs => cs

/-- Reads an integer, in which underscores may follow the first digit. -/
def readInteger (cs : List Char) : Except NumeralError Int :=
  let (negative, cs) := splitMinus cs
  match dropPlus cs with
  | [] => .error .noDigits
  | c :: cs =>
    if c.isDigit && cs.all (fun d => d.isDigit || d == '_') then
      let n := Nat.ofDigitChars 10 (c :: cs.filter (· != '_')) 0
      .ok (if negative then -n else n)
    else .error .invalidDigit

/-- Drops the first point and counts the characters after it, apart from underscores. -/
def splitPoint (cs : List Char) : List Char × Nat :=
  match cs.dropWhile (· != '.') with
  | [] => (cs, 0)
  | _ :: fraction => (cs.takeWhile (· != '.') ++ fraction, (fraction.filter (· != '_')).length)

/-- Reads a numeral whose point, if it has one, has a digit before it. -/
def readNumeral (cs : List Char) : Except NumeralError Decimal := do
  let mantissa := cs.takeWhile (!isExponentMark ·)
  let exponent ← match cs.dropWhile (!isExponentMark ·) with
    | [] => pure 0
    | _ :: digits => readExponent digits
  if mantissa.isEmpty then throw .empty
  let (digits, places) := splitPoint mantissa
  let scale := places - exponent
  if scale < -0x8000000000000000 ∨ 0x8000000000000000 ≤ scale then
    throw (.scaleOutOfRange (String.ofList cs))
  return ⟨← readInteger digits, scale⟩

def completeFraction : List Char → List Char
  | '-' :: '.' :: cs => '-' :: '0' :: '.' :: cs
  | '.' :: cs => '0' :: '.' :: cs
  | cs => cs

/-- Converts a text to a decimal. Blanks around the number and one plus before it are ignored. -/
def parse (text : String) : Except NumeralError Decimal :=
  let cs := trimBlanks text.toList
  readNumeral (completeFraction (if startsWith '+' cs then cs.tail else cs))

def isExponentPart : List Char → Bool
  | [] => true
  | c :: cs =>
    isExponentMark c && !(dropSign cs).isEmpty && (dropSign cs).all Char.isDigit

def isLiteral (cs : List Char) : Bool :=
  let cs := dropSign cs
  match cs.dropWhile Char.isDigit with
  | '.' :: rest =>
    !(rest.takeWhile Char.isDigit).isEmpty && isExponentPart (rest.dropWhile Char.isDigit)
  | rest => !(cs.takeWhile Char.isDigit).isEmpty && isExponentPart rest

/-- The value of a text that is a numeric literal, apart from blanks around it. -/
def literal? (text : String) : Option Decimal :=
  if isLiteral (trimBlanks text.toList) then (parse text).toOption else none

end Decimal

end EquationSystem
