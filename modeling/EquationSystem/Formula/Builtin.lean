import EquationSystem.Text.Ascii

/-!
# Built-in functions of formulas

Functions are called by name, in letters of either case, and each accepts certain numbers of
arguments.
-/

namespace EquationSystem

inductive Builtin where
  | choose
  | sum
  | min
  | max
  | average
  | safeDivide
  | round
  | abs
  | sqrt
  | floor
  | ceiling
  | scoreTable
  | access
  | deviation
deriving DecidableEq

namespace Builtin

def name : Builtin → String
  | .choose => "if"
  | .sum => "sum"
  | .min => "min"
  | .max => "max"
  | .average => "avg"
  | .safeDivide => "safe_div"
  | .round => "round"
  | .abs => "abs"
  | .sqrt => "sqrt"
  | .floor => "floor"
  | .ceiling => "ceiling"
  | .scoreTable => "score_table"
  | .access => "access"
  | .deviation => "stdevp"

def all : List Builtin :=
  [.choose, .sum, .min, .max, .average, .safeDivide, .round, .abs, .sqrt, .floor, .ceiling,
    .scoreTable, .access, .deviation]

/-- The function of a name, whatever the case of its letters. -/
def ofName? (text : String) : Option Builtin :=
  all.find? fun f => f.name == lowerAscii text

def accepts : Builtin → Nat → Bool
  | .choose, count => count == 3
  | .safeDivide, count => count == 2
  | .abs, count | .sqrt, count | .floor, count | .ceiling, count => count == 1
  | .round, count => 1 ≤ count && count ≤ 2
  | .sum, count | .min, count | .max, count | .average, count | .deviation, count => 1 ≤ count
  | .access, count => 2 ≤ count
  -- a value, then rows of three
  | .scoreTable, count => 4 ≤ count && (count - 1) % 3 == 0

def expectation : Builtin → String
  | .choose => "exactly 3 arguments"
  | .safeDivide => "exactly 2 arguments"
  | .abs | .sqrt | .floor | .ceiling => "exactly 1 argument"
  | .round => "1 or 2 arguments"
  | .sum | .min | .max | .average | .deviation => "at least 1 argument"
  | .access => "at least 2 arguments"
  | .scoreTable => "a value followed by (lower, upper, score) triples"

def countMessage (f : Builtin) (given : Nat) : String :=
  s!"`{f.name}` expects {f.expectation} but was given {given}"

end Builtin

end EquationSystem
