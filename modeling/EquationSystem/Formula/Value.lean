import EquationSystem.Decimal.Binary
import EquationSystem.Decimal.Normal
import EquationSystem.Decimal.Order
import EquationSystem.Decimal.Render

/-!
# Values of formulas

Formulas compute decimals. Comparisons and logical operators yield truth values, which decide
conditions and take no part in arithmetic.
-/

namespace EquationSystem

inductive Value where
  | number (x : Decimal)
  | bool (b : Bool)
deriving DecidableEq

namespace Value

def render : Value → String
  | .number x => x.render
  | .bool true => "true"
  | .bool false => "false"

instance : ToString Value := ⟨render⟩

/-- Whether the value counts as true: numbers do, except zero. -/
def isTruthy : Value → Bool
  | .number x => !x.isZero
  | .bool b => b

def present : Value → Value
  | .number x => .number x.present
  | .bool b => .bool b

/-- The value in binary64, with one and zero for the truth values. -/
def toFloat : Value → Float
  | .number x => x.toFloat
  | .bool b => if b then 1 else 0

/-- Whether two values are the same: numbers by value, and never a number and a truth value. -/
def same : Value → Value → Bool
  | .number x, .number y => x.same y
  | .bool a, .bool b => a == b
  | _, _ => false

end Value

end EquationSystem
