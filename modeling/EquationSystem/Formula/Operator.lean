import EquationSystem.Formula.Arithmetic
import EquationSystem.Formula.Expr

/-!
# Meaning of the operators

The right operand of a binary operator is suspended: `and` and `or` compute it only where the left
one does not decide, and every other operator says when it does.
-/

namespace EquationSystem

/-- An operand or argument that is computed when it is asked for. -/
abbrev Suspended : Type := Unit → Except EvalError Value

namespace Value

def toNumber : Value → Except EvalError Decimal
  | .number x => .ok x
  | .bool b => .error (.notANumber (.bool b))

/-- Equality of two values of one type, with numbers equal by value. -/
def equal : Value → Value → Except EvalError Bool
  | .number x, .number y => .ok (x.same y)
  | .bool a, .bool b => .ok (a == b)
  | .number _, .bool b => .error (.notANumber (.bool b))
  | .bool _, .number y => .error (.notABoolean (.number y))

end Value

def Suspended.toNumber (operand : Suspended) : Except EvalError Decimal := do
  (← operand ()).toNumber

namespace UnaryOp

def apply : UnaryOp → Value → Except EvalError Value
  | .negate, v => return .number (-(← v.toNumber))
  | .plus, v => return .number (← v.toNumber)
  | .not, v => return .bool !v.isTruthy

end UnaryOp

namespace BinaryOp

/-- Computes the right operand, and only then finds out whether the left one is a number. -/
def compareWith (test : Decimal → Decimal → Bool) (lhs : Value) (rhs : Suspended) :
    Except EvalError Value := do
  let rhs ← rhs ()
  return .bool (test (← lhs.toNumber) (← rhs.toNumber))

/-- Finds out whether the left operand is a number, and only then computes the right one. -/
def combineWith (f : Decimal → Decimal → Except EvalError Decimal) (lhs : Value)
    (rhs : Suspended) : Except EvalError Value := do
  let lhs ← lhs.toNumber
  return .number (← f lhs (← rhs.toNumber))

def apply (op : BinaryOp) (lhs : Value) (rhs : Suspended) : Except EvalError Value :=
  match op with
  | .and => if lhs.isTruthy then return .bool (← rhs ()).isTruthy else return .bool false
  | .or => if lhs.isTruthy then return .bool true else return .bool (← rhs ()).isTruthy
  | .equal => return .bool (← lhs.equal (← rhs ()))
  | .notEqual => return .bool !(← lhs.equal (← rhs ()))
  | .less => compareWith Decimal.lt lhs rhs
  | .lessEqual => compareWith Decimal.le lhs rhs
  | .greater => compareWith (fun x y => y.lt x) lhs rhs
  | .greaterEqual => compareWith (fun x y => y.le x) lhs rhs
  | .add => combineWith (fun x y => .ok (x + y)) lhs rhs
  | .subtract => combineWith (fun x y => .ok (x - y)) lhs rhs
  | .multiply => combineWith (fun x y => .ok (x * y)) lhs rhs
  | .divide => combineWith Decimal.divide lhs rhs
  | .remainder => combineWith Decimal.remainder lhs rhs
  | .power => do
    let rhs ← rhs ()
    return .number (← (← lhs.toNumber).power (← rhs.toNumber))

end BinaryOp

end EquationSystem
