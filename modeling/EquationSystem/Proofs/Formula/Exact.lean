import EquationSystem.Formula.Term
import EquationSystem.Proofs.Decimal.Comparison
import EquationSystem.Proofs.Decimal.Rounding

/-!
# Formulas over exact rationals

The value of a formula as a rational number or a truth value, without decimals, scales or compiled
terms. Operands are computed in the order in which a compiled formula computes them, as the order
decides which of two failures is met first; of a failure only the kind is told. Quotients, powers
and the functions that are made of quotients and roots leave the fragment on which this is the
meaning of a formula (`Expr.isExact`); they have no value here.
-/

namespace EquationSystem

open EvalError (Kind)

/-- A value, apart from the way in which it is written. -/
inductive Exact where
  | number (q : ℚ)
  | bool (b : Bool)
deriving DecidableEq

/-- An operand or argument, computed exactly. -/
abbrev ExactResult : Type := Except Kind Exact

namespace Exact

def toNumber : Exact → Except Kind ℚ
  | .number q => .ok q
  | .bool _ => .error .type

def isTruthy : Exact → Bool
  | .number q => q ≠ 0
  | .bool b => b

def equal : Exact → Exact → Except Kind Bool
  | .number p, .number q => .ok (p = q)
  | .bool a, .bool b => .ok (a = b)
  | _, _ => .error .type

end Exact

def ExactResult.toNumber (operand : ExactResult) : Except Kind ℚ := do
  (← operand).toNumber

/-! ## Operators -/

def UnaryOp.applyExact : UnaryOp → Exact → ExactResult
  | .negate, v => return .number (-(← v.toNumber))
  | .plus, v => return .number (← v.toNumber)
  | .not, v => return .bool !v.isTruthy

namespace BinaryOp

/-- Operators that lead from rationals to rationals without an approximation. -/
def isExact : BinaryOp → Bool
  | .divide | .power => false
  | _ => true

/-- The right operand fails before the left one is found not to be a number. -/
def compareExact (test : ℚ → ℚ → Bool) (lhs : Exact) (rhs : ExactResult) : ExactResult := do
  let rhs ← rhs
  return .bool (test (← lhs.toNumber) (← rhs.toNumber))

/-- The left operand is found not to be a number before the right one fails. -/
def combineExact (f : ℚ → ℚ → Except Kind ℚ) (lhs : Exact) (rhs : ExactResult) :
    ExactResult := do
  let lhs ← lhs.toNumber
  return .number (← f lhs (← rhs.toNumber))

def applyExact (op : BinaryOp) (lhs : Exact) (rhs : ExactResult) : ExactResult :=
  match op with
  | .and => if lhs.isTruthy then return .bool (← rhs).isTruthy else return .bool false
  | .or => if lhs.isTruthy then return .bool true else return .bool (← rhs).isTruthy
  | .equal => return .bool (← lhs.equal (← rhs))
  | .notEqual => return .bool !(← lhs.equal (← rhs))
  | .less => compareExact (fun p q => p < q) lhs rhs
  | .lessEqual => compareExact (fun p q => p ≤ q) lhs rhs
  | .greater => compareExact (fun p q => q < p) lhs rhs
  | .greaterEqual => compareExact (fun p q => q ≤ p) lhs rhs
  | .add => combineExact (fun p q => .ok (p + q)) lhs rhs
  | .subtract => combineExact (fun p q => .ok (p - q)) lhs rhs
  | .multiply => combineExact (fun p q => .ok (p * q)) lhs rhs
  | .remainder =>
    combineExact (fun p q => if q = 0 then .error .divisionByZero else .ok (Rational.remainder p q))
      lhs rhs
  | .divide | .power => .error .domain

end BinaryOp

/-! ## Functions -/

namespace Builtin

/-- Functions that lead from rationals to rationals without an approximation. -/
def isExact : Builtin → Bool
  | .average | .safeDivide | .sqrt | .deviation => false
  | _ => true

def exactPlaces (q : ℚ) : Except Kind ℤ :=
  match Rational.toInt64? q with
  | some n => if -EvalError.maxPlaces ≤ n ∧ n ≤ EvalError.maxPlaces then .ok n else .error .domain
  | none => .error .domain

def exactMember (qs : List ℚ) (index : ℚ) : Except Kind ℚ :=
  match Rational.toInt64? index with
  | some n => if n < 0 then .error .domain else (qs[n.toNat]?).elim (.error .domain) .ok
  | none => .error .domain

def ofRationals (f : Builtin) (qs : List ℚ) : Except Kind ℚ :=
  match f, qs with
  | .sum, qs => .ok qs.sum
  | .min, qs => qs.min?.elim (.error .domain) .ok
  | .max, qs => qs.max?.elim (.error .domain) .ok
  | .abs, [q] => .ok |q|
  | .floor, [q] => .ok ⌊q⌋
  | .ceiling, [q] => .ok ⌈q⌉
  | .scoreTable, q :: rows =>
    if rows.isEmpty || rows.length % 3 != 0 then .error .domain
    else .ok (Rational.lookUpScore q rows)
  | .access, qs => qs.getLast?.elim (.error .domain) (exactMember qs.dropLast)
  | _, _ => .error .domain

def applyExact (f : Builtin) (args : List ExactResult) : ExactResult :=
  match f, args with
  | .choose, [condition, yes, no] => do
    if (← condition).isTruthy then yes else no
  | .round, [x] => return .number (Rational.roundTo .nearest 0 (← x.toNumber))
  | .round, [x, digits] => do
    let n ← exactPlaces (← digits.toNumber)
    return .number (Rational.roundTo .nearest n (← x.toNumber))
  | .choose, _ | .round, _ => .error .domain
  | f, args => return .number (← f.ofRationals (← args.mapM ExactResult.toNumber))

end Builtin

/-! ## Expressions -/

namespace Expr

mutual

/-- Whether a formula is made of exact operators and functions only. -/
def isExact : Expr → Bool
  | .number _ | .bool _ | .reference _ => true
  | .unary _ operand => operand.isExact
  | .binary op lhs rhs => op.isExact && lhs.isExact && rhs.isExact
  | .chain first rest => first.isExact && chainIsExact rest
  | .call name args _ => (Builtin.ofName? name).all Builtin.isExact && argumentsAreExact args

def chainIsExact : List (BinaryOp × Expr) → Bool
  | [] => true
  | (op, operand) :: rest => op.isExact && operand.isExact && chainIsExact rest

def argumentsAreExact : List Expr → Bool
  | [] => true
  | arg :: args => arg.isExact && argumentsAreExact args

end

variable (values : String → Option Exact)

mutual

/-- The exact value of a formula, given those of the names. -/
def denote : Expr → ExactResult
  | .number text =>
    match Decimal.parse text with
    | .ok x => .ok (.number x.value)
    | .error _ => .error .domain
  | .bool value => .ok (.bool value)
  | .reference name => (values name).elim (.error .unbound) .ok
  | .unary op operand => do op.applyExact (← operand.denote)
  | .binary op lhs rhs => do op.applyExact (← lhs.denote) rhs.denote
  | .chain first rest => do denoteChain (← first.denote) rest
  | .call name args _ =>
    match Builtin.ofName? name with
    | some f => f.applyExact (denoteArguments args)
    | none => .error .domain

def denoteChain (lhs : Exact) : List (BinaryOp × Expr) → ExactResult
  | [] => .ok lhs
  | (op, rhs) :: rest => do denoteChain (← op.applyExact lhs rhs.denote) rest

def denoteArguments : List Expr → List ExactResult
  | [] => []
  | arg :: args => arg.denote :: denoteArguments args

end

end Expr

end EquationSystem
