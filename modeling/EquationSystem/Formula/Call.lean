import EquationSystem.Formula.Operator

/-!
# Meaning of the built-in functions

Arguments are suspended and computed from the left, with two exceptions: a choice computes only
the branch it takes, and rounding computes the number of places before the number. A call whose
arguments do not have the shape that its function needs fails as such.
-/

namespace EquationSystem.Builtin

def numbers (args : List Suspended) : Except EvalError (List Decimal) :=
  args.mapM Suspended.toNumber

def places (x : Decimal) : Except EvalError Int :=
  match x.toInt64? with
  | none => .error (.placesNotInteger x)
  | some n =>
    if -EvalError.maxPlaces ≤ n.toInt ∧ n.toInt ≤ EvalError.maxPlaces then .ok n.toInt
    else .error (.placesOutOfRange n.toInt)

def memberAt (xs : List Decimal) (index : Decimal) : Except EvalError Decimal :=
  match index.toInt64? with
  | none => .error (.indexNotInteger index)
  | some n =>
    if n < 0 then .error (.indexOutOfRange n.toInt xs.length)
    else
      match xs[n.toInt.toNat]? with
      | some x => .ok x
      | none => .error (.indexOutOfRange n.toInt xs.length)

/-- What a function makes of a list of numbers, or `none` where it accepts no such list. -/
def ofNumbers? (f : Builtin) (xs : List Decimal) : Option (Except EvalError Decimal) :=
  match f, xs with
  | .sum, xs => some (.ok (Decimal.sum xs))
  | .min, xs => (Decimal.extremum? .lt xs).map .ok
  | .max, xs => (Decimal.extremum? .gt xs).map .ok
  | .average, x :: xs => some (Decimal.mean (x :: xs))
  | .deviation, x :: xs => some (Decimal.deviation (x :: xs))
  | .safeDivide, [x, y] => some (if y.isZero then .ok (.ofInt 0) else x.divide y)
  | .abs, [x] => some (.ok x.abs)
  | .sqrt, [x] => some x.squareRoot
  | .floor, [x] => some (.ok (x.round .down 0))
  | .ceiling, [x] => some (.ok (x.round .up 0))
  | .scoreTable, x :: rows =>
    if rows.isEmpty || rows.length % 3 != 0 then none else some (.ok (x.lookUpScore rows))
  | .access, xs =>
    match xs.getLast? with
    | some index => some (memberAt xs.dropLast index)
    | none => none
  | _, _ => none

def apply (f : Builtin) (args : List Suspended) : Except EvalError Value :=
  match f, args with
  | .choose, [condition, yes, no] => do
    if (← condition ()).isTruthy then yes () else no ()
  | .round, [x] => return .number ((← x.toNumber).round .nearest 0)
  | .round, [x, digits] => do
    let n ← places (← digits.toNumber)
    return .number ((← x.toNumber).round .nearest n)
  | .choose, _ | .round, _ => .error (.argumentCount f args.length)
  | _, _ => do
    match f.ofNumbers? (← numbers args) with
    | some result => return .number (← result)
    | none => throw (.argumentCount f args.length)

end EquationSystem.Builtin
