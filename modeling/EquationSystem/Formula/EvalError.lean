import EquationSystem.Formula.Builtin
import EquationSystem.Formula.Value

/-!
# Why a formula has no value
-/

namespace EquationSystem

/-- What keeps a formula from having a value. -/
inductive EvalError where
  | unbound (name : String)
  | notANumber (found : Value)
  | notABoolean (found : Value)
  | divisionByZero
  | notReal (base exponent : Decimal)
  | negativeRoot (x : Decimal)
  | placesNotInteger (x : Decimal)
  | placesOutOfRange (n : Int)
  | indexNotInteger (x : Decimal)
  | indexOutOfRange (index : Int) (count : Nat)
  /-- A call with a number of arguments that the function does not accept. -/
  | argumentCount (builtin : Builtin) (given : Nat)
deriving DecidableEq

inductive EvalError.Kind where
  | unbound
  | type
  | divisionByZero
  | domain
deriving DecidableEq

namespace EvalError

/-- Places behind and before the point to which a number can be rounded. -/
def maxPlaces : Int := 1000

def kind : EvalError → Kind
  | .unbound _ => .unbound
  | .notANumber _ | .notABoolean _ => .type
  | .divisionByZero => .divisionByZero
  | _ => .domain

/-- What was expected where a value has the wrong type. -/
def expected : EvalError → Option String
  | .notANumber _ => some "a number"
  | .notABoolean _ => some "a boolean"
  | _ => none

def message : EvalError → String
  | .unbound name => s!"unbound variable {name}"
  | .notANumber found => s!"expected a number but found {found}"
  | .notABoolean found => s!"expected a boolean but found {found}"
  | .divisionByZero => "divided by 0"
  | .notReal base exponent => s!"{base} ^ {exponent} is not a real number"
  | .negativeRoot x => s!"square root of negative number {x}"
  | .placesNotInteger x => s!"round digits must be an integer but was {x}"
  | .placesOutOfRange n =>
    s!"round digits must be between -{maxPlaces} and {maxPlaces} but was {n}"
  | .indexNotInteger x => s!"access index must be an integer but was {x}"
  | .indexOutOfRange index count => s!"index {index} out of range for {count} values"
  | .argumentCount builtin given => builtin.countMessage given

instance : ToString EvalError := ⟨message⟩

end EvalError

end EquationSystem
