import EquationSystem.Formula.EvalError
import EquationSystem.Formula.SyntaxError
import EquationSystem.Text.Quoted

/-!
# Why equations cannot be registered or solved
-/

namespace EquationSystem

/-- What keeps equations from being registered, ordered or solved. -/
inductive SolveError where
  /-- An equation without a name or without a formula. -/
  | missing (name expression : Option String)
  /-- A formula that cannot be read; its text is shown without carriage returns. -/
  | unreadable (name expression : String) (cause : SyntaxError)
  /-- Equations that depend on each other in a circle. -/
  | cycle (names : List String)
  /-- A name without an equation, and the first equation that refers to it. -/
  | unbound (name usedBy expression : String)
  /-- An equation whose formula has no value. -/
  | evaluation (name expression : String) (cause : EvalError)
deriving DecidableEq

namespace SolveError

def kind : SolveError → String
  | .missing .. => "invalid input"
  | .unreadable .. => "parse"
  | .cycle .. => "cycle"
  | .unbound .. => "unbound variable"
  | .evaluation .. => "evaluation"

def orEmpty (text : Option String) : String := text.getD ""

def message : SolveError → String
  | .missing name expression =>
    s!"name or expression can't be missing : '{orEmpty name}', '{orEmpty expression}'"
  | .unreadable name expression cause =>
    "failed to parse " ++ name ++ " := " ++ expression ++ " : " ++ toString cause
  | .cycle names => s!"There's a cycle between the variables : {Quoted.encodeList names}"
  | .unbound name usedBy expression =>
    s!"Unbound variable : {name} used by {usedBy} ({expression})"
  | .evaluation name expression cause =>
    s!"Failed to evaluate {name} due to {cause} in formula {expression}"

def cause? : SolveError → Option String
  | .unreadable _ _ cause => some (toString cause)
  | .evaluation _ _ cause => some (toString cause)
  | _ => none

instance : ToString SolveError := ⟨message⟩

end SolveError

end EquationSystem
