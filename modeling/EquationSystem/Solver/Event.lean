import EquationSystem.Formula.Tree
import EquationSystem.Json.Printer
import EquationSystem.Solver.Error

/-!
# Events

What a solver reports while it works, besides its answers.
-/

namespace EquationSystem

inductive Event where
  | failed (error : SolveError)
  /-- A formula is no expression. -/
  | unreadable (name raw : String)
  /-- A formula, without carriage returns, and its expression. -/
  | tree (name expression : String) (expr : Expr)
  /-- This number of equations is about to be evaluated. -/
  | solving (count : Nat)
  | evaluated (name : String) (value : Value)

namespace Event

/-- Whether the event reports an error; the others only show what goes on. -/
def isError : Event → Bool
  | .failed _ => true
  | _ => false

def fields : Event → List (String × String)
  | .failed error =>
    [("message", error.message), ("kind", error.kind),
      ("causes", Quoted.encodeList error.cause?.toList)]
  | .unreadable name raw =>
    [("message", "formula failed to parse"), ("name", name), ("raw_expression", raw)]
  | .tree name expression expr =>
    [("name", name), ("expression", expression), ("ast", expr.toJson.pretty)]
  | .solving count => [("message", "solving"), ("equations", toString count)]
  | .evaluated name value => [("message", "evaluated"), ("name", name), ("value", value.render)]

end Event

structure Reply (α : Type) where
  events : List Event
  result : Except SolveError α

/-- The answer of an operation, with an event at the end if it is an error. -/
def Reply.ofResult {α : Type} (events : List Event) : Except SolveError α → Reply α
  | .ok a => ⟨events, .ok a⟩
  | .error e => ⟨events ++ [.failed e], .error e⟩

end EquationSystem
