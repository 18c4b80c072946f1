import EquationSystem.Formula.Parser
import EquationSystem.Formula.Term

/-!
# Equations

An equation gives a name the value of a formula. A formula whose whole text is a numeric literal
is a constant; any other is compiled.
-/

namespace EquationSystem

inductive Formula where
  | constant (value : Decimal)
  /-- A compiled formula, with the names it refers to in the order of their first appearance. -/
  | computed (term : Term) (dependencies : Names)

/-- An equation with the text that its formula was registered with. -/
structure Equation where
  name : String
  raw : String
  formula : Formula

namespace Equation

def dependencies (e : Equation) : List String :=
  match e.formula with
  | .constant _ => []
  | .computed _ dependencies => dependencies.toList

def dependsOn (e : Equation) (name : String) : Bool :=
  match e.formula with
  | .constant _ => false
  | .computed _ dependencies => dependencies.contains name

def evaluate (e : Equation) (b : Bindings) : Except EvalError Value :=
  match e.formula with
  | .constant value => .ok (.number value)
  | .computed term _ => term.eval b

theorem dependsOn_iff {e : Equation} {name : String} :
    e.dependsOn name = true ↔ name ∈ e.dependencies := by
  unfold dependsOn dependencies
  cases e.formula with
  | constant => simp
  | computed _ names => exact names.contains_iff

end Equation

/-- A text without its carriage returns, and without the line feeds that directly follow them. -/
def stripReturns : List Char → List Char
  | [] => []
  | '\r' :: '\n' :: cs => stripReturns cs
  | '\r' :: cs => stripReturns cs
  | c :: cs => c :: stripReturns cs

end EquationSystem
