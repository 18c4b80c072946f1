import EquationSystem.Json.Printer
import EquationSystem.Json.Reader
import EquationSystem.Problem.FileError
import EquationSystem.Problem.Options
import EquationSystem.Solver.Basic

/-!
# Problems

A problem is a JSON object whose fields are equations: every key is a name, and its value is the
formula, as a string or as a number. The answer is a JSON object with the values of all names, or
a JSON array with the order in which they are solved.
-/

namespace EquationSystem

namespace Problem

inductive Failure where
  | unreadableFile (path : String) (error : FileError)
  | unreadableInput (error : FileError)
  | notJson
  | notAnObject (found : Json)
  /-- The field of a name holds no formula. -/
  | notAFormula (name : String) (found : Json)
  | unsolved (error : SolveError)

namespace Failure

def message : Failure → String
  | .unreadableFile path _ => s!"failed to read problem file {path}"
  | .unreadableInput _ => "failed to read problem from stdin"
  | .notJson => "problem is not valid JSON"
  | .notAnObject found => s!"problem must be a JSON object of equations, found {found.compact}"
  | .notAFormula name found =>
    s!"formula for {name} must be a string or a number, found {found.compact}"
  | .unsolved error => error.message

def cause? : Failure → Option String
  | .unreadableFile _ error | .unreadableInput error => some error.message
  | .unsolved error => error.cause?
  | _ => none

/-- The report of a failure, with its cause indented below. -/
def report (f : Failure) : String :=
  let cause := match f.cause? with
    | some cause => s!"\nCaused by:\n    {cause}\n"
    | none => ""
  s!"Error: {f.message}\n{cause}"

end Failure

def read (text : String) : Except Failure (List (String × Json)) :=
  match Json.parse? text with
  | none => .error .notJson
  | some (.object equations) => .ok equations
  | some other => .error (.notAnObject other)

/-- The text of a formula; a null stands for a missing one. -/
def formulaText (name : String) : Json → Except Failure (Option String)
  | .string text => .ok (some text)
  | .number text => .ok (some text)
  | .null => .ok none
  | other => .error (.notAFormula name other)

/-- Registers equations one after the other, up to the first that is refused. -/
def register (s : Solver) : List (String × Json) → Except Failure Solver
  | [] => .ok s
  | (name, formula) :: equations =>
    match formulaText name formula with
    | .error failure => .error failure
    | .ok raw =>
      match s.add (some name) raw with
      | (⟨_, .ok ()⟩, s) => register s equations
      | (⟨_, .error e⟩, _) => .error (.unsolved e)

/-- A value as JSON. A number is written with all its digits. -/
def valueToJson : Value → Json
  | .bool b => .bool b
  | .number x => Json.ofNumeral x.render

def solutionToJson (solution : Solution) : Json :=
  .object (solution.map fun (name, value) => (name, valueToJson value))

def answer (options : Options) (text : String) : Except Failure Json := do
  let s ← register (.empty ⟨options.debug⟩) (← read text)
  if options.order then
    match s.solvingOrder.result with
    | .ok names => return .array (names.map .string)
    | .error e => throw (.unsolved e)
  else
    match s.solve.1.result with
    | .ok solution => return solutionToJson solution
    | .error e => throw (.unsolved e)

/-- What is written for a problem: the answer, or the report of a failure. -/
structure Output where
  exitCode : UInt8
  stdout : String
  stderr : String

def Output.ofResult : Except Failure Json → Output
  | .ok j => ⟨0, s!"{j.pretty}\n", ""⟩
  | .error failure => ⟨1, "", failure.report⟩

def run (options : Options) (text : String) : Output := .ofResult (answer options text)

def runUnreadable (options : Options) (error : FileError) : Output :=
  .ofResult (.error (if options.fromInput then .unreadableInput error
    else .unreadableFile options.path error))

end Problem

end EquationSystem
