import EquationSystem.Dependency.Order
import EquationSystem.Solver.Equation
import EquationSystem.Solver.Event

/-!
# Solving equations

A solver holds equations by name, in the order in which the names were first registered. It orders
them so that every equation comes after those it depends on, evaluates them in that order, and
presents all their values together.
-/

namespace EquationSystem

structure Config where
  /-- Whether the expression of every formula is reported when it is registered. -/
  debug : Bool

structure Solver where
  config : Config
  /-- The equations, in the order in which their names were first registered. -/
  equations : Array Equation
  /-- The place of the equation of every name. -/
  index : Std.HashMap String Nat
  /-- The values found so far; there are none except while equations are being evaluated. -/
  bindings : Bindings

abbrev Solution : Type := List (String × Value)

namespace Solver

def empty (config : Config) : Solver := ⟨config, #[], ∅, ∅⟩

instance : Inhabited Solver := ⟨empty ⟨false⟩⟩

def names (s : Solver) : List String := s.equations.toList.map (·.name)

def size (s : Solver) : Nat := s.equations.size

def isEmpty (s : Solver) : Bool := s.equations.isEmpty

def contains (s : Solver) (name : String) : Bool := s.index.contains name

def equation? (s : Solver) (name : String) : Option Equation :=
  s.index[name]?.bind fun place => s.equations[place]?

/-! ## Registering -/

/-- Reads a formula: a numeric literal as it stands, and anything else without its carriage
returns as an expression. -/
def readFormula (config : Config) (name raw : String) :
    List Event × Except SolveError Formula :=
  match Decimal.literal? raw with
  | some value => ([], .ok (.constant value))
  | none =>
    let expression := String.ofList (stripReturns raw.toList)
    match Expr.parse expression with
    | .error cause => ([.unreadable name raw], .error (.unreadable name expression cause))
    | .ok expr =>
      let events := if config.debug then [.tree name expression expr] else []
      match expr.compile ∅ with
      | (.ok term, dependencies) => (events, .ok (.computed term dependencies))
      | (.error cause, _) => (events, .error (.unreadable name expression cause))

def insert (s : Solver) (e : Equation) : Solver :=
  match s.index[e.name]? with
  -- a name keeps its place
  | some place => { s with equations := s.equations.setIfInBounds place e }
  | none =>
    let place := s.equations.size
    { s with equations := s.equations.push e, index := s.index.insert e.name place }

/-- Registers a formula under a name. A solver is not changed by a formula that it refuses. -/
def add (s : Solver) (name raw : Option String) : Reply Unit × Solver :=
  match name, raw with
  | some name, some raw =>
    match readFormula s.config name raw with
    | (events, .ok formula) => (.ofResult events (.ok ()), s.insert ⟨name, raw, formula⟩)
    | (events, .error e) => (.ofResult events (.error e), s)
  | name, raw => (.ofResult [] (.error (.missing name raw)), s)

/-! ## Ordering -/

/-- The error for a name without an equation: it names the first equation that refers to it. -/
def unbound (s : Solver) (name : String) : SolveError :=
  match s.equations.toList.find? (·.dependsOn name) with
  | some e => .unbound name e.name e.raw
  | none => .unbound name "" ""

def dependencies (s : Solver) (name : String) : Except SolveError (List String) :=
  match s.equation? name with
  | some e => .ok e.dependencies
  | none => .error (s.unbound name)

theorem mem_of_equation? {s : Solver} {name : String} {e : Equation}
    (h : s.equation? name = some e) : e ∈ s.equations := by
  obtain ⟨place, -, h⟩ := Option.bind_eq_some_iff.1 h
  exact Array.mem_of_getElem? h

/-- Only registered names and those their equations refer to are ever reached. -/
theorem finiteReach (s : Solver) : Dependency.FiniteReach s.dependencies s.names := by
  refine ⟨s.names ++ s.equations.toList.flatMap Equation.dependencies,
    fun name h => List.mem_append_left _ h, fun name _ found h d hd => ?_⟩
  unfold dependencies at h
  split at h
  · next e he =>
    cases h
    exact List.mem_append_right _ (List.mem_flatMap.2
      ⟨e, Array.mem_toList_iff.2 (mem_of_equation? he), hd⟩)
  · cases h

def ordered (s : Solver) : Except SolveError (List String) :=
  match (Dependency.sort s.dependencies s.names s.finiteReach).result with
  | .ok names => .ok names
  | .error (.cycle names) => .error (.cycle names)
  | .error (.edge e) => .error e

def solvingOrder (s : Solver) : Reply (List String) := .ofResult [] s.ordered

/-! ## Solving -/

/-- Evaluates the equations of `names` one after the other, each with the values found before it.
The events so far are in `done`, the last of which comes first. -/
def evaluateIn (s : Solver) (done : List Event) :
    List String → List Event × Except SolveError Unit × Solver
  | [] => (done.reverse, .ok (), s)
  | name :: names =>
    match s.equation? name with
    | none => (done.reverse, .error (s.unbound name), s)
    | some e =>
      match e.evaluate s.bindings with
      | .error cause => (done.reverse, .error (.evaluation name e.raw cause), s)
      | .ok value =>
        evaluateIn { s with bindings := s.bindings.insert name value }
          (.evaluated name value :: done) names

def evaluateAll (s : Solver) : List Event × Except SolveError Unit × Solver :=
  match s.ordered with
  | .error e => ([], .error e, s)
  | .ok names => s.evaluateIn [.solving names.length] names

/-- The values of all equations. No value is given where one is missing, and none is kept. -/
def solve (s : Solver) : Reply Solution × Solver :=
  let (events, result, t) := s.evaluateAll
  let solution := t.bindings.toList.map fun (name, value) => (name, value.present)
  (.ofResult events (result.map fun _ => solution), { t with bindings := ∅ })

end Solver

end EquationSystem
