import EquationSystem.Decimal.Numeral
import EquationSystem.Formula.Bindings
import EquationSystem.Formula.Call
import EquationSystem.Formula.Names
import EquationSystem.Formula.SyntaxError

/-!
# Compiled formulas

Compiling an expression converts its numbers, looks up its functions, and records the names it
refers to in the order in which they first appear. Names that were met before a failure stay
recorded. A term is evaluated in bindings and keeps nothing from one evaluation to the next.
-/

namespace EquationSystem

/-- A formula that is ready to be evaluated. -/
inductive Term where
  | constant (value : Value)
  | reference (name : String)
  | unary (op : UnaryOp) (operand : Term)
  | binary (op : BinaryOp) (lhs rhs : Term)
  | chain (first : Term) (rest : List (BinaryOp × Term))
  | call (builtin : Builtin) (args : List Term)

namespace Term

instance : Inhabited Term := ⟨.constant (.bool false)⟩

mutual

def eval (b : Bindings) : Term → Except EvalError Value
  | .constant value => .ok value
  | .reference name =>
    match b.get? name with
    | some value => .ok value
    | none => .error (.unbound name)
  | .unary op operand =>
    match operand.eval b with
    | .ok value => op.apply value
    | .error e => .error e
  | .binary op lhs rhs =>
    match lhs.eval b with
    | .ok value => op.apply value fun _ => rhs.eval b
    | .error e => .error e
  | .chain first rest =>
    match first.eval b with
    | .ok value => evalChain b value rest
    | .error e => .error e
  | .call builtin args => builtin.apply (suspend b args)

/-- Applies operators to their operands one after the other, from the left. -/
def evalChain (b : Bindings) (lhs : Value) : List (BinaryOp × Term) → Except EvalError Value
  | [] => .ok lhs
  | (op, rhs) :: rest =>
    match op.apply lhs fun _ => rhs.eval b with
    | .ok value => evalChain b value rest
    | .error e => .error e

def suspend (b : Bindings) : List Term → List Suspended
  | [] => []
  | arg :: args => (fun _ => arg.eval b) :: suspend b args

end

end Term

namespace Expr

mutual

/-- The term for an expression, and the names recorded so far with those it refers to. A call is
checked before its arguments are looked at. Numbers have no place in the tree, and a fault in one is
reported at zero. -/
def compile (names : Names) : Expr → Except SyntaxError Term × Names
  | .number text =>
    match Decimal.parse text with
    | .ok x => (.ok (.constant (.number x)), names)
    | .error _ => (.error ⟨.invalidNumber text, 0⟩, names)
  | .bool value => (.ok (.constant (.bool value)), names)
  | .reference name => (.ok (.reference name), names.insert name)
  | .unary op operand =>
    match operand.compile names with
    | (.ok operand, names) => (.ok (.unary op operand), names)
    | (.error e, names) => (.error e, names)
  | .binary op lhs rhs =>
    match lhs.compile names with
    | (.error e, names) => (.error e, names)
    | (.ok lhs, names) =>
      match rhs.compile names with
      | (.error e, names) => (.error e, names)
      | (.ok rhs, names) => (.ok (.binary op lhs rhs), names)
  | .chain first rest =>
    match first.compile names with
    | (.error e, names) => (.error e, names)
    | (.ok first, names) =>
      match compileChain [] names rest with
      | (.error e, names) => (.error e, names)
      | (.ok rest, names) => (.ok (.chain first rest), names)
  | .call name args position =>
    match Builtin.ofName? name with
    | none => (.error ⟨.unknownFunction name, position⟩, names)
    | some builtin =>
      if builtin.accepts args.length then
        match compileArguments [] names args with
        | (.error e, names) => (.error e, names)
        | (.ok args, names) => (.ok (.call builtin args), names)
      else (.error ⟨.argumentCount builtin args.length, position⟩, names)

/-- Compiles the operands of a chain after those `done`, the last of which comes first. -/
def compileChain (done : List (BinaryOp × Term)) (names : Names) :
    List (BinaryOp × Expr) → Except SyntaxError (List (BinaryOp × Term)) × Names
  | [] => (.ok done.reverse, names)
  | (op, operand) :: rest =>
    match operand.compile names with
    | (.error e, names) => (.error e, names)
    | (.ok operand, names) => compileChain ((op, operand) :: done) names rest

def compileArguments (done : List Term) (names : Names) :
    List Expr → Except SyntaxError (List Term) × Names
  | [] => (.ok done.reverse, names)
  | arg :: args =>
    match arg.compile names with
    | (.error e, names) => (.error e, names)
    | (.ok arg, names) => compileArguments (arg :: done) names args

end

end Expr

end EquationSystem
