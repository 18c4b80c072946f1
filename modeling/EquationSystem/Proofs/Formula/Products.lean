import EquationSystem.Formula.Term

/-!
# Products with scales of 64 bits

Of the operations that are exact on numbers only a product can ask for a scale that is no word. Here
is said that none does in the evaluation of a term. What an evaluation skips is asked nothing: the
right operand of `and` and `or`, the other branch of a choice, and whatever stands behind an operand
that leads to an error.
-/

namespace EquationSystem

/-- A suspended operand, with what is asked of it if it is computed. -/
structure Operand where
  run : Suspended
  inRange : Prop

namespace BinaryOp

/-- Whether the right operand is computed. -/
def NeedsRight (op : BinaryOp) (lhs : Value) : Prop :=
  match op with
  | .and => lhs.isTruthy = true
  | .or => lhs.isTruthy = false
  | .add | .subtract | .multiply | .divide | .remainder => ∃ x, lhs = .number x
  | _ => True

/-- The right operand is in range if it is computed, and so is a product of both. -/
structure InRange (op : BinaryOp) (lhs : Value) (rhs : Operand) : Prop where
  right : op.NeedsRight lhs → rhs.inRange
  product : op = .multiply → ∀ x y, lhs = .number x → rhs.run () = .ok (.number y) →
    (x.product y).ScaleInRange

end BinaryOp

namespace Builtin

/-- Numbers are computed from the left, up to the first operand that does not give one. -/
def NumbersInRange : List Operand → Prop
  | [] => True
  | arg :: args => arg.inRange ∧ ∀ x, arg.run.toNumber = .ok x → NumbersInRange args

def ArgumentsInRange (f : Builtin) (args : List Operand) : Prop :=
  match f, args with
  | .choose, [condition, yes, no] =>
    condition.inRange ∧ ∀ v, condition.run () = .ok v →
      if v.isTruthy then yes.inRange else no.inRange
  | .round, [x, digits] =>
    digits.inRange ∧ ∀ d n, digits.run.toNumber = .ok d → places d = .ok n → x.inRange
  | _, args => NumbersInRange args

end Builtin

namespace Term

variable (b : Bindings)

mutual

/-- The products that are computed for the term in bindings have scales of 64 bits. -/
def ProductsInRange : Term → Prop
  | .constant _ | .reference _ => True
  | .unary _ operand => operand.ProductsInRange
  | .binary op lhs rhs => lhs.ProductsInRange ∧ ∀ v, lhs.eval b = .ok v →
    op.InRange v ⟨fun _ => rhs.eval b, rhs.ProductsInRange⟩
  | .chain first rest => first.ProductsInRange ∧ ∀ v, first.eval b = .ok v →
    ChainInRange v rest
  | .call f args => f.ArgumentsInRange (operands args)

def ChainInRange (lhs : Value) : List (BinaryOp × Term) → Prop
  | [] => True
  | (op, rhs) :: rest => op.InRange lhs ⟨fun _ => rhs.eval b, rhs.ProductsInRange⟩ ∧
    ∀ v, (op.apply lhs fun _ => rhs.eval b) = .ok v → ChainInRange v rest

def operands : List Term → List Operand
  | [] => []
  | arg :: args => ⟨fun _ => arg.eval b, arg.ProductsInRange⟩ :: operands args

end

theorem map_run_operands (args : List Term) : (operands b args).map Operand.run = suspend b args := by
  induction args with
  | nil => rw [operands, suspend, List.map_nil]
  | cons arg args ih => rw [operands, suspend, List.map_cons, ih]

end Term

end EquationSystem
