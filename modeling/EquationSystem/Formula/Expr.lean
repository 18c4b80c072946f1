/-!
# Expressions

The tree of a formula. A run of operators of one level that group to the left, such as a long sum,
is one flat node. Numbers keep the text they were written with.
-/

namespace EquationSystem

inductive UnaryOp where
  | negate
  | plus
  | not
deriving DecidableEq

inductive BinaryOp where
  | add
  | subtract
  | multiply
  | divide
  | remainder
  | power
  | equal
  | notEqual
  | less
  | lessEqual
  | greater
  | greaterEqual
  | and
  | or
deriving DecidableEq

inductive Expr where
  | number (text : String)
  | bool (value : Bool)
  | reference (name : String)
  | unary (op : UnaryOp) (operand : Expr)
  | binary (op : BinaryOp) (lhs rhs : Expr)
  /-- The operators apply one after the other, from the left. -/
  | chain (first : Expr) (rest : List (BinaryOp × Expr))
  /-- A call, with the place of the function's name in the text. -/
  | call (name : String) (args : List Expr) (position : Nat)

namespace Expr

instance : Inhabited Expr := ⟨.bool false⟩

/-- A chain, or its first operand where no operator follows. -/
def ofChain (first : Expr) : List (BinaryOp × Expr) → Expr
  | [] => first
  | rest => .chain first rest

end Expr

end EquationSystem
