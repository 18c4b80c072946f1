import EquationSystem.Formula.Expr
import EquationSystem.Json.Basic

/-!
# Expressions as JSON

Every node is an object of one field, whose key is the kind of the node.
-/

namespace EquationSystem

def UnaryOp.label : UnaryOp → String
  | .negate => "neg"
  | .plus => "plus"
  | .not => "not"

def BinaryOp.label : BinaryOp → String
  | .add => "add"
  | .subtract => "sub"
  | .multiply => "mul"
  | .divide => "div"
  | .remainder => "rem"
  | .power => "pow"
  | .equal => "eq"
  | .notEqual => "not_eq"
  | .less => "lt"
  | .lessEqual => "le"
  | .greater => "gt"
  | .greaterEqual => "ge"
  | .and => "and"
  | .or => "or"

namespace Expr

mutual

def toJson : Expr → Json
  | .number text => .object [("number", .string text)]
  | .bool value => .object [("bool", .bool value)]
  | .reference name => .object [("variable", .string name)]
  | .unary op operand =>
    .object [("unary", .object [("op", .string op.label), ("operand", operand.toJson)])]
  | .binary op lhs rhs =>
    .object [("binary", .object
      [("op", .string op.label), ("lhs", lhs.toJson), ("rhs", rhs.toJson)])]
  | .chain first rest =>
    .object [("chain", .object [("first", first.toJson), ("rest", .array (chainToJson rest))])]
  | .call name args position =>
    .object [("call", .object
      [("name", .string name), ("args", .array (argumentsToJson args)),
        ("position", .number (toString position))])]

/-- Every operator of a chain with its operand. -/
def chainToJson : List (BinaryOp × Expr) → List Json
  | [] => []
  | (op, operand) :: rest => .array [.string op.label, operand.toJson] :: chainToJson rest

def argumentsToJson : List Expr → List Json
  | [] => []
  | arg :: args => arg.toJson :: argumentsToJson args

end

end Expr

end EquationSystem
