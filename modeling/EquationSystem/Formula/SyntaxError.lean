import EquationSystem.Formula.Builtin
import EquationSystem.Formula.Token

/-!
# Why a text is not a formula

A syntax error has a cause and the byte of the text where it was found.
-/

namespace EquationSystem

/-- What is wrong with a formula. Where a token was expected, `none` stands for the end. -/
inductive SyntaxError.Cause where
  | pointWithoutDigits
  | unexpectedCharacter (c : Char)
  | unexpectedToken (found : Token)
  | expectedExpression (found : Option Token)
  | expectedClosing (found : Option Token)
  | expectedNextArgument (found : Option Token)
  | chainedComparison
  | nestedTooDeeply
  | invalidNumber (text : String)
  | unknownFunction (name : String)
  | argumentCount (builtin : Builtin) (given : Nat)
deriving DecidableEq

/-- A formula that cannot be used, and the offset in bytes at which this was noticed. -/
structure SyntaxError where
  cause : SyntaxError.Cause
  position : Nat
deriving DecidableEq

namespace SyntaxError

def describeFound : Option Token → String
  | some token => token.describe
  | none => "end of input"

def Cause.message : Cause → String
  | .pointWithoutDigits => "expected digits after `.`"
  | .unexpectedCharacter c => s!"unexpected character `{c}`"
  | .unexpectedToken found => s!"unexpected {found.describe}"
  | .expectedExpression found => s!"expected an expression but found {describeFound found}"
  | .expectedClosing found => s!"expected `)` but found {describeFound found}"
  | .expectedNextArgument found => s!"expected `,` or `)` but found {describeFound found}"
  | .chainedComparison => "comparison operators cannot be chained"
  | .nestedTooDeeply => "expression is nested too deeply"
  | .invalidNumber text => s!"invalid number `{text}`"
  | .unknownFunction name => s!"unknown function `{name}`"
  | .argumentCount builtin given => builtin.countMessage given

def message (e : SyntaxError) : String := e.cause.message

instance : ToString SyntaxError := ⟨fun e => s!"{e.message} at position {e.position}"⟩

end SyntaxError

end EquationSystem
