/-!
# Tokens of a formula
-/

namespace EquationSystem

/-- The smallest units of a formula. Numbers keep the text they were written with. -/
inductive Token where
  | number (text : String)
  | name (text : String)
  | bool (value : Bool)
  | leftParen
  | rightParen
  | comma
  | plus
  | minus
  | times
  | over
  | percent
  | caret
  | equal
  | notEqual
  | less
  | lessEqual
  | greater
  | greaterEqual
  | and
  | or
  | not
deriving DecidableEq

/-- How a token is called in messages. Signs with several spellings are shown in one of them. -/
def Token.describe : Token → String
  | .number text => s!"number `{text}`"
  | .name text => s!"identifier `{text}`"
  | .bool true => "`true`"
  | .bool false => "`false`"
  | .leftParen => "`(`"
  | .rightParen => "`)`"
  | .comma => "`,`"
  | .plus => "`+`"
  | .minus => "`-`"
  | .times => "`*`"
  | .over => "`/`"
  | .percent => "`%`"
  | .caret => "`^`"
  | .equal => "`=`"
  | .notEqual => "`!=`"
  | .less => "`<`"
  | .lessEqual => "`<=`"
  | .greater => "`>`"
  | .greaterEqual => "`>=`"
  | .and => "`and`"
  | .or => "`or`"
  | .not => "`not`"

/-- A token and the bytes of the text from which it was read, the last one excluded. -/
structure PlacedToken where
  token : Token
  start : Nat
  stop : Nat
deriving DecidableEq

end EquationSystem
