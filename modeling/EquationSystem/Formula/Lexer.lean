import EquationSystem.Formula.SyntaxError
import EquationSystem.Text.Ascii

/-!
# From text to tokens

Blanks separate tokens and are skipped. At every place the longest token is read, except that an
exponent mark without digits does not belong to the number before it.
-/

namespace EquationSystem.Lexer

/-- The exponent at the beginning of a text, or nothing if no digit follows its mark. -/
def exponentLexeme : List Char → List Char
  | [] => []
  | mark :: rest =>
    let digits := (dropSign rest).takeWhile Char.isDigit
    if isExponentMark mark && !digits.isEmpty then mark :: (takeSign rest ++ digits) else []

/-- The number at the beginning of a text: digits with an optional fraction or a fraction alone,
and an exponent. A point that no digit follows is an error; its offset is returned. -/
def numberLexeme (cs : List Char) : Except Nat (List Char) :=
  let whole := cs.takeWhile Char.isDigit
  match cs.dropWhile Char.isDigit with
  | '.' :: rest =>
    let fraction := rest.takeWhile Char.isDigit
    if fraction.isEmpty then .error whole.length
    else .ok (whole ++ '.' :: (fraction ++ exponentLexeme (rest.dropWhile Char.isDigit)))
  | rest => .ok (whole ++ exponentLexeme rest)

def word (text : String) : Token :=
  match lowerAscii text with
  | "and" => .and
  | "or" => .or
  | "not" => .not
  | "true" => .bool true
  | "false" => .bool false
  | _ => .name text

/-- The sign that begins with `c`, and the number of characters after `c` that belong to it. -/
def sign? (c : Char) (next : Option Char) : Option (Token × Nat) :=
  match c, next with
  | '(', _ => some (.leftParen, 0)
  | ')', _ => some (.rightParen, 0)
  | ',', _ => some (.comma, 0)
  | '+', _ => some (.plus, 0)
  | '-', _ => some (.minus, 0)
  | '*', _ => some (.times, 0)
  | '/', _ => some (.over, 0)
  | '%', _ => some (.percent, 0)
  | '^', _ => some (.caret, 0)
  | '=', some '=' => some (.equal, 1)
  | '=', _ => some (.equal, 0)
  | '!', some '=' => some (.notEqual, 1)
  | '!', _ => some (.not, 0)
  | '<', some '=' => some (.lessEqual, 1)
  | '<', some '>' => some (.notEqual, 1)
  | '<', _ => some (.less, 0)
  | '>', some '=' => some (.greaterEqual, 1)
  | '>', _ => some (.greater, 0)
  | '&', some '&' => some (.and, 1)
  | '|', some '|' => some (.or, 1)
  | _, _ => none

/-- The token that begins with `c`, and the number of characters of `cs` that belong to it. An
error comes with its offset from `c`. -/
def readToken (c : Char) (cs : List Char) : Except SyntaxError (Token × Nat) :=
  if isNameStart c then
    let rest := cs.takeWhile isNameChar
    .ok (word (String.ofList (c :: rest)), rest.length)
  else if c.isDigit || c == '.' then
    match numberLexeme (c :: cs) with
    | .ok lexeme => .ok (.number (String.ofList lexeme), lexeme.length - 1)
    | .error offset => .error ⟨.pointWithoutDigits, offset⟩
  else
    match sign? c cs.head? with
    | some token => .ok token
    | none => .error ⟨.unexpectedCharacter c, 0⟩

/-- Reads the tokens of a text that begins at offset `pos`, after those `done`, the last of which
comes first. Tokens consist of ASCII characters, so their characters count their bytes. -/
def tokenizeFrom (done : List PlacedToken) (pos : Nat) (cs : List Char) :
    Except SyntaxError (List PlacedToken) :=
  match cs with
  | [] => .ok done.reverse
  | c :: cs =>
    if isBlank c then tokenizeFrom done (pos + 1) cs
    else
      match readToken c cs with
      | .error e => .error { e with position := pos + e.position }
      | .ok (token, more) =>
        let stop := pos + 1 + more
        tokenizeFrom (⟨token, pos, stop⟩ :: done) stop (cs.drop more)
termination_by cs.length
decreasing_by
  · simp
  · simp only [List.length_drop, List.length_cons]; omega

def tokenize (text : String) : Except SyntaxError (List PlacedToken) :=
  tokenizeFrom [] 0 text.toList

end EquationSystem.Lexer
