import EquationSystem.Text.Extending
import EquationSystem.Text.Unprintable

/-!
# Quoted text

A text in double quotes shows every character: quotes and backslashes are escaped, and so are
characters that could not be seen or that would run together with the one before them.
-/

namespace EquationSystem.Quoted

/-- A code point in braces, by its hexadecimal digits. -/
def braced (c : Char) : List Char :=
  '\\' :: 'u' :: '{' :: (Nat.toDigits 16 c.toNat ++ ['}'])

def encodeChar (c : Char) : List Char :=
  match c with
  | '"' => ['\\', '"']
  | '\\' => ['\\', '\\']
  | '\t' => ['\\', 't']
  | '\r' => ['\\', 'r']
  | '\n' => ['\\', 'n']
  | '\x00' => ['\\', '0']
  | c => if isExtending c || isUnprintable c then braced c else [c]

def encode (text : String) : String :=
  String.ofList ('"' :: (text.toList.flatMap encodeChar ++ ['"']))

def encodeList (texts : List String) : String :=
  "[" ++ ", ".intercalate (texts.map encode) ++ "]"

end EquationSystem.Quoted
