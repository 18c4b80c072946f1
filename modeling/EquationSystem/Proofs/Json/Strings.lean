import EquationSystem.Json.Printer
import EquationSystem.Json.Reader
import Mathlib.Tactic.IntervalCases

/-!
# Strings of JSON

The characters between two quotes stand for a text: one by one, or by escapes. They are read as that
text, and every text is written by characters that stand for it.
-/

namespace EquationSystem.Json

/-- The characters between the quotes of a string stand for a text. -/
inductive StringText : List Char → List Char → Prop
  | nil : StringText [] []
  | plain {c : Char} {cs text : List Char} (noQuote : c ≠ '"') (noEscape : c ≠ '\\')
      (noControl : ¬c.toNat < 0x20) (rest : StringText cs text) : StringText (c :: cs) (c :: text)
  | escape {e c : Char} {code cs text : List Char}
      (stands : ∀ after, escape? e (code ++ after) = some (c, code.length))
      (rest : StringText cs text) : StringText ('\\' :: e :: (code ++ cs)) (c :: text)

namespace StringText

variable {cs ds text text' : List Char}

theorem append (h : StringText cs text) (h' : StringText ds text') :
    StringText (cs ++ ds) (text ++ text') := by
  induction h with
  | nil => exact h'
  | plain noQuote noEscape noControl _ ih => exact .plain noQuote noEscape noControl ih
  | @escape e c code cs text stands _ ih =>
    rw [List.cons_append, List.cons_append, List.append_assoc]
    exact .escape stands ih

/-- A string is read up to its closing quote. -/
theorem stringRest_eq (h : StringText cs text) (done rest : List Char) :
    stringRest done (cs ++ '"' :: rest) = some (String.ofList (done.reverse ++ text), rest) := by
  induction h generalizing done with
  | nil => rw [List.nil_append, stringRest, List.append_nil]
  | @plain c cs text noQuote noEscape noControl _ ih =>
    rw [List.cons_append, stringRest]
    · rw [if_neg noControl, ih, List.reverse_cons, List.append_assoc]
      rfl
    · exact noQuote
    · exact fun _ _ same => (noEscape same).elim
  | @escape e c code cs text stands _ ih =>
    rw [List.cons_append, List.cons_append, List.append_assoc, stringRest, stands]
    dsimp only
    rw [List.drop_left, ih, List.reverse_cons, List.append_assoc]
    rfl

theorem escaped {e c : Char} (stands : ∀ after, escape? e after = some (c, 0)) :
    StringText ['\\', e] [c] :=
  @escape e c [] [] [] stands .nil

end StringText

/-- The code of a control character is written in four digits. -/
theorem codeEscape?_control {n : Nat} (control : n < 0x20) (after : List Char) :
    let code := List.replicate (4 - (Nat.toDigits 16 n).length) '0' ++ Nat.toDigits 16 n
    codeEscape? (code ++ after) = some (Char.ofNat n, code.length) := by
  interval_cases n <;> rfl

theorem stringText_controlEscape {c : Char} (control : c.toNat < 0x20) :
    StringText (controlEscape c) [c] := by
  have stands := codeEscape?_control control
  rw [Char.ofNat_toNat] at stands
  have text := @StringText.escape 'u' c _ [] [] stands .nil
  rwa [List.append_nil] at text

theorem stringText_escapeChar (c : Char) : StringText (escapeChar c) [c] := by
  unfold escapeChar
  split
  case h_8 noQuote noEscape _ _ _ _ _ =>
    split
    · next control => exact stringText_controlEscape control
    · next noControl => exact .plain noQuote noEscape noControl .nil
  all_goals exact .escaped fun _ => rfl

/-- The characters that are written for a text stand for it. -/
theorem stringText_flatMap (text : List Char) : StringText (text.flatMap escapeChar) text := by
  induction text with
  | nil => exact .nil
  | cons c text ih => exact (stringText_escapeChar c).append ih

end EquationSystem.Json
