import EquationSystem.Proofs.Formula.Denotation
import Mathlib.Computability.RegularExpressions
import Mathlib.Tactic.IntervalCases

/-!
# The pattern of numeric literals

A text is taken as a number if it matches one regular expression, apart from blanks around it, and
if neither its exponent nor its scale is too large. The words of the expression are the numerals
with a sign, so that a text that matches has parts to speak of: the scale of its decimal is the
number of digits behind the point less the exponent, and the decimal stands for the number that the
parts denote.
-/

namespace EquationSystem

open RegularExpression

namespace Pattern

def oneOf (cs : List Char) : RegularExpression Char := (cs.map char).sum

def optional (r : RegularExpression Char) : RegularExpression Char := 1 + r

def sign : RegularExpression Char := optional (oneOf ['+', '-'])

def digitChars : List Char := ['0', '1', '2', '3', '4', '5', '6', '7', '8', '9']

def digit : RegularExpression Char := oneOf digitChars

/-- At least one digit. -/
def digits : RegularExpression Char := digit * digit.star

/-- Digits with an optional fraction, or a fraction alone, and an optional exponent. -/
def numeral : RegularExpression Char :=
  (digits * optional (char '.' * digits) + char '.' * digits) *
    optional (oneOf ['e', 'E'] * (sign * digits))

def literal : RegularExpression Char := sign * numeral

variable {r s : RegularExpression Char} {c : Char} {cs : List Char}

theorem mem_oneOf_iff {chars : List Char} :
    cs ∈ (oneOf chars).matches' ↔ ∃ c ∈ chars, cs = [c] := by
  induction chars with
  | nil => exact iff_of_false (Language.notMem_zero cs) (by simp)
  | cons c chars ih =>
    rw [oneOf, List.map_cons, List.sum_cons, matches'_add, Language.mem_add, ← oneOf, ih,
      List.exists_mem_cons_iff, matches'_char]
    rfl

theorem mem_optional_iff : cs ∈ (optional r).matches' ↔ cs = [] ∨ cs ∈ r.matches' := by
  rw [optional, matches'_add, Language.mem_add, matches'_epsilon, Language.mem_one]

theorem mem_mul_iff :
    cs ∈ (r * s).matches' ↔ ∃ front ∈ r.matches', ∃ back ∈ s.matches', front ++ back = cs := by
  rw [matches'_mul, Language.mem_mul]

theorem mem_char_mul_iff :
    cs ∈ (char c * r).matches' ↔ ∃ back ∈ r.matches', c :: back = cs := by
  rw [mem_mul_iff]
  constructor
  · rintro ⟨_, rfl, h⟩
    exact h
  · exact fun h => ⟨[c], rfl, h⟩

theorem mem_sign_iff : cs ∈ sign.matches' ↔ cs = [] ∨ cs = ['+'] ∨ cs = ['-'] := by
  simp [sign, mem_optional_iff, mem_oneOf_iff]

theorem isDigit_iff_mem : c.isDigit = true ↔ [c] ∈ digit.matches' := by
  rw [digit, mem_oneOf_iff]
  constructor
  · intro h
    obtain ⟨least, greatest⟩ := (Bool.and_eq_true _ _).mp h
    have least : 48 ≤ c.toNat := UInt32.le_iff_toNat_le.1 (of_decide_eq_true least)
    have greatest : c.toNat ≤ 57 := UInt32.le_iff_toNat_le.1 (of_decide_eq_true greatest)
    refine ⟨c, ?_, rfl⟩
    rw [← Char.ofNat_toNat c]
    interval_cases c.toNat <;> decide
  · rintro ⟨d, hd, same⟩
    cases same
    have all : digitChars.all Char.isDigit = true := rfl
    exact List.all_eq_true.1 all c hd

theorem mem_star_digit_iff : cs ∈ digit.star.matches' ↔ Digits cs := by
  rw [matches'_star, Language.mem_kstar]
  constructor
  · rintro ⟨words, rfl, h⟩ c hc
    obtain ⟨word, hword, hc⟩ := List.mem_flatten.1 hc
    obtain ⟨d, -, rfl⟩ := mem_oneOf_iff.1 (h word hword)
    obtain rfl := List.mem_singleton.1 hc
    exact isDigit_iff_mem.2 (h [c] hword)
  · intro h
    refine ⟨cs.map fun c => [c], (List.flatMap_singleton' cs).symm, ?_⟩
    exact List.forall_mem_map.2 fun c hc => isDigit_iff_mem.1 (h c hc)

theorem mem_digits_iff : cs ∈ digits.matches' ↔ cs ≠ [] ∧ Digits cs := by
  rw [digits, mem_mul_iff]
  constructor
  · rintro ⟨_, first, more, hmore, rfl⟩
    obtain ⟨d, -, rfl⟩ := mem_oneOf_iff.1 first
    exact ⟨List.cons_ne_nil d more,
      List.forall_mem_cons.2 ⟨isDigit_iff_mem.2 first, mem_star_digit_iff.1 hmore⟩⟩
  · rintro ⟨nonempty, h⟩
    obtain ⟨c, more, rfl⟩ := List.exists_cons_of_ne_nil nonempty
    obtain ⟨first, hmore⟩ := List.forall_mem_cons.1 h
    exact ⟨[c], isDigit_iff_mem.1 first, more, mem_star_digit_iff.2 hmore, rfl⟩

theorem mem_mark_iff :
    cs ∈ (oneOf ['e', 'E']).matches' ↔ ∃ c, isExponentMark c = true ∧ cs = [c] := by
  simp [mem_oneOf_iff, isExponentMark]

theorem mem_exponent_iff :
    cs ∈ (optional (oneOf ['e', 'E'] * (sign * digits))).matches' ↔ IsExponent cs := by
  rw [mem_optional_iff, mem_mul_iff]
  constructor
  · rintro (rfl | ⟨_, marked, _, signed, rfl⟩)
    · exact .absent
    · obtain ⟨mark, isMark, rfl⟩ := mem_mark_iff.1 marked
      obtain ⟨sign, isSign, ds, hds, rfl⟩ := mem_mul_iff.1 signed
      obtain ⟨nonempty, hdigits⟩ := mem_digits_iff.1 hds
      exact @IsExponent.present mark sign ds isMark (mem_sign_iff.1 isSign) nonempty hdigits
  · intro h
    cases h with
    | absent => exact .inl rfl
    | @present mark sign ds isMark isSign nonempty hdigits =>
      refine .inr ⟨[mark], mem_mark_iff.2 ⟨mark, isMark, rfl⟩, sign ++ ds, ?_, rfl⟩
      exact mem_mul_iff.2
        ⟨sign, mem_sign_iff.2 isSign, ds, mem_digits_iff.2 ⟨nonempty, hdigits⟩, rfl⟩

theorem mem_fraction_iff :
    cs ∈ (char '.' * digits).matches' ↔
      ∃ places, places ≠ [] ∧ Digits places ∧ cs = '.' :: places := by
  rw [mem_char_mul_iff]
  constructor
  · rintro ⟨places, h, rfl⟩
    obtain ⟨nonempty, hplaces⟩ := mem_digits_iff.1 h
    exact ⟨places, nonempty, hplaces, rfl⟩
  · rintro ⟨places, nonempty, hplaces, rfl⟩
    exact ⟨places, mem_digits_iff.2 ⟨nonempty, hplaces⟩, rfl⟩

theorem mem_numeral_iff : cs ∈ numeral.matches' ↔ IsNumeral cs := by
  rw [numeral, mem_mul_iff]
  constructor
  · rintro ⟨_, h, exponent, hexponent, rfl⟩
    rw [mem_exponent_iff] at hexponent
    rw [matches'_add, Language.mem_add] at h
    rcases h with h | h
    · obtain ⟨whole, hwhole, _, hpoint, rfl⟩ := mem_mul_iff.1 h
      obtain ⟨nonempty, hwhole⟩ := mem_digits_iff.1 hwhole
      rcases mem_optional_iff.1 hpoint with rfl | hpoint
      · rw [List.append_nil]
        exact .integer nonempty hwhole hexponent
      · obtain ⟨places, nonempty, hplaces, rfl⟩ := mem_fraction_iff.1 hpoint
        rw [List.append_assoc, List.cons_append]
        exact .fraction hwhole nonempty hplaces hexponent
    · obtain ⟨places, nonempty, hplaces, rfl⟩ := mem_fraction_iff.1 h
      exact @IsNumeral.fraction [] _ _ (List.forall_mem_nil _) nonempty hplaces hexponent
  · intro h
    cases h with
    | @integer whole exponent nonempty hwhole hexponent =>
      refine ⟨whole, .inl ?_, exponent, mem_exponent_iff.2 hexponent, rfl⟩
      refine mem_mul_iff.2 ⟨whole, mem_digits_iff.2 ⟨nonempty, hwhole⟩, [], ?_, List.append_nil _⟩
      exact mem_optional_iff.2 (.inl rfl)
    | @fraction whole places exponent hwhole nonempty hplaces hexponent =>
      have point := mem_fraction_iff.2 ⟨places, nonempty, hplaces, rfl⟩
      refine ⟨whole ++ '.' :: places, ?_, exponent, mem_exponent_iff.2 hexponent, by simp⟩
      by_cases noWhole : whole = []
      · rw [noWhole]
        exact .inr point
      · refine .inl (mem_mul_iff.2 ⟨whole, mem_digits_iff.2 ⟨noWhole, hwhole⟩, _, ?_, rfl⟩)
        exact mem_optional_iff.2 (.inr point)

end Pattern

/-! ## The parts of a numeral -/

theorem Sign.exists_chars {cs : List Char} (h : cs = [] ∨ cs = ['+'] ∨ cs = ['-']) :
    ∃ sign : Sign, sign.chars = cs := by
  rcases h with rfl | rfl | rfl
  · exact ⟨.none, rfl⟩
  · exact ⟨.plus, rfl⟩
  · exact ⟨.minus, rfl⟩

theorem IsExponent.exists_parts {cs : List Char} (h : IsExponent cs) :
    ∃ exponent? : Option Exponent, exponent?.elim [] Exponent.chars = cs := by
  cases h with
  | absent => exact ⟨none, rfl⟩
  | @present mark sign digits isMark isSign nonempty hdigits =>
    obtain ⟨sign, rfl⟩ := Sign.exists_chars isSign
    exact ⟨some { mark, sign, digits, isMark, hdigits, nonempty }, rfl⟩

theorem IsNumeral.exists_parts {cs : List Char} (h : IsNumeral cs) :
    ∃ n : Numeral, n.chars = cs := by
  cases h with
  | @integer whole exponent nonempty hwhole hexponent =>
    obtain ⟨exponent?, rfl⟩ := hexponent.exists_parts
    let n : Numeral :=
      { whole, exponent?, hwhole
        places := []
        hplaces := List.forall_mem_nil _
        nonempty := fun noWhole => (nonempty noWhole).elim }
    exact ⟨n, rfl⟩
  | @fraction whole places exponent hwhole nonempty hplaces hexponent =>
    obtain ⟨exponent?, rfl⟩ := hexponent.exists_parts
    let n : Numeral := { whole, places, exponent?, hwhole, hplaces, nonempty := fun _ => nonempty }
    have point : n.pointChars = '.' :: places := if_neg nonempty
    refine ⟨n, ?_⟩
    rw [Numeral.chars, point]
    rfl

/-- The words of the pattern have a sign and the parts of a numeral. -/
theorem Pattern.mem_literal_iff {cs : List Char} :
    cs ∈ literal.matches' ↔ ∃ (sign : Sign) (n : Numeral), cs = sign.chars ++ n.chars := by
  rw [literal, mem_mul_iff]
  constructor
  · rintro ⟨front, hfront, back, hback, rfl⟩
    obtain ⟨sign, rfl⟩ := Sign.exists_chars (mem_sign_iff.1 hfront)
    obtain ⟨n, rfl⟩ := (mem_numeral_iff.1 hback).exists_parts
    exact ⟨sign, n, rfl⟩
  · rintro ⟨sign, n, rfl⟩
    exact ⟨_, mem_sign_iff.2 sign.chars_cases, _, mem_numeral_iff.2 n.isNumeral, rfl⟩

/-! ## The value of a literal -/

/-- The number with the sign. -/
def Sign.signed (q : ℚ) : Sign → ℚ
  | none | plus => q
  | minus => -q

theorem Sign.value_applyTo (sign : Sign) (x : Decimal) :
    (sign.applyTo x).value = sign.signed x.value := by
  cases sign with
  | none | plus => rfl
  | minus => exact Decimal.value_neg x

theorem Sign.scale_applyTo (sign : Sign) (x : Decimal) : (sign.applyTo x).scale = x.scale := by
  cases sign <;> rfl

/-- A literal is a numeral with a sign, between blanks. -/
theorem Numeral.exists_parts_of_literal? {text : String} {x : Decimal}
    (found : Decimal.literal? text = some x) :
    ∃ (sign : Sign) (n : Numeral), trimBlanks text.toList = sign.chars ++ n.chars := by
  have isLiteral : Decimal.isLiteral (trimBlanks text.toList) = true := by
    by_contra other
    rw [Decimal.literal?, if_neg other] at found
    cases found
  obtain ⟨sign, numeral, shows⟩ := Shows.of_isLiteral isLiteral
  obtain ⟨n, rfl⟩ := shows.isNumeral.exists_parts
  exact ⟨sign, n, shows.trimBlanks_eq⟩

/-- A numeral with a sign, between blanks, is a literal if it is in range. -/
theorem Numeral.literal?_of_trimBlanks {n : Numeral} {sign : Sign} {text : String} {x : Decimal}
    (h : trimBlanks text.toList = sign.chars ++ n.chars) :
    Decimal.literal? text = some x ↔ n.InRange ∧ x = sign.applyTo n.decimal := by
  obtain ⟨front, back, split, hfront, hback⟩ := exists_trimBlanks text.toList
  have shows : Shows sign n.chars text.toList :=
    ⟨n.isNumeral, front, back, h ▸ split, hfront, hback⟩
  rw [shows.literal?_eq]
  by_cases range : n.InRange
  · rw [n.parse_eq range, and_iff_right range]
    exact Option.some_inj.trans eq_comm
  · obtain ⟨cause, unread⟩ := n.parse_error range
    rw [unread]
    exact iff_of_false nofun fun found => range found.1

/-- A text with the parts of a literal is one just if its exponent and its scale are in range. The
scale of its decimal is then the number of digits behind the point less the exponent, and its value
is the number that the parts denote. The words of the pattern are the texts with such parts, apart
from blanks, and no other text is a literal. -/
theorem literal_matches_pattern (text : String) :
    (trimBlanks text.toList ∈ Pattern.literal.matches' ↔
      ∃ (sign : Sign) (n : Numeral), trimBlanks text.toList = sign.chars ++ n.chars) ∧
    ((Decimal.literal? text).isSome = true →
      trimBlanks text.toList ∈ Pattern.literal.matches') ∧
    ∀ (sign : Sign) (n : Numeral), trimBlanks text.toList = sign.chars ++ n.chars →
      ((Decimal.literal? text).isSome = true ↔ n.InRange) ∧
      ∀ x, Decimal.literal? text = some x →
        x.scale = n.places.length - n.power ∧ x.value = sign.signed n.value := by
  refine ⟨Pattern.mem_literal_iff, fun found => Pattern.mem_literal_iff.2 ?_,
    fun sign n parts => ⟨?_, fun x found => ?_⟩⟩
  · obtain ⟨x, found⟩ := Option.isSome_iff_exists.1 found
    exact Numeral.exists_parts_of_literal? found
  · rw [Option.isSome_iff_exists]
    constructor
    · rintro ⟨x, found⟩
      exact ((Numeral.literal?_of_trimBlanks parts).1 found).1
    · exact fun range => ⟨_, (Numeral.literal?_of_trimBlanks parts).2 ⟨range, rfl⟩⟩
  · obtain ⟨range, rfl⟩ := (Numeral.literal?_of_trimBlanks parts).1 found
    refine ⟨sign.scale_applyTo n.decimal, ?_⟩
    rw [sign.value_applyTo, n.value_decimal]

/-- A fraction alone, with a sign and an exponent. -/
theorem literal_matches_pattern_fraction : ∃ x, Decimal.literal? " -.25e1\n" = some x ∧
    x.scale = 1 ∧ x.value = -5 / 2 := by
  let exponent : Exponent :=
    { mark := 'e'
      sign := .none
      digits := ['1']
      isMark := rfl
      hdigits := by decide
      nonempty := by decide }
  let n : Numeral :=
    { whole := []
      places := ['2', '5']
      exponent? := some exponent
      hwhole := by decide
      hplaces := by decide
      nonempty := by decide }
  have parts : trimBlanks " -.25e1\n".toList = Sign.minus.chars ++ n.chars := by decide
  have range : n.InRange := ⟨by decide, by decide, by decide, by decide⟩
  have value : Sign.minus.signed n.value = -5 / 2 := by
    have whole : ofDigits n.whole = 0 := rfl
    have places : ofDigits n.places = 25 := rfl
    have power : n.power = 1 := rfl
    have length : n.places.length = 2 := rfl
    rw [Sign.signed, Numeral.value, whole, places, power, length]
    norm_num
  obtain ⟨found, shown⟩ := (literal_matches_pattern " -.25e1\n").2.2 .minus n parts
  obtain ⟨x, hx⟩ := Option.isSome_iff_exists.1 (found.2 range)
  exact ⟨x, hx, (shown x hx).1, (shown x hx).2.trans value⟩

end EquationSystem
