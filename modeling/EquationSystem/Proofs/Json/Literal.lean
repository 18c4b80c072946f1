import EquationSystem.Json.Reader
import EquationSystem.Proofs.Formula.Denotation

/-!
# Numbers of JSON

A number of JSON is read as far as it goes, and kept with its digits as they stand and its exponent
in one form. What is kept is again a number of JSON that denotes the same, and is a numeric literal
for the decimal with the same digits and places.
-/

namespace EquationSystem

/-- The exponent in the form in which it is kept: with a small letter and a sign. -/
def Exponent.kept (e : Exponent) : Exponent where
  mark := 'e'
  sign := match e.sign with
    | .none => .plus
    | sign => sign
  digits := e.digits
  isMark := rfl
  hdigits := e.hdigits
  nonempty := e.nonempty

theorem Exponent.value_kept (e : Exponent) : e.kept.value = e.value := by
  unfold value kept
  cases e.sign <;> rfl

namespace Json

/-- A number of JSON. It begins with a digit, and with a zero only if no other digit stands before
the point. -/
structure Literal extends Numeral where
  negative : Bool
  hleading : whole ≠ []
  hzero : whole.head? = some '0' → whole.length ≤ 1

/-- What stands here is not part of a number before it. -/
def Ends (cs : List Char) : Prop := Misses (fun c => c.isDigit || c == '.' || isExponentMark c) cs

theorem Ends.misses {p : Char → Bool} {cs : List Char} (h : Ends cs)
    (hp : ∀ c, p c = true → c.isDigit || c == '.' || isExponentMark c) : Misses p cs := by
  intro c head
  by_contra found
  have other : (c.isDigit || c == '.' || isExponentMark c) = false := h c head
  rw [hp c (eq_true_of_ne_false found)] at other
  cases other

theorem Ends.misses_digit {cs : List Char} (h : Ends cs) : Misses Char.isDigit cs :=
  h.misses fun c digit => by rw [digit]; rfl

namespace Literal

variable {l : Literal} {rest : List Char}

def sign (l : Literal) : Sign := if l.negative then .minus else .none

/-- The number as it stands in a text. -/
def chars (l : Literal) : List Char := l.sign.chars ++ l.toNumeral.chars

/-- The number in the form in which it is kept. -/
def kept (l : Literal) : Literal := { l with exponent? := l.exponent?.map Exponent.kept }

/-- The text that is kept of the number. -/
def keptText (l : Literal) : String := String.ofList l.kept.chars

/-- The number that the literal denotes. -/
def value (l : Literal) : ℚ := if l.negative then -l.toNumeral.value else l.toNumeral.value

/-- The decimal that shows the digits of the literal. -/
def decimal (l : Literal) : Decimal := l.sign.applyTo l.toNumeral.decimal

theorem exists_head (l : Literal) : ∃ c cs, l.chars = c :: cs ∧ (c.isDigit = true ∨ c = '-') := by
  unfold chars sign
  cases l.negative with
  | true => exact ⟨'-', l.toNumeral.chars, rfl, .inr rfl⟩
  | false =>
    obtain ⟨d, ds, hd⟩ := List.exists_cons_of_ne_nil l.hleading
    refine ⟨d, ds ++ (l.pointChars ++ l.exponentChars), ?_, .inl ?_⟩
    · show l.whole ++ (l.pointChars ++ l.exponentChars) = _
      rw [hd, List.cons_append]
    · exact l.hwhole d (hd ▸ List.mem_cons_self)

theorem value_decimal (l : Literal) : l.decimal.value = l.value := by
  unfold decimal value sign
  cases l.negative with
  | true => exact (Decimal.value_neg _).trans (congrArg _ l.toNumeral.value_decimal)
  | false => exact l.toNumeral.value_decimal

theorem power_kept (l : Literal) : l.kept.power = l.power := by
  unfold kept Numeral.power
  cases l.exponent? with
  | none => rfl
  | some e => exact e.value_kept

theorem numeral_decimal_kept (l : Literal) : l.kept.toNumeral.decimal = l.toNumeral.decimal := by
  unfold Numeral.decimal
  rw [power_kept]
  rfl

theorem decimal_kept (l : Literal) : l.kept.decimal = l.decimal := by
  unfold decimal
  rw [numeral_decimal_kept]
  rfl

theorem inRange_kept (h : l.InRange) : l.kept.InRange where
  power_ge := l.power_kept ▸ h.power_ge
  power_lt := l.power_kept ▸ h.power_lt
  scale_ge := l.numeral_decimal_kept ▸ h.scale_ge
  scale_lt := l.numeral_decimal_kept ▸ h.scale_lt

/-- What is kept of a number is the literal for its decimal. -/
theorem literal?_keptText (h : l.InRange) : Decimal.literal? l.keptText = some l.decimal := by
  rw [← decimal_kept]
  exact Numeral.literal?_eq (inRange_kept h) l.kept.sign

/-! ## Reading numbers -/

theorem fraction?_append (n : Numeral) (h : Ends rest) :
    fraction? (n.pointChars ++ (n.exponentChars ++ rest)) = some n.pointChars := by
  have hexponent := n.isExponent_exponentChars
  unfold Numeral.pointChars
  split
  · have noPoint : Misses (· == '.') (n.exponentChars ++ rest) := by
      refine Misses.append (hexponent.misses fun c isMark => ?_)
        (h.misses fun c point => by rw [point, Bool.or_true, Bool.true_or])
      exact beq_eq_false_iff_ne.2 (by rintro rfl; cases isMark)
    unfold fraction?
    split
    · next point =>
      rw [List.nil_append] at point
      rw [point] at noPoint
      cases misses_cons.1 noPoint
    · rfl
  · next places =>
    have digits : (n.places ++ (n.exponentChars ++ rest)).takeWhile Char.isDigit = n.places :=
      takeWhile_append_of_misses n.hplaces (hexponent.misses_digit.append h.misses_digit)
    rw [List.cons_append, fraction?, digits]
    exact if_neg (by simpa using places)

theorem exponent?_append (n : Numeral) (h : Ends rest) :
    exponent? (n.exponentChars ++ rest) =
      some ((n.exponent?.map Exponent.kept).elim [] Exponent.chars, n.exponentChars.length) := by
  unfold Numeral.exponentChars
  cases n.exponent? with
  | none =>
    cases rest with
    | nil => rfl
    | cons c rest =>
      have noMark : isExponentMark c = false :=
        misses_cons.1 (h.misses fun c isMark => by rw [isMark, Bool.or_true])
      simp [exponent?, noMark]
  | some e =>
    obtain ⟨d, head, digit⟩ := e.hdigits.exists_head e.nonempty
    have first : (e.digits ++ rest).head? = some d := by simp [head]
    have isSign : e.sign.chars = [] ∨ e.sign.chars = ['+'] ∨ e.sign.chars = ['-'] := by
      cases e.sign <;> simp [Sign.chars]
    have signed := sign_append isSign first digit
    show exponent? (e.mark :: (e.sign.chars ++ e.digits) ++ rest) = _
    rw [List.cons_append, List.append_assoc, exponent?, e.isMark, if_pos rfl, signed.1, signed.2,
      takeWhile_append_of_misses e.hdigits h.misses_digit]
    dsimp only
    rw [if_neg (by simpa using e.nonempty)]
    simp only [Option.map_some, Option.elim_some, Exponent.chars, Exponent.kept, List.length_cons,
      List.length_append, Option.some.injEq, Prod.mk.injEq]
    refine ⟨?_, by omega⟩
    cases e.sign <;> rfl

/-- A number is read up to where it ends. -/
theorem readNumber_append (l : Literal) (h : Ends rest) :
    readNumber (l.chars ++ rest) = some (l.keptText, l.chars.length) := by
  obtain ⟨d, ds, hd⟩ := List.exists_cons_of_ne_nil l.hleading
  have digit : d.isDigit = true := l.hwhole d (hd ▸ List.mem_cons_self)
  have sign : (if (l.chars ++ rest).head? = some '-' then ['-'] else []) = l.sign.chars := by
    unfold chars sign
    cases l.negative with
    | true => rfl
    | false =>
      refine if_neg fun same => ?_
      rw [Numeral.chars, hd] at same
      cases Option.some.inj same
      cases digit
  have body : (l.chars ++ rest).drop l.sign.chars.length =
      l.whole ++ (l.pointChars ++ (l.exponentChars ++ rest)) := by
    rw [chars, List.append_assoc, List.drop_left, Numeral.chars, List.append_assoc,
      List.append_assoc]
  have whole : (l.whole ++ (l.pointChars ++ (l.exponentChars ++ rest))).takeWhile Char.isDigit =
      l.whole := by
    refine takeWhile_append_of_misses l.hwhole (Misses.append ?_ ?_)
    · exact l.toNumeral.pointChars_misses_digit
    · exact l.toNumeral.isExponent_exponentChars.misses_digit.append h.misses_digit
  have leading : (l.whole.isEmpty || (l.whole.head? = some '0' && 1 < l.whole.length)) = false := by
    have zero := l.hzero
    simp only [List.isEmpty_eq_false_iff.2 l.hleading, Bool.false_or, Bool.and_eq_false_iff,
      decide_eq_false_iff_not, Nat.not_lt]
    exact or_iff_not_imp_left.2 fun zero' => zero (not_not.1 zero')
  have behind : (l.whole ++ (l.pointChars ++ (l.exponentChars ++ rest))).drop
      (l.whole.length + l.pointChars.length) = l.exponentChars ++ rest := by
    rw [← List.append_assoc, ← List.length_append, List.drop_left]
  unfold readNumber
  simp only [sign, body, whole, leading, Bool.false_eq_true, if_false, List.drop_left,
    fraction?_append l.toNumeral h, behind, exponent?_append l.toNumeral h]
  simp only [keptText, chars, Numeral.chars, List.append_assoc, List.length_append, Nat.add_assoc]
  rfl

end Literal

end Json

end EquationSystem
