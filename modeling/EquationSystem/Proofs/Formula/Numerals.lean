import EquationSystem.Decimal.Numeral
import EquationSystem.Formula.Lexer
import Mathlib.Data.List.TakeWhile

/-!
# The grammar of numerals

A text that is tried as a numeric literal and a number at the beginning of a text are looked for by
two different readers. Both follow one grammar: digits, with a fraction or a fraction alone, and an
exponent that has digits (`IsNumeral`). The first accepts a sign and then a numeral and nothing
else; the second reads a numeral where nothing but blanks can follow it.
-/

namespace EquationSystem

/-- Digits, perhaps none. -/
def Digits (cs : List Char) : Prop := ∀ c ∈ cs, c.isDigit = true

instance (cs : List Char) : Decidable (Digits cs) :=
  decidable_of_iff (cs.all Char.isDigit = true) List.all_eq_true

/-- Nothing, or a mark, perhaps a sign, and digits. -/
inductive IsExponent : List Char → Prop
  | absent : IsExponent []
  | present {mark : Char} {sign digits : List Char} (isMark : isExponentMark mark = true)
      (isSign : sign = [] ∨ sign = ['+'] ∨ sign = ['-']) (nonempty : digits ≠ [])
      (hdigits : Digits digits) : IsExponent (mark :: (sign ++ digits))

/-- A number without a sign. -/
inductive IsNumeral : List Char → Prop
  | integer {whole exponent : List Char} (nonempty : whole ≠ []) (hwhole : Digits whole)
      (hexponent : IsExponent exponent) : IsNumeral (whole ++ exponent)
  | fraction {whole places exponent : List Char} (hwhole : Digits whole) (nonempty : places ≠ [])
      (hplaces : Digits places) (hexponent : IsExponent exponent) :
      IsNumeral (whole ++ '.' :: (places ++ exponent))

/-- The text is empty or its first character is none of the class. -/
def Misses (p : Char → Bool) (cs : List Char) : Prop := ∀ c, cs.head? = some c → p c = false

section
variable {p : Char → Bool} {c : Char} {front rest cs : List Char}

theorem misses_nil : Misses p [] := nofun

theorem misses_cons : Misses p (c :: cs) ↔ p c = false :=
  ⟨fun h => h c rfl, fun h _ same => Option.some.inj same ▸ h⟩

theorem Misses.append (h : Misses p front) (hrest : Misses p rest) : Misses p (front ++ rest) := by
  cases front with
  | nil => exact hrest
  | cons c front => exact h

theorem takeWhile_append_of_misses (inside : ∀ c ∈ front, p c = true) (h : Misses p rest) :
    (front ++ rest).takeWhile p = front := by
  rw [List.takeWhile_append_of_pos inside]
  cases rest with
  | nil => rw [List.takeWhile_nil, List.append_nil]
  | cons c rest => rw [List.takeWhile_cons, misses_cons.1 h, if_neg nofun, List.append_nil]

theorem dropWhile_append_of_misses (inside : ∀ c ∈ front, p c = true) (h : Misses p rest) :
    (front ++ rest).dropWhile p = rest := by
  rw [List.dropWhile_append_of_pos inside]
  cases rest with
  | nil => rfl
  | cons c rest => rw [List.dropWhile_cons, misses_cons.1 h, if_neg nofun]

end

/-! ## Characters -/

section
variable {c : Char}

/-- No digit is one of the characters that are told apart by equality. -/
theorem isDigit_ne (h : c.isDigit = true) {d : Char} (other : d.isDigit = false) :
    (c == d) = false := by
  rw [beq_eq_false_iff_ne]
  rintro rfl
  rw [h] at other
  cases other

theorem isBlank_of_isDigit (h : c.isDigit = true) : isBlank c = false := by
  simp only [isBlank, Bool.or_eq_false_iff]
  exact ⟨⟨⟨⟨isDigit_ne h rfl, isDigit_ne h rfl⟩, isDigit_ne h rfl⟩, isDigit_ne h rfl⟩,
    isDigit_ne h rfl⟩

theorem isExponentMark_of_isDigit (h : c.isDigit = true) : isExponentMark c = false := by
  simp only [isExponentMark, Bool.or_eq_false_iff]
  exact ⟨isDigit_ne h rfl, isDigit_ne h rfl⟩

/-- The digits come before all letters. -/
theorem isNameStart_of_isDigit (h : c.isDigit = true) : isNameStart c = false := by
  have digit : c.val ≤ '9'.val := of_decide_eq_true ((Bool.and_eq_true _ _).mp h).2
  have upper : c.isUpper = false :=
    decide_eq_false fun above => absurd (UInt32.le_trans above.1 digit) (by decide)
  have lower : c.isLower = false := Bool.and_eq_false_iff.2 <| .inl <|
    decide_eq_false fun above => absurd (UInt32.le_trans above digit) (by decide)
  change (c.isUpper || c.isLower || c == '_') = false
  rw [upper, lower, isDigit_ne h rfl]
  rfl

theorem isBlank_of_isExponentMark (h : isExponentMark c = true) : isBlank c = false := by
  simp only [isExponentMark, Bool.or_eq_true, beq_iff_eq] at h
  rcases h with rfl | rfl <;> rfl

theorem isDigit_of_isExponentMark (h : isExponentMark c = true) : c.isDigit = false := by
  simp only [isExponentMark, Bool.or_eq_true, beq_iff_eq] at h
  rcases h with rfl | rfl <;> rfl

end

/-! ## Exponents -/

theorem takeSign_append_dropSign (cs : List Char) : takeSign cs ++ dropSign cs = cs := by
  unfold takeSign
  split
  · rfl
  · rfl
  · next noPlus noMinus =>
    unfold dropSign
    split
    · next rest => exact (noPlus rest rfl).elim
    · next rest => exact (noMinus rest rfl).elim
    · rfl

theorem takeSign_cases (cs : List Char) :
    takeSign cs = [] ∨ takeSign cs = ['+'] ∨ takeSign cs = ['-'] := by
  unfold takeSign
  split
  · exact .inr (.inl rfl)
  · exact .inr (.inr rfl)
  · exact .inl rfl

/-- A text that begins with neither sign. -/
theorem sign_of_ne {c : Char} {cs : List Char} (plus : c ≠ '+') (minus : c ≠ '-') :
    takeSign (c :: cs) = [] ∧ dropSign (c :: cs) = c :: cs := by
  unfold takeSign dropSign
  constructor
  · split
    · next same => exact (plus (List.cons.inj same).1).elim
    · next same => exact (minus (List.cons.inj same).1).elim
    · rfl
  · split
    · next same => exact (plus (List.cons.inj same).1).elim
    · next same => exact (minus (List.cons.inj same).1).elim
    · rfl

theorem sign_append {sign cs : List Char} (isSign : sign = [] ∨ sign = ['+'] ∨ sign = ['-'])
    {c : Char} (head : cs.head? = some c) (digit : c.isDigit = true) :
    takeSign (sign ++ cs) = sign ∧ dropSign (sign ++ cs) = cs := by
  obtain ⟨rest, rfl⟩ := List.head?_eq_some_iff.1 head
  rcases isSign with rfl | rfl | rfl
  · exact sign_of_ne (ne_of_beq_false (isDigit_ne digit rfl))
      (ne_of_beq_false (isDigit_ne digit rfl))
  · exact ⟨rfl, rfl⟩
  · exact ⟨rfl, rfl⟩

theorem Digits.exists_head {cs : List Char} (h : Digits cs) (nonempty : cs ≠ []) :
    ∃ c, cs.head? = some c ∧ c.isDigit = true := by
  cases cs with
  | nil => exact (nonempty rfl).elim
  | cons c cs => exact ⟨c, rfl, h c List.mem_cons_self⟩

theorem takeDigits_append (cs : List Char) :
    cs.takeWhile Char.isDigit ++ cs.dropWhile Char.isDigit = cs :=
  List.takeWhile_append_dropWhile

theorem digits_takeWhile (cs : List Char) : Digits (cs.takeWhile Char.isDigit) :=
  fun _ h => List.mem_takeWhile_imp h

theorem IsExponent.misses {p : Char → Bool} {cs : List Char} (h : IsExponent cs)
    (hp : ∀ c, isExponentMark c = true → p c = false) : Misses p cs := by
  cases h with
  | absent => exact misses_nil
  | present isMark => exact misses_cons.2 (hp _ isMark)

theorem isExponentPart_iff {cs : List Char} : Decimal.isExponentPart cs = true ↔ IsExponent cs := by
  cases cs with
  | nil => exact ⟨fun _ => .absent, fun _ => rfl⟩
  | cons mark cs =>
    rw [Decimal.isExponentPart, Bool.and_eq_true, Bool.and_eq_true, Bool.not_eq_true',
      List.isEmpty_eq_false_iff, List.all_eq_true]
    constructor
    · rintro ⟨⟨isMark, nonempty⟩, digits⟩
      rw [← takeSign_append_dropSign cs]
      exact .present isMark (takeSign_cases cs) nonempty digits
    · intro h
      cases h with
      | present isMark isSign nonempty digits =>
        obtain ⟨c, head, digit⟩ := digits.exists_head nonempty
        rw [(sign_append isSign head digit).2]
        exact ⟨⟨isMark, nonempty⟩, digits⟩

/-! ## Numerals -/

theorem IsExponent.misses_digit {cs : List Char} (h : IsExponent cs) : Misses Char.isDigit cs :=
  h.misses fun _ => isDigit_of_isExponentMark

theorem IsExponent.ne_point {cs rest : List Char} (h : IsExponent cs) : cs ≠ '.' :: rest := by
  rintro rfl
  cases h with
  | present isMark => cases isMark

/-- With a point after the digits at its beginning, a text is a numeral if digits and an exponent
follow. -/
theorem isNumeral_of_point {cs rest : List Char} (point : cs.dropWhile Char.isDigit = '.' :: rest) :
    IsNumeral cs ↔
      rest.takeWhile Char.isDigit ≠ [] ∧ IsExponent (rest.dropWhile Char.isDigit) := by
  constructor
  · intro h
    cases h with
    | integer nonempty hwhole hexponent =>
      rw [dropWhile_append_of_misses hwhole hexponent.misses_digit] at point
      exact (hexponent.ne_point point).elim
    | fraction hwhole nonempty hplaces hexponent =>
      rw [dropWhile_append_of_misses hwhole (misses_cons.2 rfl)] at point
      obtain rfl := (List.cons.inj point).2
      rw [takeWhile_append_of_misses hplaces hexponent.misses_digit,
        dropWhile_append_of_misses hplaces hexponent.misses_digit]
      exact ⟨nonempty, hexponent⟩
  · intro ⟨nonempty, hexponent⟩
    rw [← takeDigits_append cs, point, ← takeDigits_append rest]
    exact .fraction (digits_takeWhile cs) nonempty (digits_takeWhile rest) hexponent

theorem isNumeral_of_no_point {cs : List Char}
    (noPoint : ∀ rest, cs.dropWhile Char.isDigit ≠ '.' :: rest) :
    IsNumeral cs ↔ cs.takeWhile Char.isDigit ≠ [] ∧ IsExponent (cs.dropWhile Char.isDigit) := by
  constructor
  · intro h
    cases h with
    | integer nonempty hwhole hexponent =>
      rw [takeWhile_append_of_misses hwhole hexponent.misses_digit,
        dropWhile_append_of_misses hwhole hexponent.misses_digit]
      exact ⟨nonempty, hexponent⟩
    | fraction hwhole =>
      exact (noPoint _ (dropWhile_append_of_misses hwhole (misses_cons.2 rfl))).elim
  · intro ⟨nonempty, hexponent⟩
    rw [← takeDigits_append cs]
    exact .integer nonempty (digits_takeWhile cs) hexponent

/-- The text of a literal is a numeral after the sign. -/
theorem isLiteral_iff {cs : List Char} :
    Decimal.isLiteral cs = true ↔ IsNumeral (dropSign cs) := by
  rw [Decimal.isLiteral]
  split
  · next rest point =>
    rw [isNumeral_of_point point, ← isExponentPart_iff]
    simp
  · next noPoint =>
    rw [isNumeral_of_no_point noPoint, ← isExponentPart_iff]
    simp

/-! ## The characters of numerals -/

section
variable {p : Char → Prop} {cs : List Char} (digit : ∀ c, c.isDigit = true → p c)
  (mark : ∀ c, isExponentMark c = true → p c)
include digit mark

theorem IsExponent.forall_mem (signs : p '+' ∧ p '-') (h : IsExponent cs) : ∀ c ∈ cs, p c := by
  cases h with
  | absent => exact List.forall_mem_nil _
  | present isMark isSign nonempty hdigits =>
    rw [List.forall_mem_cons, List.forall_mem_append]
    refine ⟨mark _ isMark, ?_, fun c hc => digit c (hdigits c hc)⟩
    rcases isSign with rfl | rfl | rfl
    · exact List.forall_mem_nil _
    · exact List.forall_mem_singleton.2 signs.1
    · exact List.forall_mem_singleton.2 signs.2

theorem IsNumeral.forall_mem (signs : p '+' ∧ p '-') (point : p '.') (h : IsNumeral cs) :
    ∀ c ∈ cs, p c := by
  cases h with
  | integer nonempty hwhole hexponent =>
    rw [List.forall_mem_append]
    exact ⟨fun c hc => digit c (hwhole c hc), hexponent.forall_mem digit mark signs⟩
  | fraction hwhole nonempty hplaces hexponent =>
    rw [List.forall_mem_append, List.forall_mem_cons, List.forall_mem_append]
    exact ⟨fun c hc => digit c (hwhole c hc), point, fun c hc => digit c (hplaces c hc),
      hexponent.forall_mem digit mark signs⟩

end

namespace IsNumeral

variable {cs : List Char} (h : IsNumeral cs)
include h

theorem not_blank : ∀ c ∈ cs, isBlank c = false :=
  h.forall_mem (fun _ => isBlank_of_isDigit) (fun _ => isBlank_of_isExponentMark) ⟨rfl, rfl⟩ rfl

/-- A numeral begins with a digit or with its point. -/
theorem exists_head : ∃ c rest, cs = c :: rest ∧ (c.isDigit || c == '.') = true := by
  cases h with
  | @integer whole exponent nonempty hwhole =>
    obtain ⟨c, head, digit⟩ := hwhole.exists_head nonempty
    obtain ⟨rest, rfl⟩ := List.head?_eq_some_iff.1 head
    exact ⟨c, rest ++ exponent, rfl, by rw [digit, Bool.true_or]⟩
  | @fraction whole places exponent hwhole =>
    cases whole with
    | nil => exact ⟨'.', _, rfl, rfl⟩
    | cons c whole => exact ⟨c, _, rfl, by rw [hwhole c List.mem_cons_self, Bool.true_or]⟩

end IsNumeral

/-! ## Lexemes -/

/-- Nothing follows, or a blank. -/
def BlankNext (cs : List Char) : Prop := ∀ c, cs.head? = some c → isBlank c = true

theorem BlankNext.misses {p : Char → Bool} {cs : List Char} (h : BlankNext cs)
    (hp : ∀ c, p c = true → isBlank c = false) : Misses p cs := by
  intro c head
  by_contra found
  have nonblank := hp c (eq_true_of_ne_false found)
  rw [h c head] at nonblank
  cases nonblank

theorem BlankNext.ne_point {exponent rest other : List Char} (h : BlankNext rest)
    (hexponent : IsExponent exponent) : exponent ++ rest ≠ '.' :: other := by
  intro point
  cases hexponent with
  | absent =>
    obtain rfl : rest = '.' :: other := point
    cases h '.' rfl
  | present isMark =>
    cases (List.cons.inj point).1
    cases isMark

namespace Lexer

theorem exponentLexeme_append {exponent rest : List Char} (h : IsExponent exponent)
    (blank : BlankNext rest) : exponentLexeme (exponent ++ rest) = exponent := by
  cases h with
  | absent =>
    cases rest with
    | nil => rfl
    | cons c rest =>
      have noMark := misses_cons.1 (blank.misses fun _ => isBlank_of_isExponentMark)
      rw [List.nil_append, exponentLexeme, noMark]
      rfl
  | @present mark sign digits isMark isSign nonempty hdigits =>
    obtain ⟨c, head, digit⟩ := hdigits.exists_head nonempty
    have first : (digits ++ rest).head? = some c := by simp [head]
    have signed := sign_append isSign first digit
    rw [List.cons_append, List.append_assoc, exponentLexeme, signed.1, signed.2,
      takeWhile_append_of_misses hdigits (blank.misses fun _ => isBlank_of_isDigit)]
    simp [isMark, nonempty]

theorem isExponent_exponentLexeme (cs : List Char) : IsExponent (exponentLexeme cs) := by
  unfold exponentLexeme
  split
  · exact .absent
  · next mark rest =>
    dsimp only
    split
    · next found =>
      rw [Bool.and_eq_true, Bool.not_eq_true', List.isEmpty_eq_false_iff] at found
      exact .present found.1 (takeSign_cases rest) found.2 (digits_takeWhile _)
    · exact .absent

theorem exponentLexeme_initial (cs : List Char) : exponentLexeme cs <+: cs := by
  unfold exponentLexeme
  split
  · exact List.prefix_rfl
  · next mark rest =>
    dsimp only
    split
    · rw [List.prefix_cons_inj]
      calc takeSign rest ++ (dropSign rest).takeWhile Char.isDigit
          <+: takeSign rest ++ dropSign rest :=
            (List.prefix_append_right_inj _).2 (List.takeWhile_prefix _)
        _ = rest := takeSign_append_dropSign rest
    · exact List.nil_prefix

theorem numberLexeme_of_point {cs rest : List Char}
    (point : cs.dropWhile Char.isDigit = '.' :: rest)
    (nonempty : rest.takeWhile Char.isDigit ≠ []) :
    numberLexeme cs = .ok (cs.takeWhile Char.isDigit ++ '.' :: (rest.takeWhile Char.isDigit ++
      exponentLexeme (rest.dropWhile Char.isDigit))) := by
  rw [numberLexeme, point]
  exact if_neg (by simpa using nonempty)

theorem numberLexeme_of_no_point {cs : List Char}
    (noPoint : ∀ rest, cs.dropWhile Char.isDigit ≠ '.' :: rest) :
    numberLexeme cs =
      .ok (cs.takeWhile Char.isDigit ++ exponentLexeme (cs.dropWhile Char.isDigit)) := by
  rw [numberLexeme]
  split
  · next rest point => exact (noPoint rest point).elim
  · rfl

/-- A numeral before a blank, or at the end, is read as a whole. -/
theorem numberLexeme_append {cs rest : List Char} (h : IsNumeral cs) (blank : BlankNext rest) :
    numberLexeme (cs ++ rest) = .ok cs := by
  cases h with
  | @integer whole exponent nonempty hwhole hexponent =>
    have next : Misses Char.isDigit (exponent ++ rest) :=
      hexponent.misses_digit.append (blank.misses fun _ => isBlank_of_isDigit)
    rw [List.append_assoc, numberLexeme_of_no_point, takeWhile_append_of_misses hwhole next,
      dropWhile_append_of_misses hwhole next, exponentLexeme_append hexponent blank]
    rw [dropWhile_append_of_misses hwhole next]
    exact fun _ => blank.ne_point hexponent
  | @fraction whole places exponent hwhole nonempty hplaces hexponent =>
    have next : Misses Char.isDigit (exponent ++ rest) :=
      hexponent.misses_digit.append (blank.misses fun _ => isBlank_of_isDigit)
    have point : Misses Char.isDigit ('.' :: (places ++ (exponent ++ rest))) := misses_cons.2 rfl
    rw [List.append_assoc, List.cons_append, List.append_assoc,
      numberLexeme_of_point (dropWhile_append_of_misses hwhole point),
      takeWhile_append_of_misses hwhole point, takeWhile_append_of_misses hplaces next,
      dropWhile_append_of_misses hplaces next, exponentLexeme_append hexponent blank]
    rwa [takeWhile_append_of_misses hplaces next]

/-- What is read as a number is a numeral at the beginning of the text. -/
theorem numberLexeme_sound {c : Char} {cs lexeme : List Char} (first : c.isDigit || c == '.')
    (h : numberLexeme (c :: cs) = .ok lexeme) : IsNumeral lexeme ∧ lexeme <+: c :: cs := by
  rw [numberLexeme] at h
  split at h
  · next rest point =>
    dsimp only at h
    split at h
    · cases h
    · next nonempty =>
      cases h
      refine ⟨.fraction (digits_takeWhile _) (by simpa using nonempty) (digits_takeWhile _)
        (isExponent_exponentLexeme _), ?_⟩
      calc (c :: cs).takeWhile Char.isDigit ++ '.' :: (rest.takeWhile Char.isDigit ++
            exponentLexeme (rest.dropWhile Char.isDigit))
          <+: (c :: cs).takeWhile Char.isDigit ++ '.' :: (rest.takeWhile Char.isDigit ++
            rest.dropWhile Char.isDigit) := by
            rw [List.prefix_append_right_inj, List.prefix_cons_inj, List.prefix_append_right_inj]
            exact exponentLexeme_initial _
        _ = c :: cs := by rw [takeDigits_append, ← point, takeDigits_append]
  · next noPoint =>
    cases h
    have digit : c.isDigit = true := by
      by_contra other
      rw [Bool.not_eq_true] at other
      rw [other, Bool.false_or, beq_iff_eq] at first
      apply noPoint cs
      rw [List.dropWhile_cons, other, first]
      rfl
    constructor
    · refine .integer ?_ (digits_takeWhile _) (isExponent_exponentLexeme _)
      rw [List.takeWhile_cons, digit]
      exact List.cons_ne_nil _ _
    · calc (c :: cs).takeWhile Char.isDigit ++ exponentLexeme ((c :: cs).dropWhile Char.isDigit)
          <+: (c :: cs).takeWhile Char.isDigit ++ (c :: cs).dropWhile Char.isDigit :=
            (List.prefix_append_right_inj _).2 (exponentLexeme_initial _)
        _ = c :: cs := takeDigits_append _

end Lexer

end EquationSystem
