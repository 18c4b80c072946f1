import EquationSystem.Proofs.Formula.Figures

/-!
# Conversion and recognition of numbers

Converting a text to a decimal is more liberal than recognizing a literal. The texts that are
converted are figures with what may stand before them (`SignedFigure`): a plus may stand before the
sign, underscores may group the digits, and a point needs no digits behind it. The literals among
them are those without a second sign, without underscores and with digits behind the point
(`SignedFigure.Strict`), and a literal is converted to its value.
-/

namespace EquationSystem

namespace Decimal

theorem plus_append (cs : List Char) : (if startsWith '+' cs then ['+'] else []) ++
    (if startsWith '+' cs then cs.tail else cs) = cs := by
  by_cases plus : startsWith '+' cs = true
  · rw [if_pos plus, if_pos plus]
    obtain ⟨rest, rfl⟩ := startsWith_eq_true plus
    rfl
  · rw [if_neg plus, if_neg plus]
    rfl

/-- No point begins the number once a zero is written before it. -/
theorem head?_completeFraction (cs : List Char) : (completeFraction cs).head? ≠ some '.' := by
  unfold completeFraction
  split
  · nofun
  · nofun
  · next noPoint =>
    intro point
    obtain ⟨rest, rfl⟩ := List.head?_eq_some_iff.1 point
    exact noPoint rest rfl

end Decimal

namespace Figure

/-- A figure that is converted behind a sign. A zero is written before a point that begins it, but
not behind a plus. -/
structure Follows (f : Figure) (sign : Sign) : Prop where
  digit : f.whole ≠ [] → DigitFirst f.whole
  point : f.whole = [] → f.fraction?.isSome = true
  fraction : sign = .plus → f.whole = [] → DigitFirst f.fraction

/-- The figure with a zero in place of the digits before its point. -/
def withZero (f : Figure) : Figure :=
  { f with whole := ['0'], hwhole := List.forall_mem_singleton.2 (.inl (by decide)) }

/-- The figure with a zero where no digit stands before its point, unless it is behind a plus. -/
def complete (f : Figure) : Sign → Figure
  | .plus => f
  | .none | .minus => if f.whole = [] then f.withZero else f

variable {f g : Figure} {sign : Sign} {cs rest : List Char}

theorem chars_withZero (noWhole : f.whole = []) : f.withZero.chars = '0' :: f.chars := by
  rw [chars, chars, noWhole]
  rfl

/-- A zero before the point adds nothing. -/
theorem decimal_withZero (noWhole : f.whole = []) : f.withZero.decimal = f.decimal := by
  rw [decimal, decimal, noWhole]
  rfl

theorem complete_cases (f : Figure) (sign : Sign) :
    f.complete sign = f ∧ (f.whole = [] → sign = .plus) ∨
      f.complete sign = f.withZero ∧ f.whole = [] ∧ sign ≠ .plus := by
  cases sign with
  | plus => exact .inl ⟨rfl, fun _ => rfl⟩
  | none | minus =>
    by_cases noWhole : f.whole = []
    · exact .inr ⟨if_pos noWhole, noWhole, nofun⟩
    · exact .inl ⟨if_neg noWhole, fun h => (noWhole h).elim⟩

theorem decimal_complete (f : Figure) (sign : Sign) : (f.complete sign).decimal = f.decimal := by
  rcases f.complete_cases sign with ⟨same, -⟩ | ⟨zero, noWhole, -⟩
  · rw [same]
  · rw [zero, decimal_withZero noWhole]

theorem power_complete (f : Figure) (sign : Sign) : (f.complete sign).power = f.power := by
  rcases f.complete_cases sign with ⟨same, -⟩ | ⟨zero, -⟩
  · rw [same]
  · rw [zero]
    rfl

theorem inRange_complete_iff : (f.complete sign).InRange ↔ f.InRange := by
  constructor <;> rintro ⟨power_ge, power_lt, scale_ge, scale_lt⟩
  · rw [power_complete] at power_ge power_lt
    rw [decimal_complete] at scale_ge scale_lt
    exact ⟨power_ge, power_lt, scale_ge, scale_lt⟩
  · constructor
    · rwa [power_complete]
    · rwa [power_complete]
    · rwa [decimal_complete]
    · rwa [decimal_complete]

theorem Begins.follows (h : f.Begins) (sign : Sign) : f.Follows sign := by
  obtain ⟨d, rest, digits, digit⟩ := h
  refine ⟨fun whole => ?_, fun noWhole => ?_, fun _ noWhole => ?_⟩
  · obtain ⟨c, cs, same⟩ := List.exists_cons_of_ne_nil whole
    rw [same] at digits
    obtain ⟨rfl, -⟩ := List.cons.inj digits
    exact ⟨c, cs, same, digit⟩
  · rw [noWhole] at digits
    by_contra none
    rw [Option.not_isSome_iff_eq_none] at none
    rw [fraction, none] at digits
    cases digits
  · rw [noWhole] at digits
    exact ⟨d, rest, digits, digit⟩

theorem completeFraction_of_digit {d : Char} (digit : d.isDigit = true) (sign : Sign)
    (rest : List Char) :
    Decimal.completeFraction (sign.chars ++ d :: rest) = sign.chars ++ d :: rest := by
  cases sign with
  | plus => rfl
  | none =>
    unfold Decimal.completeFraction
    split
    · next same =>
      cases same
      cases digit
    · next same =>
      cases same
      cases digit
    · rfl
  | minus =>
    unfold Decimal.completeFraction
    split
    · next same =>
      cases same
      cases digit
    · next same => cases same
    · rfl

theorem digits_of_not_mem {cs : List Char} (h : Grouped cs) (noUnderscore : '_' ∉ cs) :
    Digits cs := by
  intro c hc
  rcases h c hc with digit | rfl
  · exact digit
  · exact (noUnderscore hc).elim

theorem digits_subset_chars (f : Figure) : f.whole ++ f.fraction ⊆ f.chars := by
  have fraction : f.fraction ⊆ f.pointChars := by
    rw [Figure.fraction, pointChars]
    cases f.fraction? with
    | none => exact List.Subset.refl _
    | some places => exact List.subset_cons_self '.' places
  exact List.append_subset.2 ⟨List.subset_append_left _ _,
    List.subset_append_of_subset_right _ (List.subset_append_of_subset_left _ fraction)⟩

/-- A point that no digit follows is in no numeral. -/
theorem not_isNumeral_of_bare_point (digits : Digits f.whole) (bare : f.fraction? = some []) :
    ¬IsNumeral f.chars := by
  have point : f.chars.dropWhile Char.isDigit = '.' :: f.exponentChars := by
    rw [chars, pointChars, bare]
    exact dropWhile_append_of_misses digits (misses_cons.2 rfl)
  have none : f.exponentChars.takeWhile Char.isDigit = [] :=
    takeWhile_append_of_misses (List.forall_mem_nil _) f.isExponent_exponentChars.misses_digit
  rw [isNumeral_of_point point]
  exact fun numeral => numeral.1 none

namespace Follows

theorem chars_point (h : f.Follows sign) (noWhole : f.whole = []) :
    ∃ rest, f.chars = '.' :: rest := by
  obtain ⟨fraction, hfraction⟩ := Option.isSome_iff_exists.1 (h.point noWhole)
  rw [chars, pointChars, noWhole, hfraction]
  exact ⟨_, rfl⟩

theorem chars_digit (h : f.Follows sign) (whole : f.whole ≠ []) :
    ∃ d rest, f.chars = d :: rest ∧ d.isDigit = true := by
  obtain ⟨d, rest, same, digit⟩ := h.digit whole
  rw [chars, same]
  exact ⟨d, _, rfl, digit⟩

/-- A figure begins with a digit or with its point. -/
theorem exists_head (h : f.Follows sign) :
    ∃ c rest, f.chars = c :: rest ∧ (c.isDigit || c == '.') = true := by
  by_cases noWhole : f.whole = []
  · obtain ⟨rest, chars⟩ := h.chars_point noWhole
    exact ⟨'.', rest, chars, rfl⟩
  · obtain ⟨d, rest, chars, digit⟩ := h.chars_digit noWhole
    exact ⟨d, rest, chars, by rw [digit, Bool.true_or]⟩

theorem chars_ne (h : f.Follows sign) {c : Char} (other : (c.isDigit || c == '.') = false)
    (rest : List Char) : f.chars ≠ c :: rest := by
  obtain ⟨d, ds, chars, first⟩ := h.exists_head
  rw [chars]
  exact fun same => ne_of_number first other (List.cons.inj same).1

theorem startsWith_plus (h : f.Follows sign) :
    Decimal.startsWith '+' (sign.chars ++ f.chars) = true ↔ sign = .plus := by
  cases sign with
  | none =>
    refine iff_of_false (fun plus => ?_) nofun
    obtain ⟨rest, chars⟩ := Decimal.startsWith_eq_true plus
    exact h.chars_ne rfl rest chars
  | plus => exact iff_of_true rfl rfl
  | minus => exact iff_of_false nofun nofun

theorem begins_complete (h : f.Follows sign) : (f.complete sign).Begins := by
  rcases f.complete_cases sign with ⟨same, plus⟩ | ⟨zero, -⟩
  · rw [same, Begins]
    by_cases noWhole : f.whole = []
    · rw [noWhole]
      exact h.fraction (plus noWhole) noWhole
    · obtain ⟨d, rest, whole, digit⟩ := h.digit noWhole
      rw [whole]
      exact ⟨d, _, rfl, digit⟩
  · rw [zero]
    exact ⟨'0', f.fraction, rfl, rfl⟩

theorem completeFraction_eq (h : f.Follows sign) :
    Decimal.completeFraction (sign.chars ++ f.chars) = sign.chars ++ (f.complete sign).chars := by
  rcases f.complete_cases sign with ⟨same, plus⟩ | ⟨zero, noWhole, noPlus⟩
  · rw [same]
    by_cases noWhole : f.whole = []
    · rw [plus noWhole]
      rfl
    · obtain ⟨d, rest, chars, digit⟩ := h.chars_digit noWhole
      rw [chars]
      exact completeFraction_of_digit digit sign rest
  · obtain ⟨rest, chars⟩ := h.chars_point noWhole
    rw [zero, chars_withZero noWhole, chars]
    cases sign with
    | plus => exact (noPlus rfl).elim
    | none | minus => rfl

/-- Without underscores, and with digits behind the point, a figure is a numeral. -/
theorem isNumeral_iff (h : f.Follows sign) : IsNumeral f.chars ↔
    '_' ∉ f.whole ++ f.fraction ∧ f.fraction? ≠ some [] := by
  constructor
  · intro isNumeral
    have other : ∀ c ∈ f.chars, c ≠ '_' := isNumeral.forall_mem
      (fun _ digit => ne_of_beq_false (isDigit_ne digit rfl))
      (fun c mark => by rintro rfl; cases mark) (by decide) (by decide)
    have noUnderscore : '_' ∉ f.whole ++ f.fraction := fun underscore =>
      other '_' (f.digits_subset_chars underscore) rfl
    have digits : Digits (f.whole ++ f.fraction) := digits_of_not_mem f.grouped noUnderscore
    exact ⟨noUnderscore, fun bare =>
      not_isNumeral_of_bare_point (List.forall_mem_append.1 digits).1 bare isNumeral⟩
  · rintro ⟨noUnderscore, nonempty⟩
    have digits : Digits (f.whole ++ f.fraction) := digits_of_not_mem f.grouped noUnderscore
    obtain ⟨hwhole, hfraction⟩ := List.forall_mem_append.1 digits
    rw [chars, pointChars]
    rw [Figure.fraction] at hfraction
    cases found : f.fraction? with
    | none =>
      refine .integer (fun noWhole => ?_) hwhole f.isExponent_exponentChars
      have point := h.point noWhole
      rw [found] at point
      cases point
    | some places =>
      rw [found] at hfraction nonempty
      exact .fraction hwhole (nonempty ∘ congrArg some) hfraction f.isExponent_exponentChars

end Follows

/-- A zero before a point may have been written there. -/
theorem exists_of_zero (begins : f.Begins) (h : f.chars = '0' :: '.' :: rest)
    (noPlus : sign ≠ .plus) :
    ∃ g : Figure, g.chars = '.' :: rest ∧ g.Follows sign ∧ g.complete sign = f := by
  have digits : f.whole ≠ [] := fun noWhole => by
    obtain ⟨other, point⟩ := (begins.follows sign).chars_point noWhole
    cases h.symm.trans point
  obtain ⟨d, whole, split⟩ := List.exists_cons_of_ne_nil digits
  have parts := h
  rw [chars, split] at parts
  obtain ⟨rfl, behind⟩ := List.cons.inj parts
  -- The zero is all that stands before the point, since no point is among the digits.
  obtain rfl : whole = [] := by
    cases whole with
    | nil => rfl
    | cons c whole =>
      cases (List.cons.inj behind).1
      exact (f.not_mem_whole (split ▸ List.mem_cons_of_mem _ List.mem_cons_self)).elim
  have point : f.fraction?.isSome = true := by
    by_contra none
    rw [Option.not_isSome_iff_eq_none] at none
    rw [pointChars, none] at behind
    exact f.isExponent_exponentChars.ne_point behind
  let g : Figure := { f with whole := [], hwhole := List.forall_mem_nil _ }
  have zero : g.withZero = f := by
    cases f
    cases split
    rfl
  refine ⟨g, ?_, ⟨fun some => (some rfl).elim, fun _ => point, fun plus => (noPlus plus).elim⟩, ?_⟩
  · have chars := chars_withZero (f := g) rfl
    rw [zero, h] at chars
    exact (List.cons.inj chars).2.symm
  · rcases g.complete_cases sign with ⟨-, plus⟩ | ⟨complete, -⟩
    · exact (noPlus (plus rfl)).elim
    · exact complete.trans zero

/-- A figure behind a sign, before a zero was written there. -/
theorem exists_of_completeFraction (begins : g.Begins)
    (h : Decimal.completeFraction cs = sign.chars ++ g.chars) :
    ∃ f : Figure, cs = sign.chars ++ f.chars ∧ f.Follows sign ∧ f.complete sign = g := by
  have follows : g.Follows sign := begins.follows sign
  unfold Decimal.completeFraction at h
  split at h
  · next rest =>
    cases sign with
    | none => exact (follows.chars_ne rfl _ h.symm).elim
    | plus => cases h
    | minus =>
      have noPlus : Sign.minus ≠ .plus := nofun
      obtain ⟨f, chars, found⟩ := exists_of_zero begins (List.cons.inj h).2.symm noPlus
      exact ⟨f, congrArg ('-' :: ·) chars.symm, found⟩
  · next rest =>
    cases sign with
    | none =>
      have noPlus : Sign.none ≠ .plus := nofun
      obtain ⟨f, chars, found⟩ := exists_of_zero begins h.symm noPlus
      exact ⟨f, chars.symm, found⟩
    | plus | minus => cases h
  · next noMinus noPoint =>
    -- Nothing was written, so that no zero is missing before the figure.
    refine ⟨g, h, follows, ?_⟩
    rcases g.complete_cases sign with ⟨same, -⟩ | ⟨-, noWhole, noPlus⟩
    · exact same
    · obtain ⟨rest, chars⟩ := follows.chars_point noWhole
      rw [chars] at h
      cases sign with
      | none => exact (noPoint rest h).elim
      | plus => exact (noPlus rfl).elim
      | minus => exact (noMinus rest h).elim

end Figure

/-! ## Signs -/

/-- A figure as it stands in a text, with a sign and perhaps a plus before the sign. -/
structure SignedFigure where
  plusFirst : Bool
  sign : Sign
  figure : Figure
  follows : figure.Follows sign
  /-- A plus is only the sign if another one is before it. -/
  single : plusFirst = false → sign ≠ .plus

namespace SignedFigure

def chars (n : SignedFigure) : List Char :=
  (if n.plusFirst then ['+'] else []) ++ (n.sign.chars ++ n.figure.chars)

/-- The decimal that shows the digits of the figure, with the sign. -/
def decimal (n : SignedFigure) : Decimal := n.sign.applyTo n.figure.decimal

/-- The figure has the form of a literal: there is one sign, no underscore, and a digit behind the
point. -/
structure Strict (n : SignedFigure) : Prop where
  sign : n.plusFirst = true → n.sign = .none
  digits : '_' ∉ n.figure.whole ++ n.figure.fraction
  places : n.figure.fraction? ≠ some []

variable {n : SignedFigure} {text : String} {v : Decimal}

theorem dropped_chars (n : SignedFigure) :
    (if Decimal.startsWith '+' n.chars then n.chars.tail else n.chars) =
      n.sign.chars ++ n.figure.chars := by
  unfold chars
  cases first : n.plusFirst with
  | true => rfl
  | false =>
    exact if_neg fun plus => n.single first (n.follows.startsWith_plus.1 plus)

theorem parse_eq (h : trimBlanks text.toList = n.chars) (range : n.figure.InRange) :
    Decimal.parse text = .ok n.decimal := by
  rw [Decimal.parse, h, n.dropped_chars, n.follows.completeFraction_eq,
    Figure.readNumeral_eq n.sign n.follows.begins_complete (Figure.inRange_complete_iff.2 range),
    Figure.decimal_complete, decimal]

theorem exists_of_parse (h : Decimal.parse text = .ok v) : ∃ n : SignedFigure,
    trimBlanks text.toList = n.chars ∧ n.figure.InRange ∧ v = n.decimal := by
  rw [Decimal.parse] at h
  obtain ⟨sign, g, completed, begins, range, rfl⟩ :=
    Figure.exists_of_readNumeral (Decimal.head?_completeFraction _) h
  obtain ⟨f, split, follows, rfl⟩ := Figure.exists_of_completeFraction begins completed
  let n : SignedFigure :=
    { plusFirst := Decimal.startsWith '+' (trimBlanks text.toList)
      sign
      figure := f
      follows
      single := fun noPlus plus => by
        rw [noPlus, if_neg Bool.false_ne_true] at split
        rw [split, follows.startsWith_plus.2 plus] at noPlus
        cases noPlus }
  refine ⟨n, ?_, Figure.inRange_complete_iff.1 range, ?_⟩
  · rw [chars, ← split, Decimal.plus_append]
  · rw [Figure.decimal_complete]
    rfl

theorem isNumeral_signed_iff {sign : Sign} {cs : List Char} :
    IsNumeral (sign.chars ++ cs) ↔ sign = .none ∧ IsNumeral cs := by
  cases sign with
  | none => exact (and_iff_right rfl).symm
  | plus | minus =>
    refine iff_of_false (fun isNumeral => ?_) nofun
    obtain ⟨c, rest, split, first⟩ := isNumeral.exists_head
    cases (List.cons.inj split).1
    cases first

/-- The text without the sign at its beginning. -/
theorem dropSign_chars (n : SignedFigure) : dropSign n.chars =
    if n.plusFirst then n.sign.chars ++ n.figure.chars else n.figure.chars := by
  unfold chars
  cases first : n.plusFirst with
  | true => rfl
  | false =>
    cases hsign : n.sign with
    | none =>
      obtain ⟨c, rest, chars, first⟩ := n.follows.exists_head
      rw [chars]
      exact (sign_of_ne (ne_of_number first rfl) (ne_of_number first rfl)).2
    | plus => exact (n.single first hsign).elim
    | minus => rfl

theorem isLiteral_iff_strict : Decimal.isLiteral n.chars = true ↔ n.Strict := by
  have unsigned : IsNumeral (dropSign n.chars) ↔
      (n.plusFirst = true → n.sign = .none) ∧ IsNumeral n.figure.chars := by
    rw [n.dropSign_chars]
    cases n.plusFirst with
    | true => exact isNumeral_signed_iff.trans (and_congr_left' (imp_iff_right rfl).symm)
    | false => exact (and_iff_right nofun).symm
  rw [isLiteral_iff, unsigned, n.follows.isNumeral_iff]
  constructor
  · rintro ⟨sign, digits, places⟩
    exact ⟨sign, digits, places⟩
  · rintro ⟨sign, digits, places⟩
    exact ⟨sign, digits, places⟩

end SignedFigure

theorem Decimal.parse_of_literal? {text : String} {v : Decimal} (h : literal? text = some v) :
    parse text = .ok v := by
  rw [literal?] at h
  split at h
  · cases parsed : parse text with
    | error cause =>
      rw [parsed] at h
      cases h
    | ok w =>
      rw [parsed] at h
      exact congrArg Except.ok (Option.some.inj h)
  · cases h

/-- All literals are converted, but not only these. A text is converted just if it is a figure in
range, apart from blanks around it, and to the decimal with the digits of the figure. Among the
figures the literals are those with one sign, without underscores and with a digit behind the
point. -/
theorem parse_ok_iff_figure (text : String) :
    (∀ v, Decimal.literal? text = some v → Decimal.parse text = .ok v) ∧
    (∀ v, Decimal.parse text = .ok v ↔ ∃ n : SignedFigure,
      trimBlanks text.toList = n.chars ∧ n.figure.InRange ∧ v = n.decimal) ∧
    ∀ n : SignedFigure, trimBlanks text.toList = n.chars → n.figure.InRange →
      ∀ v, Decimal.literal? text = some v ↔ n.Strict ∧ v = n.decimal := by
  refine ⟨fun v => Decimal.parse_of_literal?, fun v => ⟨SignedFigure.exists_of_parse, ?_⟩,
    fun n shown range v => ?_⟩
  · rintro ⟨n, shown, range, rfl⟩
    exact SignedFigure.parse_eq shown range
  · rw [Decimal.literal?, shown, SignedFigure.parse_eq shown range]
    by_cases strict : n.Strict
    · rw [if_pos (SignedFigure.isLiteral_iff_strict.2 strict), and_iff_right strict]
      exact Option.some_inj.trans eq_comm
    · rw [if_neg fun found => strict (SignedFigure.isLiteral_iff_strict.1 found)]
      exact iff_of_false (Option.some_ne_none v).symm fun found => strict found.1

/-- A figure with two signs and with an underscore behind its point. -/
theorem parse_ok_iff_figure_two_signs : Decimal.parse " +-._5e1\n" = .ok ⟨-5, 0⟩ ∧
    Decimal.literal? " +-._5e1\n" = none := by
  let exponent : Exponent :=
    { mark := 'e'
      sign := .none
      digits := ['1']
      isMark := rfl
      hdigits := by decide
      nonempty := by decide }
  let figure : Figure :=
    { whole := []
      fraction? := some ['_', '5']
      exponent? := some exponent
      hwhole := List.forall_mem_nil _
      hfraction := by
        rintro fraction ⟨⟩
        exact List.forall_mem_cons.2 ⟨.inr rfl, List.forall_mem_singleton.2 (.inl rfl)⟩ }
  let n : SignedFigure :=
    { plusFirst := true
      sign := .minus
      figure
      follows := ⟨fun digits => (digits rfl).elim, fun _ => rfl, nofun⟩
      single := nofun }
  have shown : trimBlanks " +-._5e1\n".toList = n.chars := by decide
  have range : n.figure.InRange := ⟨by decide, by decide, by decide, by decide⟩
  obtain ⟨-, converted, literal⟩ := parse_ok_iff_figure " +-._5e1\n"
  refine ⟨(converted _).2 ⟨n, shown, range, rfl⟩, ?_⟩
  by_contra found
  obtain ⟨v, found⟩ := Option.ne_none_iff_exists'.1 found
  cases ((literal n shown range v).1 found).1.sign rfl

/-- A second sign, an underscore and a bare point are converted and are in no literal. -/
theorem not_literal_of_parse_ok :
    (Decimal.parse "+-1" = .ok ⟨-1, 0⟩ ∧ Decimal.literal? "+-1" = none) ∧
    (Decimal.parse "1_000" = .ok ⟨1000, 0⟩ ∧ Decimal.literal? "1_000" = none) ∧
    (Decimal.parse "1." = .ok ⟨1, 0⟩ ∧ Decimal.literal? "1." = none) := by
  decide

end EquationSystem
