import EquationSystem.Proofs.Formula.Patterns

/-!
# Figures

What is read as a number is a figure with a sign: digits, perhaps with a point among them, and an
exponent. Underscores may stand between the digits and a point needs no digits behind it, so that
there are more figures than numerals. A figure that begins with a digit is read as the decimal with
its digits, and nothing else is read but what begins with a point.
-/

namespace EquationSystem

/-- Digits and underscores, perhaps none. -/
def Grouped (cs : List Char) : Prop := ∀ c ∈ cs, c.isDigit = true ∨ c = '_'

/-- The digits without the underscores between them. -/
def ungroup (cs : List Char) : List Char := cs.filter (· != '_')

/-- The text begins with a digit. -/
def DigitFirst (cs : List Char) : Prop := ∃ d rest, cs = d :: rest ∧ d.isDigit = true

/-- The integer with the sign. -/
def Sign.signedInt (n : Int) : Sign → Int
  | none | plus => n
  | minus => -n

theorem Sign.applyTo_mk (sign : Sign) (n scale : Int) :
    sign.applyTo ⟨n, scale⟩ = ⟨sign.signedInt n, scale⟩ := by
  cases sign <;> rfl

theorem Sign.forall_mem_chars {p : Char → Prop} (plus : p '+') (minus : p '-') (sign : Sign) :
    ∀ c ∈ sign.chars, p c := by
  cases sign with
  | none => exact List.forall_mem_nil _
  | plus => exact List.forall_mem_singleton.2 plus
  | minus => exact List.forall_mem_singleton.2 minus

section
variable {c : Char} {cs ds : List Char}

theorem Grouped.append (h : Grouped cs) (h' : Grouped ds) : Grouped (cs ++ ds) :=
  List.forall_mem_append.2 ⟨h, h'⟩

/-- What holds of the digits and of the underscore holds of groups. -/
theorem Grouped.forall_mem {p : Char → Prop} (h : Grouped cs)
    (digit : ∀ c, c.isDigit = true → p c) (underscore : p '_') : ∀ c ∈ cs, p c := by
  intro c hc
  rcases h c hc with hd | rfl
  · exact digit c hd
  · exact underscore

end

/-! ## Integers and points -/

namespace Decimal

variable {d : Char} {cs ds : List Char} {n : Int}

theorem readInteger_plus (digit : d.isDigit = true) (cs : List Char) :
    readInteger ('+' :: d :: cs) = readInteger (d :: cs) := by
  have dropped : dropPlus ('+' :: d :: cs) = dropPlus (d :: cs) := by
    rw [dropPlus_of_isDigit digit, dropPlus, startsWith_plus_of_isDigit digit, if_neg nofun]
  rw [readInteger, readInteger, splitMinus_of_isDigit digit, splitMinus]
  · dsimp only
    rw [dropped]
  · exact fun _ same => by cases (List.cons.inj same).1

theorem readInteger_digit (digit : d.isDigit = true) (cs : List Char) : readInteger (d :: cs) =
    if cs.all (fun c => c.isDigit || c == '_') then .ok (ofDigits (ungroup (d :: cs)) : Nat)
    else .error .invalidDigit := by
  have first : ungroup (d :: cs) = d :: cs.filter (· != '_') := by
    rw [ungroup, List.filter_cons, bne, isDigit_ne digit rfl]
    rfl
  rw [readInteger, splitMinus_of_isDigit digit]
  dsimp only
  rw [dropPlus_of_isDigit digit, first]
  dsimp only
  rw [digit, Bool.true_and]
  rfl

theorem readInteger_signed (sign : Sign) (digit : d.isDigit = true) (grouped : Grouped cs) :
    readInteger (sign.chars ++ d :: cs) =
      .ok (sign.signedInt (ofDigits (ungroup (d :: cs)) : Nat)) := by
  have plain : readInteger (d :: cs) = .ok (ofDigits (ungroup (d :: cs)) : Nat) := by
    rw [readInteger_digit digit, if_pos]
    refine List.all_eq_true.2 (grouped.forall_mem (fun c hc => ?_) rfl)
    rw [hc, Bool.true_or]
  cases sign with
  | none => exact plain
  | plus => exact (readInteger_plus digit cs).trans plain
  | minus =>
    refine (readInteger_minus digit cs).trans ?_
    rw [plain]
    rfl

theorem startsWith_eq_true {c : Char} (h : startsWith c cs = true) : ∃ rest, cs = c :: rest :=
  List.head?_eq_some_iff.1 (beq_iff_eq.1 h)

theorem exists_of_dropPlus (cs : List Char) : ∃ sign, cs = Sign.chars sign ++ dropPlus cs := by
  unfold dropPlus
  split
  · split
    · exact ⟨.none, rfl⟩
    · exact ⟨.plus, rfl⟩
  · exact ⟨.none, rfl⟩

theorem dropPlus_of_not_startsWith (h : ¬startsWith '+' cs = true) : dropPlus cs = cs := by
  cases cs with
  | nil => rfl
  | cons c cs =>
    have other : c ≠ '+' := by
      rintro rfl
      exact h (beq_self_eq_true _)
    unfold dropPlus
    split
    · next same => exact (other (List.cons.inj same).1).elim
    · rfl

/-- A text is what is left of it behind its sign, if it has one. -/
theorem exists_of_splitMinus (cs : List Char) :
    ∃ sign, cs = Sign.chars sign ++ dropPlus (splitMinus cs).2 := by
  unfold splitMinus
  split
  · split
    · exact ⟨.none, rfl⟩
    · next noPlus => exact ⟨.minus, by rw [dropPlus_of_not_startsWith noPlus]; rfl⟩
  · exact exists_of_dropPlus cs

/-- An integer that is read has one sign at most, and begins with a digit. -/
theorem exists_of_readInteger (h : readInteger cs = .ok n) :
    ∃ sign d ds, cs = Sign.chars sign ++ d :: ds ∧ d.isDigit = true ∧ Grouped ds := by
  obtain ⟨sign, split⟩ := exists_of_splitMinus cs
  rw [readInteger] at h
  dsimp only at h
  split at h
  · cases h
  · next d ds digits =>
    split at h
    · next found =>
      obtain ⟨digit, all⟩ := (Bool.and_eq_true _ _).mp found
      refine ⟨sign, d, ds, digits ▸ split, digit, fun c hc => ?_⟩
      simpa using List.all_eq_true.1 all c hc
    · cases h

theorem ne_point_of_not_mem (h : '.' ∉ cs) : ∀ c ∈ cs, (c != '.') = true :=
  fun _ hc => bne_iff_ne.2 fun same => h (same ▸ hc)

theorem splitPoint_of_not_mem (h : '.' ∉ cs) : splitPoint cs = (cs, 0) := by
  rw [splitPoint, List.dropWhile_eq_nil_iff.2 (ne_point_of_not_mem h)]

theorem splitPoint_append (h : '.' ∉ cs) (fraction : List Char) :
    splitPoint (cs ++ '.' :: fraction) = (cs ++ fraction, (ungroup fraction).length) := by
  have point : Misses (· != '.') ('.' :: fraction) := misses_cons.2 rfl
  rw [splitPoint, dropWhile_append_of_misses (ne_point_of_not_mem h) point,
    takeWhile_append_of_misses (ne_point_of_not_mem h) point]
  rfl

/-! ## Exponents -/

theorem digits_of_readDigits {limit acc m : Nat} {beyond : NumeralError}
    (h : readDigits limit beyond acc cs = .ok m) : Digits cs := by
  induction cs generalizing acc with
  | nil => exact List.forall_mem_nil _
  | cons c cs ih =>
    rw [readDigits] at h
    dsimp only at h
    split at h
    · cases h
    · next digit =>
      split at h
      · cases h
      · exact List.forall_mem_cons.2 ⟨by simpa using digit, ih h⟩

theorem digits_of_readDigits_map {limit : Nat} {beyond : NumeralError} {f : Nat → Int}
    (h : (do return f (← readDigits limit beyond 0 cs)) = (.ok n : Except NumeralError Int)) :
    Digits cs := by
  cases read : readDigits limit beyond 0 cs with
  | error e =>
    rw [read] at h
    cases h
  | ok m => exact digits_of_readDigits read

/-- An exponent that is read is a sign and digits. -/
theorem exists_of_readExponent (h : readExponent cs = .ok n) :
    ∃ sign digits, cs = Sign.chars sign ++ digits ∧ Digits digits ∧ digits ≠ [] := by
  unfold readExponent at h
  split at h
  · cases h
  · cases h
  · cases h
  · next digits nonempty => exact ⟨.minus, digits, rfl, digits_of_readDigits_map h, nonempty⟩
  · next digits nonempty => exact ⟨.plus, digits, rfl, digits_of_readDigits_map h, nonempty⟩
  · next nonempty _ _ _ _ => exact ⟨.none, cs, rfl, digits_of_readDigits_map h, nonempty⟩

theorem exists_exponent {mark : Char} (isMark : isExponentMark mark = true)
    (h : readExponent cs = .ok n) : ∃ e : Exponent, e.chars = mark :: cs ∧ e.value = n ∧
      -(exponentBound : Int) ≤ n ∧ n < exponentBound := by
  obtain ⟨sign, digits, rfl, hdigits, nonempty⟩ := exists_of_readExponent h
  let e : Exponent := { mark, sign, digits, isMark, hdigits, nonempty }
  by_cases within : -(exponentBound : Int) ≤ e.value ∧ e.value < exponentBound
  · have read := readExponent_eq within.1 within.2
    cases h.symm.trans read
    exact ⟨e, rfl, rfl, within⟩
  · obtain ⟨cause, failed⟩ := readExponent_error within
    cases h.symm.trans failed

theorem exists_of_exponentOf {power : Int} (h : exponentOf cs = .ok power) :
    ∃ exponent? : Option Exponent,
      cs.dropWhile (!isExponentMark ·) = exponent?.elim [] Exponent.chars ∧
      exponent?.elim 0 Exponent.value = power ∧
      -(exponentBound : Int) ≤ power ∧ power < exponentBound := by
  unfold exponentOf at h
  split at h
  · next noExponent =>
    cases h
    exact ⟨none, noExponent, rfl, by decide, by decide⟩
  · next mark digits found =>
    have isMark : isExponentMark mark = true := by
      have stops := List.head?_dropWhile_not (!isExponentMark ·) cs
      rw [found] at stops
      simpa using stops
    obtain ⟨e, chars, value, within⟩ := exists_exponent isMark h
    exact ⟨some e, found.trans chars.symm, value, within⟩

theorem exists_of_assemble {power : Int} {v : Decimal} (h : assemble cs power = .ok v) :
    ∃ n, readInteger (splitPoint (cs.takeWhile (!isExponentMark ·))).1 = .ok n ∧
      v = ⟨n, (splitPoint (cs.takeWhile (!isExponentMark ·))).2 - power⟩ ∧
      -0x8000000000000000 ≤ v.scale ∧ v.scale < 0x8000000000000000 := by
  unfold assemble at h
  dsimp only at h
  split at h
  · cases h
  · split at h
    · cases h
    · next scale =>
      obtain ⟨n, read, same⟩ := Parser.bind_eq_ok_iff.1 h
      cases same
      rw [not_or, Int.not_lt, Int.not_le] at scale
      exact ⟨n, read, rfl, scale⟩

end Decimal

/-! ## Figures -/

/-- A number without a sign as it is converted: digits in groups, perhaps with a point among them,
and an exponent. -/
structure Figure where
  whole : List Char
  fraction? : Option (List Char)
  exponent? : Option Exponent
  hwhole : Grouped whole
  hfraction : ∀ fraction ∈ fraction?, Grouped fraction

namespace Figure

/-- What stands behind the point. -/
def fraction (f : Figure) : List Char := f.fraction?.getD []

def pointChars (f : Figure) : List Char := f.fraction?.elim [] ('.' :: ·)

def exponentChars (f : Figure) : List Char := f.exponent?.elim [] Exponent.chars

def chars (f : Figure) : List Char := f.whole ++ (f.pointChars ++ f.exponentChars)

/-- The power of ten that the exponent stands for. -/
def power (f : Figure) : Int := f.exponent?.elim 0 Exponent.value

/-- The decimal that shows the digits of a figure. -/
def decimal (f : Figure) : Decimal :=
  ⟨ofDigits (ungroup (f.whole ++ f.fraction)), (ungroup f.fraction).length - f.power⟩

/-- Neither the exponent nor the scale is too large to be read. -/
structure InRange (f : Figure) : Prop where
  power_ge : -(Decimal.exponentBound : Int) ≤ f.power
  power_lt : f.power < Decimal.exponentBound
  scale_ge : -0x8000000000000000 ≤ f.decimal.scale
  scale_lt : f.decimal.scale < 0x8000000000000000

/-- The first of the digits is no underscore. -/
def Begins (f : Figure) : Prop := DigitFirst (f.whole ++ f.fraction)

variable {f : Figure} {cs : List Char} {v : Decimal}

theorem grouped_fraction (f : Figure) : Grouped f.fraction := by
  unfold fraction
  cases found : f.fraction? with
  | none => exact List.forall_mem_nil _
  | some fraction => exact f.hfraction fraction found

theorem grouped (f : Figure) : Grouped (f.whole ++ f.fraction) := f.hwhole.append f.grouped_fraction

theorem isExponent_exponentChars (f : Figure) : IsExponent f.exponentChars := by
  unfold exponentChars
  cases f.exponent? with
  | none => exact .absent
  | some e => exact e.isExponent

theorem not_mem_whole (f : Figure) : '.' ∉ f.whole := fun point =>
  f.hwhole.forall_mem (p := (· ≠ '.')) (fun _ digit => ne_of_beq_false (isDigit_ne digit rfl))
    (by decide) '.' point rfl

theorem splitPoint_eq (sign : Sign) (f : Figure) :
    Decimal.splitPoint (sign.chars ++ (f.whole ++ f.pointChars)) =
      (sign.chars ++ (f.whole ++ f.fraction), (ungroup f.fraction).length) := by
  have unsigned : '.' ∉ sign.chars := fun point =>
    sign.forall_mem_chars (p := (· ≠ '.')) (by decide) (by decide) '.' point rfl
  have noPoint : '.' ∉ sign.chars ++ f.whole := by
    rw [List.mem_append, not_or]
    exact ⟨unsigned, f.not_mem_whole⟩
  unfold pointChars fraction
  cases f.fraction? with
  | none =>
    dsimp only [Option.elim_none, Option.getD_none]
    rw [List.append_nil]
    exact Decimal.splitPoint_of_not_mem noPoint
  | some fraction =>
    dsimp only [Option.elim_some, Option.getD_some]
    rw [← List.append_assoc, Decimal.splitPoint_append noPoint, List.append_assoc]

/-- The characters before the exponent. -/
theorem not_isExponentMark (sign : Sign) (f : Figure) :
    ∀ c ∈ sign.chars ++ (f.whole ++ f.pointChars), (!isExponentMark c) = true := by
  have groups : ∀ {cs}, Grouped cs → ∀ c ∈ cs, (!isExponentMark c) = true := fun h =>
    h.forall_mem (fun c digit => by rw [isExponentMark_of_isDigit digit, Bool.not_false]) rfl
  simp only [List.forall_mem_append]
  refine ⟨sign.forall_mem_chars (by decide) (by decide), groups f.hwhole, ?_⟩
  unfold pointChars
  cases found : f.fraction? with
  | none => exact List.forall_mem_nil _
  | some fraction => exact List.forall_mem_cons.2 ⟨rfl, groups (f.hfraction fraction found)⟩

theorem exponentChars_misses (f : Figure) : Misses (!isExponentMark ·) f.exponentChars :=
  f.isExponent_exponentChars.misses fun c isMark => by rw [isMark, Bool.not_true]

theorem signed_chars (sign : Sign) (f : Figure) : sign.chars ++ f.chars =
    (sign.chars ++ (f.whole ++ f.pointChars)) ++ f.exponentChars := by
  rw [chars, List.append_assoc, List.append_assoc]

theorem mantissa_ne_nil (begins : f.Begins) : f.whole ++ f.pointChars ≠ [] := by
  obtain ⟨d, rest, digits, -⟩ := begins
  unfold pointChars
  cases found : f.fraction? with
  | none =>
    rw [fraction, found, Option.getD_none] at digits
    rw [Option.elim_none, digits]
    exact List.cons_ne_nil d rest
  | some fraction => exact List.append_ne_nil_of_right_ne_nil _ (List.cons_ne_nil '.' fraction)

theorem exponentOf_eq (sign : Sign) (range : f.InRange) :
    Decimal.exponentOf (sign.chars ++ f.chars) = .ok f.power := by
  have power_ge := range.power_ge
  have power_lt := range.power_lt
  rw [Decimal.exponentOf, signed_chars,
    dropWhile_append_of_misses (f.not_isExponentMark sign) f.exponentChars_misses]
  unfold exponentChars power at *
  generalize f.exponent? = exponent? at *
  cases exponent? with
  | none => rfl
  | some e => exact Decimal.readExponent_eq power_ge power_lt

/-- A figure with a sign before it is read where it begins with a digit. -/
theorem readNumeral_eq (sign : Sign) (begins : f.Begins) (range : f.InRange) :
    Decimal.readNumeral (sign.chars ++ f.chars) = .ok (sign.applyTo f.decimal) := by
  have mantissa : (sign.chars ++ f.chars).takeWhile (!isExponentMark ·) =
      sign.chars ++ (f.whole ++ f.pointChars) := by
    rw [signed_chars, takeWhile_append_of_misses (f.not_isExponentMark sign) f.exponentChars_misses]
  have nonempty : (sign.chars ++ (f.whole ++ f.pointChars)).isEmpty = false :=
    List.isEmpty_eq_false_iff.2
      (List.append_ne_nil_of_right_ne_nil _ (mantissa_ne_nil begins))
  obtain ⟨d, rest, digits, digit⟩ := begins
  have grouped : Grouped rest := fun c hc =>
    f.grouped c (digits ▸ List.mem_cons_of_mem d hc)
  have scale : ¬(((ungroup f.fraction).length : Int) - f.power < -0x8000000000000000 ∨
      0x8000000000000000 ≤ ((ungroup f.fraction).length : Int) - f.power) := by
    have := range.scale_ge
    have := range.scale_lt
    unfold decimal at *
    dsimp only at *
    omega
  rw [Decimal.readNumeral_eq, exponentOf_eq sign range]
  show Decimal.assemble _ _ = _
  unfold Decimal.assemble
  simp only [mantissa, nonempty, splitPoint_eq, digits, Bool.false_eq_true, if_false,
    Decimal.readInteger_signed sign digit grouped]
  rw [if_neg scale, decimal, digits, Sign.applyTo_mk]
  rfl

/-- The point is behind the sign where it does not come first. -/
theorem exists_of_splitPoint {mantissa digits : List Char} {sign : Sign}
    (first : mantissa.head? ≠ some '.')
    (h : (Decimal.splitPoint mantissa).1 = sign.chars ++ digits) :
    ∃ (whole : List Char) (fraction? : Option (List Char)),
      mantissa = sign.chars ++ (whole ++ fraction?.elim [] ('.' :: ·)) ∧
        whole ++ fraction?.getD [] = digits := by
  by_cases point : '.' ∈ mantissa
  · obtain ⟨front, fraction, rfl, noPoint⟩ := List.eq_append_cons_of_mem point
    rw [Decimal.splitPoint_append noPoint] at h
    dsimp only at h
    -- Something stands before the point, and if there is a sign, then the sign does.
    obtain ⟨c, front, rfl⟩ : ∃ c rest, front = c :: rest := by
      refine List.exists_cons_of_ne_nil ?_
      rintro rfl
      exact first rfl
    cases sign with
    | none => exact ⟨c :: front, some fraction, rfl, h⟩
    | plus | minus =>
      obtain ⟨rfl, rfl⟩ := List.cons.inj h
      exact ⟨front, some fraction, rfl, rfl⟩
  · rw [Decimal.splitPoint_of_not_mem point] at h
    refine ⟨digits, none, ?_, List.append_nil digits⟩
    rw [Option.elim_none, List.append_nil]
    exact h

/-- What is before the exponent is a sign and the digits and the point of a figure. -/
theorem exists_of_readInteger {mantissa : List Char} {n : Int} (first : mantissa.head? ≠ some '.')
    (h : Decimal.readInteger (Decimal.splitPoint mantissa).1 = .ok n)
    (exponent? : Option Exponent) :
    ∃ (sign : Sign) (f : Figure), mantissa = sign.chars ++ (f.whole ++ f.pointChars) ∧
      f.exponent? = exponent? ∧ f.Begins := by
  obtain ⟨sign, d, ds, digits, digit, grouped⟩ := Decimal.exists_of_readInteger h
  obtain ⟨whole, fraction?, split, together⟩ := exists_of_splitPoint first digits
  have all : Grouped (whole ++ fraction?.getD []) := by
    rw [together]
    exact List.forall_mem_cons.2 ⟨.inl digit, grouped⟩
  obtain ⟨hwhole, hfraction⟩ := List.forall_mem_append.1 all
  let f : Figure :=
    { whole, fraction?, exponent?, hwhole
      hfraction := by
        rintro fraction rfl
        exact hfraction }
  exact ⟨sign, f, split, rfl, d, ds, together, digit⟩

/-- What is read as a number is a figure with a sign, unless it begins with a point. -/
theorem exists_of_readNumeral (first : cs.head? ≠ some '.') (h : Decimal.readNumeral cs = .ok v) :
    ∃ (sign : Sign) (f : Figure), cs = sign.chars ++ f.chars ∧ f.Begins ∧ f.InRange ∧
      v = sign.applyTo f.decimal := by
  have parts := h
  rw [Decimal.readNumeral_eq] at parts
  obtain ⟨power, exponent, assembled⟩ := Parser.bind_eq_ok_iff.1 parts
  obtain ⟨exponent?, exponentChars, rfl, power_ge, power_lt⟩ :=
    Decimal.exists_of_exponentOf exponent
  obtain ⟨n, integer, rfl, scale_ge, scale_lt⟩ := Decimal.exists_of_assemble assembled
  have first' : (cs.takeWhile (!isExponentMark ·)).head? ≠ some '.' := by
    rw [List.head?_takeWhile, ne_eq, Option.filter_eq_some_iff]
    exact fun found => first found.1
  obtain ⟨sign, f, mantissa, rfl, begins⟩ := exists_of_readInteger first' integer exponent?
  have chars : cs = sign.chars ++ f.chars := by
    rw [f.signed_chars, ← List.takeWhile_append_dropWhile (p := (!isExponentMark ·)) (l := cs),
      mantissa, exponentChars]
    rfl
  rw [mantissa, f.splitPoint_eq sign] at scale_ge scale_lt
  have range : f.InRange := ⟨power_ge, power_lt, scale_ge, scale_lt⟩
  have read := f.readNumeral_eq sign begins range
  rw [← chars, h] at read
  exact ⟨sign, f, chars, begins, range, Except.ok.inj read⟩

end Figure

end EquationSystem
