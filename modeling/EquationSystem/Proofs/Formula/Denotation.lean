import EquationSystem.Proofs.Decimal.Value
import EquationSystem.Proofs.Formula.Literals

/-!
# The number that a numeral denotes

A numeral is made of digits before and behind a point and of an exponent of ten. Reading it puts the
digits before and behind the point together, and counts the places behind the point and the exponent
in the scale: no digit is lost, and the decimal stands for the number that the numeral denotes.
-/

namespace EquationSystem

/-- The integer that a text of digits denotes. -/
abbrev ofDigits (cs : List Char) : Nat := Nat.ofDigitChars 10 cs 0

/-- The exponent of a numeral. -/
structure Exponent where
  mark : Char
  sign : Sign
  digits : List Char
  isMark : isExponentMark mark = true
  hdigits : Digits digits
  nonempty : digits ≠ []

/-- A number without a sign. There is a point where digits stand behind it. -/
structure Numeral where
  whole : List Char
  places : List Char
  exponent? : Option Exponent
  hwhole : Digits whole
  hplaces : Digits places
  nonempty : whole = [] → places ≠ []

namespace Exponent

def chars (e : Exponent) : List Char := e.mark :: (e.sign.chars ++ e.digits)

def value (e : Exponent) : Int :=
  match e.sign with
  | .minus => -ofDigits e.digits
  | .none | .plus => ofDigits e.digits

theorem isExponent (e : Exponent) : IsExponent e.chars :=
  .present e.isMark e.sign.chars_cases e.nonempty e.hdigits

end Exponent

namespace Numeral

/-- The point and the digits behind it, if there are any. -/
def pointChars (n : Numeral) : List Char := if n.places = [] then [] else '.' :: n.places

def exponentChars (n : Numeral) : List Char := n.exponent?.elim [] Exponent.chars

def chars (n : Numeral) : List Char := n.whole ++ (n.pointChars ++ n.exponentChars)

/-- The power of ten that the exponent stands for. -/
def power (n : Numeral) : Int := n.exponent?.elim 0 Exponent.value

/-- The number that a numeral denotes. -/
def value (n : Numeral) : ℚ :=
  (ofDigits n.whole + ofDigits n.places / 10 ^ n.places.length) * 10 ^ n.power

/-- The decimal that shows the digits of a numeral. -/
def decimal (n : Numeral) : Decimal := ⟨ofDigits (n.whole ++ n.places), n.places.length - n.power⟩

/-- Neither the exponent nor the scale is too large to be read. -/
structure InRange (n : Numeral) : Prop where
  power_ge : -(Decimal.exponentBound : Int) ≤ n.power
  power_lt : n.power < Decimal.exponentBound
  scale_ge : -0x8000000000000000 ≤ n.decimal.scale
  scale_lt : n.decimal.scale < 0x8000000000000000

variable {n : Numeral}

theorem isExponent_exponentChars (n : Numeral) : IsExponent n.exponentChars := by
  unfold exponentChars
  cases n.exponent? with
  | none => exact .absent
  | some e => exact e.isExponent

theorem pointChars_misses_digit (n : Numeral) : Misses Char.isDigit n.pointChars := by
  unfold pointChars
  split
  · exact misses_nil
  · exact misses_cons.2 rfl

theorem isNumeral (n : Numeral) : IsNumeral n.chars := by
  unfold chars pointChars
  split
  · next noPlaces =>
    exact .integer (fun noWhole => n.nonempty noWhole noPlaces) n.hwhole n.isExponent_exponentChars
  · next places => exact .fraction n.hwhole places n.hplaces n.isExponent_exponentChars

theorem ofDigits_append (cs ds : List Char) :
    ofDigits (cs ++ ds) = 10 ^ ds.length * ofDigits cs + ofDigits ds := by
  rw [ofDigits, Nat.ofDigitChars_append, Nat.ofDigitChars_eq_ofDigitChars_zero]

theorem value_decimal (n : Numeral) : n.decimal.value = n.value := by
  have ten : (10 : ℚ) ^ n.places.length ≠ 0 := by positivity
  have digits : (ofDigits (n.whole ++ n.places) : ℚ) =
      (ofDigits n.whole + ofDigits n.places / 10 ^ n.places.length) * 10 ^ n.places.length := by
    rw [ofDigits_append, add_mul, div_mul_cancel₀ _ ten]
    push_cast
    ring
  rw [Decimal.value, decimal, Int.cast_natCast, digits, value, mul_assoc, neg_sub, sub_eq_add_neg,
    zpow_add₀ (by norm_num), zpow_neg, zpow_natCast, mul_comm (_ ^ n.power), ← mul_assoc (10 ^ _),
    mul_inv_cancel₀ ten, one_mul]

end Numeral

/-! ## Reading digits -/

namespace Decimal

variable {limit acc : Nat} {beyond : NumeralError} {cs : List Char}

theorem le_ofDigitChars (cs : List Char) (acc : Nat) : acc ≤ Nat.ofDigitChars 10 cs acc := by
  rw [Nat.ofDigitChars_eq_ofDigitChars_zero]
  exact Nat.le_add_right_of_le (Nat.le_mul_of_pos_left acc (Nat.pow_pos (by decide)))

theorem readDigits_eq (h : Digits cs) (bound : Nat.ofDigitChars 10 cs acc ≤ limit) :
    readDigits limit beyond acc cs = .ok (Nat.ofDigitChars 10 cs acc) := by
  induction cs generalizing acc with
  | nil => rfl
  | cons c cs ih =>
    have digit : c.isDigit = true := h c List.mem_cons_self
    rw [Nat.ofDigitChars_cons] at bound ⊢
    have next : ¬limit < acc * 10 + (c.toNat - '0'.toNat) := by
      rw [Nat.mul_comm acc, Nat.not_lt]
      exact Nat.le_trans (le_ofDigitChars cs _) bound
    rw [readDigits, digit, if_neg (by decide)]
    dsimp only
    rw [if_neg next, Nat.mul_comm acc]
    exact ih (fun d hd => h d (List.mem_cons_of_mem c hd)) bound

theorem readDigits_error (h : Digits cs) (hacc : acc ≤ limit)
    (above : limit < Nat.ofDigitChars 10 cs acc) :
    readDigits limit beyond acc cs = .error beyond := by
  induction cs generalizing acc with
  | nil => exact (Nat.not_lt.2 hacc above).elim
  | cons c cs ih =>
    have digit : c.isDigit = true := h c List.mem_cons_self
    rw [Nat.ofDigitChars_cons] at above
    rw [readDigits, digit, if_neg (by decide), Nat.mul_comm acc]
    dsimp only
    split
    · rfl
    · next within =>
      exact ih (fun d hd => h d (List.mem_cons_of_mem c hd)) (Nat.not_lt.1 within) above

/-- How far an exponent may go depends on its sign. -/
theorem readExponent_signed (e : Exponent) : readExponent (e.sign.chars ++ e.digits) =
    match e.sign with
    | .minus => (readDigits exponentBound .exponentTooSmall 0 e.digits).map fun n => -(n : Int)
    | .none | .plus => (readDigits (exponentBound - 1) .exponentTooLarge 0 e.digits).map Int.ofNat
    := by
  obtain ⟨d, head, digit⟩ := e.hdigits.exists_head e.nonempty
  obtain ⟨ds, hds⟩ := List.head?_eq_some_iff.1 head
  rw [hds]
  cases e.sign with
  | minus =>
    show (do return -(← readDigits exponentBound _ 0 (d :: ds)) : Except NumeralError Int) = _
    cases readDigits exponentBound .exponentTooSmall 0 (d :: ds) <;> rfl
  | plus =>
    show (do return ← readDigits (exponentBound - 1) _ 0 (d :: ds) : Except NumeralError Int) = _
    cases readDigits (exponentBound - 1) .exponentTooLarge 0 (d :: ds) <;> rfl
  | none =>
    have plain : readExponent (d :: ds) =
        (do return ← readDigits (exponentBound - 1) .exponentTooLarge 0 (d :: ds)) := by
      unfold readExponent
      split
      · next same => cases same
      · next same =>
        cases same
        cases digit
      · next same =>
        cases same
        cases digit
      · next same =>
        cases same
        cases digit
      · next same =>
        cases same
        cases digit
      · rfl
    rw [Sign.chars, List.nil_append, plain]
    cases readDigits (exponentBound - 1) .exponentTooLarge 0 (d :: ds) <;> rfl

theorem readExponent_eq {e : Exponent} (ge : -(exponentBound : Int) ≤ e.value)
    (lt : e.value < exponentBound) : readExponent (e.sign.chars ++ e.digits) = .ok e.value := by
  rw [readExponent_signed]
  unfold Exponent.value at *
  cases hsign : e.sign with
  | minus =>
    rw [hsign] at ge
    have bound : ofDigits e.digits ≤ exponentBound := by dsimp only at ge; omega
    dsimp only
    rw [readDigits_eq e.hdigits bound]
    rfl
  | none | plus =>
    rw [hsign] at lt
    have bound : ofDigits e.digits ≤ exponentBound - 1 := by dsimp only at lt; omega
    dsimp only
    rw [readDigits_eq e.hdigits bound]
    rfl

theorem readExponent_error {e : Exponent}
    (out : ¬(-(exponentBound : Int) ≤ e.value ∧ e.value < exponentBound)) :
    ∃ cause, readExponent (e.sign.chars ++ e.digits) = .error cause := by
  have pos : 0 < exponentBound := by decide
  rw [readExponent_signed]
  unfold Exponent.value at out
  cases hsign : e.sign with
  | minus =>
    rw [hsign] at out
    dsimp only at out ⊢
    have above : exponentBound < ofDigits e.digits := by omega
    rw [readDigits_error e.hdigits (Nat.zero_le _) above]
    exact ⟨_, rfl⟩
  | none | plus =>
    rw [hsign] at out
    dsimp only at out ⊢
    have above : exponentBound - 1 < ofDigits e.digits := by omega
    rw [readDigits_error e.hdigits (Nat.zero_le _) above]
    exact ⟨_, rfl⟩

theorem readInteger_digits (h : Digits cs) (nonempty : cs ≠ []) :
    readInteger cs = .ok (ofDigits cs : Int) := by
  obtain ⟨d, ds, rfl⟩ := List.exists_cons_of_ne_nil nonempty
  have digit : d.isDigit = true := h d List.mem_cons_self
  have all : ds.all (fun c => c.isDigit || c == '_') = true :=
    List.all_eq_true.2 fun c hc => by rw [h c (List.mem_cons_of_mem d hc), Bool.true_or]
  have grouped : ds.filter (· != '_') = ds := List.filter_eq_self.2 fun c hc => by
    rw [bne, isDigit_ne (h c (List.mem_cons_of_mem d hc)) rfl]
    rfl
  rw [readInteger, splitMinus_of_isDigit digit]
  dsimp only
  rw [dropPlus_of_isDigit digit]
  dsimp only
  rw [digit, all, grouped]
  rfl

end Decimal

namespace Numeral

variable {n : Numeral}

/-- The digits and the point of a numeral, whose digits do not begin with the point. -/
theorem splitPoint_eq (n : Numeral) :
    Decimal.splitPoint (n.whole ++ n.pointChars) = (n.whole ++ n.places, n.places.length) := by
  have noPoint : ∀ c ∈ n.whole, (c != '.') = true := fun c hc => by
    rw [bne, isDigit_ne (n.hwhole c hc) rfl]
    rfl
  have grouped : n.places.filter (· != '_') = n.places := List.filter_eq_self.2 fun c hc => by
    rw [bne, isDigit_ne (n.hplaces c hc) rfl]
    rfl
  unfold Decimal.splitPoint pointChars
  by_cases noPlaces : n.places = []
  · rw [if_pos noPlaces, dropWhile_append_of_misses noPoint misses_nil, noPlaces]
    rfl
  · have point : Misses (· != '.') ('.' :: n.places) := misses_cons.2 rfl
    rw [if_neg noPlaces, dropWhile_append_of_misses noPoint point,
      takeWhile_append_of_misses noPoint point]
    dsimp only
    rw [grouped]

theorem not_isExponentMark (n : Numeral) :
    ∀ c ∈ n.whole ++ n.pointChars, (!isExponentMark c) = true := by
  have digits {cs : List Char} (h : Digits cs) : ∀ c ∈ cs, (!isExponentMark c) = true :=
    fun c hc => by rw [isExponentMark_of_isDigit (h c hc), Bool.not_false]
  unfold pointChars
  rw [List.forall_mem_append]
  refine ⟨digits n.hwhole, ?_⟩
  split
  · exact List.forall_mem_nil _
  · exact List.forall_mem_cons.2 ⟨rfl, digits n.hplaces⟩

theorem exponentChars_misses (n : Numeral) : Misses (!isExponentMark ·) n.exponentChars :=
  n.isExponent_exponentChars.misses fun c isMark => by rw [isMark, Bool.not_true]

theorem exponentOf_chars (n : Numeral) : Decimal.exponentOf n.chars =
    n.exponent?.elim (.ok 0) fun e => Decimal.readExponent (e.sign.chars ++ e.digits) := by
  unfold Decimal.exponentOf chars
  rw [← List.append_assoc, dropWhile_append_of_misses n.not_isExponentMark n.exponentChars_misses]
  unfold exponentChars
  cases n.exponent? <;> rfl

theorem exponentOf_eq (ge : -(Decimal.exponentBound : Int) ≤ n.power)
    (lt : n.power < Decimal.exponentBound) : Decimal.exponentOf n.chars = .ok n.power := by
  rw [exponentOf_chars]
  unfold power at *
  generalize n.exponent? = exponent? at *
  cases exponent? with
  | none => rfl
  | some e => exact Decimal.readExponent_eq ge lt

theorem exponentOf_error
    (out : ¬(-(Decimal.exponentBound : Int) ≤ n.power ∧ n.power < Decimal.exponentBound)) :
    ∃ cause, Decimal.exponentOf n.chars = .error cause := by
  rw [exponentOf_chars]
  unfold power at out
  cases hexponent : n.exponent? with
  | none =>
    rw [hexponent] at out
    exact (out (by decide)).elim
  | some e =>
    rw [hexponent] at out
    exact Decimal.readExponent_error out

/-- The digits are put together as far as the scale allows. -/
theorem assemble_chars (whole : n.whole ≠ []) : Decimal.assemble n.chars n.power =
    if n.decimal.scale < -0x8000000000000000 ∨ 0x8000000000000000 ≤ n.decimal.scale then
      .error (.scaleOutOfRange (String.ofList n.chars))
    else .ok n.decimal := by
  have mantissa : n.chars.takeWhile (!isExponentMark ·) = n.whole ++ n.pointChars := by
    rw [chars, ← List.append_assoc,
      takeWhile_append_of_misses n.not_isExponentMark n.exponentChars_misses]
  have nonempty : (n.whole ++ n.pointChars).isEmpty = false := by simp [whole]
  have digits : Digits (n.whole ++ n.places) := List.forall_mem_append.2 ⟨n.hwhole, n.hplaces⟩
  unfold Decimal.assemble
  simp only [mantissa, n.splitPoint_eq, nonempty, Bool.false_eq_true, if_false,
    Decimal.readInteger_digits digits (by simp [whole])]
  rfl

theorem assemble_eq (h : n.InRange) (whole : n.whole ≠ []) :
    Decimal.assemble n.chars n.power = .ok n.decimal := by
  rw [assemble_chars whole]
  refine if_neg ?_
  have := h.scale_ge
  have := h.scale_lt
  omega

/-- The numeral with a zero where no digit stands before its point. -/
def complete (n : Numeral) : Numeral :=
  if n.whole = [] then
    { n with
      whole := ['0']
      hwhole := List.forall_mem_singleton.2 rfl
      nonempty := nofun }
  else n

theorem whole_complete (n : Numeral) : n.complete.whole ≠ [] := by
  unfold complete
  split
  · nofun
  · assumption

/-- A zero before the point adds nothing. -/
theorem decimal_complete (n : Numeral) : n.complete.decimal = n.decimal := by
  unfold complete
  split
  · next noWhole =>
    unfold decimal
    rw [noWhole]
    rfl
  · rfl

theorem power_complete (n : Numeral) : n.complete.power = n.power := by
  unfold complete
  split <;> rfl

theorem completeFraction_chars (n : Numeral) :
    Decimal.completeFraction n.chars = n.complete.chars := by
  unfold complete
  split
  · next noWhole =>
    have point : n.chars = '.' :: (n.places ++ n.exponentChars) := by
      rw [chars, pointChars, noWhole, if_neg (n.nonempty noWhole)]
      rfl
    rw [point, chars, pointChars, if_neg (n.nonempty noWhole)]
    rfl
  · next whole =>
    obtain ⟨d, ds, hd⟩ := List.exists_cons_of_ne_nil whole
    have digit : d.isDigit = true := n.hwhole d (hd ▸ List.mem_cons_self)
    rw [chars, hd, List.cons_append]
    unfold Decimal.completeFraction
    split
    · next same =>
      cases (List.cons.inj same).1
      cases digit
    · next same =>
      cases (List.cons.inj same).1
      cases digit
    · rfl

theorem inRange_complete_iff : n.complete.InRange ↔ n.InRange := by
  constructor <;> rintro ⟨power_ge, power_lt, scale_ge, scale_lt⟩
  · rw [power_complete] at power_ge power_lt
    rw [decimal_complete] at scale_ge scale_lt
    exact ⟨power_ge, power_lt, scale_ge, scale_lt⟩
  · constructor
    · rwa [power_complete]
    · rwa [power_complete]
    · rwa [decimal_complete]
    · rwa [decimal_complete]

/-- Reading a numeral loses no digit and no place. -/
theorem parse_eq (h : n.InRange) : Decimal.parse (String.ofList n.chars) = .ok n.decimal := by
  have complete : n.complete.InRange := inRange_complete_iff.2 h
  rw [Shows.parse_numeral n.isNumeral, n.completeFraction_chars, Decimal.readNumeral_eq,
    exponentOf_eq complete.power_ge complete.power_lt]
  exact (assemble_eq complete n.whole_complete).trans (congrArg _ n.decimal_complete)

/-- A numeral that is out of range is not read. -/
theorem parse_error (out : ¬n.InRange) :
    ∃ cause, Decimal.parse (String.ofList n.chars) = .error cause := by
  rw [Shows.parse_numeral n.isNumeral, n.completeFraction_chars, Decimal.readNumeral_eq]
  by_cases power : -(Decimal.exponentBound : Int) ≤ n.complete.power ∧
      n.complete.power < Decimal.exponentBound
  · have scale : n.complete.decimal.scale < -0x8000000000000000 ∨
        0x8000000000000000 ≤ n.complete.decimal.scale := by
      by_contra within
      rw [not_or, Int.not_lt, Int.not_le] at within
      exact out (inRange_complete_iff.1 ⟨power.1, power.2, within.1, within.2⟩)
    rw [exponentOf_eq power.1 power.2]
    exact ⟨_, (assemble_chars n.whole_complete).trans (if_pos scale)⟩
  · obtain ⟨cause, failed⟩ := exponentOf_error power
    exact ⟨cause, by rw [failed]; rfl⟩

/-- The numeral with a sign is the literal for its decimal with the sign. -/
theorem literal?_eq (h : n.InRange) (sign : Sign) :
    Decimal.literal? (String.ofList (sign.chars ++ n.chars)) = some (sign.applyTo n.decimal) := by
  have shows : Shows sign n.chars (String.ofList (sign.chars ++ n.chars)).toList := by
    refine ⟨n.isNumeral, [], [], ?_, List.forall_mem_nil _, List.forall_mem_nil _⟩
    rw [String.toList_ofList, List.nil_append, List.append_nil]
  rw [shows.literal?_eq, parse_eq h]
  rfl

end Numeral

end EquationSystem
