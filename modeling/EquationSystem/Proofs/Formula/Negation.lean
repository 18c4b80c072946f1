import EquationSystem.Proofs.Formula.Numerals

/-!
# A minus before a numeral

A number that is read with a minus before it is the negation of the number that is read without,
at the same scale: the minus takes no part in the exponent, in the places behind the point or in the
bound on the scale. Where no number can be read, none can be read with the minus, for the same
reason.
-/

namespace EquationSystem

namespace Decimal

variable {d : Char}

theorem startsWith_plus_of_isDigit (h : d.isDigit = true) (cs : List Char) :
    startsWith '+' (d :: cs) = false := by
  refine beq_eq_false_iff_ne.2 fun same => ?_
  cases same
  cases h

theorem splitMinus_of_isDigit (h : d.isDigit = true) (cs : List Char) :
    splitMinus (d :: cs) = (false, d :: cs) := by
  unfold splitMinus
  split
  · next same =>
    cases (List.cons.inj same).1
    cases h
  · rfl

theorem dropPlus_of_isDigit (h : d.isDigit = true) (cs : List Char) :
    dropPlus (d :: cs) = d :: cs := by
  unfold dropPlus
  split
  · next same =>
    cases (List.cons.inj same).1
    cases h
  · rfl

theorem readInteger_minus (h : d.isDigit = true) (cs : List Char) :
    readInteger ('-' :: d :: cs) = (readInteger (d :: cs)).map Neg.neg := by
  rw [readInteger, readInteger, splitMinus_of_isDigit h, splitMinus,
    startsWith_plus_of_isDigit h, if_neg nofun]
  dsimp only
  rw [dropPlus_of_isDigit h]
  dsimp only
  split <;> rfl

theorem splitPoint_minus (cs : List Char) :
    splitPoint ('-' :: cs) = ('-' :: (splitPoint cs).1, (splitPoint cs).2) := by
  unfold splitPoint
  rw [List.dropWhile_cons, List.takeWhile_cons]
  simp only [bne_iff_ne, ne_eq, Char.reduceEq, not_false_eq_true, if_true]
  split <;> rfl

theorem splitPoint_digit (h : d.isDigit = true) (cs : List Char) :
    ∃ rest, (splitPoint (d :: cs)).1 = d :: rest := by
  have point : (d != '.') = true := by
    rw [bne, isDigit_ne h rfl]
    rfl
  unfold splitPoint
  split
  · exact ⟨cs, rfl⟩
  · rw [List.takeWhile_cons, point]
    exact ⟨_, rfl⟩

/-- The exponent of a numeral. -/
def exponentOf (cs : List Char) : Except NumeralError Int :=
  match cs.dropWhile (!isExponentMark ·) with
  | [] => .ok 0
  | _ :: digits => readExponent digits

/-- The number with the digits before the exponent and the exponent. -/
def assemble (cs : List Char) (exponent : Int) : Except NumeralError Decimal := do
  let mantissa := cs.takeWhile (!isExponentMark ·)
  if mantissa.isEmpty then throw .empty
  let scale := (splitPoint mantissa).2 - exponent
  if scale < -0x8000000000000000 ∨ 0x8000000000000000 ≤ scale then
    throw (.scaleOutOfRange (String.ofList cs))
  return ⟨← readInteger (splitPoint mantissa).1, scale⟩

theorem readNumeral_eq (cs : List Char) : readNumeral cs = exponentOf cs >>= assemble cs := by
  unfold readNumeral exponentOf
  cases cs.dropWhile (!isExponentMark ·) <;> rfl

theorem assemble_minus (h : d.isDigit = true) (cs : List Char) (exponent : Int) :
    (assemble ('-' :: d :: cs) exponent).toOption =
      (assemble (d :: cs) exponent).toOption.map Neg.neg := by
  have mark : (!isExponentMark d) = true := by
    rw [isExponentMark_of_isDigit h]
    rfl
  have mantissa : ('-' :: d :: cs).takeWhile (!isExponentMark ·) =
      '-' :: (d :: cs).takeWhile (!isExponentMark ·) := rfl
  obtain ⟨rest, digits⟩ := splitPoint_digit h (cs.takeWhile (!isExponentMark ·))
  rw [assemble, assemble, mantissa, List.takeWhile_cons, mark, splitPoint_minus]
  simp only [if_true, List.isEmpty_cons, Bool.false_eq_true, if_false, digits, readInteger_minus h]
  split
  · rfl
  · cases readInteger (d :: rest) <;> rfl

/-- A minus before a number changes its sign and nothing else. Only an error that quotes the text
tells the texts apart. -/
theorem readNumeral_minus (h : d.isDigit = true) (cs : List Char) :
    (readNumeral ('-' :: d :: cs)).toOption = (readNumeral (d :: cs)).toOption.map Neg.neg := by
  have exponent : exponentOf ('-' :: d :: cs) = exponentOf (d :: cs) := rfl
  rw [readNumeral_eq, readNumeral_eq, exponent]
  cases exponentOf (d :: cs) with
  | error e => rfl
  | ok exponent => exact assemble_minus h cs exponent

end Decimal

end EquationSystem
