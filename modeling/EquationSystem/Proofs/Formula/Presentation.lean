import EquationSystem.Proofs.Decimal.Normal
import EquationSystem.Proofs.Formula.Exactness

/-!
# Presented values

A solved value is presented in a form that depends on what the value is, but not on the scale that
it was computed with: equal values have one form, which is the form of itself. A presented number is
written as a literal that has its digits and its scale. It is the number itself, unless taking off the
zeros at its end leads to a scale beyond 64 bits.
-/

namespace EquationSystem

/-- A decimal that shows its scale is written as a literal for itself. -/
theorem Decimal.literal?_render {x : Decimal} (h : x.ShowsScale) (range : x.ScaleInRange) :
    Decimal.literal? x.render = some x := by
  obtain ⟨l, render, decimal, inRange⟩ := x.exists_literal h
  rw [render, ← decimal]
  exact Numeral.literal?_eq (inRange range) l.sign

namespace Value

variable {v w : Value} {x : Decimal}

/-- The scale is one of 64 bits also without the zeros at the end of the number. -/
def StaysInRange : Value → Prop
  | .number x => x.stripped.ScaleInRange
  | .bool _ => True

theorem exact_present (h : v.StaysInRange) : v.present.exact = v.exact := by
  cases v with
  | number x => exact congrArg Exact.number (Decimal.value_present h)
  | bool b => rfl

theorem same_iff : v.same w = true ↔ v.exact = w.exact := by
  cases v with
  | number x =>
    cases w with
    | number y => exact Decimal.same_iff.trans (Exact.number.injEq _ _).symm.to_iff
    | bool b => exact iff_of_false nofun nofun
  | bool a =>
    cases w with
    | number y => exact iff_of_false nofun nofun
    | bool b => exact beq_iff_eq.trans (Exact.bool.injEq a b).symm.to_iff

theorem present_eq_of_exact_eq (h : v.exact = w.exact) : v.present = w.present := by
  cases v with
  | number x =>
    cases w with
    | number y =>
      have same := Decimal.normalize_eq_of_value_eq (Exact.number.inj h)
      exact congrArg number (Decimal.present_eq_of_normalize_eq same)
    | bool b => cases h
  | bool a =>
    cases w with
    | number y => cases h
    | bool b => exact congrArg bool (Exact.bool.inj h)

theorem present_present (v : Value) : v.present.present = v.present := by
  cases v with
  | number x => exact congrArg number x.present_present
  | bool b => rfl

theorem showsScale_of_present (h : v.present = .number x) : x.ShowsScale := by
  cases v with
  | number y =>
    cases h
    exact y.showsScale_present
  | bool b => cases h

theorem scaleInRange_of_present (h : v.present = .number x) : x.ScaleInRange := by
  cases v with
  | number y =>
    cases h
    exact y.scaleInRange_present
  | bool b => cases h

/-- Presenting a value whose scale stays in range does not change it, and presenting any value once
more does not change its form. Two such values have the same form, down to digits and scale, just if
they are equal. What is written of a number in this form is a literal for the same digits and
scale. -/
theorem present_canonical (v : Value) :
    (v.StaysInRange → v.present.exact = v.exact) ∧ v.present.present = v.present ∧
    (∀ w, v.StaysInRange → w.StaysInRange →
      [v.present = w.present, v.exact = w.exact, v.same w = true].TFAE) ∧
    ∀ x, v.present = .number x → Decimal.literal? v.present.render = some x := by
  refine ⟨exact_present, v.present_present, fun w hv hw => ?_, fun x presented => ?_⟩
  · tfae_have 1 → 2 := fun same => by rw [← exact_present hv, same, exact_present hw]
    tfae_have 2 → 1 := present_eq_of_exact_eq
    tfae_have 3 ↔ 2 := same_iff
    tfae_finish
  · rw [presented]
    exact Decimal.literal?_render (showsScale_of_present presented)
      (scaleInRange_of_present presented)

/-- A number with 72 zeros is kept compact, and one with 62 zeros is written out. -/
theorem present_canonical_zeros :
    (Value.present (.number ⟨-1200, -70⟩)).exact = (Value.number ⟨-1200, -70⟩).exact ∧
    Value.present (.number ⟨-1200, -70⟩) = Value.present (.number ⟨-120, -71⟩) ∧
    Decimal.literal? (Value.present (.number ⟨-1200, -70⟩)).render = some ⟨-12, -72⟩ ∧
    Decimal.literal? (Value.present (.number ⟨-1200, -60⟩)).render = some ⟨-12 * 10 ^ 62, 0⟩ := by
  have compact : Value.present (.number ⟨-1200, -70⟩) = .number ⟨-12, -72⟩ := by decide +kernel
  have plain : Value.present (.number ⟨-1200, -60⟩) = .number ⟨-12 * 10 ^ 62, 0⟩ := by
    decide +kernel
  have range : StaysInRange (.number ⟨-1200, -70⟩) :=
    (by decide +kernel : (Decimal.stripped ⟨-1200, -70⟩).ScaleInRange)
  have range' : StaysInRange (.number ⟨-120, -71⟩) :=
    (by decide +kernel : (Decimal.stripped ⟨-120, -71⟩).ScaleInRange)
  obtain ⟨kept, -, canonical, written⟩ := present_canonical (.number ⟨-1200, -70⟩)
  refine ⟨kept range, ?_, written _ compact, (present_canonical _).2.2.2 _ plain⟩
  refine ((canonical _ range range').out 0 1).2 ?_
  norm_num [exact, Decimal.value]

end Value

end EquationSystem
