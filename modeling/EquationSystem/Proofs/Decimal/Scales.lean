import EquationSystem.Formula.Arithmetic
import EquationSystem.Proofs.Decimal.Normal

/-!
# Scales of computed decimals

Operations on decimals whose scales are words yield decimals whose scales are words. A sum, a
difference and a remainder have the scale of an operand, and a rounded number that of the number or
of the bound. Products, quotients, normal forms and roots are wrapped, whatever they are made of.
-/

namespace EquationSystem

/-- What is computed, unless the computation fails, is as wanted. -/
def Gives {α : Type} (wanted : α → Prop) (r : Except EvalError α) : Prop := ∀ a, r = .ok a → wanted a

namespace Gives

variable {α β : Type} {wanted : α → Prop} {wanted' : β → Prop}

theorem ok {a : α} (h : wanted a) : Gives wanted (.ok a) := by
  intro a' same
  cases same
  exact h

theorem error {e : EvalError} : Gives wanted (.error e : Except EvalError α) := nofun

theorem bind {r : Except EvalError α} {f : α → Except EvalError β} (h : Gives wanted r)
    (hf : ∀ a, wanted a → Gives wanted' (f a)) : Gives wanted' (r >>= f) := by
  cases r with
  | error e => exact error
  | ok a => exact hf a (h a rfl)

theorem mapM {f : α → Except EvalError β} {xs : List α} (h : ∀ x ∈ xs, Gives wanted' (f x)) :
    Gives (fun ys => ∀ y ∈ ys, wanted' y) (xs.mapM f) := by
  induction xs with
  | nil => exact ok (List.forall_mem_nil _)
  | cons x xs ih =>
    rw [List.forall_mem_cons] at h
    rw [List.mapM_cons]
    exact h.1.bind fun y hy => (ih h.2).bind fun ys hys => ok (List.forall_mem_cons.2 ⟨hy, hys⟩)

end Gives

namespace Decimal

theorem scaleInRange_ofInt (n : ℤ) : (ofInt n).ScaleInRange :=
  (by decide : -0x8000000000000000 ≤ (0 : ℤ) ∧ (0 : ℤ) < 0x8000000000000000)

namespace ScaleInRange

variable {x y : Decimal} (hx : x.ScaleInRange) (hy : y.ScaleInRange)
include hx

theorem neg : (-x).ScaleInRange := hx

theorem abs : x.abs.ScaleInRange := hx

theorem round (direction : Direction) {places : ℤ} (low : -0x8000000000000000 ≤ places)
    (high : places < 0x8000000000000000) : (x.round direction places).ScaleInRange := by
  unfold Decimal.round
  split
  · exact hx
  · exact ⟨low, high⟩

theorem sqrt : x.sqrt.ScaleInRange := by
  unfold Decimal.sqrt
  split
  · exact hx
  · exact scaleInRange_wrapped _

include hy

theorem aligned (f : ℤ → ℤ → ℤ) : (aligned f x y).ScaleInRange :=
  ⟨hx.1.trans (le_max_left _ _), max_lt hx.2 hy.2⟩

theorem rescale_max (z : Decimal) : (z.rescale (max x.scale y.scale)).ScaleInRange := by
  rw [ScaleInRange, scale_rescale]
  exact hx.aligned hy 0

theorem add : (x + y).ScaleInRange := by
  change (Decimal.add x y).ScaleInRange
  unfold Decimal.add
  split
  · exact hx.rescale_max hy x
  · split
    · exact hx.rescale_max hy y
    · exact hx.aligned hy _

theorem sub : (x - y).ScaleInRange := by
  change (Decimal.sub x y).ScaleInRange
  unfold Decimal.sub
  split
  · exact hx
  · split
    · exact hy.neg
    · exact hx.aligned hy _

end ScaleInRange

/-! ## Lists -/

theorem scaleInRange_foldl {f : Decimal → Decimal → Decimal}
    (hf : ∀ {x y : Decimal}, x.ScaleInRange → y.ScaleInRange → (f x y).ScaleInRange)
    {acc : Decimal} {xs : List Decimal} (hacc : acc.ScaleInRange)
    (hxs : ∀ x ∈ xs, x.ScaleInRange) : (xs.foldl f acc).ScaleInRange := by
  induction xs generalizing acc with
  | nil => exact hacc
  | cons x xs ih =>
    rw [List.forall_mem_cons] at hxs
    exact ih (hf hacc hxs.1) hxs.2

variable {xs : List Decimal}

theorem scaleInRange_sum (h : ∀ x ∈ xs, x.ScaleInRange) : (sum xs).ScaleInRange :=
  scaleInRange_foldl .add (scaleInRange_ofInt 0) h

theorem scaleInRange_sumAligned (h : ∀ x ∈ xs, x.ScaleInRange) : (sumAligned xs).ScaleInRange :=
  scaleInRange_foldl (fun hx hy => hx.aligned hy _) (scaleInRange_ofInt 0) h

theorem mem_of_extremum? {order : Ordering} {x : Decimal} (h : extremum? order xs = some x) :
    x ∈ xs := by
  cases xs with
  | nil => cases h
  | cons y ys =>
    cases h
    induction ys generalizing y with
    | nil => exact List.mem_cons_self
    | cons z zs ih =>
      rw [List.foldl_cons]
      split
      · exact List.mem_cons_of_mem y (ih z)
      · exact List.cons_subset_cons y (List.subset_cons_self z zs) (ih y)

theorem scaleInRange_lookUpScore (x : Decimal) : ∀ {rows : List Decimal},
    (∀ row ∈ rows, row.ScaleInRange) → (lookUpScore x rows).ScaleInRange
  | [], _ | [_], _ | [_, _], _ => scaleInRange_ofInt 0
  | lower :: upper :: score :: rows, h => by
    simp only [List.forall_mem_cons] at h
    rw [lookUpScore]
    split
    · exact h.2.2.1
    · exact scaleInRange_lookUpScore x h.2.2.2

/-! ## Powers -/

theorem scaleInRange_powAux {acc x : Decimal} {n : ℕ} (h : acc.ScaleInRange) :
    (powAux acc x n).ScaleInRange := by
  have multiplied (acc : Decimal) (h : acc.ScaleInRange) (x : Decimal) (n : ℕ) :
      (if n % 2 = 1 then mulNormal acc x else acc).ScaleInRange := by
    split
    · exact scaleInRange_wrapped _
    · exact h
  fun_induction powAux acc x n with
  | case1 acc x => exact h
  | case2 acc x n nonzero acc' last => exact multiplied acc h x n
  | case3 acc x n nonzero acc' more ih => exact ih (multiplied acc h x n)

theorem scaleInRange_pow (x : Decimal) (n : ℕ) : (x.pow n).ScaleInRange :=
  scaleInRange_powAux (scaleInRange_ofInt 1)

/-- The shortest decimal of a binary64 number is a normal form, or that as an integer. -/
theorem scaleInRange_shortestDecimal (bits : ℕ) :
    (Binary64.shortestDecimal bits).ScaleInRange := by
  unfold Binary64.shortestDecimal
  split
  · exact scaleInRange_ofInt 0
  · dsimp only
    split
    · rw [ScaleInRange, scale_rescale]
      exact scaleInRange_ofInt 0
    · exact scaleInRange_normalize _

/-! ## Arithmetic that can fail -/

theorem divide_gives (x y : Decimal) : Gives ScaleInRange (divide x y) := by
  rw [divide]
  split
  · exact .ok (scaleInRange_wrapped _)
  · exact .error

theorem remainder_gives {x y : Decimal} (hx : x.ScaleInRange) (hy : y.ScaleInRange) :
    Gives ScaleInRange (remainder x y) := by
  rw [remainder]
  split
  · exact .ok (hx.aligned hy _)
  · exact .error

theorem floatPower_gives (base exponent : Decimal) :
    Gives ScaleInRange (floatPower base exponent) := by
  rw [floatPower]
  split
  · next found =>
    unfold Binary64.toDecimal? at found
    split at found
    · cases found
      refine .ok ?_
      split
      · exact scaleInRange_shortestDecimal _
      · exact (scaleInRange_shortestDecimal _).neg
    · cases found
  · exact .error

theorem power_gives (base exponent : Decimal) : Gives ScaleInRange (base.power exponent) := by
  rw [power]
  split
  · exact floatPower_gives base exponent
  · dsimp only
    split
    · exact divide_gives _ _
    · exact .ok (scaleInRange_pow base _)

theorem squareRoot_gives {x : Decimal} (h : x.ScaleInRange) : Gives ScaleInRange x.squareRoot := by
  rw [squareRoot]
  split
  · exact .error
  · exact .ok h.sqrt

theorem mean_gives (xs : List Decimal) : Gives ScaleInRange (mean xs) := divide_gives _ _

theorem deviation_gives (xs : List Decimal) : Gives ScaleInRange (deviation xs) :=
  (mean_gives xs).bind fun _ _ => (mean_gives _).bind fun _ => squareRoot_gives

end Decimal

end EquationSystem
