import EquationSystem.Proofs.Decimal.Quotient
import EquationSystem.Proofs.Decimal.Scales

/-!
# Extremes and means of lists

The extreme of a list is the first of its members that no other precedes, as it is written. The sum
that a mean divides has all places of the members, and a quotient by an integer keeps the places of
what is divided. So the members are among the numbers that the mean is rounded to, and a mean that
is rounded lies between the least and the greatest member like the exact one, unless the places found
are too many for a scale. Members of one value have a mean with no more places than they have.
-/

namespace EquationSystem.Decimal

open OrderDual (toDual)
open Rational hiding round

variable {x y least greatest : Decimal} {xs : List Decimal}

/-! ## Extremes -/

section
variable {α : Type} [LinearOrder α] {key : Decimal → α}

/-- The first of the members of a list whose key is least. -/
def FirstLeast (key : Decimal → α) (xs : List Decimal) (x : Decimal) : Prop :=
  ∃ before after, xs = before ++ x :: after ∧ (∀ y ∈ before, key x < key y) ∧
    ∀ y ∈ after, key x ≤ key y

namespace FirstLeast

theorem singleton (x : Decimal) : FirstLeast key [x] x :=
  ⟨[], [], rfl, List.forall_mem_nil _, List.forall_mem_nil _⟩

theorem mem (h : FirstLeast key xs x) : x ∈ xs := by
  obtain ⟨before, after, rfl, -, -⟩ := h
  exact List.mem_append_right _ List.mem_cons_self

theorem le (h : FirstLeast key xs x) : ∀ y ∈ xs, key x ≤ key y := by
  obtain ⟨before, after, rfl, hbefore, hafter⟩ := h
  intro y hy
  rcases List.mem_append.1 hy with hy | hy
  · exact (hbefore y hy).le
  · rcases List.mem_cons.1 hy with rfl | hy
    · exact le_rfl
    · exact hafter y hy

theorem cons (h : FirstLeast key xs x) (above : key x < key y) : FirstLeast key (y :: xs) x := by
  obtain ⟨before, after, rfl, hbefore, hafter⟩ := h
  exact ⟨y :: before, after, rfl, List.forall_mem_cons.2 ⟨above, hbefore⟩, hafter⟩

/-- A member that is not below the one before it can be left out. -/
theorem insert {best : Decimal} (h : FirstLeast key (best :: xs) x) (above : key best ≤ key y) :
    FirstLeast key (best :: y :: xs) x := by
  obtain ⟨_ | ⟨first, before⟩, after, eq, hbefore, hafter⟩ := h
  · cases eq
    exact ⟨[], y :: xs, rfl, List.forall_mem_nil _, List.forall_mem_cons.2 ⟨above, hafter⟩⟩
  · cases eq
    have below := (List.forall_mem_cons.1 hbefore).1
    refine ⟨best :: y :: before, after, rfl, ?_, hafter⟩
    exact List.forall_mem_cons.2 ⟨below, List.forall_mem_cons.2
      ⟨below.trans_le above, (List.forall_mem_cons.1 hbefore).2⟩⟩

end FirstLeast

theorem firstLeast_foldl {order : Ordering}
    (pick : ∀ x y : Decimal, compare y x = order ↔ key y < key x) (best : Decimal)
    (xs : List Decimal) : FirstLeast key (best :: xs)
      (xs.foldl (fun best y => if compare y best = order then y else best) best) := by
  induction xs generalizing best with
  | nil => exact .singleton best
  | cons y ys ih =>
    rw [List.foldl_cons]
    split
    · next below =>
      have found := ih y
      exact found.cons ((found.le y List.mem_cons_self).trans_lt ((pick best y).1 below))
    · next above => exact (ih best).insert (not_lt.1 (mt (pick best y).2 above))

end

theorem exists_extremum?_lt (nonempty : xs ≠ []) :
    ∃ x, extremum? .lt xs = some x ∧ FirstLeast value xs x := by
  obtain ⟨y, ys, rfl⟩ := List.exists_cons_of_ne_nil nonempty
  refine ⟨_, rfl, firstLeast_foldl (fun x y => ?_) y ys⟩
  rw [compare_eq, compare_lt_iff_lt]

theorem exists_extremum?_gt (nonempty : xs ≠ []) :
    ∃ x, extremum? .gt xs = some x ∧ FirstLeast (toDual ∘ value) xs x := by
  obtain ⟨y, ys, rfl⟩ := List.exists_cons_of_ne_nil nonempty
  refine ⟨_, rfl, firstLeast_foldl (fun x y => ?_) y ys⟩
  rw [compare_eq, compare_gt_iff_gt]
  rfl

/-! ## Means -/

theorem value_sumAligned (xs : List Decimal) : (sumAligned xs).value = (xs.map value).sum := by
  rw [sumAligned, value_foldl value_aligned_add, value_ofInt, Int.cast_zero, zero_add]

/-- A sum has all places of its members. -/
theorem scale_le_foldl_aligned (acc : Decimal) (xs : List Decimal) :
    acc.scale ≤ (xs.foldl (aligned (· + ·)) acc).scale ∧
      ∀ x ∈ xs, x.scale ≤ (xs.foldl (aligned (· + ·)) acc).scale := by
  induction xs generalizing acc with
  | nil => exact ⟨le_rfl, List.forall_mem_nil _⟩
  | cons x xs ih =>
    obtain ⟨hacc, hxs⟩ := ih (aligned (· + ·) acc x)
    rw [List.foldl_cons]
    exact ⟨(le_max_left _ _).trans hacc,
      List.forall_mem_cons.2 ⟨(le_max_right _ _).trans hacc, hxs⟩⟩

/-- The quotient that a mean is, with as many places as were found. -/
def meanQuotient (xs : List Decimal) : Decimal := (sumAligned xs).quotient (ofInt xs.length)

theorem exists_meanQuotient (nonempty : xs ≠ []) : mean xs = .ok (meanQuotient xs).wrapped ∧
    (meanQuotient xs).Approximates ((xs.map value).sum / xs.length) := by
  have count : (ofInt xs.length).value ≠ 0 := by
    rw [value_ofInt, Int.cast_natCast, Nat.cast_ne_zero]
    exact mt List.eq_nil_of_length_eq_zero nonempty
  obtain ⟨quotient, near⟩ := exists_divide (sumAligned xs) count
  refine ⟨quotient, ?_⟩
  rwa [value_sumAligned, value_ofInt, Int.cast_natCast] at near

/-- The members' own places are fine enough to enclose the mean. -/
theorem mem_grid_meanQuotient {x : Decimal} (hx : x ∈ xs) :
    x.value ∈ grid (meanQuotient xs).scale := by
  refine value_mem_grid ?_
  calc x.scale ≤ (sumAligned xs).scale := (scale_le_foldl_aligned _ xs).2 x hx
    _ = (sumAligned xs).scale - (ofInt xs.length).scale := (sub_zero _).symm
    _ ≤ _ := le_scale_quotient _ le_rfl

theorem le_exact_mean {q : ℚ} (nonempty : xs ≠ []) (below : ∀ x ∈ xs, q ≤ x.value) :
    q ≤ (xs.map value).sum / xs.length := by
  have count : (0 : ℚ) < xs.length := Nat.cast_pos.2 (List.length_pos_of_ne_nil nonempty)
  have total := List.card_nsmul_le_sum (xs.map value) q (List.forall_mem_map.2 below)
  rw [List.length_map, nsmul_eq_mul, mul_comm] at total
  exact (le_div_iff₀ count).2 total

theorem exact_mean_le {q : ℚ} (nonempty : xs ≠ []) (above : ∀ x ∈ xs, x.value ≤ q) :
    (xs.map value).sum / xs.length ≤ q := by
  have count : (0 : ℚ) < xs.length := Nat.cast_pos.2 (List.length_pos_of_ne_nil nonempty)
  have total := List.sum_le_card_nsmul (xs.map value) q (List.forall_mem_map.2 above)
  rw [List.length_map, nsmul_eq_mul, mul_comm] at total
  exact (div_le_iff₀ count).2 total

theorem le_meanQuotient (least : x ∈ xs) (below : ∀ y ∈ xs, x.value ≤ y.value) :
    x.value ≤ (meanQuotient xs).value := by
  have nonempty := List.ne_nil_of_mem least
  exact (exists_meanQuotient nonempty).2.nearest.point_le (mem_grid_meanQuotient least)
    (le_exact_mean nonempty below)

theorem meanQuotient_le (greatest : x ∈ xs) (above : ∀ y ∈ xs, y.value ≤ x.value) :
    (meanQuotient xs).value ≤ x.value := by
  have nonempty := List.ne_nil_of_mem greatest
  exact (exists_meanQuotient nonempty).2.nearest.le_point (mem_grid_meanQuotient greatest)
    (exact_mean_le nonempty above)

/-! ## Means of equal members -/

/-- The sum of members of one value is a multiple of their number, digit for digit. -/
theorem length_dvd_digits_sumAligned {q : ℚ} (same : ∀ x ∈ xs, x.value = q) :
    (xs.length : ℤ) ∣ (sumAligned xs).digits := by
  cases xs with
  | nil => exact dvd_refl 0
  | cons x xs =>
    have places := (scale_le_foldl_aligned (ofInt 0) (x :: xs)).2 x List.mem_cons_self
    obtain ⟨m, hm⟩ := value_mem_grid places
    have total : (((x :: xs).map value).sum : ℚ) = (x :: xs).length * q := by
      rw [List.sum_eq_card_nsmul _ q (List.forall_mem_map.2 same), List.length_map, nsmul_eq_mul]
    rw [← same x List.mem_cons_self, hm, ← value_sumAligned, value, ← mul_assoc] at total
    refine ⟨m, ?_⟩
    exact_mod_cast mul_right_cancel₀ (unit_ne_zero _) total

/-- So its division comes out even before any place is looked for. -/
theorem scaleInRange_meanQuotient_of_same {q : ℚ} (range : ∀ x ∈ xs, x.ScaleInRange)
    (same : ∀ x ∈ xs, x.value = q) : (meanQuotient xs).ScaleInRange := by
  rw [ScaleInRange, meanQuotient, scale_quotient_of_dvd (length_dvd_digits_sumAligned same) rfl]
  exact scaleInRange_sumAligned range

/-- Members of one value have this value as their mean. -/
theorem exists_mean_of_same {q : ℚ} (nonempty : xs ≠ []) (range : ∀ x ∈ xs, x.ScaleInRange)
    (same : ∀ x ∈ xs, x.value = q) : ∃ r, mean xs = .ok r ∧ r.value = q := by
  obtain ⟨x, hx⟩ := List.exists_mem_of_ne_nil xs nonempty
  refine ⟨_, (exists_meanQuotient nonempty).1, ?_⟩
  rw [(scaleInRange_meanQuotient_of_same range same).wrapped_eq, ← same x hx]
  refine le_antisymm (meanQuotient_le hx fun y hy => ?_) (le_meanQuotient hx fun y hy => ?_)
  · exact ((same y hy).trans (same x hx).symm).le
  · exact ((same x hx).trans (same y hy).symm).le

end EquationSystem.Decimal
