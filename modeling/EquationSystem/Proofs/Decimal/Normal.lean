import EquationSystem.Decimal.Normal
import EquationSystem.Proofs.Decimal.Render
import EquationSystem.Proofs.Decimal.Value

/-!
# The normal form of a number

Taking off the zeros at the end does not change the number, and of all decimals that stand for one
number exactly one has none. It is the normal form, unless its scale has to be wrapped, which leads to
the normal form of another number. The presentation form therefore depends on the number only and is
its own presentation form; its scale is in range, and no zeros are written in place of it. It stands
for the same number where no scale is wrapped.
-/

namespace EquationSystem

theorem trailingZeros_of_dvd {n : Nat} (pos : 0 < n) (dvd : 10 ∣ n) :
    trailingZeros n = trailingZeros (n / 10) + 1 := by
  rw [trailingZeros, dif_pos ⟨pos, Nat.mod_eq_zero_of_dvd dvd⟩]

theorem trailingZeros_of_not_dvd {n : Nat} (h : ¬10 ∣ n) : trailingZeros n = 0 := by
  rw [trailingZeros, dif_neg fun ⟨_, zero⟩ => h (Nat.dvd_of_mod_eq_zero zero)]

/-- The zeros at the end of a number are all that it is divided by, and none is left. -/
theorem exists_trailingZeros {n : Nat} (pos : 0 < n) :
    ∃ m, n = m * 10 ^ trailingZeros n ∧ ¬10 ∣ m := by
  induction n using Nat.strongRecOn with
  | ind n ih =>
    by_cases dvd : 10 ∣ n
    · obtain ⟨k, rfl⟩ := dvd
      have positive : 0 < k := by omega
      obtain ⟨m, hm, last⟩ := ih k (by omega) positive
      refine ⟨m, ?_, last⟩
      rw [trailingZeros_of_dvd pos (Nat.dvd_mul_right 10 k), Nat.mul_div_cancel_left k (by decide),
        Nat.pow_succ, ← Nat.mul_assoc, ← hm, Nat.mul_comm]
    · exact ⟨n, by rw [trailingZeros_of_not_dvd dvd, Nat.pow_zero, Nat.mul_one], dvd⟩

namespace Decimal

open Rational

variable {x y : Decimal}

/-- The digits do not end in a zero, and zero has scale zero. -/
structure Normal (x : Decimal) : Prop where
  zero : x.digits = 0 → x.scale = 0
  last : x.digits ≠ 0 → ¬10 ∣ x.digits

theorem stripped_of_isZero (zero : x.isZero = true) : x.stripped = ofInt 0 := if_pos zero

theorem exists_stripped (nonzero : x.isZero = false) : ∃ (m : ℤ) (k : ℕ),
    x.digits = m * (10 ^ k : ℕ) ∧ ¬10 ∣ m ∧ x.stripped = ⟨m, x.scale - k⟩ := by
  obtain ⟨m, hm, last⟩ := exists_trailingZeros (magnitude_pos nonzero)
  have quotient : x.magnitude / 10 ^ trailingZeros x.magnitude = m :=
    Nat.div_eq_of_eq_mul_left (Nat.pow_pos (by decide)) hm
  refine ⟨x.digits.sign * m, trailingZeros x.magnitude, ?_, ?_, ?_⟩
  · rw [mul_assoc, ← Nat.cast_mul, ← hm, sign_mul_magnitude]
  · have unit : (x.digits.sign * m : ℤ).natAbs = m := by
      rw [Int.natAbs_mul, Int.natAbs_sign_of_ne_zero (isZero_eq_false_iff.1 nonzero),
        Int.natAbs_natCast, Nat.one_mul]
    intro dvd
    exact last (unit ▸ Int.natCast_dvd.1 dvd)
  · unfold stripped
    rw [if_neg (by rw [nonzero]; decide)]
    dsimp only
    rw [quotient]

theorem normal_stripped (x : Decimal) : x.stripped.Normal := by
  cases hx : x.isZero with
  | true =>
    rw [stripped_of_isZero hx]
    exact ⟨fun _ => rfl, fun nonzero => (nonzero rfl).elim⟩
  | false =>
    obtain ⟨m, k, -, last, eq⟩ := exists_stripped hx
    rw [eq]
    exact ⟨fun zero : m = 0 => (last (zero ▸ dvd_zero 10)).elim, fun _ => last⟩

@[simp] theorem value_stripped (x : Decimal) : x.stripped.value = x.value := by
  cases hx : x.isZero with
  | true => rw [stripped_of_isZero hx, value_ofInt, isZero_iff.1 hx, Int.cast_zero]
  | false =>
    obtain ⟨m, k, digits, -, eq⟩ := exists_stripped hx
    rw [eq, value, value, digits, Int.cast_mul, Int.cast_natCast, Nat.cast_pow, Nat.cast_ofNat,
      mul_assoc, ← zpow_natCast, ← zpow_add₀ (by norm_num)]
    congr 2
    ring

theorem Normal.scale_le (hy : y.Normal) (nonzero : y.digits ≠ 0) (same : x.value = y.value) :
    y.scale ≤ x.scale := by
  by_contra above
  obtain ⟨k, hk⟩ := Int.le.dest (Int.not_le.1 above)
  have digits : (y.digits : ℚ) = (x.digits * 10 ^ k * 10 : ℤ) := by
    have unit := unit_ne_zero (-y.scale)
    have shown : x.value = x.digits * 10 ^ k * 10 * 10 ^ (-y.scale) := by
      rw [value, show -x.scale = k + (1 + -y.scale) by omega, zpow_add₀ (by norm_num),
        zpow_one_add₀ (by norm_num), zpow_natCast]
      ring
    rw [shown, value] at same
    have := mul_right_cancel₀ unit same
    push_cast
    exact this.symm
  exact hy.last nonzero (Int.cast_injective digits ▸ Int.dvd_mul_left _ 10)

/-- Only one normal decimal stands for a number. -/
theorem Normal.eq_of_value_eq (hx : x.Normal) (hy : y.Normal) (same : x.value = y.value) :
    x = y := by
  have zero_iff : x.digits = 0 ↔ y.digits = 0 := by
    have := isZero_iff (x := x)
    have := isZero_iff (x := y)
    simp_all [isZero]
  have scale : x.scale = y.scale := by
    by_cases nonzero : y.digits = 0
    · rw [hx.zero (zero_iff.2 nonzero), hy.zero nonzero]
    · exact Int.le_antisymm (hx.scale_le (mt zero_iff.1 nonzero) same.symm)
        (hy.scale_le nonzero same)
  have digits : x.digits = y.digits := by
    rw [value, value, scale] at same
    exact Int.cast_injective (mul_right_cancel₀ (unit_ne_zero _) same)
  obtain ⟨_, _⟩ := x
  obtain ⟨_, _⟩ := y
  cases digits
  cases scale
  rfl

theorem stripped_eq_of_value_eq (same : x.value = y.value) : x.stripped = y.stripped :=
  (normal_stripped x).eq_of_value_eq (normal_stripped y) (by rw [value_stripped, same, value_stripped])

theorem Normal.stripped_eq (h : x.Normal) : x.stripped = x :=
  (normal_stripped x).eq_of_value_eq h (value_stripped x)

/-! ## The normal form -/

theorem Normal.wrapped (h : x.Normal) : x.wrapped.Normal where
  zero none := by rw [Decimal.wrapped, h.zero none]; rfl
  last := h.last

theorem normal_normalize (x : Decimal) : x.normalize.Normal := (normal_stripped x).wrapped

theorem scaleInRange_normalize (x : Decimal) : x.normalize.ScaleInRange := scaleInRange_wrapped _

theorem normalize_eq_of_value_eq (same : x.value = y.value) : x.normalize = y.normalize := by
  rw [normalize, stripped_eq_of_value_eq same, normalize]

theorem normalize_normalize (x : Decimal) : x.normalize.normalize = x.normalize := by
  rw [normalize, (normal_normalize x).stripped_eq, (scaleInRange_normalize x).wrapped_eq]

theorem value_normalize (h : x.stripped.ScaleInRange) : x.normalize.value = x.value := by
  rw [normalize, h.wrapped_eq, value_stripped]

/-! ## Presentation -/

theorem value_present_eq_value_normalize (x : Decimal) : x.present.value = x.normalize.value := by
  unfold present
  dsimp only
  split
  · next plain => exact value_rescale plain.2.le
  · rfl

theorem value_present (h : x.stripped.ScaleInRange) : x.present.value = x.value :=
  x.value_present_eq_value_normalize.trans (value_normalize h)

/-- What is presented depends on the normal form only, and so on the number only. -/
theorem present_eq_of_normalize_eq (same : x.normalize = y.normalize) : x.present = y.present := by
  unfold present
  rw [same]

theorem present_present (x : Decimal) : x.present.present = x.present :=
  present_eq_of_normalize_eq ((normalize_eq_of_value_eq x.value_present_eq_value_normalize).trans
    (normalize_normalize x))

theorem scaleInRange_present (x : Decimal) : x.present.ScaleInRange := by
  unfold present
  dsimp only
  split
  · rw [ScaleInRange, scale_rescale]
    decide
  · exact scaleInRange_normalize x

theorem showsScale_present (x : Decimal) : x.present.ShowsScale := by
  have normal := normal_normalize x
  have plain : maxPlainZeros = 64 := rfl
  have trailing : maxTrailingZeros = 15 := rfl
  unfold present
  dsimp only
  split
  · exact ⟨fun _ => scale_rescale _ _, .inl (scale_rescale _ _).ge⟩
  · exact ⟨fun zero => normal.zero (by simpa [isZero] using zero), by omega⟩

end Decimal

end EquationSystem
