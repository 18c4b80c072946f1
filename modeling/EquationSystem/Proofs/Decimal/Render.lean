import EquationSystem.Decimal.Render
import EquationSystem.Proofs.Json.Literal

/-!
# Written decimals are numbers of JSON

Whether it is written out, with an exponent after its first digit or with an exponent after all of
its digits, a decimal is a number of JSON. Where no zeros are written in place of a negative scale,
the text shows the digits and the scale, so that it can be read back to the same decimal.
-/

namespace EquationSystem

/-- No number but zero begins with a zero. -/
theorem head?_toDigits {n : Nat} (pos : 0 < n) : (Nat.toDigits 10 n).head? ≠ some '0' := by
  induction n using Nat.strongRecOn with
  | ind n ih =>
    by_cases small : n < 10
    · have other : ∀ m < 10, 0 < m → m.digitChar ≠ '0' := by decide
      rw [Nat.toDigits_of_lt_base small]
      exact fun same => other n small pos (Option.some.inj same)
    · have smaller : n / 10 < n := Nat.div_lt_self pos (by decide)
      rw [Nat.toDigits_of_base_le (by decide) (Nat.not_lt.1 small),
        List.head?_append_of_ne_nil _ Nat.toDigits_ne_nil]
      exact ih _ smaller (Nat.div_pos (Nat.not_lt.1 small) (by decide))

theorem digits_toDigits (n : Nat) : Digits (Nat.toDigits 10 n) :=
  fun _ hc => Nat.isDigit_of_mem_toDigits (by decide) (by decide) hc

theorem ofDigits_toDigits (n : Nat) : ofDigits (Nat.toDigits 10 n) = n :=
  Nat.ofDigitChars_ten_toDigits

theorem digits_zeros (k : Nat) : Digits (List.replicate k '0') := by
  intro c hc
  rw [List.eq_of_mem_replicate hc]
  rfl

theorem ofDigits_zeros_append (k : Nat) (cs : List Char) :
    ofDigits (List.replicate k '0' ++ cs) = ofDigits cs := by
  rw [ofDigits, Nat.ofDigitChars_append, Nat.ofDigitChars_replicate_zero, Nat.mul_zero]

theorem toList_toString_neg {k : Nat} (pos : 0 < k) :
    (toString (-(k : Int))).toList = '-' :: Nat.toDigits 10 k := by
  obtain ⟨k, rfl⟩ := Nat.exists_eq_succ_of_ne_zero pos.ne'
  show ("-" ++ Nat.repr (k + 1)).toList = _
  rw [Nat.repr_eq_ofList_toDigits, String.toList_append, String.toList_ofList,
    String.toList_ofList]
  rfl

namespace Decimal

/-- No zeros are written in place of the scale. -/
structure ShowsScale (x : Decimal) : Prop where
  zero : x.isZero = true → x.scale = 0
  plain : 0 ≤ x.scale ∨ x.scale < -maxTrailingZeros

/-- The numeral is one of JSON, shows the digits and the scale and has no exponent beyond the
scale. -/
structure Written (n : Numeral) (digits : Nat) (scale : Int) : Prop where
  leading : n.whole ≠ []
  zero : n.whole.head? = some '0' → n.whole.length ≤ 1
  decimal_eq : n.decimal = ⟨digits, scale⟩
  power_le : n.power.natAbs ≤ scale.natAbs

variable {d : Nat} {s : Int}

theorem exists_scientific (small : (Nat.toDigits 10 d).length < s) : ∃ n,
    n.chars = renderScientific (Nat.toDigits 10 d) ((Nat.toDigits 10 d).length - s - 1) ∧
      Written n d s := by
  obtain ⟨first, rest, hd⟩ := List.exists_cons_of_ne_nil (@Nat.toDigits_ne_nil d 10)
  have digits : Digits (first :: rest) := hd ▸ digits_toDigits d
  obtain ⟨k, hk⟩ := Int.eq_ofNat_of_zero_le (show 0 ≤ s - (Nat.toDigits 10 d).length + 1 by omega)
  let n : Numeral :=
    { whole := [first]
      places := rest
      exponent? := some ⟨'E', .minus, Nat.toDigits 10 k, rfl, digits_toDigits k,
        Nat.toDigits_ne_nil⟩
      hwhole := List.forall_mem_singleton.2 (digits first List.mem_cons_self)
      hplaces := fun c hc => digits c (List.mem_cons_of_mem first hc)
      nonempty := nofun }
  have length : (Nat.toDigits 10 d).length = rest.length + 1 := congrArg List.length hd
  have power : n.power = -k := by
    show -(ofDigits (Nat.toDigits 10 k) : Int) = -k
    rw [ofDigits_toDigits]
  refine ⟨n, ?_, nofun, fun _ => Nat.le_refl 1, ?_, ?_⟩
  · have exponent : ((Nat.toDigits 10 d).length : Int) - s - 1 = -k := by omega
    have mantissa : renderScientific (first :: rest) (-k) =
        first :: (if rest = [] then [] else '.' :: rest) ++ 'E' :: '-' :: Nat.toDigits 10 k := by
      rw [← toList_toString_neg (by omega)]
      cases rest with
      | nil => rfl
      | cons second rest => rw [if_neg nofun]; rfl
    rw [exponent, hd, mantissa]
    rfl
  · have count := ofDigits_toDigits d
    rw [hd] at count
    unfold Numeral.decimal
    rw [power]
    show (⟨ofDigits (first :: rest), rest.length - -k⟩ : Decimal) = _
    rw [count]
    congr 1
    omega
  · rw [power]
    omega

theorem written_toDigits (d : Nat) :
    (Nat.toDigits 10 d).head? = some '0' → (Nat.toDigits 10 d).length ≤ 1 := by
  intro zero
  rcases Nat.eq_zero_or_pos d with rfl | pos
  · exact Nat.le_refl 1
  · exact (head?_toDigits pos zero).elim

theorem exists_compact (negative : s < 0) : ∃ n,
    n.chars = Nat.toDigits 10 d ++ 'e' :: '+' :: Nat.toDigits 10 s.natAbs ∧ Written n d s := by
  let n : Numeral :=
    { whole := Nat.toDigits 10 d
      places := []
      exponent? := some ⟨'e', .plus, Nat.toDigits 10 s.natAbs, rfl, digits_toDigits _,
        Nat.toDigits_ne_nil⟩
      hwhole := digits_toDigits d
      hplaces := List.forall_mem_nil _
      nonempty := fun empty => (Nat.toDigits_ne_nil empty).elim }
  have power : n.power = s.natAbs := congrArg Int.ofNat (ofDigits_toDigits s.natAbs)
  have count : ofDigits (n.whole ++ n.places) = d :=
    (congrArg ofDigits (List.append_nil _)).trans (ofDigits_toDigits d)
  refine ⟨n, rfl, Nat.toDigits_ne_nil, written_toDigits d, ?_, by rw [power, Int.natAbs_natCast]⟩
  unfold Numeral.decimal
  rw [power, count]
  congr 1
  show (0 : Int) - s.natAbs = s
  omega

theorem exists_integer (d : Nat) : ∃ n, n.chars = Nat.toDigits 10 d ∧ Written n d 0 := by
  let n : Numeral :=
    { whole := Nat.toDigits 10 d
      places := []
      exponent? := none
      hwhole := digits_toDigits d
      hplaces := List.forall_mem_nil _
      nonempty := fun empty => (Nat.toDigits_ne_nil empty).elim }
  have count : ofDigits (n.whole ++ n.places) = d :=
    (congrArg ofDigits (List.append_nil _)).trans (ofDigits_toDigits d)
  refine ⟨n, List.append_nil _, Nat.toDigits_ne_nil, written_toDigits d, ?_, Nat.zero_le _⟩
  unfold Numeral.decimal
  rw [count]
  rfl

theorem exists_fraction {whole places : List Char} (hwhole : Digits whole) (hplaces : Digits places)
    (leading : whole ≠ []) (zero : whole.head? = some '0' → whole.length ≤ 1)
    (fraction : places ≠ []) : ∃ n, n.chars = whole ++ '.' :: places ∧
      Written n (ofDigits (whole ++ places)) places.length := by
  let n : Numeral :=
    { whole, places, hwhole, hplaces
      exponent? := none
      nonempty := fun _ => fraction }
  have point : n.pointChars = '.' :: places := if_neg fraction
  refine ⟨n, ?_, leading, zero, ?_, Nat.zero_le _⟩
  · rw [Numeral.chars, point]
    exact congrArg _ (List.append_nil _)
  · exact congrArg (Decimal.mk _) (Int.sub_zero _)

theorem exists_plain {k : Nat} (pos : 0 < d) (fraction : 0 < k) :
    ∃ n, n.chars = renderPlain (Nat.toDigits 10 d) k ∧ Written n d k := by
  have digits := digits_toDigits d
  unfold renderPlain
  split
  · next inside =>
    have hfront : Digits ((Nat.toDigits 10 d).take ((Nat.toDigits 10 d).length - k)) :=
      fun c hc => digits c (List.mem_of_mem_take hc)
    have hback : Digits ((Nat.toDigits 10 d).drop ((Nat.toDigits 10 d).length - k)) :=
      fun c hc => digits c (List.mem_of_mem_drop hc)
    obtain ⟨n, hchars, written⟩ := exists_fraction hfront hback
      (List.ne_nil_of_length_pos (by rw [List.length_take]; omega))
      (fun zero => (head?_toDigits pos (by
        rw [List.head?_take, if_neg (by omega)] at zero
        exact zero)).elim)
      (List.ne_nil_of_length_pos (by rw [List.length_drop]; omega))
    rw [List.take_append_drop, ofDigits_toDigits, List.length_drop, Nat.sub_sub_self inside.le]
      at written
    exact ⟨n, hchars, written⟩
  · next outside =>
    let zeros := List.replicate (k - (Nat.toDigits 10 d).length) '0'
    obtain ⟨n, hchars, written⟩ := @exists_fraction ['0'] (zeros ++ Nat.toDigits 10 d)
      (digits_zeros 1) (List.forall_mem_append.2 ⟨digits_zeros _, digits⟩) nofun
      (fun _ => Nat.le_refl 1) (List.append_ne_nil_of_right_ne_nil _ Nat.toDigits_ne_nil)
    have length : (zeros ++ Nat.toDigits 10 d).length = k := by
      rw [List.length_append, List.length_replicate]
      omega
    have count : ofDigits (['0'] ++ (zeros ++ Nat.toDigits 10 d)) = d := by
      have dropped := (ofDigits_zeros_append 1 _).trans
        (ofDigits_zeros_append (k - (Nat.toDigits 10 d).length) (Nat.toDigits 10 d))
      exact dropped.trans (ofDigits_toDigits d)
    rw [length, count] at written
    exact ⟨n, hchars, written⟩

theorem exists_magnitude {x : Decimal} (h : x.ShowsScale) :
    ∃ n, n.chars = x.renderMagnitude ∧ Written n x.magnitude x.scale := by
  have scale : (if x.isZero then 0 else x.scale) = x.scale := by
    split
    · next zero => exact (h.zero zero).symm
    · rfl
  unfold renderMagnitude
  dsimp only
  rw [scale]
  split
  · next leading =>
    refine exists_scientific ?_
    have : maxLeadingZeros = 5 := rfl
    omega
  · split
    · next trailing =>
      refine exists_compact ?_
      have : maxTrailingZeros = 15 := rfl
      omega
    · next noTrailing =>
      split
      · next integer =>
        have none : x.scale = 0 := by
          have := h.plain
          omega
        rw [none]
        obtain ⟨n, hchars, written⟩ := exists_integer x.magnitude
        exact ⟨n, hchars.trans (List.append_nil _).symm, written⟩
      · next fraction =>
        have pos : 0 < x.magnitude := by
          refine Nat.pos_of_ne_zero fun none => ?_
          have := h.zero (by simp [isZero, Int.natAbs_eq_zero.1 none])
          omega
        have natural : (x.scale.toNat : Int) = x.scale := Int.toNat_of_nonneg (by omega)
        have := @exists_plain _ x.scale.toNat pos (by omega)
        rwa [natural] at this

theorem applyTo_magnitude (x : Decimal) :
    (if x.isNegative then Sign.minus else Sign.none).applyTo ⟨x.magnitude, x.scale⟩ = x := by
  obtain ⟨digits, scale⟩ := x
  unfold isNegative magnitude
  split
  · next negative =>
    have : digits < 0 := of_decide_eq_true negative
    show (⟨-(digits.natAbs : Int), scale⟩ : Decimal) = _
    congr 1
    omega
  · next natural =>
    have : ¬digits < 0 := fun negative => natural (decide_eq_true negative)
    show (⟨digits.natAbs, scale⟩ : Decimal) = _
    congr 1
    omega

/-- A decimal that shows its scale is written as a number of JSON with its digits and its scale. -/
theorem exists_literal {x : Decimal} (h : x.ShowsScale) :
    ∃ l : Json.Literal, x.render = String.ofList l.chars ∧ l.decimal = x ∧
      (x.ScaleInRange → l.InRange) := by
  obtain ⟨n, hchars, written⟩ := exists_magnitude h
  let l : Json.Literal :=
    { n with
      negative := x.isNegative
      hleading := written.leading
      hzero := written.zero }
  refine ⟨l, ?_, ?_, fun ⟨ge, lt⟩ => ?_⟩
  · unfold render Json.Literal.chars Json.Literal.sign
    show _ = String.ofList ((if x.isNegative then Sign.minus else Sign.none).chars ++ n.chars)
    rw [hchars]
    split <;> rfl
  · unfold Json.Literal.decimal Json.Literal.sign
    show (if x.isNegative then Sign.minus else Sign.none).applyTo n.decimal = x
    rw [written.decimal_eq]
    exact applyTo_magnitude x
  · have bound : x.scale.natAbs < exponentBound :=
      Nat.lt_of_le_of_lt (m := 0x8000000000000000) (by omega) (by decide)
    have power : l.power.natAbs ≤ x.scale.natAbs := written.power_le
    have scale : n.decimal.scale = x.scale := by rw [written.decimal_eq]
    exact ⟨by omega, by omega, scale ▸ ge, scale ▸ lt⟩

end Decimal

end EquationSystem
