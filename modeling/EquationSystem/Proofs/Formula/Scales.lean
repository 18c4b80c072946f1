import EquationSystem.Proofs.Decimal.Scales
import EquationSystem.Proofs.Formula.Conversion
import EquationSystem.Proofs.Formula.Height
import EquationSystem.Proofs.Formula.Missing

/-!
# Scales of computed values

Reading a number checks that its scale is a word, and operators and functions keep to words. So every
number that a formula computes from such numbers has a scale that is a word, whatever is computed on
the way. The step of evaluation is followed here: if the parts of a term keep to words, so does the
term.
-/

namespace EquationSystem

theorem Decimal.scaleInRange_of_parse {text : String} {x : Decimal} (h : parse text = .ok x) :
    x.ScaleInRange := by
  unfold parse at h
  rw [readNumeral_eq] at h
  obtain ⟨power, -, assembled⟩ := Parser.bind_eq_ok_iff.1 h
  obtain ⟨-, -, -, low, high⟩ := exists_of_assemble assembled
  exact ⟨low, high⟩

theorem Decimal.scaleInRange_of_literal? {text : String} {x : Decimal} (h : literal? text = some x) :
    x.ScaleInRange :=
  scaleInRange_of_parse (parse_of_literal? h)

namespace Value

/-- The scale is a word, if the value is a number. -/
def ScaleInRange : Value → Prop
  | .number x => x.ScaleInRange
  | .bool _ => True

theorem toNumber_gives {v : Value} (h : v.ScaleInRange) : Gives Decimal.ScaleInRange v.toNumber := by
  cases v with
  | number x => exact .ok h
  | bool b => exact .error

end Value

/-! ## Operators -/

theorem UnaryOp.apply_gives (op : UnaryOp) {v : Value} (h : v.ScaleInRange) :
    Gives Value.ScaleInRange (op.apply v) := by
  cases op with
  | negate => exact (Value.toNumber_gives h).bind fun _ hx => .ok hx.neg
  | plus => exact (Value.toNumber_gives h).bind fun _ hx => .ok hx
  | not => exact .ok trivial

section
variable {lhs : Value} {rhs : Suspended}
  (hlhs : lhs.ScaleInRange) (hrhs : Gives Value.ScaleInRange (rhs ()))

include hrhs in
theorem Suspended.toNumber_gives : Gives Decimal.ScaleInRange rhs.toNumber :=
  hrhs.bind fun _ => Value.toNumber_gives

namespace BinaryOp

/-- A comparison yields a truth value. -/
theorem compareWith_gives (test : Decimal → Decimal → Bool) :
    Gives Value.ScaleInRange (compareWith test lhs rhs) := by
  intro v found
  obtain ⟨_, -, found⟩ := Parser.bind_eq_ok_iff.1 found
  obtain ⟨_, -, found⟩ := Parser.bind_eq_ok_iff.1 found
  obtain ⟨_, -, found⟩ := Parser.bind_eq_ok_iff.1 found
  cases found
  trivial

include hlhs hrhs

theorem combineWith_gives {f : Decimal → Decimal → Except EvalError Decimal}
    (hf : ∀ {x y : Decimal}, x.ScaleInRange → y.ScaleInRange → Gives Decimal.ScaleInRange (f x y)) :
    Gives Value.ScaleInRange (combineWith f lhs rhs) := by
  refine (Value.toNumber_gives hlhs).bind fun x hx => ?_
  refine (Suspended.toNumber_gives hrhs).bind fun y hy => ?_
  exact (hf hx hy).bind fun _ hz => .ok hz

theorem apply_gives (op : BinaryOp) : Gives Value.ScaleInRange (op.apply lhs rhs) := by
  cases op with
  | and =>
    rw [apply]
    split
    · exact hrhs.bind fun _ _ => .ok trivial
    · exact .ok trivial
  | or =>
    rw [apply]
    split
    · exact .ok trivial
    · exact hrhs.bind fun _ _ => .ok trivial
  | equal | notEqual =>
    refine hrhs.bind fun value _ => ?_
    cases lhs.equal value with
    | ok same => exact .ok trivial
    | error cause => exact .error
  | less | lessEqual | greater | greaterEqual => exact compareWith_gives _
  | add => exact combineWith_gives hlhs hrhs fun hx hy => .ok (hx.add hy)
  | subtract => exact combineWith_gives hlhs hrhs fun hx hy => .ok (hx.sub hy)
  | multiply => exact combineWith_gives hlhs hrhs fun _ _ => .ok (Decimal.scaleInRange_wrapped _)
  | divide => exact combineWith_gives hlhs hrhs fun _ _ => Decimal.divide_gives _ _
  | remainder => exact combineWith_gives hlhs hrhs Decimal.remainder_gives
  | power =>
    refine hrhs.bind fun value hvalue => ?_
    refine (Value.toNumber_gives hlhs).bind fun base _ => ?_
    refine (Value.toNumber_gives hvalue).bind fun exponent _ => ?_
    exact (Decimal.power_gives base exponent).bind fun _ hz => .ok hz

end BinaryOp

end

/-! ## Functions -/

namespace Builtin

theorem places_gives (x : Decimal) :
    Gives (fun n => -0x8000000000000000 ≤ n ∧ n < 0x8000000000000000) (places x) := by
  rw [places]
  split
  · exact .error
  · next n _ =>
    split
    · exact .ok ⟨Int64.le_toInt n, Int64.toInt_lt n⟩
    · exact .error

theorem memberAt_gives {xs : List Decimal} (h : ∀ x ∈ xs, x.ScaleInRange) (index : Decimal) :
    Gives Decimal.ScaleInRange (memberAt xs index) := by
  rw [memberAt]
  split
  · exact .error
  · split
    · exact .error
    · split
      · next found => exact .ok (h _ (List.mem_of_getElem? found))
      · exact .error

theorem Makes.gives {f : Builtin} {xs : List Decimal} {result : Except EvalError Decimal}
    (made : Makes f xs result) (h : ∀ x ∈ xs, x.ScaleInRange) :
    Gives Decimal.ScaleInRange result := by
  cases made with
  | sum => exact .ok (Decimal.scaleInRange_sum h)
  | min least => exact .ok (h _ (Decimal.mem_of_extremum? least))
  | max greatest => exact .ok (h _ (Decimal.mem_of_extremum? greatest))
  | average => exact Decimal.mean_gives _
  | deviation => exact Decimal.deviation_gives _
  | safeDivide x y =>
    split
    · exact .ok (Decimal.scaleInRange_ofInt 0)
    · exact Decimal.divide_gives x y
  | abs x => exact .ok (h x List.mem_cons_self).abs
  | sqrt x => exact Decimal.squareRoot_gives (h x List.mem_cons_self)
  | floor x | ceiling x => exact .ok ((h x List.mem_cons_self).round _ (by decide) (by decide))
  | scoreTable x => exact .ok (Decimal.scaleInRange_lookUpScore x (List.forall_mem_cons.1 h).2)
  | access => exact memberAt_gives (fun x hx => h x (List.mem_of_mem_dropLast hx)) _

theorem apply_gives (f : Builtin) {args : List Suspended}
    (h : ∀ arg ∈ args, Gives Value.ScaleInRange (arg ())) :
    Gives Value.ScaleInRange (f.apply args) := by
  unfold apply
  split
  · next condition yes no =>
    simp only [List.forall_mem_cons] at h
    refine h.1.bind fun value _ => ?_
    split
    · exact h.2.1
    · exact h.2.2.1
  · next x =>
    refine (Suspended.toNumber_gives (h x List.mem_cons_self)).bind fun _ hx => ?_
    exact .ok (hx.round _ (by decide) (by decide))
  · next x digits =>
    simp only [List.forall_mem_cons] at h
    refine (Suspended.toNumber_gives h.2.1).bind fun d _ => ?_
    refine (places_gives d).bind fun n hn => ?_
    exact (Suspended.toNumber_gives h.1).bind fun _ hx => .ok (hx.round _ hn.1 hn.2)
  · exact .error
  · exact .error
  · refine (Gives.mapM fun arg ha => Suspended.toNumber_gives (h arg ha)).bind fun xs hxs => ?_
    split
    · next accepted => exact ((makes_of_ofNumbers? accepted).gives hxs).bind fun _ hx => .ok hx
    · exact .error

end Builtin

/-! ## Terms -/

/-- The numbers that are bound have scales that are words. -/
def Bindings.ScalesInRange (b : Bindings) : Prop := ∀ name v, b.get? name = some v → v.ScaleInRange

variable {b : Bindings}

namespace Term

variable {recurse : Term → Except EvalError Value}

theorem foldlM_apply_gives {rest : List (BinaryOp × Term)}
    (h : ∀ link ∈ rest, Gives Value.ScaleInRange (recurse link.2)) {lhs : Value}
    (hlhs : lhs.ScaleInRange) : Gives Value.ScaleInRange
      (rest.foldlM (fun lhs link => link.1.apply lhs fun _ => recurse link.2) lhs) := by
  induction rest generalizing lhs with
  | nil => exact .ok hlhs
  | cons link rest ih =>
    rw [List.forall_mem_cons] at h
    rw [List.foldlM_cons]
    exact (BinaryOp.apply_gives hlhs h.1 link.1).bind fun _ => ih h.2

/-- One step of evaluation keeps to words if the parts do. -/
theorem evalStep_gives {t : Term} (hb : b.ScalesInRange)
    (constant : ∀ v, t = .constant v → v.ScaleInRange)
    (h : ∀ part ∈ t.parts, Gives Value.ScaleInRange (recurse part)) :
    Gives Value.ScaleInRange (evalStep b recurse t) := by
  cases t with
  | constant v => exact .ok (constant v rfl)
  | reference name =>
    rw [evalStep]
    split
    · next v bound => exact .ok (hb name v bound)
    · exact .error
  | unary op operand => exact (h operand List.mem_cons_self).bind fun _ => op.apply_gives
  | binary op lhs rhs =>
    simp only [parts, List.forall_mem_cons] at h
    exact h.1.bind fun _ hv => BinaryOp.apply_gives hv h.2.1 op
  | chain first rest =>
    rw [parts, List.forall_mem_cons, List.forall_mem_map] at h
    exact h.1.bind fun _ hv => foldlM_apply_gives h.2 hv
  | call f args => exact f.apply_gives (List.forall_mem_map.2 h)

end Term

namespace Expr

variable {e : Expr} {t : Term}

theorem CompilesTo.constant_inRange {v : Value} (h : CompilesTo e (.constant v)) :
    v.ScaleInRange := by
  obtain ⟨names, h⟩ := h
  rw [compile_eq_step] at h
  cases e with
  | number text =>
    rw [compileStep] at h
    split at h
    · next parsed =>
      cases h
      exact Decimal.scaleInRange_of_parse parsed
    · cases h
  | bool b =>
    cases h
    trivial
  | reference name => cases h
  | unary op operand =>
    obtain ⟨_, _, -, other⟩ := exists_of_andThen h
    cases other
  | binary op lhs rhs =>
    obtain ⟨_, _, -, h⟩ := exists_of_andThen h
    obtain ⟨_, _, -, other⟩ := exists_of_andThen h
    cases other
  | chain first rest =>
    obtain ⟨_, _, -, h⟩ := exists_of_andThen h
    obtain ⟨_, _, -, other⟩ := exists_of_andThen h
    cases other
  | call name args position =>
    rw [compileStep] at h
    split at h
    · cases h
    · split at h
      · obtain ⟨_, _, -, other⟩ := exists_of_andThen h
        cases other
      · cases h

/-- Every number that a formula computes has a scale that is a word, if the numbers it refers to have
such scales. -/
theorem CompilesTo.eval_gives (h : CompilesTo e t) (hb : b.ScalesInRange) :
    Gives Value.ScaleInRange (t.eval b) := by
  obtain ⟨d, le⟩ : ∃ d, e.height ≤ d := ⟨_, le_rfl⟩
  induction d generalizing e t with
  | zero => exact absurd le (Nat.not_le_of_lt e.height_pos)
  | succ d ih =>
    rw [height_le_succ_iff] at le
    rw [Term.eval_eq_step]
    refine Term.evalStep_gives hb (fun v same => (same ▸ h).constant_inRange) fun part hp => ?_
    obtain ⟨source, hs, compiled⟩ := h.exists_part part hp
    exact ih compiled (le source hs)

end Expr

end EquationSystem
