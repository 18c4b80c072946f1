import EquationSystem.Proofs.Formula.References

/-!
# Names that evaluation misses

A formula has no value where it asks for the value of a name that has none. Only a reference asks
for one: arithmetic, operators and functions fail for other reasons, or pass on what their operands
and arguments miss. So evaluation misses none but the names that the formula refers to, and of these
only such as have no value.
-/

namespace EquationSystem

/-- The computation does not fail for want of a value, unless of a name in `absent`. -/
def MissesOnly {α : Type} (absent : String → Prop) (r : Except EvalError α) : Prop :=
  ∀ name, r = .error (.unbound name) → absent name

variable {absent : String → Prop}

namespace MissesOnly

variable {α β : Type}

theorem ok {a : α} : MissesOnly absent (.ok a) := nofun

theorem error {e : EvalError} (other : e.kind ≠ .unbound) :
    MissesOnly absent (.error e : Except EvalError α) := by
  intro name same
  cases same
  exact absurd rfl other

/-- An error that is passed on misses what it missed before. -/
theorem pass {e : EvalError} (h : MissesOnly absent (.error e : Except EvalError α)) :
    MissesOnly absent (.error e : Except EvalError β) := by
  intro name same
  cases same
  exact h name rfl

theorem bind {x : Except EvalError α} {f : α → Except EvalError β} (h : MissesOnly absent x)
    (hf : ∀ a, MissesOnly absent (f a)) : MissesOnly absent (x >>= f) := by
  cases x with
  | error e => exact h.pass
  | ok a => exact hf a

theorem mapM {f : α → Except EvalError β} {xs : List α} (h : ∀ x ∈ xs, MissesOnly absent (f x)) :
    MissesOnly absent (xs.mapM f) := by
  induction xs with
  | nil => exact ok
  | cons x xs ih =>
    rw [List.forall_mem_cons] at h
    rw [List.mapM_cons]
    exact h.1.bind fun _ => (ih h.2).bind fun _ => ok

end MissesOnly

/-! ## Arithmetic -/

namespace Decimal

theorem divide_missesOnly (x y : Decimal) : MissesOnly absent (x.divide y) := by
  rw [divide]
  split
  · exact .ok
  · exact .error nofun

theorem remainder_missesOnly (x y : Decimal) : MissesOnly absent (x.remainder y) := by
  rw [remainder]
  split
  · exact .ok
  · exact .error nofun

theorem floatPower_missesOnly (base exponent : Decimal) :
    MissesOnly absent (floatPower base exponent) := by
  rw [floatPower]
  split
  · exact .ok
  · exact .error nofun

theorem power_missesOnly (base exponent : Decimal) : MissesOnly absent (base.power exponent) := by
  rw [power]
  split
  · exact floatPower_missesOnly base exponent
  · dsimp only
    split
    · exact divide_missesOnly _ _
    · exact .ok

theorem squareRoot_missesOnly (x : Decimal) : MissesOnly absent x.squareRoot := by
  rw [squareRoot]
  split
  · exact .error nofun
  · exact .ok

theorem mean_missesOnly (xs : List Decimal) : MissesOnly absent (mean xs) :=
  divide_missesOnly _ _

theorem deviation_missesOnly (xs : List Decimal) : MissesOnly absent (deviation xs) := by
  refine (mean_missesOnly xs).bind fun average => ?_
  exact (mean_missesOnly _).bind squareRoot_missesOnly

end Decimal

/-! ## Operators -/

theorem Value.toNumber_missesOnly (v : Value) : MissesOnly absent v.toNumber := by
  cases v with
  | number x => exact .ok
  | bool b => exact .error nofun

theorem Value.equal_missesOnly (v w : Value) : MissesOnly absent (v.equal w) := by
  cases v <;> cases w
  · exact .ok
  · exact .error nofun
  · exact .error nofun
  · exact .ok

theorem UnaryOp.apply_missesOnly (op : UnaryOp) (v : Value) : MissesOnly absent (op.apply v) := by
  cases op with
  | negate | plus => exact v.toNumber_missesOnly.bind fun _ => .ok
  | not => exact .ok

section
variable {rhs : Suspended} (h : MissesOnly absent (rhs ()))
include h

theorem Suspended.toNumber_missesOnly : MissesOnly absent rhs.toNumber :=
  h.bind Value.toNumber_missesOnly

namespace BinaryOp

theorem compareWith_missesOnly (test : Decimal → Decimal → Bool) (lhs : Value) :
    MissesOnly absent (compareWith test lhs rhs) := by
  refine h.bind fun value => ?_
  refine lhs.toNumber_missesOnly.bind fun x => ?_
  exact value.toNumber_missesOnly.bind fun _ => .ok

theorem combineWith_missesOnly {f : Decimal → Decimal → Except EvalError Decimal}
    (hf : ∀ x y, MissesOnly absent (f x y)) (lhs : Value) :
    MissesOnly absent (combineWith f lhs rhs) := by
  refine lhs.toNumber_missesOnly.bind fun x => ?_
  refine (Suspended.toNumber_missesOnly h).bind fun y => ?_
  exact (hf x y).bind fun _ => .ok

theorem apply_missesOnly (op : BinaryOp) (lhs : Value) : MissesOnly absent (op.apply lhs rhs) := by
  cases op with
  | and =>
    rw [apply]
    split
    · exact h.bind fun _ => .ok
    · exact .ok
  | or =>
    rw [apply]
    split
    · exact .ok
    · exact h.bind fun _ => .ok
  | equal | notEqual =>
    exact h.bind fun value => (lhs.equal_missesOnly value).bind fun _ => .ok
  | less | lessEqual | greater | greaterEqual => exact compareWith_missesOnly h _ lhs
  | add | subtract | multiply => exact combineWith_missesOnly h (fun _ _ => .ok) lhs
  | divide => exact combineWith_missesOnly h Decimal.divide_missesOnly lhs
  | remainder => exact combineWith_missesOnly h Decimal.remainder_missesOnly lhs
  | power =>
    refine h.bind fun value => ?_
    refine lhs.toNumber_missesOnly.bind fun base => ?_
    refine value.toNumber_missesOnly.bind fun exponent => ?_
    exact (base.power_missesOnly exponent).bind fun _ => .ok

end BinaryOp

end

/-! ## Functions -/

namespace Builtin

theorem places_missesOnly (x : Decimal) : MissesOnly absent (places x) := by
  rw [places]
  split
  · exact .error nofun
  · split
    · exact .ok
    · exact .error nofun

theorem memberAt_missesOnly (xs : List Decimal) (index : Decimal) :
    MissesOnly absent (memberAt xs index) := by
  rw [memberAt]
  split
  · exact .error nofun
  · split
    · exact .error nofun
    · split
      · exact .ok
      · exact .error nofun

/-- What the functions make of the lists of numbers that they accept. -/
inductive Makes : Builtin → List Decimal → Except EvalError Decimal → Prop
  | sum (xs : List Decimal) : Makes .sum xs (.ok (Decimal.sum xs))
  | min {xs : List Decimal} {x : Decimal} (least : Decimal.extremum? .lt xs = some x) :
      Makes .min xs (.ok x)
  | max {xs : List Decimal} {x : Decimal} (greatest : Decimal.extremum? .gt xs = some x) :
      Makes .max xs (.ok x)
  | average (x : Decimal) (xs : List Decimal) : Makes .average (x :: xs) (Decimal.mean (x :: xs))
  | deviation (x : Decimal) (xs : List Decimal) :
      Makes .deviation (x :: xs) (Decimal.deviation (x :: xs))
  | safeDivide (x y : Decimal) :
      Makes .safeDivide [x, y] (if y.isZero then .ok (.ofInt 0) else x.divide y)
  | abs (x : Decimal) : Makes .abs [x] (.ok x.abs)
  | sqrt (x : Decimal) : Makes .sqrt [x] x.squareRoot
  | floor (x : Decimal) : Makes .floor [x] (.ok (x.round .down 0))
  | ceiling (x : Decimal) : Makes .ceiling [x] (.ok (x.round .up 0))
  | scoreTable (x : Decimal) {rows : List Decimal}
      (triples : (rows.isEmpty || rows.length % 3 != 0) = false) :
      Makes .scoreTable (x :: rows) (.ok (x.lookUpScore rows))
  | access {xs : List Decimal} {index : Decimal} (last : xs.getLast? = some index) :
      Makes .access xs (memberAt xs.dropLast index)

theorem makes_of_ofNumbers? {f : Builtin} {xs : List Decimal} {result : Except EvalError Decimal}
    (h : f.ofNumbers? xs = some result) : Makes f xs result := by
  cases f with
  | choose | round => cases h
  | sum =>
    cases h
    exact .sum xs
  | min =>
    obtain ⟨x, least, rfl⟩ := Option.map_eq_some_iff.1 h
    exact .min least
  | max =>
    obtain ⟨x, greatest, rfl⟩ := Option.map_eq_some_iff.1 h
    exact .max greatest
  | average =>
    cases xs with
    | nil => cases h
    | cons x xs =>
      cases h
      exact .average x xs
  | deviation =>
    cases xs with
    | nil => cases h
    | cons x xs =>
      cases h
      exact .deviation x xs
  | safeDivide =>
    match xs, h with
    | [x, y], h =>
      cases h
      exact .safeDivide x y
  | abs =>
    match xs, h with
    | [x], h =>
      cases h
      exact .abs x
  | sqrt =>
    match xs, h with
    | [x], h =>
      cases h
      exact .sqrt x
  | floor =>
    match xs, h with
    | [x], h =>
      cases h
      exact .floor x
  | ceiling =>
    match xs, h with
    | [x], h =>
      cases h
      exact .ceiling x
  | scoreTable =>
    cases xs with
    | nil => cases h
    | cons x rows =>
      rw [ofNumbers?] at h
      split at h
      · cases h
      · next triples =>
        cases h
        exact .scoreTable x (Bool.not_eq_true _ ▸ triples)
  | access =>
    rw [ofNumbers?] at h
    split at h
    · next last =>
      cases h
      exact .access last
    · cases h

/-- Numbers are there already, so that nothing is missed in what is made of them. -/
theorem Makes.missesOnly {f : Builtin} {xs : List Decimal} {result : Except EvalError Decimal}
    (h : Makes f xs result) : MissesOnly absent result := by
  cases h with
  | sum | min | max | abs | floor | ceiling | scoreTable => exact .ok
  | average => exact Decimal.mean_missesOnly _
  | deviation => exact Decimal.deviation_missesOnly _
  | safeDivide x y =>
    split
    · exact .ok
    · exact Decimal.divide_missesOnly x y
  | sqrt x => exact x.squareRoot_missesOnly
  | access => exact memberAt_missesOnly _ _

theorem numbers_missesOnly {args : List Suspended} (h : ∀ arg ∈ args, MissesOnly absent (arg ())) :
    MissesOnly absent (numbers args) :=
  .mapM fun arg ha => Suspended.toNumber_missesOnly (h arg ha)

theorem apply_missesOnly (f : Builtin) {args : List Suspended}
    (h : ∀ arg ∈ args, MissesOnly absent (arg ())) : MissesOnly absent (f.apply args) := by
  unfold apply
  split
  · next condition yes no =>
    simp only [List.forall_mem_cons] at h
    refine h.1.bind fun value => ?_
    split
    · exact h.2.1
    · exact h.2.2.1
  · next x =>
    exact (Suspended.toNumber_missesOnly (h x List.mem_cons_self)).bind fun _ => .ok
  · next x digits =>
    simp only [List.forall_mem_cons] at h
    refine (Suspended.toNumber_missesOnly h.2.1).bind fun d => ?_
    refine (places_missesOnly d).bind fun n => ?_
    exact (Suspended.toNumber_missesOnly h.1).bind fun _ => .ok
  · exact .error nofun
  · exact .error nofun
  · refine (numbers_missesOnly h).bind fun xs => ?_
    split
    · next accepted => exact (makes_of_ofNumbers? accepted).missesOnly.bind fun _ => .ok
    · exact .error nofun

end Builtin

/-! ## Terms -/

namespace Term

variable {b : Bindings}

mutual

theorem eval_missesOnly : ∀ {t : Term},
    (∀ name ∈ t.references, b.get? name = none → absent name) → MissesOnly absent (t.eval b)
  | .constant value, _ => by
    rw [eval]
    exact .ok
  | .reference name, h => by
    rw [eval]
    split
    · exact .ok
    · next missing =>
      intro other same
      cases same
      exact h name List.mem_cons_self missing
  | .unary op operand, h => by
    rw [references] at h
    have ih := eval_missesOnly h
    rw [eval]
    split
    · exact op.apply_missesOnly _
    · next failed => exact (failed ▸ ih).pass
  | .binary op lhs rhs, h => by
    rw [references, List.forall_mem_append] at h
    have ih := eval_missesOnly h.1
    rw [eval]
    split
    · exact BinaryOp.apply_missesOnly (eval_missesOnly h.2) op _
    · next failed => exact (failed ▸ ih).pass
  | .chain first rest, h => by
    rw [references, List.forall_mem_append] at h
    have ih := eval_missesOnly h.1
    rw [eval]
    split
    · exact evalChain_missesOnly h.2
    · next failed => exact (failed ▸ ih).pass
  | .call builtin args, h => by
    rw [references] at h
    rw [eval]
    exact builtin.apply_missesOnly (suspend_missesOnly h)

theorem evalChain_missesOnly {lhs : Value} : ∀ {rest : List (BinaryOp × Term)},
    (∀ name ∈ chainReferences rest, b.get? name = none → absent name) →
      MissesOnly absent (evalChain b lhs rest)
  | [], _ => by
    rw [evalChain]
    exact .ok
  | (op, rhs) :: rest, h => by
    rw [chainReferences, List.forall_mem_append] at h
    have ih : MissesOnly absent (op.apply lhs fun _ => rhs.eval b) :=
      BinaryOp.apply_missesOnly (eval_missesOnly h.1) op lhs
    rw [evalChain]
    split
    · exact evalChain_missesOnly h.2
    · next failed => exact (failed ▸ ih).pass

theorem suspend_missesOnly : ∀ {args : List Term},
    (∀ name ∈ argumentReferences args, b.get? name = none → absent name) →
      ∀ arg ∈ suspend b args, MissesOnly absent (arg ())
  | [], _ => by
    rw [suspend]
    nofun
  | arg :: args, h => by
    rw [argumentReferences, List.forall_mem_append] at h
    rw [suspend, List.forall_mem_cons]
    exact ⟨eval_missesOnly h.1, suspend_missesOnly h.2⟩

end

end Term

end EquationSystem
