import EquationSystem.Proofs.Formula.Visits
import Mathlib.Data.List.Forall2

/-!
# Steps that are never taken

Calls look their arguments up by index, and arithmetic takes for granted that divisors are not zero
and that lists are not empty. Here evaluation is written out with these steps. A run of it ends as
evaluation does, with a value or an error, or else in a misstep, where such a step is undefined. The
number of arguments is checked where a call is compiled, long before a run; what is shown is that
this check, with the tests on the way to every division, rules all missteps out.
-/

namespace EquationSystem

/-- A step where it has no meaning. -/
inductive Misstep where
  /-- An argument that is not there. -/
  | argument (index count : Nat)
  /-- The first of no numbers, split off from the others. -/
  | split
  /-- Rows of a score table, the last of which is not whole. -/
  | brokenRow (count : Nat)
  | zeroDivisor
  | meanOfNothing
  | extremumOfNothing
  /-- Access to a list without an index. -/
  | missingIndex

/-- A computation that ends in a value or an error, or in a misstep. -/
abbrev Run (α : Type) : Type := ExceptT EvalError (Except Misstep) α

namespace Run

/-! ## The steps of evaluation -/

def misstep {α : Type} (m : Misstep) : Run α := ExceptT.mk (.error m)

/-- The quotient, whatever the divisor. -/
def quotient (x y : Decimal) : Run Decimal :=
  if h : y.isZero = false then return x.div y h else misstep .zeroDivisor

def divide (x y : Decimal) : Run Decimal :=
  if y.isZero then throw .divisionByZero else quotient x y

def remainder (x y : Decimal) : Run Decimal :=
  if y.isZero then throw .divisionByZero
  else if h : y.isZero = false then return x.rem y h else misstep .zeroDivisor

def power (base exponent : Decimal) : Run Decimal :=
  match exponent.exactExponent? with
  | none => base.floatPower exponent
  | some n =>
    let p := base.pow n.toInt.natAbs
    if n < 0 then divide (.ofInt 1) p else return p

def extremum (order : Ordering) (xs : List Decimal) : Run Decimal :=
  match Decimal.extremum? order xs with
  | some x => return x
  | none => misstep .extremumOfNothing

/-- The mean, whose divisor is a length. -/
def mean (xs : List Decimal) : Run Decimal :=
  let count := Decimal.ofInt xs.length
  if count.isZero then misstep .meanOfNothing else divide (.sumAligned xs) count

def deviation (xs : List Decimal) : Run Decimal := do
  let average ← mean xs
  let squares := xs.map fun x => Decimal.square (Decimal.aligned (· - ·) x average)
  (← mean squares).squareRoot

def scoreTable (xs : List Decimal) : Run Decimal :=
  match xs with
  | [] => misstep .split
  | x :: rows =>
    if rows.length % 3 = 0 then return x.lookUpScore rows else misstep (.brokenRow rows.length)

def access (xs : List Decimal) : Run Decimal :=
  match xs.getLast? with
  | some index => Builtin.memberAt xs.dropLast index
  | none => misstep .missingIndex

def argument (args : List (Run Value)) (index : Nat) : Run Value :=
  match args[index]? with
  | some arg => arg
  | none => misstep (.argument index args.length)

def toNumber (arg : Run Value) : Run Decimal := do (← arg).toNumber

def number (args : List (Run Value)) (index : Nat) : Run Decimal := toNumber (argument args index)

def numbers (args : List (Run Value)) : Run (List Decimal) :=
  (List.range args.length).mapM (number args)

def call (f : Builtin) (args : List (Run Value)) : Run Value :=
  match f with
  | .choose => do
    let branch := if (← argument args 0).isTruthy then 1 else 2
    argument args branch
  | .sum => return .number (Decimal.sum (← numbers args))
  | .min => return .number (← extremum .lt (← numbers args))
  | .max => return .number (← extremum .gt (← numbers args))
  | .average => return .number (← mean (← numbers args))
  | .safeDivide => do
    let x ← number args 0
    let y ← number args 1
    return .number (← if y.isZero then pure (.ofInt 0) else divide x y)
  | .round => do
    let digits ← if args.length = 2 then Builtin.places (← number args 1) else pure 0
    return .number ((← number args 0).round .nearest digits)
  | .abs => return .number (← number args 0).abs
  | .sqrt => return .number (← (← number args 0).squareRoot)
  | .floor => return .number ((← number args 0).round .down 0)
  | .ceiling => return .number ((← number args 0).round .up 0)
  | .scoreTable => return .number (← scoreTable (← numbers args))
  | .access => return .number (← access (← numbers args))
  | .deviation => return .number (← deviation (← numbers args))

def unary (op : UnaryOp) (v : Value) : Run Value := op.apply v

def compareWith (test : Decimal → Decimal → Bool) (lhs : Value) (rhs : Run Value) : Run Value := do
  let rhs ← rhs
  return .bool (test (← lhs.toNumber) (← rhs.toNumber))

def combineWith (f : Decimal → Decimal → Run Decimal) (lhs : Value) (rhs : Run Value) :
    Run Value := do
  let lhs ← lhs.toNumber
  return .number (← f lhs (← toNumber rhs))

def binary (op : BinaryOp) (lhs : Value) (rhs : Run Value) : Run Value :=
  match op with
  | .and => if lhs.isTruthy then return .bool (← rhs).isTruthy else return .bool false
  | .or => if lhs.isTruthy then return .bool true else return .bool (← rhs).isTruthy
  | .equal => do
    let rhs ← rhs
    return .bool (← lhs.equal rhs)
  | .notEqual => do
    let rhs ← rhs
    return .bool !(← lhs.equal rhs)
  | .less => compareWith Decimal.lt lhs rhs
  | .lessEqual => compareWith Decimal.le lhs rhs
  | .greater => compareWith (fun x y => y.lt x) lhs rhs
  | .greaterEqual => compareWith (fun x y => y.le x) lhs rhs
  | .add => combineWith (fun x y => return x + y) lhs rhs
  | .subtract => combineWith (fun x y => return x - y) lhs rhs
  | .multiply => combineWith (fun x y => return x * y) lhs rhs
  | .divide => combineWith divide lhs rhs
  | .remainder => combineWith remainder lhs rhs
  | .power => do
    let rhs ← rhs
    return .number (← power (← lhs.toNumber) (← rhs.toNumber))

end Run

namespace Term

mutual

/-- Evaluation, step by step. -/
def run (b : Bindings) : Term → Run Value
  | .constant value => return value
  | .reference name =>
    match b.get? name with
    | some value => return value
    | none => throw (.unbound name)
  | .unary op operand => do Run.unary op (← operand.run b)
  | .binary op lhs rhs => do Run.binary op (← lhs.run b) (rhs.run b)
  | .chain first rest => do runChain b (← first.run b) rest
  | .call f args => Run.call f (runArguments b args)

def runChain (b : Bindings) (lhs : Value) : List (BinaryOp × Term) → Run Value
  | [] => return lhs
  | (op, rhs) :: rest => do runChain b (← Run.binary op lhs (rhs.run b)) rest

def runArguments (b : Bindings) : List Term → List (Run Value)
  | [] => []
  | arg :: args => arg.run b :: runArguments b args

end

end Term

/-! ## Runs without missteps -/

/-- The run ends as the result says, and not because of a number of arguments. -/
structure Sound {α : Type} (r : Run α) (x : Except EvalError α) : Prop where
  run_eq : r = ExceptT.mk (.ok x)
  counted : ∀ f given, x ≠ .error (.argumentCount f given)

namespace Sound

variable {α β γ : Type} {r : Run α} {x : Except EvalError α} {k : α → Run β}
  {k' : α → Except EvalError β}

theorem ok (a : α) : Sound (pure a) (.ok a) := ⟨rfl, nofun⟩

/-- Nothing can be missed in a computation that only fails for other reasons. -/
theorem lift (counted : ∀ f given, x ≠ .error (.argumentCount f given)) :
    Sound (monadLift x : Run α) x :=
  ⟨rfl, counted⟩

/-- One computation and then, unless that fails, another. -/
theorem andThen {both : Except EvalError β} (h : Sound r x)
    (herror : ∀ e, x = .error e → both = .error e) (hok : ∀ a, x = .ok a → Sound (k a) both) :
    Sound (r >>= k) both := by
  cases x with
  | ok a =>
    rw [h.run_eq]
    exact hok a rfl
  | error e =>
    rw [herror e rfl, h.run_eq]
    exact ⟨rfl, fun f given same => h.counted f given (by cases same; rfl)⟩

theorem bind (h : Sound r x) (hk : ∀ a, x = .ok a → Sound (k a) (k' a)) :
    Sound (r >>= k) (x >>= k') :=
  h.andThen (fun e he => by rw [he]; rfl) fun a ha => by rw [ha]; exact hk a ha

theorem map (h : Sound r x) (f : α → β) : Sound (do return f (← r)) (do return f (← x)) :=
  h.bind fun a _ => ok (f a)

theorem mapM {f : β → Run α} {g : γ → Except EvalError α} {rs : List β} {ss : List γ}
    (h : List.Forall₂ (fun r s => Sound (f r) (g s)) rs ss) : Sound (rs.mapM f) (ss.mapM g) := by
  induction h with
  | nil => exact ok []
  | cons h _ ih =>
    rw [List.mapM_cons, List.mapM_cons]
    exact h.bind fun _ _ => ih.bind fun _ _ => ok _

end Sound

namespace Decimal

theorem divide_sound (x y : Decimal) : Sound (Run.divide x y) (x.divide y) := by
  unfold Run.divide Run.quotient divide
  by_cases h : y.isZero = true
  · rw [if_pos h, dif_neg (by simp [h])]
    exact ⟨rfl, nofun⟩
  · rw [if_neg h, dif_pos (by simpa using h), dif_pos (by simpa using h)]
    exact .ok _

theorem remainder_sound (x y : Decimal) : Sound (Run.remainder x y) (x.remainder y) := by
  unfold Run.remainder remainder
  by_cases h : y.isZero = true
  · rw [if_pos h, dif_neg (by simp [h])]
    exact ⟨rfl, nofun⟩
  · rw [if_neg h, dif_pos (by simpa using h), dif_pos (by simpa using h)]
    exact .ok _

theorem floatPower_sound (base exponent : Decimal) :
    Sound (floatPower base exponent : Run Decimal) (floatPower base exponent) := by
  refine .lift fun f given => ?_
  unfold floatPower
  split <;> nofun

theorem power_sound (base exponent : Decimal) :
    Sound (Run.power base exponent) (base.power exponent) := by
  unfold Run.power power
  cases exponent.exactExponent? with
  | none => exact floatPower_sound base exponent
  | some n =>
    dsimp only
    split
    · exact divide_sound _ _
    · exact .ok _

theorem squareRoot_sound (x : Decimal) : Sound (x.squareRoot : Run Decimal) x.squareRoot := by
  refine .lift fun f given => ?_
  unfold squareRoot
  split <;> nofun

variable {xs : List Decimal}

theorem mean_sound (nonempty : xs ≠ []) : Sound (Run.mean xs) (mean xs) := by
  have count : (ofInt xs.length).isZero = false := by
    simpa [ofInt, isZero] using nonempty
  unfold Run.mean
  simp only [count]
  exact divide_sound _ _

theorem deviation_sound (nonempty : xs ≠ []) : Sound (Run.deviation xs) (deviation xs) := by
  refine (mean_sound nonempty).bind fun average _ => ?_
  exact (mean_sound (by simpa using nonempty)).bind fun mean _ => squareRoot_sound mean

end Decimal

theorem Value.toNumber_sound (v : Value) : Sound (v.toNumber : Run Decimal) v.toNumber := by
  refine .lift fun f given => ?_
  cases v <;> nofun

theorem Value.equal_sound (v w : Value) : Sound (v.equal w : Run Bool) (v.equal w) := by
  refine .lift fun f given => ?_
  cases v <;> cases w <;> nofun

theorem UnaryOp.apply_sound (op : UnaryOp) (v : Value) : Sound (Run.unary op v) (op.apply v) := by
  refine .lift fun f given => ?_
  cases op <;> cases v <;> nofun

section
variable {arg : Run Value} {rhs : Suspended} (h : Sound arg (rhs ()))
include h

theorem Suspended.toNumber_sound : Sound (Run.toNumber arg) rhs.toNumber :=
  h.bind fun v _ => v.toNumber_sound

namespace BinaryOp

theorem compareWith_sound (test : Decimal → Decimal → Bool) (lhs : Value) :
    Sound (Run.compareWith test lhs arg) (compareWith test lhs rhs) := by
  refine h.bind fun v _ => ?_
  refine lhs.toNumber_sound.bind fun x _ => ?_
  exact v.toNumber_sound.bind fun y _ => .ok _

theorem combineWith_sound {f : Decimal → Decimal → Run Decimal}
    {g : Decimal → Decimal → Except EvalError Decimal} (hf : ∀ x y, Sound (f x y) (g x y))
    (lhs : Value) : Sound (Run.combineWith f lhs arg) (combineWith g lhs rhs) := by
  refine lhs.toNumber_sound.bind fun x _ => ?_
  refine (Suspended.toNumber_sound h).bind fun y _ => ?_
  exact (hf x y).bind fun _ _ => .ok _

theorem apply_sound (op : BinaryOp) (lhs : Value) :
    Sound (Run.binary op lhs arg) (op.apply lhs rhs) := by
  cases op with
  | and =>
    rw [Run.binary, apply]
    split
    · exact h.bind fun _ _ => .ok _
    · exact .ok _
  | or =>
    rw [Run.binary, apply]
    split
    · exact .ok _
    · exact h.bind fun _ _ => .ok _
  | equal | notEqual => exact h.bind fun v _ => (lhs.equal_sound v).bind fun _ _ => .ok _
  | less | lessEqual | greater | greaterEqual => exact compareWith_sound h _ lhs
  | add | subtract | multiply => exact combineWith_sound h (fun _ _ => .ok _) lhs
  | divide => exact combineWith_sound h Decimal.divide_sound lhs
  | remainder => exact combineWith_sound h Decimal.remainder_sound lhs
  | power =>
    refine h.bind fun v _ => ?_
    refine lhs.toNumber_sound.bind fun base _ => ?_
    refine v.toNumber_sound.bind fun exponent _ => ?_
    exact (base.power_sound exponent).bind fun _ _ => .ok _

end BinaryOp

end

namespace Builtin

/-- Runs for the suspended arguments of a call, one for each. -/
abbrev SoundArguments (runs : List (Run Value)) (args : List Suspended) : Prop :=
  List.Forall₂ (fun r arg => Sound r (arg ())) runs args

variable {f : Builtin} {runs : List (Run Value)} {args : List Suspended}

/-- Looking up as many arguments as there are finds each in its turn. -/
theorem numbers_eq (runs : List (Run Value)) : Run.numbers runs = runs.mapM Run.toNumber := by
  have all : (List.range runs.length).map (Run.number runs) = runs.map Run.toNumber := by
    refine List.ext_getElem (by simp) fun index h _ => ?_
    simp only [List.length_map, List.length_range] at h
    simp [Run.number, Run.argument, h]
  rw [Run.numbers, ← Function.id_comp (Run.number runs), ← List.mapM_map, all, List.mapM_map,
    Function.id_comp]

theorem numbers_sound (h : SoundArguments runs args) : Sound (Run.numbers runs) (numbers args) := by
  rw [numbers_eq]
  exact .mapM (h.imp fun _ _ => Suspended.toNumber_sound)

theorem length_of_numbers {xs : List Decimal} (h : numbers args = .ok xs) :
    xs.length = args.length := by
  induction args generalizing xs with
  | nil =>
    cases h
    rfl
  | cons arg args ih =>
    rw [numbers, List.mapM_cons, ← numbers] at h
    cases hx : arg.toNumber with
    | error e =>
      rw [hx] at h
      cases h
    | ok x =>
      cases hxs : numbers args with
      | error e =>
        rw [hx, hxs] at h
        cases h
      | ok xs =>
        rw [hx, hxs] at h
        cases h
        rw [List.length_cons, List.length_cons, ih hxs]

/-- What a call of `f` makes of its numbers. -/
def ofNumbers (f : Builtin) (args : List Suspended) : Except EvalError Value := do
  match f.ofNumbers? (← numbers args) with
  | some result => return .number (← result)
  | none => throw (.argumentCount f args.length)

/-- A function of a list of numbers, of every length that it accepts. -/
theorem ofNumbers_sound {g : List Decimal → Run Decimal} (h : SoundArguments runs args)
    (accepted : f.accepts args.length = true)
    (hg : ∀ xs, f.accepts xs.length = true → ∃ k, f.ofNumbers? xs = some k ∧ Sound (g xs) k) :
    Sound (do return .number (← g (← Run.numbers runs))) (f.ofNumbers args) := by
  refine (numbers_sound h).bind fun xs found => ?_
  rw [← length_of_numbers found] at accepted
  obtain ⟨k, hk, sound⟩ := hg xs accepted
  rw [hk]
  exact sound.map _

theorem ofNumbers_singleton {arg : Suspended} {k : Decimal → Except EvalError Decimal}
    (accepts : ∀ x, f.ofNumbers? [x] = some (k x)) :
    f.ofNumbers [arg] = do return .number (← k (← arg.toNumber)) := by
  simp only [ofNumbers, numbers, List.mapM_cons, List.mapM_nil, bind_assoc, pure_bind, accepts]

/-- A function of two numbers. -/
theorem ofNumbers_pair {arg arg' : Suspended} {k : Decimal → Decimal → Except EvalError Decimal}
    (accepts : ∀ x y, f.ofNumbers? [x, y] = some (k x y)) :
    f.ofNumbers [arg, arg'] =
      do return .number (← k (← arg.toNumber) (← arg'.toNumber)) := by
  simp only [ofNumbers, numbers, List.mapM_cons, List.mapM_nil, bind_assoc, pure_bind, accepts]

/-- A function of one number. -/
theorem single_sound {g : Decimal → Run Decimal} {k : Decimal → Except EvalError Decimal}
    {r : Run Value} {arg : Suspended} (h : Sound r (arg ()))
    (accepts : ∀ x, f.ofNumbers? [x] = some (k x)) (hg : ∀ x, Sound (g x) (k x)) :
    Sound (do return .number (← g (← Run.number [r] 0))) (f.ofNumbers [arg]) := by
  rw [ofNumbers_singleton accepts]
  exact (Suspended.toNumber_sound h).bind fun x _ => (hg x).map _

theorem places_sound (x : Decimal) : Sound (places x : Run Int) (places x) := by
  refine .lift fun f given => ?_
  unfold places
  split
  · nofun
  · split <;> nofun

theorem memberAt_sound (xs : List Decimal) (index : Decimal) :
    Sound (memberAt xs index : Run Decimal) (memberAt xs index) := by
  refine .lift fun f given => ?_
  unfold memberAt
  split
  · nofun
  · split
    · nofun
    · split <;> nofun

variable {xs : List Decimal}

theorem extremum_sound {order : Ordering} (nonempty : xs ≠ []) :
    ∃ x, Decimal.extremum? order xs = some x ∧ Sound (Run.extremum order xs) (.ok x) := by
  cases xs with
  | nil => exact absurd rfl nonempty
  | cons x xs => exact ⟨_, rfl, .ok _⟩

theorem scoreTable_sound (accepted : scoreTable.accepts xs.length = true) :
    ∃ k, scoreTable.ofNumbers? xs = some k ∧ Sound (Run.scoreTable xs) k := by
  cases xs with
  | nil => cases accepted
  | cons x rows =>
    have whole : 3 ≤ rows.length ∧ rows.length % 3 = 0 := by simpa [accepts] using accepted
    have nonempty : rows ≠ [] := List.ne_nil_of_length_pos (Nat.lt_of_lt_of_le (by decide) whole.1)
    refine ⟨.ok (x.lookUpScore rows), by simp [ofNumbers?, nonempty, whole.2], ?_⟩
    rw [Run.scoreTable, if_pos whole.2]
    exact .ok _

theorem access_sound (nonempty : xs ≠ []) :
    ∃ k, access.ofNumbers? xs = some k ∧ Sound (Run.access xs) k := by
  have last := List.getLast?_eq_some_getLast nonempty
  refine ⟨memberAt xs.dropLast (xs.getLast nonempty), by simp only [ofNumbers?, last], ?_⟩
  simp only [Run.access, last]
  exact memberAt_sound _ _

theorem ne_nil_of_accepts (h : f.accepts xs.length = true) : xs ≠ [] := by
  rintro rfl
  cases f <;> cases h

/-- A call with a number of arguments that the function accepts, by the function. -/
theorem call_sound (h : SoundArguments runs args) (accepted : f.accepts args.length = true) :
    Sound (Run.call f runs) (f.apply args) := by
  cases f with
  | choose =>
    obtain ⟨condition, yes, no, rfl⟩ := List.length_eq_three.1 (by simpa [accepts] using accepted)
    obtain _ | ⟨hcondition, _ | ⟨hyes, _ | ⟨hno, _ | _⟩⟩⟩ := h
    refine hcondition.bind fun v _ => ?_
    cases v.isTruthy with
    | true => exact hyes
    | false => exact hno
  | round =>
    have count : args.length = 1 ∨ args.length = 2 := by
      simp [accepts] at accepted
      omega
    obtain one | two := count
    · obtain ⟨arg, rfl⟩ := List.length_eq_one_iff.1 one
      obtain _ | ⟨harg, _ | _⟩ := h
      exact (Suspended.toNumber_sound harg).map _
    · obtain ⟨arg, digits, rfl⟩ := List.length_eq_two.1 two
      obtain _ | ⟨harg, _ | ⟨hdigits, _ | _⟩⟩ := h
      refine (Suspended.toNumber_sound hdigits).bind fun x _ => ?_
      exact (places_sound x).bind fun n _ => (Suspended.toNumber_sound harg).map _
  | safeDivide =>
    obtain ⟨arg, divisor, rfl⟩ := List.length_eq_two.1 (by simpa [accepts] using accepted)
    obtain _ | ⟨harg, _ | ⟨hdivisor, _ | _⟩⟩ := h
    show Sound _ (safeDivide.ofNumbers [arg, divisor])
    rw [ofNumbers_pair fun _ _ => rfl]
    refine (Suspended.toNumber_sound harg).bind fun x _ => ?_
    refine (Suspended.toNumber_sound hdivisor).bind fun y _ => ?_
    split
    · exact .ok _
    · exact (Decimal.divide_sound x y).map _
  | abs | floor | ceiling =>
    obtain ⟨arg, rfl⟩ := List.length_eq_one_iff.1 (by simpa [accepts] using accepted)
    obtain _ | ⟨harg, _ | _⟩ := h
    exact single_sound harg (fun _ => rfl) fun x => .ok _
  | sqrt =>
    obtain ⟨arg, rfl⟩ := List.length_eq_one_iff.1 (by simpa [accepts] using accepted)
    obtain _ | ⟨harg, _ | _⟩ := h
    exact single_sound harg (fun _ => rfl) Decimal.squareRoot_sound
  | sum => exact ofNumbers_sound h accepted fun xs _ => ⟨_, rfl, .ok _⟩
  | min | max =>
    refine ofNumbers_sound h accepted fun xs hxs => ?_
    obtain ⟨x, found, sound⟩ := extremum_sound (ne_nil_of_accepts hxs)
    exact ⟨_, congrArg (Option.map _) found, sound⟩
  | average =>
    refine ofNumbers_sound h accepted fun xs hxs => ?_
    obtain ⟨x, xs, rfl⟩ := List.exists_cons_of_ne_nil (ne_nil_of_accepts hxs)
    exact ⟨_, rfl, Decimal.mean_sound nofun⟩
  | deviation =>
    refine ofNumbers_sound h accepted fun xs hxs => ?_
    obtain ⟨x, xs, rfl⟩ := List.exists_cons_of_ne_nil (ne_nil_of_accepts hxs)
    exact ⟨_, rfl, Decimal.deviation_sound nofun⟩
  | scoreTable => exact ofNumbers_sound h accepted fun xs => scoreTable_sound
  | access => exact ofNumbers_sound h accepted fun xs hxs => access_sound (ne_nil_of_accepts hxs)

end Builtin

namespace Term

variable {b : Bindings}

theorem length_suspend (b : Bindings) (args : List Term) : (suspend b args).length = args.length := by
  induction args with
  | nil => rfl
  | cons arg args ih => rw [suspend, List.length_cons, ih, List.length_cons]

mutual

theorem eval_sound : ∀ {t : Term}, t.WellCalled → Sound (t.run b) (t.eval b)
  | .constant value, _ => by
    rw [run, eval]
    exact .ok value
  | .reference name, _ => by
    rw [run, eval]
    cases b.get? name with
    | some value => exact .ok value
    | none => exact ⟨rfl, nofun⟩
  | .unary op operand, h => by
    rw [WellCalled] at h
    rw [run, eval]
    refine (eval_sound h).andThen (fun e he => by rw [he]) fun v hv => ?_
    rw [hv]
    exact op.apply_sound v
  | .binary op lhs rhs, h => by
    rw [WellCalled] at h
    rw [run, eval]
    refine (eval_sound h.1).andThen (fun e he => by rw [he]) fun v hv => ?_
    rw [hv]
    exact BinaryOp.apply_sound (eval_sound h.2) op v
  | .chain first rest, h => by
    rw [WellCalled] at h
    rw [run, eval]
    refine (eval_sound h.1).andThen (fun e he => by rw [he]) fun v hv => ?_
    rw [hv]
    exact evalChain_sound h.2
  | .call f args, h => by
    rw [WellCalled] at h
    rw [run, eval]
    exact Builtin.call_sound (suspend_sound h.2) ((length_suspend b args).symm ▸ h.1)

theorem evalChain_sound {lhs : Value} : ∀ {rest : List (BinaryOp × Term)},
    ChainWellCalled rest → Sound (runChain b lhs rest) (evalChain b lhs rest)
  | [], _ => by
    rw [runChain, evalChain]
    exact .ok lhs
  | (op, rhs) :: rest, h => by
    rw [ChainWellCalled] at h
    have step : Sound (Run.binary op lhs (rhs.run b)) (op.apply lhs fun _ => rhs.eval b) :=
      BinaryOp.apply_sound (eval_sound h.1) op lhs
    rw [runChain, evalChain]
    refine step.andThen (fun e he => by rw [he]) fun v hv => ?_
    rw [hv]
    exact evalChain_sound h.2

theorem suspend_sound : ∀ {args : List Term}, ArgumentsWellCalled args →
    Builtin.SoundArguments (runArguments b args) (suspend b args)
  | [], _ => by
    rw [runArguments, suspend]
    exact .nil
  | arg :: args, h => by
    rw [ArgumentsWellCalled] at h
    rw [runArguments, suspend]
    exact .cons (eval_sound h.1) (suspend_sound h.2)

end

end Term

/-- Evaluating what was compiled takes no step without a meaning: in all bindings it runs to the
value or the error of evaluation, which is never that a function got a wrong number of arguments. -/
theorem Expr.run_eq_eval {e : Expr} {names names' : Names} {t : Term}
    (compiled : e.compile names = (.ok t, names')) (b : Bindings) :
    t.run b = ExceptT.mk (.ok (t.eval b)) ∧
      ∀ f given, t.eval b ≠ .error (.argumentCount f given) := by
  have sound : Sound (t.run b) (t.eval b) :=
    Term.eval_sound (wellCalled_of_compile (congrArg Prod.fst compiled))
  exact ⟨sound.run_eq, sound.counted⟩

/-- A chain that mixes levels of the grammar, whose last divisor is the mean of one zero. -/
theorem Expr.run_eq_eval_chain :
    let e : Expr := .chain (.reference "x")
      [(.power, .reference "x"), (.divide, .call "avg" [.reference "x"] 0)]
    let b := Bindings.insert ∅ "x" (.number ⟨0, 0⟩)
    ∃ t names, e.compile ∅ = (.ok t, names) ∧ t.eval b = .error .divisionByZero ∧
      t.run b = ExceptT.mk (.ok (.error .divisionByZero)) := by
  intro e b
  have compiled : e.compile ∅ = (.ok (.chain (.reference "x")
      [(.power, .reference "x"), (.divide, .call .average [.reference "x"])]), _) := rfl
  have value : (Term.chain (.reference "x") [(.power, .reference "x"),
      (.divide, .call .average [.reference "x"])]).eval b = .error .divisionByZero := by decide +kernel
  exact ⟨_, _, compiled, value, value ▸ (run_eq_eval compiled b).1⟩

end EquationSystem
