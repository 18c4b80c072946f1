import EquationSystem.Proofs.Formula.Exact
import EquationSystem.Proofs.Formula.Products

/-!
# Evaluation is exact

A compiled formula computes with digits and scales, shortcuts for zeros and ones, and comparisons by
leading digits. Seen through the numbers that decimals stand for it computes with rationals: every
evaluator, on results of which only the exact value or the kind of the failure is kept, is the
evaluator over rationals. So the scales of the bindings have no part in what a formula means, as long
as no product asks for a scale beyond 64 bits.
-/

namespace EquationSystem

open EvalError (Kind)

/-- What is kept of a result: its value as seen through `f`, or the kind of the failure. -/
def exactly {α β : Type} (f : α → β) : Except EvalError α → Except Kind β
  | .ok a => .ok (f a)
  | .error e => .error e.kind

section
variable {α β γ δ : Type} {f : α → β} {g : γ → δ}

@[simp] theorem exactly_ok (a : α) : exactly f (.ok a) = .ok (f a) := rfl

@[simp] theorem exactly_error (e : EvalError) : exactly f (.error e) = .error e.kind := rfl

theorem exactly_bind {r : Except EvalError α} {k : α → Except EvalError γ}
    {k' : β → Except Kind δ} (h : ∀ a, r = .ok a → exactly g (k a) = k' (f a)) :
    exactly g (r >>= k) = exactly f r >>= k' := by
  cases r with
  | ok a => exact h a rfl
  | error e => rfl

end

/-- The value, apart from the way in which it is written. -/
def Value.exact : Value → Exact
  | .number x => .number x.value
  | .bool b => .bool b

/-- The exact values of the bound names. -/
def Bindings.exact (b : Bindings) (name : String) : Option Exact := (b.get? name).map Value.exact

/-- The exact result of a suspended operand. -/
def Suspended.exact (operand : Suspended) : ExactResult := exactly Value.exact (operand ())

/-- The operand gives the exact result, if it is in range. -/
def Operand.Denotes (operand : Operand) (result : ExactResult) : Prop :=
  operand.inRange → operand.run.exact = result

/-! ## Values -/

namespace Value

theorem toNumber_exact (v : Value) : exactly Decimal.value v.toNumber = v.exact.toNumber := by
  cases v <;> rfl

theorem isTruthy_exact (v : Value) : v.isTruthy = v.exact.isTruthy := by
  cases v with
  | number x =>
    rw [Bool.eq_iff_iff, isTruthy, Bool.not_eq_true', ← Bool.not_eq_true, Decimal.isZero_iff, exact,
      Exact.isTruthy, decide_eq_true_eq]
  | bool b => rfl

theorem equal_exact (v w : Value) : exactly id (v.equal w) = v.exact.equal w.exact := by
  cases v <;> cases w
  · refine congrArg Except.ok ?_
    rw [Bool.eq_iff_iff, id, Decimal.same_iff, decide_eq_true_eq]
  · rfl
  · rfl
  · rfl

end Value

theorem Value.toNumber_eq_ok {v : Value} {x : Decimal} (h : v.toNumber = .ok x) :
    v = .number x := by
  cases v with
  | number y => exact congrArg Value.number (Except.ok.inj h)
  | bool b => cases h

theorem Suspended.toNumber_eq_ok {operand : Suspended} {x : Decimal}
    (h : operand.toNumber = .ok x) : operand () = .ok (.number x) := by
  rw [toNumber] at h
  cases found : operand () with
  | ok v =>
    rw [found] at h
    exact congrArg Except.ok (Value.toNumber_eq_ok h)
  | error e =>
    rw [found] at h
    cases h

theorem Suspended.toNumber_exact (operand : Suspended) :
    exactly Decimal.value operand.toNumber = operand.exact.toNumber :=
  exactly_bind fun v _ => v.toNumber_exact

theorem Suspended.isTruthy_exact (operand : Suspended) :
    exactly Value.exact (do return .bool (← operand ()).isTruthy) =
      (do return .bool (← operand.exact).isTruthy : ExactResult) := by
  refine exactly_bind fun v _ => ?_
  rw [← v.isTruthy_exact]
  rfl

/-! ## Operators -/

theorem UnaryOp.apply_exact (op : UnaryOp) (v : Value) :
    exactly Value.exact (op.apply v) = op.applyExact v.exact := by
  cases op with
  | negate =>
    rw [apply, applyExact, ← v.toNumber_exact]
    refine exactly_bind fun x _ => ?_
    exact congrArg (fun q => Except.ok (Exact.number q)) x.value_neg
  | plus =>
    rw [apply, applyExact, ← v.toNumber_exact]
    exact exactly_bind fun x _ => rfl
  | not =>
    rw [apply, applyExact, ← v.isTruthy_exact]
    rfl

namespace BinaryOp

section
variable (lhs : Value) (rhs : Suspended)

theorem compareWith_exact {test : Decimal → Decimal → Bool} {test' : ℚ → ℚ → Bool}
    (h : ∀ x y, test x y = test' x.value y.value) :
    exactly Value.exact (compareWith test lhs rhs) = compareExact test' lhs.exact rhs.exact := by
  refine exactly_bind fun v _ => ?_
  rw [← lhs.toNumber_exact]
  refine exactly_bind fun x _ => ?_
  rw [← v.toNumber_exact]
  refine exactly_bind fun y _ => ?_
  exact congrArg (fun b => Except.ok (Exact.bool b)) (h x y)

/-- The right operand has no part in the result where the left one is not a number. -/
theorem combineWith_exact {f : Decimal → Decimal → Except EvalError Decimal}
    {f' : ℚ → ℚ → Except Kind ℚ} {r : ExactResult} (right : ∀ x, lhs = .number x → rhs.exact = r)
    (h : ∀ x y, lhs = .number x → rhs () = .ok (.number y) →
      exactly Decimal.value (f x y) = f' x.value y.value) :
    exactly Value.exact (combineWith f lhs rhs) = combineExact f' lhs.exact r := by
  rw [combineExact, ← lhs.toNumber_exact]
  refine exactly_bind fun x hx => ?_
  have left := Value.toNumber_eq_ok hx
  rw [← right x left, ← rhs.toNumber_exact]
  refine exactly_bind fun y hy => ?_
  rw [← h x y left (Suspended.toNumber_eq_ok hy)]
  exact exactly_bind fun z _ => rfl

theorem remainder_exact (x y : Decimal) : exactly Decimal.value (x.remainder y) =
    if y.value = 0 then .error .divisionByZero else .ok (Rational.remainder x.value y.value) := by
  rw [Decimal.remainder]
  split
  · next nonzero =>
    rw [if_neg (mt Decimal.isZero_iff.2 (ne_true_of_eq_false nonzero)), exactly_ok,
      Decimal.value_rem]
  · next zero =>
    rw [if_pos (Decimal.isZero_iff.1 (Bool.eq_true_of_not_eq_false zero))]
    rfl

end

/-- An exact operator computes with the numbers that decimals stand for. -/
theorem apply_exact {op : BinaryOp} (exact : op.isExact = true) {lhs : Value} {rhs : Operand}
    {r : ExactResult} (h : rhs.Denotes r) (range : op.InRange lhs rhs) :
    exactly Value.exact (op.apply lhs rhs.run) = op.applyExact lhs.exact r := by
  have right (needed : op.NeedsRight lhs) : rhs.run.exact = r := h (range.right needed)
  cases op with
  | and =>
    rw [apply, applyExact, ← lhs.isTruthy_exact]
    split
    · next truthy =>
      rw [← right truthy]
      exact rhs.run.isTruthy_exact
    · rfl
  | or =>
    rw [apply, applyExact, ← lhs.isTruthy_exact]
    split
    · rfl
    · next falsy =>
      rw [← right (Bool.eq_false_of_not_eq_true falsy)]
      exact rhs.run.isTruthy_exact
  | equal | notEqual =>
    rw [← right trivial]
    refine exactly_bind fun v _ => ?_
    rw [← lhs.equal_exact]
    exact exactly_bind fun same _ => rfl
  | less | greater =>
    rw [← right trivial]
    refine compareWith_exact lhs rhs.run fun x y => ?_
    rw [Bool.eq_iff_iff, Decimal.lt_iff, decide_eq_true_eq]
  | lessEqual | greaterEqual =>
    rw [← right trivial]
    refine compareWith_exact lhs rhs.run fun x y => ?_
    rw [Bool.eq_iff_iff, Decimal.le_iff, decide_eq_true_eq]
  | add =>
    exact combineWith_exact lhs rhs.run (fun x hx => right ⟨x, hx⟩) fun x y _ _ =>
      congrArg Except.ok (x.value_add y)
  | subtract =>
    exact combineWith_exact lhs rhs.run (fun x hx => right ⟨x, hx⟩) fun x y _ _ =>
      congrArg Except.ok (x.value_sub y)
  | multiply =>
    exact combineWith_exact lhs rhs.run (fun x hx => right ⟨x, hx⟩) fun x y hx hy =>
      congrArg Except.ok (Decimal.value_mul (range.product rfl x y hx hy))
  | remainder =>
    exact combineWith_exact lhs rhs.run (fun x hx => right ⟨x, hx⟩) fun x y _ _ =>
      remainder_exact x y
  | divide | power => cases exact

end BinaryOp

/-! ## Functions -/

namespace Builtin

variable {args : List Operand} {rs : List ExactResult}

theorem numbers_exact (h : List.Forall₂ Operand.Denotes args rs) (range : NumbersInRange args) :
    exactly (List.map Decimal.value) (numbers (args.map Operand.run)) =
      rs.mapM ExactResult.toNumber := by
  induction h with
  | nil => rfl
  | @cons arg r args rs h _ ih =>
    rw [List.map_cons, numbers, List.mapM_cons, List.mapM_cons, ← h range.1,
      ← arg.run.toNumber_exact]
    refine exactly_bind fun x hx => ?_
    rw [← ih (range.2 x hx)]
    exact exactly_bind fun xs _ => rfl

theorem places_exact (x : Decimal) : exactly id (places x) = exactPlaces x.value := by
  rw [places, exactPlaces, ← Decimal.toInt_toInt64?]
  cases x.toInt64? with
  | none => rfl
  | some n =>
    rw [Option.map_some]
    dsimp only
    split <;> rfl

theorem memberAt_exact (xs : List Decimal) (index : Decimal) :
    exactly Decimal.value (memberAt xs index) = exactMember (xs.map Decimal.value) index.value := by
  rw [memberAt, exactMember, ← Decimal.toInt_toInt64?]
  cases index.toInt64? with
  | none => rfl
  | some n =>
    rw [Option.map_some]
    dsimp only
    rw [List.getElem?_map]
    have sign : n < 0 ↔ n.toInt < 0 := Int64.lt_iff_toInt_lt
    simp only [sign]
    split
    · rfl
    · cases xs[n.toInt.toNat]? <;> rfl

/-- The result of a function on numbers, where it fails on a list that it does not accept. -/
theorem ofNumbers?_exact {f : Builtin} (exact : f.isExact = true) (xs : List Decimal) :
    (f.ofNumbers? xs).elim (.error .domain) (exactly Decimal.value) =
      f.ofRationals (xs.map Decimal.value) := by
  cases f with
  | choose | round => rfl
  | sum => exact congrArg Except.ok (Decimal.value_sum xs)
  | min =>
    rw [ofNumbers?, ofRationals, ← Decimal.value_extremum?_lt]
    cases Decimal.extremum? .lt xs <;> rfl
  | max =>
    rw [ofNumbers?, ofRationals, ← Decimal.value_extremum?_gt]
    cases Decimal.extremum? .gt xs <;> rfl
  | abs =>
    match xs with
    | [x] => exact congrArg Except.ok x.value_abs
    | [] | _ :: _ :: _ => rfl
  | floor =>
    match xs with
    | [x] =>
      refine congrArg Except.ok ((x.value_round .down 0).trans ?_)
      simp [Rational.roundTo, Rational.round]
    | [] | _ :: _ :: _ => rfl
  | ceiling =>
    match xs with
    | [x] =>
      refine congrArg Except.ok ((x.value_round .up 0).trans ?_)
      simp [Rational.roundTo, Rational.round]
    | [] | _ :: _ :: _ => rfl
  | scoreTable =>
    cases xs with
    | nil => rfl
    | cons x rows =>
      rw [ofNumbers?, List.map_cons, ofRationals, List.isEmpty_map, List.length_map]
      split
      · rfl
      · exact congrArg Except.ok (x.value_lookUpScore rows)
  | access =>
    rw [ofNumbers?, ofRationals, List.getLast?_map, ← List.map_dropLast]
    cases xs.getLast? with
    | none => rfl
    | some index => exact memberAt_exact xs.dropLast index
  | average | safeDivide | sqrt | deviation => cases exact

theorem round_exact (x : Suspended) {n : ℤ} :
    exactly Value.exact (do return .number ((← x.toNumber).round .nearest n)) =
      (do return .number (Rational.roundTo .nearest n (← x.exact.toNumber)) : ExactResult) := by
  rw [← x.toNumber_exact]
  refine exactly_bind fun x _ => ?_
  exact congrArg (fun q => Except.ok (Exact.number q)) (x.value_round .nearest n)

theorem ofNumbers_exact {f : Builtin} (exact : f.isExact = true)
    (h : List.Forall₂ Operand.Denotes args rs) (range : NumbersInRange args) :
    exactly Value.exact (do
      match f.ofNumbers? (← numbers (args.map Operand.run)) with
      | some result => return .number (← result)
      | none => throw (.argumentCount f (args.map Operand.run).length)) =
    (do return .number (← f.ofRationals (← rs.mapM ExactResult.toNumber)) : ExactResult) := by
  rw [← numbers_exact h range]
  refine exactly_bind fun xs _ => ?_
  rw [← ofNumbers?_exact exact]
  cases f.ofNumbers? xs with
  | none => rfl
  | some result => exact exactly_bind fun x _ => rfl

/-- An exact function computes with the numbers that decimals stand for. -/
theorem apply_exact {f : Builtin} (exact : f.isExact = true)
    (h : List.Forall₂ Operand.Denotes args rs) (range : f.ArgumentsInRange args) :
    exactly Value.exact (f.apply (args.map Operand.run)) = f.applyExact rs := by
  cases f with
  | choose =>
    obtain _ | ⟨hcondition, _ | ⟨hyes, _ | ⟨hno, _ | _⟩⟩⟩ := h
    case cons.cons.cons.nil =>
      rw [← hcondition range.1]
      refine exactly_bind fun v hv => ?_
      have branch := range.2 v hv
      rw [← v.isTruthy_exact]
      split
      · next truthy =>
        rw [if_pos truthy] at branch
        exact hyes branch
      · next falsy =>
        rw [if_neg falsy] at branch
        exact hno branch
    all_goals rfl
  | round =>
    obtain _ | ⟨hx, _ | ⟨hdigits, _ | _⟩⟩ := h
    case cons.nil =>
      rw [← hx range.1]
      exact round_exact _
    case cons.cons.nil digits _ =>
      rw [applyExact, ← hdigits range.1, ← digits.run.toNumber_exact]
      refine exactly_bind fun d hd => ?_
      rw [← places_exact]
      refine exactly_bind fun n hn => ?_
      rw [← hx (range.2 d n hd hn)]
      exact round_exact _
    all_goals rfl
  | _ => exact ofNumbers_exact exact h range

end Builtin

/-! ## Formulas -/

namespace Expr

/-- What is compiled, unless compiling fails, is as wanted. -/
def Yields {α : Type} (wanted : α → Prop) (compiled : Except SyntaxError α × Names) : Prop :=
  ∀ a, compiled.1 = .ok a → wanted a

namespace Yields

variable {α β : Type} {wanted : α → Prop} {wanted' : β → Prop} {names : Names}

theorem error {e : SyntaxError} : Yields wanted (.error e, names) := nofun

theorem ok {a : α} (h : wanted a) : Yields wanted (.ok a, names) := by
  intro a' same
  cases same
  exact h

/-- Compiling one part and then, unless that fails, another. -/
theorem bind {first : Except SyntaxError α × Names} {both : Except SyntaxError β × Names}
    (h : Yields wanted first)
    (herror : ∀ e names', first = (.error e, names') → both = (.error e, names'))
    (hok : ∀ a names', first = (.ok a, names') → wanted a → Yields wanted' both) :
    Yields wanted' both := by
  rcases hfirst : first with ⟨e | a, names'⟩ <;> rw [hfirst] at h
  · rw [herror e names' hfirst]
    exact error
  · exact hok a names' hfirst (h a rfl)

end Yields

/-- The term has the exact value of the formula, in all bindings in which its products are in
range. -/
def IsComputedBy (e : Expr) (t : Term) : Prop :=
  ∀ b : Bindings, t.ProductsInRange b → exactly Value.exact (t.eval b) = e.denote b.exact

mutual

theorem compile_exact : ∀ {e : Expr} (names : Names), e.isExact = true →
    Yields e.IsComputedBy (e.compile names)
  | .number text, names, _ => by
    rw [compile]
    split
    · next x parsed =>
      refine .ok fun b _ => ?_
      rw [Term.eval, denote, parsed]
      rfl
    · exact .error
  | .bool value, names, _ => by
    rw [compile]
    refine .ok fun b _ => ?_
    rw [Term.eval, denote]
    rfl
  | .reference name, names, _ => by
    rw [compile]
    refine .ok fun b _ => ?_
    rw [Term.eval, denote, Bindings.exact]
    cases b.get? name <;> rfl
  | .unary op operand, names, exact => by
    rw [isExact] at exact
    rw [compile]
    refine (compile_exact names exact).bind (fun e _ h => by rw [h]) fun t names' h ht => ?_
    rw [h]
    refine .ok fun b range => ?_
    rw [Term.ProductsInRange] at range
    rw [Term.eval, denote, ← ht b range]
    cases t.eval b with
    | ok v => exact op.apply_exact v
    | error e => rfl
  | .binary op lhs rhs, names, exact => by
    rw [isExact, Bool.and_eq_true, Bool.and_eq_true] at exact
    rw [compile]
    refine (compile_exact names exact.1.2).bind (fun e _ h => by rw [h]) fun t names' h ht => ?_
    simp only [h]
    refine (compile_exact names' exact.2).bind (fun e _ h => by rw [h]) fun t' _ h ht' => ?_
    rw [h]
    refine .ok fun b range => ?_
    rw [Term.ProductsInRange] at range
    have right : Operand.Denotes ⟨fun _ => t'.eval b, t'.ProductsInRange b⟩
      (rhs.denote b.exact) := ht' b
    rw [Term.eval, denote, ← ht b range.1]
    cases found : t.eval b with
    | ok v => exact BinaryOp.apply_exact exact.1.1 right (range.2 v found)
    | error e => rfl
  | .chain first rest, names, exact => by
    rw [isExact, Bool.and_eq_true] at exact
    rw [compile]
    refine (compile_exact names exact.1).bind (fun e _ h => by rw [h]) fun t names' h ht => ?_
    simp only [h]
    refine (compileChain_exact [] names' exact.2).bind
      (fun e _ h => by rw [h]) fun links _ h hlinks => ?_
    rw [h]
    refine .ok fun b range => ?_
    obtain ⟨new, rfl, hnew⟩ := hlinks
    rw [Term.ProductsInRange] at range
    rw [Term.eval, denote, ← ht b range.1]
    cases found : t.eval b with
    | ok v => exact hnew b v (range.2 v found)
    | error e => rfl
  | .call name args position, names, exact => by
    rw [isExact, Bool.and_eq_true] at exact
    rw [compile]
    split
    · exact .error
    · next f named =>
      rw [named] at exact
      split
      · refine (compileArguments_exact [] names exact.2).bind
          (fun e _ h => by rw [h]) fun ts names' h hts => ?_
        rw [h]
        refine .ok fun b range => ?_
        obtain ⟨new, rfl, hnew⟩ := hts
        rw [Term.ProductsInRange] at range
        rw [Term.eval, denote, named, ← Term.map_run_operands]
        exact Builtin.apply_exact exact.1 (hnew b) range
      · exact .error

theorem compileChain_exact (done : List (BinaryOp × Term)) : ∀ {rest : List (BinaryOp × Expr)}
    (names : Names), chainIsExact rest = true → Yields (fun links => ∃ new,
      links = done.reverse ++ new ∧ ∀ (b : Bindings) (lhs : Value), Term.ChainInRange b lhs new →
        exactly Value.exact (Term.evalChain b lhs new) = denoteChain b.exact lhs.exact rest)
      (compileChain done names rest)
  | [], names, _ => by
    rw [compileChain]
    refine .ok ⟨[], (List.append_nil _).symm, fun b lhs _ => ?_⟩
    rw [Term.evalChain, denoteChain]
    rfl
  | (op, operand) :: rest, names, exact => by
    rw [chainIsExact, Bool.and_eq_true, Bool.and_eq_true] at exact
    rw [compileChain]
    refine (compile_exact names exact.1.2).bind (fun e _ h => by rw [h]) fun t names' h ht => ?_
    rw [h]
    intro links found
    obtain ⟨new, rfl, hnew⟩ := compileChain_exact ((op, t) :: done) names' exact.2 links found
    refine ⟨(op, t) :: new, by simp, fun b lhs range => ?_⟩
    rw [Term.ChainInRange] at range
    have right : Operand.Denotes ⟨fun _ => t.eval b, t.ProductsInRange b⟩
      (operand.denote b.exact) := ht b
    have step : exactly Value.exact (op.apply lhs fun _ => t.eval b) =
        op.applyExact lhs.exact (operand.denote b.exact) :=
      BinaryOp.apply_exact exact.1.1 right range.1
    rw [Term.evalChain, denoteChain, ← step]
    cases found : op.apply lhs fun _ => t.eval b with
    | ok v => exact hnew b v (range.2 v found)
    | error e => rfl

theorem compileArguments_exact (done : List Term) : ∀ {args : List Expr} (names : Names),
    argumentsAreExact args = true → Yields (fun terms => ∃ new, terms = done.reverse ++ new ∧
      ∀ b : Bindings, List.Forall₂ Operand.Denotes (Term.operands b new)
        (denoteArguments b.exact args))
      (compileArguments done names args)
  | [], names, _ => by
    rw [compileArguments]
    refine .ok ⟨[], (List.append_nil _).symm, fun b => ?_⟩
    rw [Term.operands, denoteArguments]
    exact .nil
  | arg :: args, names, exact => by
    rw [argumentsAreExact, Bool.and_eq_true] at exact
    rw [compileArguments]
    refine (compile_exact names exact.1).bind (fun e _ h => by rw [h]) fun t names' h ht => ?_
    rw [h]
    intro terms found
    obtain ⟨new, rfl, hnew⟩ := compileArguments_exact (t :: done) names' exact.2 terms found
    refine ⟨t :: new, by simp, fun b => ?_⟩
    rw [Term.operands, denoteArguments]
    exact .cons (ht b) (hnew b)

end

/-- A formula made of exact operators and functions, in bindings of any scales, has the value that
exact arithmetic gives it: the same truth value, or a number that stands for the same rational, or a
failure of the same kind. Bindings that are numerically equal therefore lead to numerically equal
results, or to failures of the same kind. The products that are computed have scales of 64 bits. -/
theorem eval_exact {e : Expr} (exact : e.isExact = true) {names names' : Names} {term : Term}
    (compiled : e.compile names = (.ok term, names')) (b : Bindings)
    (range : term.ProductsInRange b) :
    (∀ v, term.eval b = .ok v → e.denote b.exact = .ok v.exact) ∧
    (∀ cause, term.eval b = .error cause → e.denote b.exact = .error cause.kind) ∧
    ∀ b' : Bindings, (∀ name, b.exact name = b'.exact name) → term.ProductsInRange b' →
      exactly Value.exact (term.eval b) = exactly Value.exact (term.eval b') := by
  have agrees : e.IsComputedBy term := compile_exact names exact term (by rw [compiled])
  refine ⟨fun v found => ?_, fun cause failed => ?_, fun b' same range' => ?_⟩
  · rw [← agrees b range, found, exactly_ok]
  · rw [← agrees b range, failed, exactly_error]
  · rw [agrees b range, agrees b' range', funext same]

/-- The remainder of a product, with the name in it bound to one number at two scales: the results
are written differently, and both stand for nine. -/
theorem eval_exact_rescaled : ∃ (e : Expr) (names' : Names) (term : Term) (b b' : Bindings),
    e.isExact = true ∧ e.compile ∅ = (.ok term, names') ∧ term.ProductsInRange b ∧
    (∀ name, b.exact name = b'.exact name) ∧ term.ProductsInRange b' ∧
    term.eval b = .ok (.number ⟨900, 2⟩) ∧ term.eval b' = .ok (.number ⟨9, 0⟩) ∧
    e.denote b.exact = .ok (Value.exact (.number ⟨900, 2⟩)) ∧
    exactly Value.exact (term.eval b) = exactly Value.exact (term.eval b') := by
  let e : Expr := .chain (.binary .multiply (.reference "x") (.number "3"))
    [(.remainder, .number "1e1")]
  let b := Bindings.insert ∅ "x" (.number ⟨1300, 2⟩)
  let b' := Bindings.insert ∅ "x" (.number ⟨13, 0⟩)
  let product : Term := .binary .multiply (.reference "x") (.constant (.number ⟨3, 0⟩))
  let term : Term := .chain product [(.remainder, .constant (.number ⟨1, -1⟩))]
  have exact : e.isExact = true := by decide
  have compiled : e.compile ∅ = (.ok term, Names.insert ∅ "x") := by
    have three : Decimal.parse "3" = .ok ⟨3, 0⟩ := by decide +kernel
    have ten : Decimal.parse "1e1" = .ok ⟨1, -1⟩ := by decide +kernel
    simp only [e, compile, compileChain, three, ten]
    rfl
  have same : ∀ name, b.exact name = b'.exact name := by
    intro name
    rw [Bindings.exact, Bindings.exact, Bindings.get?_insert, Bindings.get?_insert]
    split
    · norm_num [Value.exact, Decimal.value]
    · rfl
  -- The remainder asks nothing of its operands but to be in range themselves.
  have inRange {b : Bindings} {x : Decimal} (bound : (Term.reference "x").eval b = .ok (.number x))
      (range : (x.product ⟨3, 0⟩).ScaleInRange) : term.ProductsInRange b := by
    simp only [term, product, Term.ProductsInRange, Term.ChainInRange, bound]
    refine ⟨⟨trivial, fun v hv => ⟨fun _ => trivial, fun _ y z hy hz => ?_⟩⟩,
      fun v _ => ⟨⟨fun _ => trivial, fun other => by cases other⟩, fun _ _ => trivial⟩⟩
    cases hv
    cases hy
    rw [Term.eval] at hz
    cases hz
    exact range
  have range : term.ProductsInRange b := inRange (x := ⟨1300, 2⟩) rfl (by decide)
  have range' : term.ProductsInRange b' := inRange (x := ⟨13, 0⟩) rfl (by decide)
  obtain ⟨value, -, equal⟩ := eval_exact exact compiled b range
  have found : term.eval b = .ok (.number ⟨900, 2⟩) := by decide +kernel
  have found' : term.eval b' = .ok (.number ⟨9, 0⟩) := by decide +kernel
  exact ⟨e, _, term, b, b', exact, compiled, range, same, range', found, found', value _ found,
    equal b' same range'⟩

end Expr

end EquationSystem
