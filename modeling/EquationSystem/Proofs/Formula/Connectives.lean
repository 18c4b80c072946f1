import EquationSystem.Formula.Term
import Mathlib.Data.List.Forall2

/-!
# Chains of `and` and chains of `or`

Such a chain looks at the truth values of its operands only, from the left, and leaves the result to
the next operand as long as these are the neutral truth value of the operator. The first operand
that fails or counts as the other truth value decides, and none after it is computed. As `and` and
`or` differ in the neutral truth value alone, what is shown for one is shown for both, and a
negation turns one into the other.
-/

namespace EquationSystem

/-- The truth value of an operand that leaves the result to the next one. -/
def BinaryOp.neutral? : BinaryOp → Option Bool
  | .and => some true
  | .or => some false
  | _ => none

/-- There is a value, and it counts as the truth value. -/
def Counts (truth : Bool) (r : Except EvalError Value) : Prop :=
  ∃ v, r = .ok v ∧ v.isTruthy = truth

/-- The result that the first of the operands decides that fails or does not count as `truth`. -/
def connect (truth : Bool) : List (Except EvalError Value) → Except EvalError Value
  | [] => .ok (.bool truth)
  | .error e :: _ => .error e
  | .ok v :: results => if v.isTruthy = truth then connect truth results else .ok (.bool !truth)

section
variable {truth : Bool} {v : Value} {results : List (Except EvalError Value)}

theorem counts_ok : Counts truth (.ok v) ↔ v.isTruthy = truth := by
  constructor
  · rintro ⟨w, same, h⟩
    cases same
    exact h
  · exact fun h => ⟨v, rfl, h⟩

theorem not_counts_error {e : EvalError} : ¬Counts truth (.error e) := by
  rintro ⟨v, same, -⟩
  cases same

theorem connect_of_neutral (h : v.isTruthy = truth) :
    connect truth (.ok v :: results) = connect truth results :=
  if_pos h

theorem connect_of_decisive (h : v.isTruthy = !truth) :
    connect truth (.ok v :: results) = .ok (.bool !truth) := by
  refine if_neg fun same => ?_
  rw [same] at h
  exact (Bool.eq_not_self truth).1 h

theorem connect_congr {w : Value} (h : v.isTruthy = w.isTruthy) :
    connect truth (.ok v :: results) = connect truth (.ok w :: results) := by
  rw [connect, connect, h]

theorem connect_append {front : List (Except EvalError Value)}
    (h : ∀ r ∈ front, Counts truth r) :
    connect truth (front ++ results) = connect truth results := by
  induction front with
  | nil => rfl
  | cons r front ih =>
    rw [List.forall_mem_cons] at h
    obtain ⟨v, rfl, neutral⟩ := h.1
    rw [List.cons_append, connect_of_neutral neutral, ih h.2]

theorem connect_eq_neutral_iff :
    connect truth results = .ok (.bool truth) ↔ ∀ r ∈ results, Counts truth r := by
  induction results with
  | nil => exact iff_of_true rfl (List.forall_mem_nil _)
  | cons r results ih =>
    rw [List.forall_mem_cons]
    cases r with
    | error e => exact iff_of_false nofun fun h => not_counts_error h.1
    | ok v =>
      rw [counts_ok]
      by_cases neutral : v.isTruthy = truth
      · rw [connect_of_neutral neutral, ih]
        exact (and_iff_right neutral).symm
      · rw [connect_of_decisive (Bool.eq_not_of_ne neutral)]
        refine iff_of_false (fun same => ?_) fun h => neutral h.1
        exact (Bool.not_eq_self truth).1 (Value.bool.inj (Except.ok.inj same))

/-- A negation of the result is a result for the negated operands. -/
theorem connect_not (truth : Bool) (results : List (Except EvalError Value)) :
    connect (!truth) (results.map (· >>= UnaryOp.not.apply)) =
      connect truth results >>= UnaryOp.not.apply := by
  induction results with
  | nil => rfl
  | cons r results ih =>
    cases r with
    | error e => rfl
    | ok v =>
      have negated : (Except.ok v >>= UnaryOp.not.apply) = .ok (.bool !v.isTruthy) := rfl
      rw [List.map_cons, negated]
      by_cases neutral : v.isTruthy = truth
      · have neutral' : (Value.bool !v.isTruthy).isTruthy = !truth := congrArg Bool.not neutral
        rw [connect_of_neutral neutral, connect_of_neutral neutral', ih]
      · have decisive := Bool.eq_not_of_ne neutral
        have decisive' : (Value.bool !v.isTruthy).isTruthy = !!truth := congrArg Bool.not decisive
        rw [connect_of_decisive decisive, connect_of_decisive decisive']
        rfl

end

namespace BinaryOp

variable {op : BinaryOp} {truth : Bool} (h : op.neutral? = some truth) {lhs : Value}
include h

theorem apply_of_neutral (rhs : Suspended) (neutral : lhs.isTruthy = truth) :
    op.apply lhs rhs = (rhs ()).map fun v => .bool v.isTruthy := by
  cases op <;> cases h <;> exact (by rw [apply, neutral]; rfl)

theorem apply_of_decisive (rhs : Suspended) (decisive : lhs.isTruthy = !truth) :
    op.apply lhs rhs = .ok (.bool !truth) := by
  cases op <;> cases h <;> exact (by rw [apply, decisive]; rfl)

end BinaryOp

namespace Term

/-- The operands with one operator between them. -/
def joined (op : BinaryOp) (first : Term) (rest : List Term) : Term :=
  .chain first (rest.map (op, ·))

section
variable {op : BinaryOp} {truth : Bool} (h : op.neutral? = some truth) {b : Bindings}
include h

/-- After one operator the value is a truth value, whatever it was before. -/
theorem evalChain_step {lhs : Value} {x : Term} {links : List (BinaryOp × Term)}
    {results : List (Except EvalError Value)}
    (ih : ∀ c, evalChain b (.bool c) links = connect truth (.ok (.bool c) :: results)) :
    evalChain b lhs ((op, x) :: links) = connect truth (.ok lhs :: x.eval b :: results) := by
  rw [evalChain]
  by_cases neutral : lhs.isTruthy = truth
  · rw [BinaryOp.apply_of_neutral h _ neutral, connect_of_neutral neutral]
    cases x.eval b with
    | error e => rfl
    | ok v => exact (ih v.isTruthy).trans (connect_congr rfl)
  · have decisive := Bool.eq_not_of_ne neutral
    rw [BinaryOp.apply_of_decisive h _ decisive, connect_of_decisive decisive]
    exact (ih _).trans (connect_of_decisive rfl)

theorem evalChain_bool (c : Bool) (rest : List Term) :
    evalChain b (.bool c) (rest.map (op, ·)) =
      connect truth (.ok (.bool c) :: rest.map (eval b)) := by
  induction rest generalizing c with
  | nil =>
    rw [List.map_nil, List.map_nil, evalChain, connect, connect]
    split
    · next same => exact congrArg _ (congrArg _ same)
    · next other => exact congrArg _ (congrArg _ (Bool.eq_not_of_ne other))
  | cons x rest ih => exact evalChain_step h ih

theorem eval_joined {first : Term} {rest : List Term} (nonempty : rest ≠ []) :
    (joined op first rest).eval b = connect truth ((first :: rest).map (eval b)) := by
  obtain ⟨x, rest, rfl⟩ := List.exists_cons_of_ne_nil nonempty
  rw [joined, eval, List.map_cons, List.map_cons, List.map_cons]
  cases first.eval b with
  | error e => rfl
  | ok v => exact evalChain_step h fun c => evalChain_bool h c rest

/-- A negated chain is a chain of the other operator over the negated operands. -/
theorem eval_not_joined {other : BinaryOp} (hother : other.neutral? = some !truth) {first : Term}
    {rest : List Term} (nonempty : rest ≠ []) :
    (unary .not (joined op first rest)).eval b =
      (joined other (.unary .not first) (rest.map (.unary .not))).eval b := by
  have negated (t : Term) : (unary .not t).eval b = t.eval b >>= UnaryOp.not.apply := by
    rw [eval]
    cases t.eval b <;> rfl
  rw [negated, eval_joined h nonempty, eval_joined hother (by simpa using nonempty), ← connect_not,
    ← List.map_cons, List.map_map, List.map_map]
  exact congrArg _ (List.map_congr_left fun t _ => (negated t).symm)

end

/-- What the operands of a chain of `op`, whose neutral truth value is `truth`, make of its
result. -/
structure Decides (op : BinaryOp) (truth : Bool) (operands : List Term) (b : Bindings)
    (result : Except EvalError Value) : Prop where
  /-- The result is the neutral truth value if all operands count as it, and only then. -/
  all : result = .ok (.bool truth) ↔ ∀ x ∈ operands, Counts truth (x.eval b)
  /-- The first operand that does not count as the neutral truth value is returned if it fails. -/
  failed : ∀ before x after e, operands = before ++ x :: after →
    (∀ y ∈ before, Counts truth (y.eval b)) → x.eval b = .error e → result = .error e
  /-- It gives the other truth value if it has a value. -/
  decided : ∀ before x after v, operands = before ++ x :: after →
    (∀ y ∈ before, Counts truth (y.eval b)) → x.eval b = .ok v → v.isTruthy = !truth →
    result = .ok (.bool !truth)
  /-- Any chain with the same operands up to that one has the same result. -/
  unread : ∀ before x after, operands = before ++ x :: after →
    (∀ y ∈ before, Counts truth (y.eval b)) → ¬Counts truth (x.eval b) →
    ∀ first rest, rest ≠ [] → before ++ [x] <+: first :: rest →
      (joined op first rest).eval b = result

/-- Operands after one that decides are not looked at. -/
theorem connect_of_initial {truth : Bool} {b : Bindings} {before : List Term} {x : Term}
    (neutral : ∀ y ∈ before, Counts truth (y.eval b)) (decisive : ¬Counts truth (x.eval b))
    {operands : List Term} (h : before ++ [x] <+: operands) :
    connect truth (operands.map (eval b)) = connect truth [x.eval b] := by
  obtain ⟨after, rfl⟩ := h
  rw [List.append_assoc, List.map_append, connect_append (by simpa using neutral),
    List.singleton_append, List.map_cons]
  cases hx : x.eval b with
  | error e => rfl
  | ok v =>
    rw [hx, counts_ok] at decisive
    have other := Bool.eq_not_of_ne decisive
    rw [connect_of_decisive other, connect_of_decisive other]

theorem decides_of_eq_connect {op : BinaryOp} {truth : Bool} (h : op.neutral? = some truth)
    {b : Bindings} {operands : List Term} {result : Except EvalError Value}
    (eq : result = connect truth (operands.map (eval b))) : Decides op truth operands b result where
  all := by rw [eq, connect_eq_neutral_iff, List.forall_mem_map]
  failed before x after e split neutral failed := by
    have decisive : ¬Counts truth (x.eval b) := by
      rw [failed]
      exact not_counts_error
    rw [eq, connect_of_initial neutral decisive ⟨after, by simp [split]⟩, failed, connect]
  decided before x after v split neutral value other := by
    have decisive : ¬Counts truth (x.eval b) := by
      rw [value, counts_ok, other]
      exact (Bool.not_eq_self truth).1
    rw [eq, connect_of_initial neutral decisive ⟨after, by simp [split]⟩, value,
      connect_of_decisive other]
  unread before x after split neutral decisive first rest nonempty shared := by
    rw [eval_joined h nonempty, eq, connect_of_initial neutral decisive shared,
      connect_of_initial neutral decisive ⟨after, by simp [split]⟩]

end Term

namespace Expr

/-- The term is what the expression is compiled to, after some names are recorded. -/
def CompilesTo (e : Expr) (t : Term) : Prop := ∃ names, (e.compile names).1 = .ok t

/-- The operands with one operator between them. -/
def joined (op : BinaryOp) (first : Expr) (rest : List Expr) : Expr :=
  .chain first (rest.map (op, ·))

variable {op : BinaryOp} {names : Names}

theorem compileChain_joined {rest : List Expr} {done links : List (BinaryOp × Term)}
    (h : (compileChain done names (rest.map (op, ·))).1 = .ok links) :
    ∃ operands, links = done.reverse ++ operands.map (op, ·) ∧
      List.Forall₂ CompilesTo rest operands := by
  induction rest generalizing names done with
  | nil =>
    rw [List.map_nil, compileChain] at h
    cases h
    exact ⟨[], (List.append_nil _).symm, .nil⟩
  | cons x rest ih =>
    rw [List.map_cons, compileChain] at h
    rcases hx : x.compile names with ⟨e | t, names'⟩ <;> rw [hx] at h
    · cases h
    · obtain ⟨operands, rfl, compiled⟩ := ih h
      refine ⟨t :: operands, by simp, .cons ⟨names, congrArg Prod.fst hx⟩ compiled⟩

theorem compile_joined {first : Expr} {rest : List Expr} {t : Term}
    (h : ((joined op first rest).compile names).1 = .ok t) :
    ∃ first' rest', t = .joined op first' rest' ∧
      List.Forall₂ CompilesTo (first :: rest) (first' :: rest') := by
  rw [joined, compile] at h
  rcases hfirst : first.compile names with ⟨e | t', names'⟩ <;> rw [hfirst] at h
  · cases h
  · dsimp only at h
    rcases hrest : compileChain [] names' (rest.map (op, ·)) with ⟨e | links, names''⟩ <;>
      rw [hrest] at h
    · cases h
    · cases h
      obtain ⟨operands, rfl, compiled⟩ := compileChain_joined (congrArg Prod.fst hrest)
      exact ⟨t', operands, rfl, .cons ⟨names, congrArg Prod.fst hfirst⟩ compiled⟩

/-- Compiling does not ask which operator it is, nor where the negation stands. -/
theorem compile_not_joined {truth : Bool} {other : BinaryOp} (h : op.neutral? = some truth)
    (hother : other.neutral? = some !truth) (x y : Expr) (b : Bindings) :
    ((unary .not (joined op x [y])).compile names).1.map (Term.eval b) =
      ((joined other (.unary .not x) [.unary .not y]).compile names).1.map (Term.eval b) := by
  simp only [joined, List.map_cons, List.map_nil, compile]
  rcases x.compile names with ⟨e | t, names'⟩
  · rfl
  · simp only [compileChain, compile]
    rcases y.compile names' with ⟨e | u, names''⟩
    · rfl
    · exact congrArg Except.ok
        (@Term.eval_not_joined _ _ h b _ hother t [u] (List.cons_ne_nil u []))

/-- The value of a chain of `and` is true if all operands have values that count as true; otherwise
the first that does not decides, with its error or with the value false, and no operand after it
matters. A chain of `or` has the same laws with the truth values exchanged, and the negation of
either over two operands gives what the other gives over their negations. -/
theorem joined_decides (names : Names) :
    (∀ op truth, op.neutral? = some truth → ∀ first rest t, rest ≠ [] →
      ((joined op first rest).compile names).1 = .ok t → ∃ operands,
        List.Forall₂ CompilesTo (first :: rest) operands ∧
          ∀ b, Term.Decides op truth operands b (t.eval b)) ∧
    ∀ x y b,
      ((unary .not (joined .and x [y])).compile names).1.map (Term.eval b) =
        ((joined .or (.unary .not x) [.unary .not y]).compile names).1.map (Term.eval b) ∧
      ((unary .not (joined .or x [y])).compile names).1.map (Term.eval b) =
        ((joined .and (.unary .not x) [.unary .not y]).compile names).1.map (Term.eval b) := by
  refine ⟨fun op truth neutral first rest t nonempty compiled => ?_, fun x y b => ?_⟩
  · obtain ⟨first', rest', rfl, operands⟩ := compile_joined compiled
    have nonempty' : rest' ≠ [] := by
      rintro rfl
      cases operands with
      | cons _ none => exact nonempty (List.forall₂_nil_right_iff.1 none)
    refine ⟨_, operands, fun b => ?_⟩
    exact Term.decides_of_eq_connect neutral (Term.eval_joined neutral nonempty')
  · exact ⟨compile_not_joined rfl rfl x y b, compile_not_joined rfl rfl x y b⟩

/-- A zero decides before a name that has no value. -/
theorem joined_decides_zero : ∃ t,
    ((joined .and (.reference "x") [.reference "y", .reference "z"]).compile ∅).1 = .ok t ∧
    t.eval (Bindings.insert (Bindings.insert ∅ "x" (.number ⟨2, 0⟩)) "y" (.number ⟨0, 2⟩)) =
      .ok (.bool false) := by
  let b := Bindings.insert (Bindings.insert ∅ "x" (.number ⟨2, 0⟩)) "y" (.number ⟨0, 2⟩)
  have compiles : ((joined .and (.reference "x") [.reference "y", .reference "z"]).compile ∅).1 =
      .ok (.joined .and (.reference "x") [.reference "y", .reference "z"]) := by
    simp [joined, Term.joined, compile, compileChain]
  have reference {name : String} {t : Term} (h : CompilesTo (.reference name) t) :
      t = .reference name := by
    obtain ⟨names, h⟩ := h
    rw [compile] at h
    exact (Except.ok.inj h).symm
  obtain ⟨operands, compiled, decides⟩ :=
    (joined_decides ∅).1 .and true rfl _ _ _ (List.cons_ne_nil _ _) compiles
  obtain ⟨x, _, hx, rest, rfl⟩ := List.forall₂_cons_left_iff.1 compiled
  obtain ⟨y, _, hy, -, rfl⟩ := List.forall₂_cons_left_iff.1 rest
  obtain rfl := reference hx
  obtain rfl := reference hy
  refine ⟨_, compiles, (decides b).decided [_] _ _ (.number ⟨0, 2⟩) rfl ?_ ?_ rfl⟩
  · rw [List.forall_mem_singleton]
    exact ⟨.number ⟨2, 0⟩, by simp [b, Term.eval, Bindings.get?_insert], rfl⟩
  · simp [b, Term.eval, Bindings.get?_insert]

end Expr

end EquationSystem
