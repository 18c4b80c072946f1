import EquationSystem.Proofs.Formula.Connectives
import EquationSystem.Proofs.Formula.Placement
import EquationSystem.Proofs.Formula.Spans
import Mathlib.Logic.Function.Iterate

/-!
# Height of formulas

Between two nestings a formula passes at most seven nodes, so that the height of its tree is bounded
whatever its length. Compiling and evaluating are calls that leave the parts of an expression to
further calls, and these do not go deeper than the tree is high.
-/

namespace EquationSystem

namespace Expr

/-- The expressions that a node is made of. -/
def parts : Expr → List Expr
  | .number _ | .bool _ | .reference _ => []
  | .unary _ operand => [operand]
  | .binary _ lhs rhs => [lhs, rhs]
  | .chain first rest => first :: rest.map (·.2)
  | .call _ args _ => args

mutual

/-- The number of nodes on the longest path from the root to a leaf. -/
def height : Expr → Nat
  | .number _ | .bool _ | .reference _ => 1
  | .unary _ operand => operand.height + 1
  | .binary _ lhs rhs => max lhs.height rhs.height + 1
  | .chain first rest => max first.height (chainHeight rest) + 1
  | .call _ args _ => argumentsHeight args + 1

def chainHeight : List (BinaryOp × Expr) → Nat
  | [] => 0
  | (_, operand) :: rest => max operand.height (chainHeight rest)

def argumentsHeight : List Expr → Nat
  | [] => 0
  | arg :: args => max arg.height (argumentsHeight args)

end

variable {k : Nat} {e : Expr}

theorem chainHeight_le_iff {rest : List (BinaryOp × Expr)} :
    chainHeight rest ≤ k ↔ ∀ operand ∈ rest.map (·.2), operand.height ≤ k := by
  induction rest with
  | nil => simp [chainHeight]
  | cons link rest ih => rw [chainHeight, Nat.max_le, ih, List.map_cons, List.forall_mem_cons]

theorem argumentsHeight_le_iff {args : List Expr} :
    argumentsHeight args ≤ k ↔ ∀ arg ∈ args, arg.height ≤ k := by
  induction args with
  | nil => simp [argumentsHeight]
  | cons arg args ih => rw [argumentsHeight, Nat.max_le, ih, List.forall_mem_cons]

theorem height_pos (e : Expr) : 0 < e.height := by
  cases e <;> exact Nat.succ_pos _

theorem height_le_succ_iff : e.height ≤ k + 1 ↔ ∀ part ∈ e.parts, part.height ≤ k := by
  cases e with
  | number | bool | reference => exact iff_of_true (Nat.le_add_left 1 k) (List.forall_mem_nil _)
  | unary op operand => rw [height, parts, List.forall_mem_singleton, Nat.add_le_add_iff_right]
  | binary op lhs rhs =>
    rw [height, parts, List.forall_mem_cons, List.forall_mem_singleton, Nat.add_le_add_iff_right,
      Nat.max_le]
  | chain first rest =>
    rw [height, parts, List.forall_mem_cons, Nat.add_le_add_iff_right, Nat.max_le,
      chainHeight_le_iff]
  | call name args position =>
    rw [height, parts, Nat.add_le_add_iff_right, argumentsHeight_le_iff]

/-! ## Compiling in calls -/

/-- A part of compiling, with the names recorded before it and after it. -/
abbrev Compiler (α β : Type) : Type := Names → α → Except SyntaxError β × Names

/-- Goes on with what was compiled, unless that failed. -/
def andThen {α β : Type} (compiled : Except SyntaxError α × Names)
    (next : α → Names → Except SyntaxError β × Names) : Except SyntaxError β × Names :=
  match compiled with
  | (.error e, names) => (.error e, names)
  | (.ok a, names) => next a names

/-- Compiles one after the other. -/
def compileEach {α β : Type} (one : Compiler α β) : Compiler (List α) (List β)
  | names, [] => (.ok [], names)
  | names, x :: xs =>
    andThen (one names x) fun y names =>
      andThen (compileEach one names xs) fun ys names => (.ok (y :: ys), names)

/-- One call of compiling, which leaves the parts of the expression to `recurse`. -/
def compileStep (recurse : Compiler Expr Term) : Compiler Expr Term
  | names, .number text =>
    match Decimal.parse text with
    | .ok x => (.ok (.constant (.number x)), names)
    | .error _ => (.error ⟨.invalidNumber text, 0⟩, names)
  | names, .bool value => (.ok (.constant (.bool value)), names)
  | names, .reference name => (.ok (.reference name), names.insert name)
  | names, .unary op operand =>
    andThen (recurse names operand) fun operand names => (.ok (.unary op operand), names)
  | names, .binary op lhs rhs =>
    andThen (recurse names lhs) fun lhs names =>
      andThen (recurse names rhs) fun rhs names => (.ok (.binary op lhs rhs), names)
  | names, .chain first rest =>
    andThen (recurse names first) fun first names =>
      andThen (compileEach recurse names (rest.map (·.2))) fun operands names =>
        (.ok (.chain first ((rest.map (·.1)).zip operands)), names)
  | names, .call name args position =>
    match Builtin.ofName? name with
    | none => (.error ⟨.unknownFunction name, position⟩, names)
    | some builtin =>
      if builtin.accepts args.length then
        andThen (compileEach recurse names args) fun args names => (.ok (.call builtin args), names)
      else (.error ⟨.argumentCount builtin args.length, position⟩, names)

theorem exists_of_andThen {α β : Type} {compiled : Except SyntaxError α × Names}
    {next : α → Names → Except SyntaxError β × Names} {y : β}
    (h : (andThen compiled next).1 = .ok y) :
    ∃ a names, compiled = (.ok a, names) ∧ (next a names).1 = .ok y := by
  rcases compiled with ⟨e | a, names⟩
  · cases h
  · exact ⟨a, names, rfl, h⟩

@[simp] theorem andThen_ok {α β : Type} (a : α) (names : Names)
    (next : α → Names → Except SyntaxError β × Names) :
    andThen (.ok a, names) next = next a names := rfl

theorem andThen_assoc {α β γ : Type} (compiled : Except SyntaxError α × Names)
    (next : α → Names → Except SyntaxError β × Names)
    (last : β → Names → Except SyntaxError γ × Names) :
    andThen (andThen compiled next) last =
      andThen compiled fun a names => andThen (next a names) last := by
  rcases compiled with ⟨e | a, names⟩ <;> rfl

theorem compileEach_congr {α β : Type} {one one' : Compiler α β} {xs : List α}
    (h : ∀ x ∈ xs, ∀ names, one names x = one' names x) (names : Names) :
    compileEach one names xs = compileEach one' names xs := by
  induction xs generalizing names with
  | nil => rfl
  | cons x xs ih =>
    rw [List.forall_mem_cons] at h
    simp only [compileEach, h.1, ih h.2]

/-- Nothing but the parts is left to other calls. -/
theorem compileStep_congr {recurse recurse' : Compiler Expr Term}
    (h : ∀ part ∈ e.parts, ∀ names, recurse names part = recurse' names part) (names : Names) :
    compileStep recurse names e = compileStep recurse' names e := by
  cases e with
  | number | bool | reference => rfl
  | unary op operand =>
    rw [parts, List.forall_mem_singleton] at h
    rw [compileStep, compileStep, h]
  | binary op lhs rhs =>
    rw [parts, List.forall_mem_cons, List.forall_mem_singleton] at h
    simp only [compileStep, h]
  | chain first rest =>
    rw [parts, List.forall_mem_cons] at h
    simp only [compileStep, h.1, compileEach_congr h.2]
  | call name args position =>
    have same := compileEach_congr h
    dsimp only [parts] at same
    rw [compileStep, compileStep, same]

theorem compileChain_eq_each (rest : List (BinaryOp × Expr)) (done : List (BinaryOp × Term))
    (names : Names) : compileChain done names rest =
      andThen (compileEach compile names (rest.map (·.2))) fun operands names =>
        (.ok (done.reverse ++ (rest.map (·.1)).zip operands), names) := by
  induction rest generalizing done names with
  | nil => simp [compileChain, compileEach]
  | cons link rest ih =>
    have step : compileChain done names (link :: rest) =
        andThen (link.2.compile names) fun t names =>
          compileChain ((link.1, t) :: done) names rest := by
      rw [compileChain]
      rcases link.2.compile names with ⟨e | t, names⟩ <;> rfl
    simp [step, compileEach, andThen_assoc, ih]

theorem compileArguments_eq_each (args : List Expr) (done : List Term) (names : Names) :
    compileArguments done names args =
      andThen (compileEach compile names args) fun terms names =>
        (.ok (done.reverse ++ terms), names) := by
  induction args generalizing done names with
  | nil => simp [compileArguments, compileEach]
  | cons arg args ih =>
    have step : compileArguments done names (arg :: args) =
        andThen (arg.compile names) fun t names => compileArguments (t :: done) names args := by
      rw [compileArguments]
      rcases arg.compile names with ⟨e | t, names⟩ <;> rfl
    simp [step, compileEach, andThen_assoc, ih]

theorem compile_eq_step (e : Expr) (names : Names) :
    e.compile names = compileStep compile names e := by
  cases e with
  | number text => cases h : Decimal.parse text <;> simp only [compile, compileStep, h]
  | bool | reference => rw [compile, compileStep]
  | unary op operand =>
    rw [compile, compileStep]
    rcases operand.compile names with ⟨e | t, names⟩ <;> rfl
  | binary op lhs rhs =>
    rw [compile, compileStep]
    rcases lhs.compile names with ⟨e | t, names⟩
    · rfl
    · dsimp only [andThen]
      rcases rhs.compile names with ⟨e | u, names⟩ <;> rfl
  | chain first rest =>
    have step : (chain first rest).compile names =
        andThen (first.compile names) fun first names =>
          andThen (compileChain [] names rest) fun links names =>
            (.ok (.chain first links), names) := by
      rw [compile]
      rcases first.compile names with ⟨e | t, names⟩
      · rfl
      · dsimp only [andThen]
        rcases compileChain [] names rest with ⟨e | links, names⟩ <;> rfl
    rw [step, compileStep]
    simp only [compileChain_eq_each, andThen_assoc, andThen_ok, List.reverse_nil, List.nil_append]
  | call name args position =>
    rw [compile, compileStep]
    cases Builtin.ofName? name with
    | none => rfl
    | some f =>
      dsimp only
      split
      · rw [compileArguments_eq_each]
        rcases compileEach compile names args with ⟨e | terms, names⟩ <;> rfl
      · rfl

/-- As many calls inside each other as the expression is high are enough to compile it. -/
theorem iterate_compileStep {d : Nat} (beyond : Compiler Expr Term) (h : e.height ≤ d)
    (names : Names) : compileStep^[d] beyond names e = e.compile names := by
  induction d generalizing e names with
  | zero => exact absurd h (Nat.not_le_of_lt e.height_pos)
  | succ d ih =>
    rw [height_le_succ_iff] at h
    rw [Function.iterate_succ_apply', compile_eq_step]
    exact compileStep_congr (fun part hp names => ih (h part hp) names) names

end Expr

namespace Term

/-- The terms that a node is made of. -/
def parts : Term → List Term
  | .constant _ | .reference _ => []
  | .unary _ operand => [operand]
  | .binary _ lhs rhs => [lhs, rhs]
  | .chain first rest => first :: rest.map (·.2)
  | .call _ args => args

/-- One call of evaluating, which leaves the parts of the term to `recurse`. -/
def evalStep (b : Bindings) (recurse : Term → Except EvalError Value) :
    Term → Except EvalError Value
  | .constant value => .ok value
  | .reference name =>
    match b.get? name with
    | some value => .ok value
    | none => .error (.unbound name)
  | .unary op operand => do op.apply (← recurse operand)
  | .binary op lhs rhs => do op.apply (← recurse lhs) fun _ => recurse rhs
  | .chain first rest => do
    rest.foldlM (fun lhs link => link.1.apply lhs fun _ => recurse link.2) (← recurse first)
  | .call builtin args => builtin.apply (args.map fun arg _ => recurse arg)

variable {b : Bindings} {t : Term}

theorem foldlM_apply_congr {recurse recurse' : Term → Except EvalError Value}
    {rest : List (BinaryOp × Term)} (h : ∀ link ∈ rest, recurse link.2 = recurse' link.2)
    (lhs : Value) :
    rest.foldlM (fun lhs link => link.1.apply lhs fun _ => recurse link.2) lhs =
      rest.foldlM (fun lhs link => link.1.apply lhs fun _ => recurse' link.2) lhs := by
  induction rest generalizing lhs with
  | nil => rfl
  | cons link rest ih =>
    rw [List.forall_mem_cons] at h
    rw [List.foldlM_cons, List.foldlM_cons, h.1]
    exact congrArg _ (funext fun lhs => ih h.2 lhs)

theorem evalStep_congr {recurse recurse' : Term → Except EvalError Value}
    (h : ∀ part ∈ t.parts, recurse part = recurse' part) :
    evalStep b recurse t = evalStep b recurse' t := by
  cases t with
  | constant | reference => rfl
  | unary op operand => rw [evalStep, evalStep, h operand (List.mem_singleton_self _)]
  | binary op lhs rhs =>
    obtain ⟨left, right, -⟩ := by simpa only [parts, List.forall_mem_cons] using h
    rw [evalStep, evalStep, left, right]
  | chain first rest =>
    rw [parts, List.forall_mem_cons, List.forall_mem_map] at h
    simp only [evalStep, h.1, foldlM_apply_congr h.2]
  | call builtin args =>
    have suspended : (args.map fun arg _ => recurse arg : List Suspended) =
        args.map fun arg _ => recurse' arg :=
      List.map_congr_left fun arg ha => funext fun _ => h arg ha
    rw [evalStep, evalStep, suspended]

theorem evalChain_eq_foldlM (rest : List (BinaryOp × Term)) (lhs : Value) :
    evalChain b lhs rest =
      rest.foldlM (fun lhs link => link.1.apply lhs fun _ => link.2.eval b) lhs := by
  induction rest generalizing lhs with
  | nil => rw [evalChain]; rfl
  | cons link rest ih =>
    rw [evalChain, List.foldlM_cons]
    cases link.1.apply lhs fun _ => link.2.eval b with
    | error e => rfl
    | ok value => exact ih value

theorem suspend_eq_map (args : List Term) : suspend b args = args.map fun arg _ => arg.eval b := by
  induction args with
  | nil => rw [suspend, List.map_nil]
  | cons arg args ih => rw [suspend, List.map_cons, ih]

theorem eval_eq_step (b : Bindings) (t : Term) : t.eval b = evalStep b (eval b) t := by
  cases t with
  | constant => rw [eval, evalStep]
  | reference name => cases h : b.get? name <;> simp only [eval, evalStep, h]
  | unary op operand => rw [eval, evalStep]; cases operand.eval b <;> rfl
  | binary op lhs rhs => rw [eval, evalStep]; cases lhs.eval b <;> rfl
  | chain first rest =>
    rw [eval, evalStep]
    cases first.eval b with
    | error e => rfl
    | ok value => exact evalChain_eq_foldlM rest value
  | call builtin args => rw [eval, evalStep, suspend_eq_map]

end Term

namespace Expr

open Term (evalStep)

variable {e : Expr} {t : Term} {names : Names}

theorem compileEach_ok {α β : Type} {one : Compiler α β} {xs : List α} {ys : List β}
    (h : (compileEach one names xs).1 = .ok ys) :
    ∀ y ∈ ys, ∃ x ∈ xs, ∃ names, (one names x).1 = .ok y := by
  induction xs generalizing ys names with
  | nil =>
    cases h
    exact List.forall_mem_nil _
  | cons x xs ih =>
    obtain ⟨y, names', hy, h⟩ := exists_of_andThen h
    obtain ⟨ys', names'', hys, h⟩ := exists_of_andThen h
    cases h
    refine List.forall_mem_cons.2 ⟨⟨x, List.mem_cons_self, names, congrArg Prod.fst hy⟩, ?_⟩
    intro z hz
    obtain ⟨w, hw, compiled⟩ := ih (congrArg Prod.fst hys) z hz
    exact ⟨w, List.mem_cons_of_mem x hw, compiled⟩

/-- A term is made of what the parts of the expression are compiled to. -/
theorem CompilesTo.exists_part (h : CompilesTo e t) :
    ∀ part ∈ t.parts, ∃ source ∈ e.parts, CompilesTo source part := by
  obtain ⟨names, h⟩ := h
  rw [compile_eq_step] at h
  cases e with
  | number text =>
    rw [compileStep] at h
    cases hx : Decimal.parse text <;> rw [hx] at h <;> cases h
    exact List.forall_mem_nil _
  | bool | reference =>
    cases h
    exact List.forall_mem_nil _
  | unary op operand =>
    obtain ⟨u, names', hu, h⟩ := exists_of_andThen h
    cases h
    refine List.forall_mem_singleton.2 ⟨operand, List.mem_singleton_self _, names, ?_⟩
    exact congrArg Prod.fst hu
  | binary op lhs rhs =>
    obtain ⟨u, names', hu, h⟩ := exists_of_andThen h
    obtain ⟨v, names'', hv, h⟩ := exists_of_andThen h
    cases h
    refine List.forall_mem_cons.2 ⟨⟨lhs, List.mem_cons_self, names, congrArg Prod.fst hu⟩, ?_⟩
    refine List.forall_mem_singleton.2 ⟨rhs, by simp [parts], names', congrArg Prod.fst hv⟩
  | chain first rest =>
    obtain ⟨u, names', hu, h⟩ := exists_of_andThen h
    obtain ⟨operands, names'', hop, h⟩ := exists_of_andThen h
    cases h
    refine List.forall_mem_cons.2 ⟨⟨first, List.mem_cons_self, names, congrArg Prod.fst hu⟩, ?_⟩
    refine List.forall_mem_map.2 fun link hl => ?_
    obtain ⟨x, hx, compiled⟩ :=
      compileEach_ok (congrArg Prod.fst hop) link.2 (List.of_mem_zip hl).2
    exact ⟨x, List.mem_cons_of_mem first hx, compiled⟩
  | call name args position =>
    rw [compileStep] at h
    cases hf : Builtin.ofName? name with
    | none => rw [hf] at h; cases h
    | some f =>
      rw [hf] at h
      dsimp only at h
      split at h
      · obtain ⟨terms, names', ha, h⟩ := exists_of_andThen h
        cases h
        exact compileEach_ok (congrArg Prod.fst ha)
      · cases h

/-- As many calls inside each other as the expression is high are enough to evaluate its term. -/
theorem CompilesTo.iterate_evalStep {d : Nat} (h : CompilesTo e t) (le : e.height ≤ d)
    (beyond : Term → Except EvalError Value) (b : Bindings) :
    (evalStep b)^[d] beyond t = t.eval b := by
  induction d generalizing e t with
  | zero => exact absurd le (Nat.not_le_of_lt e.height_pos)
  | succ d ih =>
    rw [height_le_succ_iff] at le
    rw [Function.iterate_succ_apply', Term.eval_eq_step]
    refine Term.evalStep_congr fun part hp => ?_
    obtain ⟨source, hs, compiled⟩ := h.exists_part part hp
    exact ih compiled (le source hs)

end Expr

/-! ## What is derived -/

/-- How much higher an expression of the tier can be than the nestings in it make it. -/
def Tier.growth : Tier → Nat
  | .or => 6
  | .and => 5
  | .comparison => 4
  | .sum => 3
  | .product => 2
  | .unary | .power => 1
  | .primary => 0

theorem Tier.growth_le {tier next : Tier} (below : tier.tighter? = some next) :
    next.growth ≤ tier.growth := by
  cases tier <;> cases below <;> decide

theorem Joins.growth_eq {tier next : Tier} {token : Token} {op : BinaryOp} (h : Joins tier token op)
    (below : tier.tighter? = some next) : tier.growth = next.growth + 1 ∧ 0 < next.growth := by
  cases h <;> cases below <;> decide

/-- A nesting adds a node of its own and at most one for each tier down to a power. -/
theorem Derives.height_le {n : Nat} {tier : Tier} {ts : List PlacedToken} {e : Expr}
    (h : Derives n tier ts e) : e.height ≤ max 1 (7 * n + tier.growth) := by
  induction h with
  | tighter below _ ih =>
    have := Tier.growth_le below
    omega
  | @chain n tier next _ first links below _ nonempty joins _ ihfirst ihlinks =>
    obtain ⟨_, _, j⟩ := exists_joins nonempty joins
    obtain ⟨grows, pos⟩ := j.growth_eq below
    have operand {k : Nat} (le : k ≤ max 1 (7 * n + next.growth)) : k ≤ 7 * n + next.growth := by
      omega
    have le : (Expr.chain first (links.map fun link => (link.1, link.2.operand))).height ≤
        7 * n + next.growth + 1 := by
      rw [Expr.height_le_succ_iff, Expr.parts, List.map_map, List.forall_mem_cons,
        List.forall_mem_map]
      exact ⟨operand ihfirst, fun link hl => operand (ihlinks link hl)⟩
    omega
  | comparison | prefixed | power | parentheses =>
    simp only [Expr.height, Tier.growth] at *
    omega
  | number | bool | reference | callWithoutArguments => exact Nat.le_max_left 1 _
  | @call n _ _ name _ _ _ first more _ _ _ _ _ ihfirst ihmore =>
    have argument {k : Nat} (le : k ≤ max 1 (7 * n + Tier.or.growth)) : k ≤ 7 * n + 6 := by
      rw [Tier.growth] at le
      omega
    refine Nat.le_trans (Expr.height_le_succ_iff.2 ?_) (Nat.le_max_right _ _)
    rw [Expr.parts, List.forall_mem_cons, List.forall_mem_map]
    exact ⟨argument ihfirst, fun piece hp => argument (ihmore piece hp)⟩

/-! ## Texts -/

open Lexer

namespace Expr

mutual

theorem height_unplaced : ∀ e : Expr, e.unplaced.height = e.height
  | .number _ | .bool _ | .reference _ => by rw [unplaced]
  | .unary op operand => by rw [unplaced, height, height, height_unplaced operand]
  | .binary op lhs rhs => by
    rw [unplaced, height, height, height_unplaced lhs, height_unplaced rhs]
  | .chain first rest => by
    rw [unplaced, height, height, height_unplaced first, chainHeight_unplaced rest]
  | .call name args position => by rw [unplaced, height, height, argumentsHeight_unplaced args]

theorem chainHeight_unplaced : ∀ rest, chainHeight (chainUnplaced rest) = chainHeight rest
  | [] => by rw [chainUnplaced]
  | (op, operand) :: rest => by
    rw [chainUnplaced, chainHeight, chainHeight, height_unplaced operand, chainHeight_unplaced rest]

theorem argumentsHeight_unplaced : ∀ args,
    argumentsHeight (argumentsUnplaced args) = argumentsHeight args
  | [] => by rw [argumentsUnplaced]
  | arg :: args => by
    rw [argumentsUnplaced, argumentsHeight, argumentsHeight, height_unplaced arg,
      argumentsHeight_unplaced args]

end

end Expr

/-- Every token can be written. -/
def Writable (ts : List PlacedToken) : Prop := ∀ t ∈ ts, ∃ lexeme, Lexeme lexeme t.token

/-- Tokens that can be written stand in a text, if at other places. -/
theorem exists_text {ts : List PlacedToken} {e : Expr} (h : Derives maxNesting .or ts e)
    (writable : Writable ts) :
    ∃ text e', Expr.parse text = .ok e' ∧ e'.unplaced = e.unplaced := by
  have exists_lexemes : ∃ lexemes, List.Forall₂ Lexeme lexemes (ts.map (·.token)) := by
    clear h
    induction ts with
    | nil => exact ⟨[], .nil⟩
    | cons t ts ih =>
      rw [Writable, List.forall_mem_cons] at writable
      obtain ⟨lexeme, first⟩ := writable.1
      obtain ⟨lexemes, rest⟩ := ih writable.2
      exact ⟨lexeme :: lexemes, .cons first rest⟩
  obtain ⟨lexemes, spelled⟩ := exists_lexemes
  obtain ⟨us, spells, same⟩ := spells_intercalate spelled 0
  obtain ⟨e', derives, unplaced⟩ := h.movable us same
  have read : tokenize (String.ofList ([' '].intercalate lexemes)) = .ok us := by
    rw [tokenize_ok_iff, String.toList_ofList]
    exact spells
  exact ⟨_, e', Parser.parse_ok_iff.2 ⟨us, read, derives⟩, unplaced⟩

section
variable {n k : Nat} {tier next : Tier} {token : Token} {op : BinaryOp} {ts us : List PlacedToken}
  {e : Expr}

/-- A number of one digit. -/
def oneToken : PlacedToken := ⟨.number "1", 0, 0⟩

theorem derives_one (n : Nat) (tier : Tier) : Derives n tier [oneToken] (.number "1") :=
  Derives.of_primary .number tier

theorem writable_one : Writable [oneToken] :=
  List.forall_mem_singleton.2
    ⟨_, Lexeme.number (.integer (List.cons_ne_nil '1' []) (by decide) .absent)⟩

theorem writable_sign (cs : List Char) (token : Token) (listed : (cs, token) ∈ signs) :
    Writable [⟨token, 0, 0⟩] :=
  List.forall_mem_singleton.2 ⟨cs, .sign listed⟩

theorem Writable.append (h : Writable ts) (h' : Writable us) : Writable (ts ++ us) :=
  List.forall_mem_append.2 ⟨h, h'⟩

/-- The operator can join as many ones to an expression as wanted. -/
theorem exists_joined (below : tier.tighter? = some next) (joins : Joins tier token op)
    (written : Writable [⟨token, 0, 0⟩]) (h : Derives n next ts e) (writable : Writable ts)
    (more : Nat) : ∃ us,
      Derives n tier us (.chain e (List.replicate (more + 1) (op, .number "1"))) ∧
        Writable us := by
  let link : BinaryOp × Piece := (op, ⟨⟨token, 0, 0⟩, [oneToken], .number "1"⟩)
  have same (l : BinaryOp × Piece) (hl : l ∈ List.replicate (more + 1) link) : l = link :=
    List.eq_of_mem_replicate hl
  have chain : Derives n tier _ _ :=
    @Derives.chain _ _ _ _ _ (List.replicate (more + 1) link) below h (List.cons_ne_nil link _)
      (fun l hl => same l hl ▸ joins) fun l hl => same l hl ▸ derives_one n next
  rw [List.map_replicate, List.map_replicate] at chain
  refine ⟨_, chain, writable.append fun t ht => ?_⟩
  rw [Piece.spell, List.mem_flatMap] at ht
  obtain ⟨piece, hp, ht⟩ := ht
  rw [List.eq_of_mem_replicate hp] at ht
  exact written.append writable_one t ht

/-- A sum can be as long as wanted. -/
theorem exists_chain (n : Nat) :
    ∃ text first rest, Expr.parse text = .ok (.chain first rest) ∧ rest.length = n + 1 := by
  obtain ⟨ts, sum, writable⟩ := exists_joined rfl .add (writable_sign ['+'] .plus (by decide))
    (derives_one maxNesting .product) writable_one n
  obtain ⟨text, e, parsed, same⟩ :=
    exists_text (.tighter rfl (.tighter rfl (.tighter rfl sum))) writable
  cases e with
  | chain first rest =>
    simp only [Expr.unplaced, Expr.chainUnplaced_eq_map, Expr.chain.injEq] at same
    have length := congrArg List.length same.2
    rw [List.length_map, List.length_map, List.length_replicate] at length
    exact ⟨text, first, rest, parsed, length⟩
  | _ => simp [Expr.unplaced] at same

/-- An expression of the tier can be written that is so high. -/
def Attains (n : Nat) (tier : Tier) (k : Nat) : Prop :=
  ∃ ts e, Derives n tier ts e ∧ Writable ts ∧ e.height = k

theorem Attains.joined (h : Attains n next k) (below : tier.tighter? = some next)
    (joins : Joins tier token op) (written : Writable [⟨token, 0, 0⟩]) :
    Attains n tier (k + 1) := by
  obtain ⟨ts, e, derives, writable, rfl⟩ := h
  obtain ⟨us, chain, writable⟩ := exists_joined below joins written derives writable 0
  refine ⟨us, _, chain, writable, ?_⟩
  have pos := e.height_pos
  rw [Expr.height, List.replicate_one, Expr.chainHeight, Expr.chainHeight, Expr.height]
  omega

/-- An operator of each tier above the prefix operators adds a node. -/
theorem Attains.widened (h : Attains n .unary k) : Attains n .or (k + 5) := by
  have sum : Attains n .sum (k + 2) :=
    (h.joined rfl .multiply (writable_sign ['*'] .times (by decide))).joined rfl .add
      (writable_sign ['+'] .plus (by decide))
  have comparison : Attains n .comparison (k + 3) := by
    obtain ⟨ts, e, derives, writable, height⟩ := sum
    have less : Derives n .comparison (ts ++ ⟨.less, 0, 0⟩ :: [oneToken]) _ :=
      .comparison derives .less (derives_one n .sum)
    refine ⟨_, _, less, ?_, ?_⟩
    · exact writable.append ((writable_sign ['<'] .less (by decide)).append writable_one)
    · rw [Expr.height, Expr.height]
      omega
  exact (comparison.joined rfl .and (writable_sign ['&', '&'] .and (by decide))).joined rfl .or
    (writable_sign ['|', '|'] .or (by decide))

/-- The bound is attained where every nesting is a call that is the base of a power. -/
theorem attains_highest (n : Nat) : Attains n .or (7 * n + 6) := by
  induction n with
  | zero => exact .widened (k := 1) ⟨_, _, derives_one 0 .unary, writable_one, rfl⟩
  | succ n ih =>
    obtain ⟨ts, e, derives, writable, height⟩ := ih
    have call : Derives (n + 1) .primary _ (.call "f" [e] 0) :=
      @Derives.call n 0 0 "f" ⟨.leftParen, 0, 0⟩ ⟨.rightParen, 0, 0⟩ ts e [] rfl derives
        nofun nofun rfl
    have power : Derives (n + 1) .power (_ ++ ⟨.caret, 0, 0⟩ :: [oneToken]) _ :=
      .power call rfl (derives_one n .unary)
    have name : Writable [⟨.name "f", 0, 0⟩] :=
      List.forall_mem_singleton.2 ⟨['f'], .word (by decide) (List.forall_mem_nil _)⟩
    have arguments : Writable (ts ++ [] ++ [⟨.rightParen, 0, 0⟩]) :=
      (writable.append (List.forall_mem_nil _)).append (writable_sign [')'] .rightParen (by decide))
    have called := name.append ((writable_sign ['('] .leftParen (by decide)).append arguments)
    have raised := called.append ((writable_sign ['^'] .caret (by decide)).append writable_one)
    refine Attains.widened (k := 7 * n + 8) ⟨_, _, .tighter rfl power, raised, ?_⟩
    have one : (Expr.number "1").height = 1 := rfl
    have higher : (Expr.call "f" [e] 0).height = e.height + 1 := by
      rw [Expr.height, Expr.argumentsHeight, Expr.argumentsHeight, Nat.max_zero]
    rw [Expr.height, higher, one, height]
    omega

end

namespace Expr

/-- A formula's tree is at most as high as 64 nestings allow, however long the text is, and so deep
at most do compiling and evaluating go: calls beyond that depth are not made. Chains, which add one
node whatever their length, can be as long as wanted. -/
theorem height_of_parse :
    (∀ text e, parse text = .ok e → e.height ≤ 7 * 64 + 6 ∧
      (∀ beyond names, compileStep^[7 * 64 + 6] beyond names e = e.compile names) ∧
      ∀ t, CompilesTo e t →
        ∀ beyond b, (Term.evalStep b)^[7 * 64 + 6] beyond t = t.eval b) ∧
    (∀ n, ∃ text first rest, parse text = .ok (.chain first rest) ∧ rest.length = n + 1) := by
  refine ⟨fun text e parsed => ?_, exists_chain⟩
  obtain ⟨ts, -, derives⟩ := Parser.parse_ok_iff.1 parsed
  have bound : e.height ≤ 7 * 64 + 6 := derives.height_le
  exact ⟨bound, fun beyond names => iterate_compileStep beyond bound names,
    fun t compiled beyond b => compiled.iterate_evalStep bound beyond b⟩

/-- A result for the calls that are not made changes nothing. -/
theorem height_of_parse_quotient : ∃ e t, parse "1/a" = .ok e ∧ e.height ≤ 7 * 64 + 6 ∧
    CompilesTo e t ∧
    (Term.evalStep ∅)^[7 * 64 + 6] (fun _ => .ok (.bool true)) t = .error (.unbound "a") := by
  let e : Expr := .chain (.number "1") [(.divide, .reference "a")]
  let t : Term := .chain (.constant (.number ⟨1, 0⟩)) [(.divide, .reference "a")]
  have read : tokenize "1/a" = .ok [⟨.number "1", 0, 1⟩, ⟨.over, 1, 2⟩, ⟨.name "a", 2, 3⟩] := by
    decide +kernel
  have quotient : Derives 64 .product
      ([⟨.number "1", 0, 1⟩] ++ ⟨.over, 1, 2⟩ :: [⟨.name "a", 2, 3⟩]) e :=
    .chain_one rfl (Derives.of_primary .number .unary) .divide
      (Derives.of_primary .reference .unary)
  have parsed : parse "1/a" = .ok e := Parser.parse_ok_iff.2
    ⟨_, read, .tighter rfl (.tighter rfl (.tighter rfl (.tighter rfl quotient)))⟩
  have compiled : CompilesTo e t := ⟨∅, rfl⟩
  obtain ⟨bound, -, evaluated⟩ := height_of_parse.1 "1/a" e parsed
  exact ⟨e, t, parsed, bound, compiled, evaluated t compiled _ ∅⟩

/-- The bound on the height cannot be lowered. -/
theorem exists_height_eq : ∃ text e, parse text = .ok e ∧ e.height = 7 * 64 + 6 := by
  obtain ⟨ts, e, derives, writable, height⟩ := attains_highest maxNesting
  obtain ⟨text, e', parsed, same⟩ := exists_text derives writable
  refine ⟨text, e', parsed, ?_⟩
  rw [← height_unplaced, same, height_unplaced, height]
  rfl

end Expr

end EquationSystem
