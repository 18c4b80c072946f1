import EquationSystem.Formula.Term

/-!
# Chains as nested operators

A chain is compiled and evaluated operand by operand, without nesting. It says the same as binary
operators nested to the left, of which the innermost has the first two operands of the chain.
Nesting all chains of an expression commutes with compiling it, so that the same names are recorded
and the same mistakes found, and nesting the chains of a term does not change its value in any
bindings.
-/

namespace EquationSystem

namespace Term

/-- Binary operators over the operands of a chain, nested to the left. -/
def nest (first : Term) (links : List (BinaryOp × Term)) : Term :=
  links.foldl (fun lhs link => .binary link.1 lhs link.2) first

mutual

/-- The term with binary operators in place of all its chains. -/
def nested : Term → Term
  | .constant value => .constant value
  | .reference name => .reference name
  | .unary op operand => .unary op operand.nested
  | .binary op lhs rhs => .binary op lhs.nested rhs.nested
  | .chain first rest => nest first.nested (chainNested rest)
  | .call builtin args => .call builtin (argumentsNested args)

def chainNested : List (BinaryOp × Term) → List (BinaryOp × Term)
  | [] => []
  | (op, operand) :: rest => (op, operand.nested) :: chainNested rest

def argumentsNested : List Term → List Term
  | [] => []
  | arg :: args => arg.nested :: argumentsNested args

end

theorem chainNested_eq_map (rest : List (BinaryOp × Term)) :
    chainNested rest = rest.map fun link => (link.1, link.2.nested) := by
  induction rest with
  | nil => rw [chainNested, List.map_nil]
  | cons link rest ih => rw [chainNested, ih, List.map_cons]

theorem argumentsNested_eq_map (args : List Term) : argumentsNested args = args.map nested := by
  induction args with
  | nil => rw [argumentsNested, List.map_nil]
  | cons arg args ih => rw [argumentsNested, ih, List.map_cons]

theorem nest_concat (first : Term) (links : List (BinaryOp × Term)) (op : BinaryOp)
    (operand : Term) :
    nest first (links ++ [(op, operand)]) = .binary op (nest first links) operand := by
  rw [nest, List.foldl_append, List.foldl_cons, List.foldl_nil]
  rfl

/-! ## Evaluating -/

variable (b : Bindings)

/-- The innermost operator is applied first, as the first one of a chain. -/
theorem eval_nest (first : Term) (links : List (BinaryOp × Term)) :
    (nest first links).eval b = (chain first links).eval b := by
  induction links generalizing first with
  | nil =>
    rw [nest, List.foldl_nil, eval]
    cases first.eval b with
    | ok value => exact (evalChain.eq_1 b value).symm
    | error e => rfl
  | cons link links ih =>
    obtain ⟨op, operand⟩ := link
    rw [nest, List.foldl_cons, ← nest, ih, eval, eval, eval]
    cases first.eval b with
    | ok value => exact (evalChain.eq_2 b value op operand links).symm
    | error e => rfl

mutual

theorem eval_nested : ∀ t : Term, t.nested.eval b = t.eval b
  | .constant value => by rw [nested]
  | .reference name => by rw [nested]
  | .unary op operand => by rw [nested, eval, eval, eval_nested operand]
  | .binary op lhs rhs => by rw [nested, eval, eval, eval_nested lhs, eval_nested rhs]
  | .chain first rest => by
    rw [nested, eval_nest, eval, eval, eval_nested first]
    simp only [evalChain_nested rest]
  | .call builtin args => by rw [nested, eval, eval, suspend_nested args]

theorem evalChain_nested : ∀ (rest : List (BinaryOp × Term)) (lhs : Value),
    evalChain b lhs (chainNested rest) = evalChain b lhs rest
  | [], lhs => by rw [chainNested]
  | (op, operand) :: rest, lhs => by
    rw [chainNested, evalChain, evalChain, eval_nested operand]
    simp only [evalChain_nested rest]

theorem suspend_nested : ∀ args : List Term, suspend b (argumentsNested args) = suspend b args
  | [] => by rw [argumentsNested]
  | arg :: args => by rw [argumentsNested, suspend, suspend, eval_nested arg, suspend_nested args]

end

end Term

namespace Expr

/-- Binary operators over the operands of a chain, nested to the left. -/
def nest (first : Expr) (links : List (BinaryOp × Expr)) : Expr :=
  links.foldl (fun lhs link => .binary link.1 lhs link.2) first

mutual

/-- The expression with binary operators in place of all its chains. -/
def nested : Expr → Expr
  | .number text => .number text
  | .bool value => .bool value
  | .reference name => .reference name
  | .unary op operand => .unary op operand.nested
  | .binary op lhs rhs => .binary op lhs.nested rhs.nested
  | .chain first rest => nest first.nested (chainNested rest)
  | .call name args position => .call name (argumentsNested args) position

def chainNested : List (BinaryOp × Expr) → List (BinaryOp × Expr)
  | [] => []
  | (op, operand) :: rest => (op, operand.nested) :: chainNested rest

def argumentsNested : List Expr → List Expr
  | [] => []
  | arg :: args => arg.nested :: argumentsNested args

end

theorem length_argumentsNested (args : List Expr) :
    (argumentsNested args).length = args.length := by
  induction args with
  | nil => rw [argumentsNested]
  | cons arg args ih => rw [argumentsNested, List.length_cons, ih, List.length_cons]

/-- No chain stands in the expression. -/
inductive Chainless : Expr → Prop
  | number {text : String} : Chainless (.number text)
  | bool {value : Bool} : Chainless (.bool value)
  | reference {name : String} : Chainless (.reference name)
  | unary {op : UnaryOp} {operand : Expr} (h : Chainless operand) : Chainless (.unary op operand)
  | binary {op : BinaryOp} {lhs rhs : Expr} (hlhs : Chainless lhs) (hrhs : Chainless rhs) :
      Chainless (.binary op lhs rhs)
  | call {name : String} {args : List Expr} {position : Nat} (h : ∀ arg ∈ args, Chainless arg) :
      Chainless (.call name args position)

theorem Chainless.nest {first : Expr} {links : List (BinaryOp × Expr)} (h : Chainless first)
    (hlinks : ∀ link ∈ links, Chainless link.2) : Chainless (nest first links) := by
  induction links generalizing first with
  | nil => exact h
  | cons link links ih =>
    rw [List.forall_mem_cons] at hlinks
    exact ih (.binary h hlinks.1) hlinks.2

mutual

theorem chainless_nested : ∀ e : Expr, e.nested.Chainless
  | .number text => by rw [nested]; exact .number
  | .bool value => by rw [nested]; exact .bool
  | .reference name => by rw [nested]; exact .reference
  | .unary op operand => by rw [nested]; exact .unary (chainless_nested operand)
  | .binary op lhs rhs => by
    rw [nested]
    exact .binary (chainless_nested lhs) (chainless_nested rhs)
  | .chain first rest => by
    rw [nested]
    exact (chainless_nested first).nest (chainless_chainNested rest)
  | .call name args position => by rw [nested]; exact .call (chainless_argumentsNested args)

theorem chainless_chainNested : ∀ rest : List (BinaryOp × Expr),
    ∀ link ∈ chainNested rest, Chainless link.2
  | [] => by
    rw [chainNested]
    exact List.forall_mem_nil _
  | (op, operand) :: rest => by
    rw [chainNested, List.forall_mem_cons]
    exact ⟨chainless_nested operand, chainless_chainNested rest⟩

theorem chainless_argumentsNested : ∀ args : List Expr,
    ∀ arg ∈ argumentsNested args, Chainless arg
  | [] => by
    rw [argumentsNested]
    exact List.forall_mem_nil _
  | arg :: args => by
    rw [argumentsNested, List.forall_mem_cons]
    exact ⟨chainless_nested arg, chainless_argumentsNested args⟩

end

/-! ## Compiling -/

theorem compile_nest_error {first : Expr} {names names' : Names} {e : SyntaxError}
    (h : first.compile names = (.error e, names')) (links : List (BinaryOp × Expr)) :
    (nest first links).compile names = (.error e, names') := by
  induction links generalizing first with
  | nil => exact h
  | cons link links ih =>
    refine ih ?_
    rw [compile, h]

/-- The operands `done` are already in the left operand. -/
theorem compile_nest_ok {first : Expr} {names names' : Names} {t : Term}
    {done : List (BinaryOp × Term)} (h : first.compile names = (.ok (t.nest done.reverse), names'))
    (links : List (BinaryOp × Expr)) : (nest first links).compile names =
      ((compileChain done names' links).1.map t.nest, (compileChain done names' links).2) := by
  induction links generalizing first names' done with
  | nil =>
    rw [compileChain]
    exact h
  | cons link links ih =>
    obtain ⟨op, operand⟩ := link
    rw [compileChain]
    rcases hoperand : operand.compile names' with ⟨e | u, names''⟩
    · refine compile_nest_error ?_ links
      rw [compile, h]
      dsimp only
      rw [hoperand]
    · refine ih ?_
      rw [compile, h, List.reverse_cons, Term.nest_concat]
      dsimp only
      rw [hoperand]

mutual

theorem compile_nested (names : Names) : ∀ e : Expr, e.nested.compile names =
    ((e.compile names).1.map Term.nested, (e.compile names).2)
  | .number text => by
    rw [nested, compile]
    cases Decimal.parse text <;> rfl
  | .bool value => by rw [nested, compile]; rfl
  | .reference name => by rw [nested, compile]; rfl
  | .unary op operand => by
    rw [nested, compile, compile, compile_nested names operand]
    rcases operand.compile names with ⟨e | t, names⟩ <;> rfl
  | .binary op lhs rhs => by
    rw [nested, compile, compile, compile_nested names lhs]
    rcases lhs.compile names with ⟨e | t, names⟩
    · rfl
    · dsimp only [Except.map]
      rw [compile_nested names rhs]
      rcases rhs.compile names with ⟨e | u, names⟩ <;> rfl
  | .chain first rest => by
    have ih := compile_nested names first
    rw [nested, compile]
    rcases hfirst : first.compile names with ⟨e | t, names'⟩ <;> rw [hfirst] at ih
    · exact compile_nest_error ih _
    · have links := compileChain_nested [] names' rest
      rw [Term.chainNested] at links
      rw [@compile_nest_ok _ _ _ _ [] ih, links]
      dsimp only
      rcases compileChain [] names' rest with ⟨e | links, names''⟩ <;> rfl
  | .call name args position => by
    rw [nested, compile, compile, length_argumentsNested]
    cases Builtin.ofName? name with
    | none => rfl
    | some f =>
      have terms := compileArguments_nested [] names args
      rw [Term.argumentsNested] at terms
      dsimp only
      split
      · rw [terms]
        rcases compileArguments [] names args with ⟨e | terms, names⟩ <;> rfl
      · rfl

theorem compileChain_nested (done : List (BinaryOp × Term)) (names : Names) :
    ∀ rest : List (BinaryOp × Expr), compileChain (Term.chainNested done) names (chainNested rest) =
      ((compileChain done names rest).1.map Term.chainNested, (compileChain done names rest).2)
  | [] => by
    rw [chainNested, compileChain, compileChain, Term.chainNested_eq_map, ← List.map_reverse,
      ← Term.chainNested_eq_map]
    rfl
  | (op, operand) :: rest => by
    rw [chainNested, compileChain, compileChain, compile_nested names operand]
    rcases operand.compile names with ⟨e | t, names⟩
    · rfl
    · exact compileChain_nested ((op, t) :: done) names rest

theorem compileArguments_nested (done : List Term) (names : Names) :
    ∀ args : List Expr, compileArguments (Term.argumentsNested done) names (argumentsNested args) =
      ((compileArguments done names args).1.map Term.argumentsNested,
        (compileArguments done names args).2)
  | [] => by
    rw [argumentsNested, compileArguments, compileArguments, Term.argumentsNested_eq_map,
      ← List.map_reverse, ← Term.argumentsNested_eq_map]
    rfl
  | arg :: args => by
    rw [argumentsNested, compileArguments, compileArguments, compile_nested names arg]
    rcases arg.compile names with ⟨e | t, names⟩
    · rfl
    · exact compileArguments_nested (t :: done) names args

end

/-- With binary operators nested to the left in place of its chains, at any depth, an expression
records the same names. It is refused for the same mistake, or has the same value or the same
failure in all bindings. -/
theorem nested_equivalent (e : Expr) (recorded : Names) :
    e.nested.Chainless ∧ (e.nested.compile recorded).2 = (e.compile recorded).2 ∧
      ∀ b, (e.nested.compile recorded).1.map (Term.eval b) =
        (e.compile recorded).1.map (Term.eval b) := by
  refine ⟨chainless_nested e, ?_, fun b => ?_⟩
  · rw [compile_nested]
  · rw [compile_nested]
    cases (e.compile recorded).1 with
    | error cause => rfl
    | ok t => exact congrArg Except.ok (t.eval_nested b)

end Expr

end EquationSystem
