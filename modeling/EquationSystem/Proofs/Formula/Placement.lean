import EquationSystem.Formula.Term
import EquationSystem.Proofs.Formula.Recognition

/-!
# The places of tokens and calls

What the parser accepts depends on the kinds of the tokens only. The places of the tokens become
those of the calls in the tree, and these matter to compiling only where it fails.
-/

namespace EquationSystem

/-- The error without the place at which it was noticed. -/
def SyntaxError.unplaced (e : SyntaxError) : SyntaxError := ⟨e.cause, 0⟩

namespace Expr

mutual

/-- The expression with all calls at the beginning of the text. -/
def unplaced : Expr → Expr
  | .number text => .number text
  | .bool value => .bool value
  | .reference name => .reference name
  | .unary op operand => .unary op operand.unplaced
  | .binary op lhs rhs => .binary op lhs.unplaced rhs.unplaced
  | .chain first rest => .chain first.unplaced (chainUnplaced rest)
  | .call name args _ => .call name (argumentsUnplaced args) 0

def chainUnplaced : List (BinaryOp × Expr) → List (BinaryOp × Expr)
  | [] => []
  | (op, operand) :: rest => (op, operand.unplaced) :: chainUnplaced rest

def argumentsUnplaced : List Expr → List Expr
  | [] => []
  | arg :: args => arg.unplaced :: argumentsUnplaced args

end

theorem chainUnplaced_eq_map (rest : List (BinaryOp × Expr)) :
    chainUnplaced rest = rest.map fun link => (link.1, link.2.unplaced) := by
  induction rest with
  | nil => rw [chainUnplaced, List.map_nil]
  | cons link rest ih => rw [chainUnplaced, ih, List.map_cons]

theorem argumentsUnplaced_eq_map (args : List Expr) :
    argumentsUnplaced args = args.map unplaced := by
  induction args with
  | nil => rw [argumentsUnplaced, List.map_nil]
  | cons arg args ih => rw [argumentsUnplaced, ih, List.map_cons]

mutual

theorem compile_unplaced (names : Names) : ∀ e : Expr, e.unplaced.compile names =
    ((e.compile names).1.mapError SyntaxError.unplaced, (e.compile names).2)
  | .number text => by
    rw [unplaced, compile]
    cases Decimal.parse text <;> rfl
  | .bool value => by rw [unplaced, compile]; rfl
  | .reference name => by rw [unplaced, compile]; rfl
  | .unary op operand => by
    rw [unplaced, compile, compile, compile_unplaced names operand]
    rcases operand.compile names with ⟨e | term, names⟩ <;> rfl
  | .binary op lhs rhs => by
    rw [unplaced, compile, compile, compile_unplaced names lhs]
    rcases lhs.compile names with ⟨e | first, names⟩
    · rfl
    · dsimp only [Except.mapError]
      rw [compile_unplaced names rhs]
      rcases rhs.compile names with ⟨e | second, names⟩ <;> rfl
  | .chain first rest => by
    rw [unplaced, compile, compile, compile_unplaced names first]
    rcases first.compile names with ⟨e | term, names⟩
    · rfl
    · dsimp only [Except.mapError]
      rw [compileChain_unplaced [] names rest]
      rcases compileChain [] names rest with ⟨e | terms, names⟩ <;> rfl
  | .call name args position => by
    rw [unplaced, compile, compile]
    cases Builtin.ofName? name with
    | none => rfl
    | some f =>
      have length : (argumentsUnplaced args).length = args.length := by
        rw [argumentsUnplaced_eq_map, List.length_map]
      dsimp only
      rw [length]
      split
      · rw [compileArguments_unplaced [] names args]
        rcases compileArguments [] names args with ⟨e | terms, names⟩ <;> rfl
      · rfl

theorem compileChain_unplaced (done : List (BinaryOp × Term)) (names : Names) :
    ∀ rest : List (BinaryOp × Expr), compileChain done names (chainUnplaced rest) =
      ((compileChain done names rest).1.mapError SyntaxError.unplaced,
        (compileChain done names rest).2)
  | [] => by rw [chainUnplaced, compileChain]; rfl
  | (op, operand) :: rest => by
    rw [chainUnplaced, compileChain, compileChain, compile_unplaced names operand]
    rcases operand.compile names with ⟨e | term, names⟩
    · rfl
    · exact compileChain_unplaced ((op, term) :: done) names rest

theorem compileArguments_unplaced (done : List Term) (names : Names) :
    ∀ args : List Expr, compileArguments done names (argumentsUnplaced args) =
      ((compileArguments done names args).1.mapError SyntaxError.unplaced,
        (compileArguments done names args).2)
  | [] => by rw [argumentsUnplaced, compileArguments]; rfl
  | arg :: args => by
    rw [argumentsUnplaced, compileArguments, compileArguments, compile_unplaced names arg]
    rcases arg.compile names with ⟨e | term, names⟩
    · rfl
    · exact compileArguments_unplaced (term :: done) names args

end

/-- Expressions that differ in the places of calls are compiled to the same term, with the same
names, or both not. -/
theorem compile_eq_of_unplaced_eq {e e' : Expr} (h : e.unplaced = e'.unplaced) (names : Names) :
    (e.compile names).2 = (e'.compile names).2 ∧
      (e.compile names).1.toOption = (e'.compile names).1.toOption := by
  have same := compile_unplaced names e
  rw [h, compile_unplaced names e', Prod.mk.injEq] at same
  have kept (x : Except SyntaxError Term) :
      (x.mapError SyntaxError.unplaced).toOption = x.toOption := by
    cases x <;> rfl
  refine ⟨same.2.symm, ?_⟩
  rw [← kept, ← same.1, kept]

end Expr

variable {n : Nat} {tier : Tier} {ts us : List PlacedToken} {e : Expr}

/-- The tokens are of the same kinds, one after the other. -/
def SameKinds (us ts : List PlacedToken) : Prop := us.map (·.token) = ts.map (·.token)

/-- Tokens of the same kinds are described as well, by the same expression but for places. -/
def Movable (R : List PlacedToken → Expr → Prop) (ts : List PlacedToken) (e : Expr) : Prop :=
  ∀ us, SameKinds us ts → ∃ e', R us e' ∧ e'.unplaced = e.unplaced

theorem SameKinds.exists_append {front back : List PlacedToken} (h : SameKinds us (front ++ back)) :
    ∃ front' back', us = front' ++ back' ∧ SameKinds front' front ∧ SameKinds back' back := by
  rw [SameKinds, List.map_append] at h
  exact List.map_eq_append_iff.1 h

theorem SameKinds.exists_cons {t : PlacedToken} {back : List PlacedToken}
    (h : SameKinds us (t :: back)) :
    ∃ t' back', us = t' :: back' ∧ t'.token = t.token ∧ SameKinds back' back := by
  rw [SameKinds, List.map_cons] at h
  exact List.map_eq_cons_iff.1 h

theorem SameKinds.eq_nil (h : SameKinds us []) : us = [] := List.map_eq_nil_iff.1 h

theorem SameKinds.exists_concat {t : PlacedToken} {front : List PlacedToken}
    (h : SameKinds us (front ++ [t])) :
    ∃ front' t', us = front' ++ [t'] ∧ SameKinds front' front ∧ t'.token = t.token := by
  obtain ⟨front', back, rfl, hfront, hback⟩ := h.exists_append
  obtain ⟨t', back', rfl, token, none⟩ := hback.exists_cons
  rw [none.eq_nil]
  exact ⟨front', t', rfl, hfront, token⟩

/-- Operands with what stands before them, in the places of tokens of the same kinds. -/
theorem exists_links {α : Type} {R : List PlacedToken → Expr → Prop} {links : List (α × Piece)}
    (movable : ∀ link ∈ links, Movable R link.2.tokens link.2.operand)
    (same : SameKinds us (Piece.spell (links.map (·.2)))) : ∃ links' : List (α × Piece),
      us = Piece.spell (links'.map (·.2)) ∧
      (∀ link' ∈ links', R link'.2.tokens link'.2.operand ∧
        ∃ link ∈ links, link'.1 = link.1 ∧ link'.2.sign.token = link.2.sign.token) ∧
      links'.map (fun link => (link.1, link.2.operand.unplaced)) =
        links.map fun link => (link.1, link.2.operand.unplaced) := by
  induction links generalizing us with
  | nil => exact ⟨[], same.eq_nil, nofun, rfl⟩
  | cons link links ih =>
    rw [List.forall_mem_cons] at movable
    rw [List.map_cons, Piece.spell_cons] at same
    obtain ⟨sign, us, rfl, hsign, same⟩ := same.exists_cons
    obtain ⟨tokens, us, rfl, operand, same⟩ := same.exists_append
    obtain ⟨e', h, unplaced⟩ := movable.1 tokens operand
    obtain ⟨links', rfl, hlinks, all⟩ := ih movable.2 same
    refine ⟨(link.1, ⟨sign, tokens, e'⟩) :: links', rfl, List.forall_mem_cons.2 ⟨?_, ?_⟩, ?_⟩
    · exact ⟨h, link, List.mem_cons_self, rfl, hsign⟩
    · intro link' mem
      obtain ⟨h, other, mem, same⟩ := hlinks link' mem
      exact ⟨h, other, List.mem_cons_of_mem _ mem, same⟩
    · rw [List.map_cons, List.map_cons, all, unplaced]

/-- Deriving depends on the kinds of the tokens only. -/
theorem Derives.movable (h : Derives n tier ts e) : Movable (Derives n tier) ts e := by
  induction h with
  | tighter below _ ih =>
    intro us same
    obtain ⟨e', h, unplaced⟩ := ih us same
    exact ⟨e', .tighter below h, unplaced⟩
  | @chain n tier next ts first links below _ nonempty joins _ ihfirst ihlinks =>
    intro us same
    obtain ⟨us, back, rfl, samefirst, same⟩ := same.exists_append
    obtain ⟨first', hfirst, unplaced⟩ := ihfirst us samefirst
    obtain ⟨links', rfl, hlinks, all⟩ := exists_links ihlinks same
    refine ⟨_, .chain below hfirst ?_ ?_ fun link' mem => (hlinks link' mem).1, ?_⟩
    · rintro rfl
      exact nonempty (List.map_eq_nil_iff.1 all.symm)
    · intro link' mem
      obtain ⟨-, link, mem, op, sign⟩ := hlinks link' mem
      rw [op, sign]
      exact joins link mem
    · simp only [Expr.unplaced, Expr.chainUnplaced_eq_map, List.map_map, unplaced]
      exact congrArg _ all
  | comparison _ compares _ ihlhs ihrhs =>
    intro us same
    obtain ⟨us, back, rfl, samelhs, same⟩ := same.exists_append
    obtain ⟨sign, back, rfl, hsign, samerhs⟩ := same.exists_cons
    obtain ⟨lhs, hlhs, unplaced⟩ := ihlhs us samelhs
    obtain ⟨rhs, hrhs, unplaced'⟩ := ihrhs back samerhs
    exact ⟨_, .comparison hlhs (hsign ▸ compares) hrhs, by
      simp only [Expr.unplaced, unplaced, unplaced']⟩
  | prefixed prefixes _ ih =>
    intro us same
    obtain ⟨sign, us, rfl, hsign, same⟩ := same.exists_cons
    obtain ⟨e', h, unplaced⟩ := ih us same
    exact ⟨_, .prefixed (hsign ▸ prefixes) h, by simp only [Expr.unplaced, unplaced]⟩
  | power _ caret _ ihbase ihexponent =>
    intro us same
    obtain ⟨us, back, rfl, samebase, same⟩ := same.exists_append
    obtain ⟨sign, back, rfl, hsign, same⟩ := same.exists_cons
    obtain ⟨base, hbase, unplaced⟩ := ihbase us samebase
    obtain ⟨exponent, hexponent, unplaced'⟩ := ihexponent back same
    exact ⟨_, .power hbase (hsign.trans caret) hexponent, by
      simp only [Expr.unplaced, unplaced, unplaced']⟩
  | number | bool | reference =>
    intro us same
    obtain ⟨⟨_, start, stop⟩, us, rfl, rfl, none⟩ := same.exists_cons
    obtain rfl := none.eq_nil
    exact ⟨_, by first | exact .number | exact .bool | exact .reference, rfl⟩
  | parentheses hleft _ hright ih =>
    intro us same
    obtain ⟨left, us, rfl, leftKind, same⟩ := same.exists_cons
    obtain ⟨us, right, rfl, inner, rightKind⟩ := same.exists_concat
    obtain ⟨e', h, unplaced⟩ := ih us inner
    exact ⟨_, .parentheses (leftKind.trans hleft) h (rightKind.trans hright), unplaced⟩
  | callWithoutArguments hleft hright =>
    intro us same
    obtain ⟨⟨_, start, stop⟩, us, rfl, rfl, list⟩ := same.exists_cons
    obtain ⟨left, us, rfl, leftKind, last⟩ := list.exists_cons
    obtain ⟨right, us, rfl, rightKind, none⟩ := last.exists_cons
    obtain rfl := none.eq_nil
    exact ⟨_, .callWithoutArguments (leftKind.trans hleft) (rightKind.trans hright), by
      simp only [Expr.unplaced, Expr.argumentsUnplaced]⟩
  | @call n start stop name left right ts first more hleft _ commas _ hright ihfirst ihmore =>
    intro us same
    obtain ⟨⟨_, start, stop⟩, us, rfl, rfl, list⟩ := same.exists_cons
    obtain ⟨left, us, rfl, leftKind, list'⟩ := list.exists_cons
    obtain ⟨us, right, rfl, arguments, rightKind⟩ := list'.exists_concat
    obtain ⟨us, back, rfl, firstKinds, moreKinds⟩ := arguments.exists_append
    obtain ⟨first', hfirst, unplaced⟩ := ihfirst us firstKinds
    -- The arguments after the first are links without operators.
    have pieces : (more.map (Prod.mk ())).map (·.2) = more := by
      rw [List.map_map]
      exact List.map_id more
    rw [← pieces] at moreKinds
    obtain ⟨links, rfl, hlinks, all⟩ := exists_links (List.forall_mem_map.2 ihmore) moreKinds
    refine ⟨_, .call (leftKind.trans hleft) hfirst (List.forall_mem_map.2 fun link mem => ?_)
      (List.forall_mem_map.2 fun link mem => (hlinks link mem).1) (rightKind.trans hright), ?_⟩
    · obtain ⟨-, other, listed, -, sign⟩ := hlinks link mem
      obtain ⟨piece, given, rfl⟩ := List.mem_map.1 listed
      exact sign.trans (commas piece given)
    · have operands := congrArg (List.map Prod.snd) all
      simp only [List.map_map] at operands
      simp only [Expr.unplaced, Expr.argumentsUnplaced_eq_map, List.map_cons, List.map_map,
        unplaced]
      exact congrArg (fun args => Expr.call name (first.unplaced :: args) 0) operands

theorem Parser.parseTokens_of_sameKinds (h : parseTokens ts = .ok e) (same : SameKinds us ts) :
    ∃ e', parseTokens us = .ok e' ∧ e'.unplaced = e.unplaced := by
  obtain ⟨e', derives, unplaced⟩ :=
    (read_expression_iff.1 (parseTokens_ok_iff.1 h)).movable us same
  exact ⟨e', parseTokens_ok_iff.2 (read_expression_iff.2 derives), unplaced⟩

end EquationSystem
