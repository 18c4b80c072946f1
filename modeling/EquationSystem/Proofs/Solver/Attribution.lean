import EquationSystem.Proofs.Solver.Availability

/-!
# Which equation fails

Solving stops at the first name of the order whose equation has no value, and reports that equation
with the cause. The values that the equation was evaluated with are those of the names before it,
found in the same call: a solver keeps none from one call to the next.
-/

namespace EquationSystem.Solver

variable {s : Solver} {b b' : Bindings} {values : List (String × Value)} {names : List String}

/-- Names that have values in turn are gone through, whatever comes after them. -/
theorem Evaluates.evaluateIn_append (h : Evaluates s b values b') (done : List Event) :
    ({ s with bindings := b } : Solver).evaluateIn done (values.map Prod.fst ++ names) =
      ({ s with bindings := b' } : Solver).evaluateIn ((report values).reverse ++ done) names := by
  induction h generalizing done with
  | nil => rfl
  | @cons b b' e name value values known evaluates rest ih =>
    have lookup : ({ s with bindings := b } : Solver).equation? name = some e := known
    rw [List.map_cons, List.cons_append, evaluateIn, lookup]
    simp only [evaluates, ih]
    simp [report]

/-- After some names of an order have values in turn, solving goes on with the others. -/
theorem Consistent.evaluateAll_of_evaluates (h : s.Consistent)
    (ho : s.ordered = .ok (values.map Prod.fst ++ names)) (hv : Evaluates s ∅ values b) :
    s.evaluateAll = ({ s with bindings := b } : Solver).evaluateIn
      ((report values).reverse ++ [.solving (values.map Prod.fst ++ names).length]) names := by
  rw [evaluateAll, ho, ← hv.evaluateIn_append, h.with_empty_bindings]

/-- The values found for the names of an order are those that each name has afterwards. -/
theorem Evaluates.get?_iff (h : Evaluates s ∅ values b) (nodup : (values.map Prod.fst).Nodup)
    {name : String} {value : Value} : b.get? name = some value ↔ (name, value) ∈ values := by
  constructor
  · intro hvalue
    by_cases hn : name ∈ values.map Prod.fst
    · obtain ⟨⟨name, found⟩, hmem, rfl⟩ := List.mem_map.1 hn
      rw [h.get?_of_mem nodup hmem] at hvalue
      cases hvalue
      exact hmem
    · rw [h.get?_of_not_mem hn, Bindings.get?_empty] at hvalue
      cases hvalue
  · exact h.get?_of_mem nodup

/-- Solving reports an equation exactly where the equations of all names before it in the order have
values in turn and it has none in the bindings of just these values. Where all equations of the
order have values in turn, there is a solution. -/
theorem solve_evaluation_iff (h : s.Reachable) :
    (∀ name expression cause,
      s.solve.1.result = .error (.evaluation name expression cause) ↔
        ∃ values rest b e, s.solvingOrder.result = .ok (values.map Prod.fst ++ name :: rest) ∧
          Evaluates s ∅ values b ∧ (∀ d v, b.get? d = some v ↔ (d, v) ∈ values) ∧
          s.equation? name = some e ∧ e.raw = expression ∧ e.evaluate b = .error cause) ∧
    ∀ values b, s.solvingOrder.result = .ok (values.map Prod.fst) → Evaluates s ∅ values b →
      ∃ solution, s.solve.1.result = .ok solution := by
  have hc := h.consistent
  simp only [solvingOrder, Reply.result_ofResult]
  refine ⟨fun name expression cause => ⟨fun failed => ?_, ?_⟩, fun values b ho hv => ?_⟩
  · rcases hc.solve_error_cases failed with
      ho | ⟨values, b, _, rest, e, _, ho, hv, known, fails, same⟩
    · rcases hc.ordered_error_cases ho with ⟨_, other, -⟩ | ⟨_, _, -, -, other⟩ <;> cases other
    · cases same
      obtain ⟨nodup, -, -⟩ := ordered_spec hc ho
      have distinct := (List.nodup_append.1 nodup).1
      exact ⟨values, rest, b, e, ho, hv, fun _ _ => hv.get?_iff distinct, known, rfl, fails⟩
  · rintro ⟨values, rest, b, e, ho, hv, -, known, rfl, fails⟩
    have lookup : ({ s with bindings := b } : Solver).equation? name = some e := known
    rw [solve, hc.evaluateAll_of_evaluates ho hv, Reply.result_ofResult, evaluateIn, lookup]
    simp only [fails]
    rfl
  · rw [← List.append_nil (values.map Prod.fst)] at ho
    rw [solve, hc.evaluateAll_of_evaluates ho hv, Reply.result_ofResult, evaluateIn]
    exact ⟨_, rfl⟩

/-- A solver with the equations `a = 0` and `b = 1/a`. -/
def divided : Solver :=
  ((Solver.empty ⟨false⟩).insert ⟨"a", "0", .constant ⟨0, 0⟩⟩).insert ⟨"b", "1/a", .computed
    (.chain (.constant (.number ⟨1, 0⟩)) [(.divide, .reference "a")]) (Names.insert ∅ "a")⟩

theorem read_divided (config : Config) :
    (readFormula config "a" "0").2 = .ok (.constant ⟨0, 0⟩) ∧
      (readFormula config "b" "1/a").2 = .ok (.computed (.chain (.constant (.number ⟨1, 0⟩))
        [(.divide, .reference "a")]) (Names.insert ∅ "a")) := by
  have tokens : Lexer.tokenize (String.ofList (stripReturns "1/a".toList)) =
      .ok [⟨.number "1", 0, 1⟩, ⟨.over, 1, 2⟩, ⟨.name "a", 2, 3⟩] := by decide +kernel
  have quotient : Derives 64 .product [⟨.number "1", 0, 1⟩, ⟨.over, 1, 2⟩, ⟨.name "a", 2, 3⟩]
      (.chain (.number "1") [(.divide, .reference "a")]) :=
    Derives.chain_one rfl (Derives.of_primary .number .unary) .divide
      (Derives.of_primary .reference .unary)
  have compiled : (Expr.chain (.number "1") [(.divide, .reference "a")]).compile ∅ =
      (.ok (.chain (.constant (.number ⟨1, 0⟩)) [(.divide, .reference "a")]),
        Names.insert ∅ "a") := by
    have one : Decimal.parse "1" = .ok ⟨1, 0⟩ := by decide +kernel
    simp [Expr.compile, Expr.compileChain, one]
  exact ⟨readFormula_ok_iff.2 (.inl ⟨⟨0, 0⟩, by decide +kernel, rfl⟩),
    readFormula_of_derives (by decide +kernel) tokens
      (.tighter rfl (.tighter rfl (.tighter rfl (.tighter rfl quotient)))) compiled⟩

theorem solve_evaluation_divided : divided.Reachable ∧
    divided.solve.1.result = .error (.evaluation "b" "1/a" .divisionByZero) ∧
    linked.Reachable ∧ ∃ solution, linked.solve.1.result = .ok solution := by
  have reachable : divided.Reachable :=
    ((Reachable.empty _).insert (read_divided _).1).insert (read_divided _).2
  refine ⟨reachable, ?_, reachable_linked, ?_⟩
  · have search : (Dependency.Search.start divided.names).within divided.dependencies 9 =
        some ⟨["a", "b"], .ok ["a", "b"]⟩ := by cbv
    have ordered : divided.solvingOrder.result = .ok ["a", "b"] := by
      rw [solvingOrder, Reply.result_ofResult, Solver.ordered, Dependency.sort_of_within _ search]
    have known : divided.equation? "a" = some ⟨"a", "0", .constant ⟨0, 0⟩⟩ := by cbv
    have failing : divided.equation? "b" = some ⟨"b", "1/a", .computed
      (.chain (.constant (.number ⟨1, 0⟩)) [(.divide, .reference "a")]) (Names.insert ∅ "a")⟩ := by
      cbv
    have evaluated : divided.Evaluates ∅ [("a", .number ⟨0, 0⟩)] (Bindings.insert ∅ "a" _) :=
      .cons known rfl .nil
    refine ((solve_evaluation_iff reachable).1 _ _ _).2 ⟨[("a", .number ⟨0, 0⟩)], [], _, _,
      ordered, evaluated, fun _ _ => evaluated.get?_iff (List.nodup_singleton _), failing, rfl, ?_⟩
    cbv
  · have x : linked.equation? "x" = some ⟨"x", "7.0", .constant ⟨70, 1⟩⟩ := by cbv
    have a : linked.equation? "a" =
      some ⟨"a", "x", .computed (.reference "x") (Names.insert ∅ "x")⟩ := by cbv
    have ordered : linked.solvingOrder.result = .ok ["x", "a"] := by
      rw [solvingOrder, Reply.result_ofResult, ordered_linked]
    let b : Bindings := Bindings.insert ∅ "x" (.number ⟨70, 1⟩)
    have found : b.get? "x" = some (.number ⟨70, 1⟩) := by simp [b, Bindings.get?_insert]
    refine (solve_evaluation_iff reachable_linked).2
      [("x", .number ⟨70, 1⟩), ("a", .number ⟨70, 1⟩)] _ ordered (.cons x rfl (.cons a ?_ .nil))
    simp [Equation.evaluate, Term.eval, b, found]

end EquationSystem.Solver
