import EquationSystem.Proofs.Formula.Missing
import EquationSystem.Proofs.Solver.Ordering

/-!
# Values that are there in time

Every name that a formula refers to is among its dependencies, which stand before it in an order and
have their values when its turn comes. So no formula misses a value, and no name of an order misses
its equation.
-/

namespace EquationSystem

def Equation.references (e : Equation) : List String :=
  match e.formula with
  | .constant _ => []
  | .computed term _ => term.references

theorem Equation.ReadsDependencies.references_subset {e : Equation} (h : e.ReadsDependencies) :
    e.references ⊆ e.dependencies := by
  rw [ReadsDependencies] at h
  rw [references, dependencies]
  cases hf : e.formula with
  | constant value => exact List.nil_subset _
  | computed term names =>
    rw [hf] at h
    exact h

/-- An equation misses only values of names that its formula refers to. -/
theorem Equation.evaluate_missesOnly {e : Equation} {b : Bindings} {absent : String → Prop}
    (h : ∀ name ∈ e.references, b.get? name = none → absent name) :
    MissesOnly absent (e.evaluate b) := by
  rw [references] at h
  rw [evaluate]
  cases hf : e.formula with
  | constant value => exact .ok
  | computed term names =>
    rw [hf] at h
    exact Term.eval_missesOnly h

namespace Solver

variable {s : Solver} {b b' : Bindings} {values : List (String × Value)} {order : List String}

theorem Evaluates.exists_value {name : String} (h : Evaluates s b values b')
    (hn : name ∈ values.map Prod.fst ∨ ∃ value, b.get? name = some value) :
    ∃ value, b'.get? name = some value := by
  induction h with
  | nil => exact hn.resolve_left List.not_mem_nil
  | @cons b b' e other value values known evaluates rest ih =>
    apply ih
    by_cases same : other = name
    · exact .inr ⟨value, by rw [Bindings.get?_insert, if_pos same]⟩
    · rw [Bindings.get?_insert, if_neg same]
      rw [List.map_cons, List.mem_cons] at hn
      exact hn.imp_left fun hn => hn.resolve_left (Ne.symm same)

/-- When the turn of a name comes, it has an equation, and all that the equation refers to has
values. -/
theorem Consistent.available (h : s.Consistent) (ho : s.ordered = .ok order) {name : String}
    {after : List String} (split : order = values.map Prod.fst ++ name :: after)
    (evaluated : Evaluates s b values b') :
    ∃ e, s.equation? name = some e ∧
      ∀ d ∈ e.references, ∃ value, b'.get? d = some value := by
  obtain ⟨-, -, first⟩ := ordered_spec h ho
  obtain ⟨found, hf, hd⟩ := first _ name after split
  obtain ⟨e, known, rfl⟩ := dependencies_ok_iff.1 hf
  have reads := (h.reads e (h.equation?_iff.1 known).1).references_subset
  exact ⟨e, known, fun d hr => evaluated.exists_value (.inl (hd d (reads hr)))⟩

/-- When the turn of a name comes, its equation misses no value. -/
theorem Consistent.misses_nothing (h : s.Consistent) (ho : s.ordered = .ok order) {name : String}
    {after : List String} (split : order = values.map Prod.fst ++ name :: after)
    (evaluated : Evaluates s b values b') {e : Equation} (known : s.equation? name = some e) :
    MissesOnly (fun _ => False) (e.evaluate b') := by
  obtain ⟨e', known', bound⟩ := h.available ho split evaluated
  rw [known] at known'
  cases known'
  apply Equation.evaluate_missesOnly
  intro d hd unbound
  obtain ⟨value, hvalue⟩ := bound d hd
  rw [unbound] at hvalue
  cases hvalue

/-- Solving never fails for want of a value. Along an order, no name is without an equation, and
every name that the formula of an equation refers to, be it in an operand, an argument or a branch
that is not taken, has a value by the time that the equation is evaluated. -/
theorem solve_ne_unbound (h : s.Reachable) :
    (∀ name expression missing,
      s.solve.1.result ≠ .error (.evaluation name expression (.unbound missing))) ∧
    ∀ order, s.ordered = .ok order →
      (∀ done name usedBy expression,
        (s.evaluateIn done order).2.1 ≠ .error (.unbound name usedBy expression)) ∧
      ∀ before name after done events t, order = before ++ name :: after →
        s.evaluateIn done before = (events, .ok (), t) →
        ∃ e, t.equation? name = some e ∧
          ∀ d ∈ e.references, ∃ value, t.bindings.get? d = some value := by
  have hc := h.consistent
  refine ⟨?_, fun order ho => ⟨?_, ?_⟩⟩
  · intro name expression missing failed
    rcases hc.solve_error_cases failed with
      ho | ⟨values, b, _, rest, e, _, ho, hv, known, fails, same⟩
    · rcases hc.ordered_error_cases ho with ⟨_, other, -⟩ | ⟨_, _, -, -, other⟩ <;> cases other
    · cases same
      exact hc.misses_nothing ho rfl hv known missing fails
  · intro done name usedBy expression failed
    obtain ⟨values, b, result, hv, hin, ending⟩ := evaluateIn_cases s ∅ done order
    rw [hc.with_empty_bindings] at hin
    rw [hin] at failed
    rcases ending with ⟨-, rfl⟩ | ⟨name, rest, e, split, rfl, fails⟩
    · cases failed
    · have hn : name ∈ order := split ▸ List.mem_append_right _ List.mem_cons_self
      obtain ⟨_, _, -, -, rfl⟩ := hc.evaluation_of_failsAt ho hn fails
      cases failed
  · intro before name after done events t split reached
    obtain ⟨values, b, result, hv, hin, ending⟩ := evaluateIn_cases s ∅ done before
    rw [hc.with_empty_bindings, reached] at hin
    cases hin
    rcases ending with ⟨rfl, -⟩ | ⟨_, _, _, -, failed, -⟩
    · exact hc.available ho split hv
    · cases failed

theorem evaluateIn_linked : linked.Reachable ∧ ∃ events t e,
    linked.evaluateIn [] ["x"] = (events, .ok (), t) ∧ t.equation? "a" = some e ∧
      "x" ∈ e.references ∧ ∃ value, t.bindings.get? "x" = some value := by
  obtain ⟨-, along⟩ := solve_ne_unbound reachable_linked
  obtain ⟨-, bound⟩ := along _ ordered_linked
  have reached : linked.evaluateIn [] ["x"] = ([.evaluated "x" (.number ⟨70, 1⟩)], .ok (),
      { linked with bindings := Bindings.insert ∅ "x" (.number ⟨70, 1⟩) }) := by cbv
  obtain ⟨e, known, values⟩ := bound ["x"] "a" [] [] _ _ rfl reached
  have refers : "x" ∈ e.references := by
    have he : linked.equation? "a" =
        some ⟨"a", "x", .computed (.reference "x") (Names.insert ∅ "x")⟩ := by cbv
    cases he.symm.trans known
    exact List.mem_cons_self
  exact ⟨reachable_linked, _, _, e, reached, known, refers, values "x" refers⟩

end Solver

end EquationSystem
