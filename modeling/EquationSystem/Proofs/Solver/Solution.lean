import EquationSystem.Proofs.Solver.Evaluation
import EquationSystem.Proofs.Solver.History
import Mathlib

/-!
# Solutions

A solver finds the one assignment that satisfies all its equations, where there is an order to
evaluate them in and such an assignment exists, and presents its values. The values are presented
at the end only: an equation is evaluated with the values of other equations as they were computed.
-/

namespace EquationSystem

@[simp] theorem Reply.result_ofResult {α : Type} (events : List Event)
    (result : Except SolveError α) : (Reply.ofResult events result).result = result := by
  cases result <;> rfl

namespace Solver

variable {s : Solver}

/-- What solving reports and answers: there is no order, or all names of the order have values, or
those before one that fails. -/
theorem solve_cases (h : s.Consistent) :
    (∃ e, s.ordered = .error e ∧ s.solve.1 = .ofResult [] (.error e)) ∨
    ∃ order values b result, s.ordered = .ok order ∧ Evaluates s ∅ values b ∧
      s.solve.1 = .ofResult (.solving order.length :: report values) result ∧
      (order = values.map Prod.fst ∧ result = .ok (b.toList.map fun v => (v.1, v.2.present)) ∨
        ∃ name rest e, order = values.map Prod.fst ++ name :: rest ∧ result = .error e ∧
          FailsAt s b name e) := by
  unfold solve evaluateAll
  cases ho : s.ordered with
  | error e => exact .inl ⟨e, rfl, rfl⟩
  | ok order =>
    obtain ⟨values, b, result, hv, hin, ending⟩ :=
      evaluateIn_cases s ∅ [.solving order.length] order
    rw [h.with_empty_bindings] at hin
    refine .inr ⟨order, values, b, _, rfl, hv, by simp only [hin]; rfl, ?_⟩
    rcases ending with ⟨whole, rfl⟩ | ⟨name, rest, e, split, rfl, fails⟩
    · exact .inl ⟨whole, rfl⟩
    · exact .inr ⟨name, rest, e, split, rfl, fails⟩

theorem mem_presented_iff {b : Bindings} {name : String} {value : Value} :
    (name, value) ∈ b.toList.map (fun v => (v.1, v.2.present)) ↔
      ∃ found, b.get? name = some found ∧ value = found.present := by
  simp only [List.mem_map, Prod.exists, Prod.mk.injEq, Bindings.mem_toList_iff]
  constructor
  · rintro ⟨_, found, hb, rfl, rfl⟩
    exact ⟨found, hb, rfl⟩
  · rintro ⟨found, hb, rfl⟩
    exact ⟨name, found, hb, rfl, rfl⟩

theorem IsAssignment.get?_eq {b c : Bindings} (hb : s.IsAssignment b) (hc : s.IsAssignment c)
    (agree : Term.Agree b c s.names) (name : String) : b.get? name = c.get? name := by
  by_cases hn : name ∈ s.names
  · exact agree name hn
  · have hb := mt (hb.domain name).1 hn
    have hc := mt (hc.domain name).1 hn
    rw [← Option.ne_none_iff_exists', not_not] at hb hc
    rw [hb, hc]

theorem IsAssignment.toList_perm {b : Bindings} (hb : s.IsAssignment b) (h : s.Consistent) :
    (b.toList.map Prod.fst).Perm s.names := by
  refine (List.perm_ext_iff_of_nodup b.names_nodup h.names_nodup).2 fun name => ?_
  simp only [List.mem_map, Prod.exists, Bindings.mem_toList_iff, exists_and_right, exists_eq_right,
    hb.domain]

/-- Where there is an order, solving finds the only assignment, or fails and there is none. -/
theorem solve_of_ordered {order : List String} (h : s.Consistent) (ho : s.ordered = .ok order) :
    (∃ b, s.IsAssignment b ∧ (∀ c, s.IsAssignment c → ∀ name, c.get? name = b.get? name) ∧
      s.solve.1.result = .ok (b.toList.map fun v => (v.1, v.2.present))) ∨
    (∃ e, s.solve.1.result = .error e) ∧ ∀ c, ¬s.IsAssignment c := by
  obtain ⟨nodup, perm, first⟩ := ordered_spec h ho
  rcases solve_cases h with ⟨e, failed, -⟩ | ⟨_, values, b, result, ho', hv, hsolve, ending⟩
  · rw [ho] at failed
    cases failed
  rw [ho] at ho'
  cases ho'
  have hresult : s.solve.1.result = result := by rw [hsolve, Reply.result_ofResult]
  rcases ending with ⟨whole, rfl⟩ | ⟨name, rest, e, split, rfl, fails⟩
  · have assigned := hv.isAssignment h first whole perm
    refine .inl ⟨b, assigned, fun c hc name => ?_, hresult⟩
    have agree := hv.agree h first hc [] [] (by simpa using whole) nofun
    refine hc.get?_eq assigned (fun name hn => (agree name ?_).symm) name
    rw [List.nil_append, ← whole]
    exact perm.mem_iff.2 hn
  · refine .inr ⟨⟨e, hresult⟩, fun c hc => ?_⟩
    have agree := hv.agree h first hc [] (name :: rest) split nofun
    obtain ⟨equation, known⟩ := h.mem_names_iff.1 (perm.mem_iff.1 (split ▸ by simp : name ∈ order))
    obtain ⟨value, -, satisfied⟩ := hc.equations equation (h.equation?_iff.1 known).1
    rw [← evaluate_congr_of_order h first split known agree] at satisfied
    cases fails with
    | unknown missing =>
      rw [known] at missing
      cases missing
    | evaluation known' fails =>
      rw [known] at known'
      cases known'
      rw [satisfied] at fails
      cases fails

/-- A solution exists exactly where there is an order and an assignment that satisfies all
equations. The assignment is the only one, and the solution presents its values. -/
theorem solve_ok_iff_exists_assignment (h : s.Reachable) :
    ((∃ solution, s.solve.1.result = .ok solution) ↔
      (∃ order, s.solvingOrder.result = .ok order) ∧ ∃ b, s.IsAssignment b) ∧
    (∀ order, s.solvingOrder.result = .ok order → ∀ b c, s.IsAssignment b → s.IsAssignment c →
      ∀ name, b.get? name = c.get? name) ∧
    ∀ solution, s.solve.1.result = .ok solution → ∀ b, s.IsAssignment b →
      (solution.map Prod.fst).Perm s.names ∧
      ∀ name value, (name, value) ∈ solution ↔
        ∃ found, b.get? name = some found ∧ value = found.present := by
  have hc := h.consistent
  simp only [solvingOrder, Reply.result_ofResult]
  cases ho : s.ordered with
  | error e =>
    have hsolve : s.solve.1.result = .error e := by
      rcases solve_cases hc with ⟨e', failed, hsolve⟩ | ⟨order, _, _, _, found, -⟩
      · rw [ho] at failed
        cases failed
        rw [hsolve, Reply.result_ofResult]
      · rw [ho] at found
        cases found
    rw [hsolve]
    refine ⟨by simp, nofun, nofun⟩
  | ok order =>
    rcases solve_of_ordered hc ho with ⟨b, assigned, unique, hsolve⟩ | ⟨⟨e, hsolve⟩, none⟩
    · refine ⟨⟨fun _ => ⟨⟨order, rfl⟩, b, assigned⟩, fun _ => ⟨_, hsolve⟩⟩, ?_, ?_⟩
      · intro _ _ c c' hc hc' name
        rw [unique c hc, unique c' hc']
      · intro solution found c hc'
        rw [hsolve] at found
        cases found
        refine ⟨?_, fun name value => ?_⟩
        · rw [List.map_map]
          exact assigned.toList_perm hc
        · rw [unique c hc']
          exact mem_presented_iff
    · rw [hsolve]
      refine ⟨by simp [none], ?_, nofun⟩
      exact fun _ _ c _ hc => absurd hc (none c)

/-- A solver with the equations `a = x` and `x = 7.0`. -/
def linked : Solver :=
  ((Solver.empty ⟨false⟩).insert ⟨"a", "x", .computed (.reference "x") (Names.insert ∅ "x")⟩).insert
    ⟨"x", "7.0", .constant ⟨70, 1⟩⟩

theorem read_linked (config : Config) :
    (readFormula config "a" "x").2 = .ok (.computed (.reference "x") (Names.insert ∅ "x")) ∧
      (readFormula config "x" "7.0").2 = .ok (.constant ⟨70, 1⟩) := by
  have tokens : Lexer.tokenize (String.ofList (stripReturns "x".toList)) =
      .ok [⟨.name "x", 0, 1⟩] := by decide +kernel
  exact ⟨readFormula_of_name (by decide +kernel) tokens,
    readFormula_ok_iff.2 (.inl ⟨⟨70, 1⟩, by decide +kernel, rfl⟩)⟩

theorem reachable_linked : linked.Reachable :=
  ((Reachable.empty _).insert (read_linked _).1).insert (read_linked _).2

theorem equations_linked : linked.equations = #[
    ⟨"a", "x", .computed (.reference "x") (Names.insert ∅ "x")⟩,
    ⟨"x", "7.0", .constant ⟨70, 1⟩⟩] := by cbv

theorem ordered_linked : linked.ordered = .ok ["x", "a"] := by
  have search : (Dependency.Search.start linked.names).within linked.dependencies 9 =
      some ⟨["a", "x"], .ok ["x", "a"]⟩ := by cbv
  rw [ordered, Dependency.sort_of_within _ search]

/-- The name `a` has the value of `x` as it is written. -/
def linkedValues : Bindings := .insert (.insert ∅ "x" (.number ⟨70, 1⟩)) "a" (.number ⟨70, 1⟩)

theorem assigned_linked : linked.IsAssignment linkedValues := by
  constructor
  · intro name
    by_cases ha : name = "a" <;> by_cases hx : name = "x" <;>
      simp [linkedValues, Bindings.get?_insert, names, equations_linked, eq_comm, ha, hx]
  · simp [linkedValues, Bindings.get?_insert, equations_linked, Equation.evaluate, Term.eval]

theorem solve_ok_linked : linked.Reachable ∧
    linkedValues.get? "a" = some (.number ⟨70, 1⟩) ∧ ∃ solution,
      linked.solve.1.result = .ok solution ∧ (solution.map Prod.fst).Perm ["a", "x"] ∧
      ("a", .number ⟨7, 0⟩) ∈ solution ∧ ("x", .number ⟨7, 0⟩) ∈ solution := by
  obtain ⟨ok_iff, -, spec⟩ := solve_ok_iff_exists_assignment reachable_linked
  obtain ⟨solution, found⟩ :=
    ok_iff.2 ⟨⟨_, by rw [solvingOrder, ordered_linked]; rfl⟩, _, assigned_linked⟩
  obtain ⟨perm, presented⟩ := spec solution found _ assigned_linked
  have names : linked.names = ["a", "x"] := by cbv
  have value : linkedValues.get? "a" = some (.number ⟨70, 1⟩) := by
    simp [linkedValues, Bindings.get?_insert]
  have value' : linkedValues.get? "x" = some (.number ⟨70, 1⟩) := by
    simp [linkedValues, Bindings.get?_insert]
  have present : .number ⟨7, 0⟩ = (Value.number ⟨70, 1⟩).present := by decide +kernel
  exact ⟨reachable_linked, value, solution, found, names ▸ perm,
    (presented _ _).2 ⟨_, value, present⟩, (presented _ _).2 ⟨_, value', present⟩⟩

end Solver

end EquationSystem
