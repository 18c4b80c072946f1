import EquationSystem.Proofs.Solver.History
import EquationSystem.Proofs.Solver.Solution

/-!
# Where there is an order

An equation refers to names, which may have equations that refer to further names. There is an
order exactly where all names that equations refer to are registered and none refers back to itself
over any number of equations. Otherwise the search for an order finds such a circle, or a name
without an equation, for which the first equation that refers to it is reported.
-/

namespace EquationSystem.Solver

open Dependency Relation

def RefersTo (s : Solver) (name d : String) : Prop :=
  ∃ e ∈ s.equations, e.name = name ∧ d ∈ e.dependencies

/-- Of the equations that refer to `name`, `e` was registered first. -/
def FirstReference (s : Solver) (name : String) (e : Equation) : Prop :=
  name ∈ e.dependencies ∧ ∃ before after, s.equations.toList = before ++ e :: after ∧
    ∀ earlier ∈ before, name ∉ earlier.dependencies

variable {s : Solver} {name d : String} {e : Equation}

theorem dependencies_error_iff {cause : SolveError} :
    s.dependencies name = .error cause ↔ s.equation? name = none ∧ s.unbound name = cause := by
  rw [dependencies]
  cases s.equation? name <;> simp

/-- The error for a name that is referred to names the first equation that does so. -/
theorem exists_firstReference (he : e ∈ s.equations) (hd : name ∈ e.dependencies) :
    ∃ first, s.FirstReference name first ∧
      s.unbound name = .unbound name first.name first.raw := by
  have found : (s.equations.toList.find? (·.dependsOn name)).isSome := by
    rw [List.find?_isSome]
    exact ⟨e, Array.mem_toList_iff.2 he, Equation.dependsOn_iff.2 hd⟩
  obtain ⟨first, hfirst⟩ := Option.isSome_iff_exists.1 found
  obtain ⟨refers, before, after, split, earlier⟩ := List.find?_eq_some_iff_append.1 hfirst
  refine ⟨first, ⟨Equation.dependsOn_iff.1 refers, before, after, split, fun e' he' hd' => ?_⟩, ?_⟩
  · have none := earlier e' he'
    rw [Equation.dependsOn_iff.2 hd'] at none
    cases none
  · rw [unbound, hfirst]

namespace Consistent

theorem mem_names_of_mem (h : s.Consistent) (he : e ∈ s.equations) : e.name ∈ s.names :=
  h.mem_names_iff.2 ⟨e, h.equation?_iff.2 ⟨he, rfl⟩⟩

theorem dependsOn_iff (h : s.Consistent) :
    DependsOn s.dependencies name d ↔ s.RefersTo name d := by
  constructor
  · rintro ⟨found, hf, hd⟩
    obtain ⟨e, known, rfl⟩ := dependencies_ok_iff.1 hf
    obtain ⟨he, hname⟩ := h.equation?_iff.1 known
    exact ⟨e, he, hname, hd⟩
  · rintro ⟨e, he, hname, hd⟩
    exact ⟨e.dependencies, dependencies_ok_iff.2 ⟨e, h.equation?_iff.2 ⟨he, hname⟩, rfl⟩, hd⟩

theorem onCycle_iff (h : s.Consistent) :
    OnCycle s.dependencies name ↔ TransGen s.RefersTo name name := by
  have same : DependsOn s.dependencies = s.RefersTo := by
    ext name d
    exact h.dependsOn_iff
  rw [OnCycle, same]

/-- What the search reaches is registered or was referred to by an equation. -/
theorem referred_of_reached (h : s.Consistent) (hn : ReachedFrom s.dependencies s.names name) :
    name ∈ s.names ∨ ∃ e ∈ s.equations, name ∈ e.dependencies := by
  obtain ⟨root, hr, reaches⟩ := hn
  cases reaches with
  | refl => exact .inl hr
  | tail _ last =>
    obtain ⟨e, he, -, hd⟩ := h.dependsOn_iff.1 last
    exact .inr ⟨e, he, hd⟩

/-- What keeps the names from being ordered is a circle, or a name that is referred to and has no
equation. -/
theorem ordered_error_cases (h : s.Consistent) {cause : SolveError}
    (ho : s.ordered = .error cause) :
    (∃ names, cause = .cycle names ∧ ∃ name ∈ names, TransGen s.RefersTo name name) ∨
    ∃ name first, name ∉ s.names ∧ s.FirstReference name first ∧
      cause = .unbound name first.name first.raw := by
  rw [ordered] at ho
  split at ho
  · cases ho
  · next names hsort =>
    cases ho
    have report := cycleReport_of_run _ hsort
    obtain ⟨first, hf, -, -⟩ := report.component
    have hmem := List.mem_of_head? hf
    exact .inl ⟨names, rfl, first, hmem, h.onCycle_iff.1 (report.onCycle hmem)⟩
  · next e hsort =>
    cases ho
    obtain ⟨name, reached, untold⟩ := untold_of_run _ hsort
    obtain ⟨unknown, hcause⟩ := dependencies_error_iff.1 untold
    have new : name ∉ s.names := by
      rw [h.mem_names_iff, unknown]
      rintro ⟨_, known⟩
      cases known
    obtain ⟨e, he, hd⟩ := (h.referred_of_reached reached).resolve_left new
    obtain ⟨first, hfirst, herror⟩ := exists_firstReference he hd
    exact .inr ⟨name, first, new, hfirst, hcause.symm.trans herror⟩

/-- There is an order exactly where every name that is referred to is registered and no name refers
to itself over any number of equations. -/
theorem ordered_ok_iff (h : s.Consistent) :
    (∃ order, s.ordered = .ok order) ↔
      (∀ e ∈ s.equations, ∀ d ∈ e.dependencies, d ∈ s.names) ∧
      ∀ name, ¬TransGen s.RefersTo name name := by
  constructor
  · rintro ⟨order, ho⟩
    obtain ⟨nodup, perm, first⟩ := ordered_spec h ho
    have mem_of_refers : ∀ {name d}, s.RefersTo name d → name ∈ order := by
      rintro name d ⟨e, he, rfl, -⟩
      exact perm.mem_iff.2 (h.mem_names_of_mem he)
    constructor
    · intro e he d hd
      have refers : s.RefersTo e.name d := ⟨e, he, rfl, hd⟩
      exact perm.mem_iff.1 (first.mem_of_reaches (mem_of_refers refers)
        (.single (h.dependsOn_iff.2 refers)))
    · intro name cycle
      obtain ⟨d, refers, -⟩ := TransGen.head'_iff.1 cycle
      exact first.not_onCycle nodup (mem_of_refers refers) (h.onCycle_iff.2 cycle)
  · rintro ⟨closed, acyclic⟩
    cases ho : s.ordered with
    | ok order => exact ⟨order, rfl⟩
    | error cause =>
      rcases h.ordered_error_cases ho with ⟨-, -, name, -, cycle⟩ | ⟨name, first, new, hfirst, -⟩
      · exact absurd cycle (acyclic name)
      · obtain ⟨refers, before, after, split, -⟩ := hfirst
        have he : first ∈ s.equations := by
          rw [← Array.mem_toList_iff, split]
          exact List.mem_append_right _ List.mem_cons_self
        exact absurd (closed first he name refers) new

/-- A name of an order is registered, so that it fails where its equation does. -/
theorem evaluation_of_failsAt (h : s.Consistent) {order : List String} (ho : s.ordered = .ok order)
    (hn : name ∈ order) {b : Bindings} {cause : SolveError} (fails : FailsAt s b name cause) :
    ∃ e reason, s.equation? name = some e ∧ e.evaluate b = .error reason ∧
      cause = .evaluation name e.raw reason := by
  cases fails with
  | unknown missing =>
    obtain ⟨-, perm, -⟩ := ordered_spec h ho
    obtain ⟨e, known⟩ := h.mem_names_iff.1 (perm.mem_iff.1 hn)
    rw [missing] at known
    cases known
  | evaluation known fails => exact ⟨_, _, known, fails, rfl⟩

/-- Where solving fails there is no order, or the equation of a name has no value in the values of
those before it. -/
theorem solve_error_cases (h : s.Consistent) {cause : SolveError}
    (hs : s.solve.1.result = .error cause) :
    s.ordered = .error cause ∨
    ∃ values b name rest e reason, s.ordered = .ok (values.map Prod.fst ++ name :: rest) ∧
      Evaluates s ∅ values b ∧ s.equation? name = some e ∧ e.evaluate b = .error reason ∧
      cause = .evaluation name e.raw reason := by
  rcases solve_cases h with ⟨e, failed, hsolve⟩ | ⟨order, values, b, result, ho, hv, hsolve, ending⟩
  · rw [hsolve, Reply.result_ofResult] at hs
    cases hs
    exact .inl failed
  · rw [hsolve, Reply.result_ofResult] at hs
    rcases ending with ⟨-, rfl⟩ | ⟨name, rest, e, rfl, rfl, fails⟩
    · cases hs
    · cases hs
      have hn : name ∈ values.map Prod.fst ++ name :: rest :=
        List.mem_append_right _ List.mem_cons_self
      obtain ⟨e, reason, known, evaluates, rfl⟩ := h.evaluation_of_failsAt ho hn fails
      exact .inr ⟨values, b, name, rest, e, reason, ho, hv, known, evaluates, rfl⟩

end Consistent

/-- There is an order exactly where every dependency is registered and the dependencies have no
circle, and it holds the registered names. An error for a name without an equation, of ordering or
of solving, names the equation that refers to it and was registered first. -/
theorem solvingOrder_spec (h : s.Reachable) :
    ((∃ order, s.solvingOrder.result = .ok order) ↔
      (∀ e ∈ s.equations, ∀ d ∈ e.dependencies, d ∈ s.names) ∧
      ∀ name, ¬TransGen s.RefersTo name name) ∧
    (∀ order, s.solvingOrder.result = .ok order → order.Perm s.names) ∧
    ∀ name usedBy expression,
      s.solvingOrder.result = .error (.unbound name usedBy expression) ∨
        s.solve.1.result = .error (.unbound name usedBy expression) →
      name ∉ s.names ∧
        ∃ first, s.FirstReference name first ∧ usedBy = first.name ∧ expression = first.raw := by
  have hc := h.consistent
  simp only [solvingOrder, Reply.result_ofResult]
  refine ⟨hc.ordered_ok_iff, fun order ho => (ordered_spec hc ho).2.1, ?_⟩
  intro name usedBy expression failed
  have ho : s.ordered = .error (.unbound name usedBy expression) := by
    rcases failed with ho | hs
    · exact ho
    · rcases hc.solve_error_cases hs with ho | ⟨_, _, _, _, _, _, _, _, _, _, other⟩
      · exact ho
      · cases other
  rcases hc.ordered_error_cases ho with ⟨_, other, -⟩ | ⟨_, first, new, hfirst, same⟩
  · cases other
  · cases same
    exact ⟨new, first, hfirst, rfl, rfl⟩

/-- A solver with the equations `a = c`, `d = b` and `c = b`. -/
def dangling : Solver :=
  (((Solver.empty ⟨false⟩).insert
    ⟨"a", "c", .computed (.reference "c") (Names.insert ∅ "c")⟩).insert
    ⟨"d", "b", .computed (.reference "b") (Names.insert ∅ "b")⟩).insert
    ⟨"c", "b", .computed (.reference "b") (Names.insert ∅ "b")⟩

/-- The search comes to `b` by way of `c`, but the equation of `d` was registered before. -/
theorem solvingOrder_dangling : dangling.Reachable ∧
    dangling.solvingOrder.result = .error (.unbound "b" "d" "b") ∧ "b" ∉ dangling.names ∧
    ∃ first, dangling.FirstReference "b" first ∧ "d" = first.name ∧ "b" = first.raw := by
  have reachable : dangling.Reachable := by
    have tokens : Lexer.tokenize (String.ofList (stripReturns "b".toList)) =
        .ok [⟨.name "b", 0, 1⟩] := by decide +kernel
    have tokens' : Lexer.tokenize (String.ofList (stripReturns "c".toList)) =
        .ok [⟨.name "c", 0, 1⟩] := by decide +kernel
    refine Reachable.insert (Reachable.insert (Reachable.insert (.empty _)
      (readFormula_of_name ?_ tokens')) (readFormula_of_name ?_ tokens))
      (readFormula_of_name ?_ tokens) <;> decide +kernel
  have failed : dangling.solvingOrder.result = .error (.unbound "b" "d" "b") := by
    have search : (Search.start dangling.names).within dangling.dependencies 9 =
        some ⟨["a", "c", "b"], .error (.edge (.unbound "b" "d" "b"))⟩ := by cbv
    rw [solvingOrder, Reply.result_ofResult, ordered, sort_of_within _ search]
  exact ⟨reachable, failed, (solvingOrder_spec reachable).2.2 _ _ _ (.inl failed)⟩

end EquationSystem.Solver
