import EquationSystem.Proofs.Formula.Presentation
import EquationSystem.Proofs.Solver.Independence

/-!
# Solvers of constants

Equations that are constants depend on nothing, so that they always have a solution, which presents
the constants.
-/

namespace EquationSystem

namespace Bindings

/-- The bindings with their values as they are presented. -/
def present (b : Bindings) : Bindings := ⟨b.values.map fun _ value => value.present⟩

theorem toList_present (b : Bindings) :
    b.present.toList = b.toList.map fun v => (v.1, v.2.present) :=
  Std.TreeMap.toList_map

theorem get?_present (b : Bindings) (name : String) :
    b.present.get? name = (b.get? name).map Value.present :=
  Std.TreeMap.getElem?_map

theorem present_present (b : Bindings) : b.present.present.toList = b.present.toList := by
  refine toList_eq_of_get?_eq fun name => ?_
  rw [get?_present, get?_present, Option.map_map]
  exact congrArg (Option.map · _) (funext Value.present_present)

end Bindings

namespace Solver

variable {s : Solver} {es : List Equation} {b : Bindings} {name : String} {value : Value}

/-- An equation for a constant. -/
def IsConstant (e : Equation) : Prop := ∃ x, e.formula = .constant x

/-- Constants have a solution. -/
theorem Consistent.solve_constants (h : s.Consistent)
    (constants : ∀ e ∈ s.equations, IsConstant e) :
    ∃ b, s.IsAssignment b ∧ s.solve.1.result = .ok b.present.toList := by
  have independent : ∀ e ∈ s.equations, e.dependencies = [] := by
    intro e he
    obtain ⟨x, formula⟩ := constants e he
    rw [Equation.dependencies, formula]
  have closed : ∀ e ∈ s.equations, ∀ d ∈ e.dependencies, d ∈ s.names := by
    intro e he d hd
    rw [independent e he] at hd
    cases hd
  have acyclic : ∀ name, ¬Relation.TransGen s.RefersTo name name := by
    intro name cycle
    obtain ⟨d, ⟨e, he, -, hd⟩, -⟩ := Relation.TransGen.head'_iff.1 cycle
    rw [independent e he] at hd
    cases hd
  obtain ⟨order, ho⟩ := h.ordered_ok_iff.2 ⟨closed, acyclic⟩
  rcases solve_of_ordered h ho with ⟨b, assigned, -, solved⟩ | ⟨⟨cause, failed⟩, -⟩
  · exact ⟨b, assigned, by rw [solved, Bindings.toList_present]⟩
  · rcases h.solve_error_cases failed with unordered | ⟨_, c, _, _, e, _, _, _, known, fails, _⟩
    · rw [ho] at unordered
      cases unordered
    · obtain ⟨x, formula⟩ := constants e (h.equation?_iff.1 known).1
      rw [Equation.evaluate, formula] at fails
      cases fails

/-- In an assignment, a name has the value of its constant. -/
theorem IsAssignment.get?_iff (h : s.IsAssignment b) (constants : ∀ e ∈ s.equations, IsConstant e) :
    b.get? name = some value ↔
      ∃ e ∈ s.equations, ∃ x, e.formula = .constant x ∧ e.name = name ∧ value = .number x := by
  have value_of {e : Equation} {x : Decimal} (he : e ∈ s.equations)
      (formula : e.formula = .constant x) : b.get? e.name = some (.number x) := by
    obtain ⟨found, bound, evaluates⟩ := h.equations e he
    rw [Equation.evaluate, formula] at evaluates
    cases evaluates
    exact bound
  constructor
  · intro bound
    obtain ⟨e, he, rfl⟩ := List.mem_map.1 ((h.domain name).1 ⟨value, bound⟩)
    rw [Array.mem_toList_iff] at he
    obtain ⟨x, formula⟩ := constants e he
    rw [value_of he formula] at bound
    exact ⟨e, he, x, formula, rfl, (Option.some.inj bound).symm⟩
  · rintro ⟨e, he, x, formula, rfl, rfl⟩
    exact value_of he formula

theorem Holds.foldl_insert (h : s.Holds es) {added : List Equation}
    (reads : ∀ e ∈ added, e.ReadsDependencies) :
    (added.foldl Solver.insert s).Holds (es ++ added) := by
  induction added generalizing s es with
  | nil => rwa [List.append_nil]
  | cons e added ih =>
    have rest := ih (h.insert (reads e List.mem_cons_self)) fun e' he' =>
      reads e' (List.mem_cons_of_mem e he')
    rwa [List.append_assoc, List.singleton_append] at rest

end Solver

end EquationSystem
