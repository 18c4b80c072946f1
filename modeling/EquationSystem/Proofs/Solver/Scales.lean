import EquationSystem.Proofs.Formula.Scales
import EquationSystem.Proofs.Solver.Locality

/-!
# Scales of solved values

A constant is read off its text like the numbers of a formula, so that the scales of all values that
a solver finds on its way are words, and those of the values that it presents.
-/

namespace EquationSystem

theorem Bindings.ScalesInRange.insert {b : Bindings} (h : b.ScalesInRange) {name : String} {v : Value}
    (hv : v.ScaleInRange) : (b.insert name v).ScalesInRange := by
  intro other w bound
  rw [Bindings.get?_insert] at bound
  split at bound
  · cases bound
    exact hv
  · exact h other w bound

theorem Value.scaleInRange_present (v : Value) : v.present.ScaleInRange := by
  cases v with
  | number x => exact x.scaleInRange_present
  | bool b => trivial

namespace Solver

variable {s : Solver} {b b' : Bindings}

theorem Reachable.evaluate_gives (h : s.Reachable) {e : Equation} (he : e ∈ s.equations)
    (hb : b.ScalesInRange) : Gives Value.ScaleInRange (e.evaluate b) := by
  obtain ⟨config, hread⟩ := h.read e he
  rcases readFormula_ok_iff.1 hread with ⟨x, literal, formula⟩ | ⟨-, _, t, _, -, compiled, formula⟩
  · rw [Equation.evaluate, formula]
    exact .ok (Decimal.scaleInRange_of_literal? literal)
  · rw [Equation.evaluate, formula]
    exact Expr.CompilesTo.eval_gives ⟨∅, congrArg Prod.fst compiled⟩ hb

/-- What one equation adds to the bindings keeps to words, and so does what all of them add. -/
theorem Reachable.evaluates_scaleInRange (h : s.Reachable) {values : List (String × Value)}
    (hv : Evaluates s b values b') (hb : b.ScalesInRange) :
    (∀ entry ∈ values, entry.2.ScaleInRange) ∧ b'.ScalesInRange := by
  induction hv with
  | nil => exact ⟨List.forall_mem_nil _, hb⟩
  | cons known evaluates _ ih =>
    have value := h.evaluate_gives (mem_of_equation? known) hb _ evaluates
    obtain ⟨values, last⟩ := ih (hb.insert value)
    exact ⟨List.forall_mem_cons.2 ⟨value, values⟩, last⟩

/-- Every number that is reported while a solver solves, or stands in its solution, has a scale of 64
bits. -/
theorem Reachable.solve_scaleInRange (h : s.Reachable) :
    (∀ name value, Event.evaluated name value ∈ s.solve.1.events → value.ScaleInRange) ∧
    ∀ solution, s.solve.1.result = .ok solution → ∀ entry ∈ solution, entry.2.ScaleInRange := by
  rcases solve_cases h.consistent with ⟨e, -, hsolve⟩ | ⟨_, values, b, result, -, hv, hsolve, ending⟩
  · rw [hsolve]
    exact ⟨fun name value reported => by simp [Reply.ofResult] at reported, nofun⟩
  · have found := (h.evaluates_scaleInRange hv nofun).1
    rw [hsolve, Reply.result_ofResult]
    refine ⟨fun name value reported => ?_, fun solution solved entry hentry => ?_⟩
    · have reported : Event.evaluated name value ∈ report values := by
        cases result <;> simpa [Reply.ofResult] using reported
      obtain ⟨entry, hentry, same⟩ := List.mem_map.1 reported
      cases same
      exact found _ hentry
    · rcases ending with ⟨-, rfl⟩ | ⟨_, _, _, -, rfl, -⟩
      · cases solved
        obtain ⟨bound, -, rfl⟩ := List.mem_map.1 hentry
        exact bound.2.scaleInRange_present
      · cases solved

end Solver

end EquationSystem
