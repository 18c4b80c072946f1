import EquationSystem.Proofs.Solver.Availability

/-!
# Solutions depend on the equations only

Whether there is an order, and which values satisfy all equations together, is told by the equations
as a set. So solvers that hold the same equations have the same solution, in whatever order the
equations were registered.
-/

namespace EquationSystem

/-- Bindings are listed by their names, so that the values tell the list. -/
theorem Bindings.toList_eq_of_get?_eq {b c : Bindings} (h : ∀ name, b.get? name = c.get? name) :
    b.toList = c.toList := by
  have perm : b.values.toList.Perm c.values.toList := by
    refine (List.perm_ext_iff_of_nodup (b.names_nodup.of_map _) (c.names_nodup.of_map _)).2 ?_
    intro ⟨name, value⟩
    have listed := @mem_toList_iff c name value
    rw [← h name, ← mem_toList_iff] at listed
    exact listed.symm
  exact (Std.TreeMap.Equiv.of_toList_perm perm).toList_eq

namespace Solver

variable {s t : Solver} {solution : Solution}

theorem Consistent.solve_of_ordered_error (h : s.Consistent) {cause : SolveError}
    (ho : s.ordered = .error cause) : s.solve.1.result = .error cause := by
  rcases solve_cases h with ⟨_, failed, hsolve⟩ | ⟨_, _, _, _, found, -⟩
  · rw [ho] at failed
    cases failed
    rw [hsolve, Reply.result_ofResult]
  · rw [ho] at found
    cases found

/-- Solving succeeds where there are an order and an assignment, whose values it presents. -/
theorem Consistent.solve_ok_iff (h : s.Consistent) :
    s.solve.1.result = .ok solution ↔
      (∃ order, s.ordered = .ok order) ∧
      ∃ b, s.IsAssignment b ∧ solution = b.toList.map fun v => (v.1, v.2.present) := by
  cases ho : s.ordered with
  | error cause =>
    rw [h.solve_of_ordered_error ho]
    constructor
    · nofun
    · rintro ⟨⟨_, found⟩, -⟩
      cases found
  | ok order =>
    rcases solve_of_ordered h ho with ⟨b, assigned, unique, hsolve⟩ | ⟨⟨cause, hsolve⟩, unsolvable⟩
    · rw [hsolve]
      constructor
      · intro found
        cases found
        exact ⟨⟨order, rfl⟩, b, assigned, rfl⟩
      · rintro ⟨-, c, hc, rfl⟩
        rw [Bindings.toList_eq_of_get?_eq (unique c hc)]
    · rw [hsolve]
      constructor
      · nofun
      · rintro ⟨-, b, hb, -⟩
        exact absurd hb (unsolvable b)

section
variable (same : ∀ e, e ∈ s.equations ↔ e ∈ t.equations)
include same

theorem mem_names_congr (name : String) : name ∈ s.names ↔ name ∈ t.names := by
  simp only [names, List.mem_map, Array.mem_toList_iff, same]

theorem IsAssignment.congr {b : Bindings} (h : s.IsAssignment b) : t.IsAssignment b where
  domain name := (h.domain name).trans (mem_names_congr same name)
  equations e he := h.equations e ((same e).2 he)

theorem isAssignment_congr (b : Bindings) : s.IsAssignment b ↔ t.IsAssignment b :=
  ⟨.congr same, .congr fun e => (same e).symm⟩

theorem refersTo_congr : s.RefersTo = t.RefersTo := by
  ext name d
  simp only [RefersTo, same]

theorem exists_ordered_congr (hs : s.Consistent) (ht : t.Consistent) :
    (∃ order, s.ordered = .ok order) ↔ ∃ order, t.ordered = .ok order := by
  rw [hs.ordered_ok_iff, ht.ordered_ok_iff, refersTo_congr same]
  simp only [same, mem_names_congr same]

/-- Solvers that hold the same equations have the same solution, or none. -/
theorem solve_ok_congr (hs : s.Consistent) (ht : t.Consistent) :
    s.solve.1.result = .ok solution ↔ t.solve.1.result = .ok solution := by
  rw [hs.solve_ok_iff, ht.solve_ok_iff, exists_ordered_congr same hs ht]
  simp only [isAssignment_congr same]

end

/-- Equations of different names are all held. -/
theorem Holds.mem_equations_iff {es : List Equation} (h : s.Holds es)
    (distinct : (es.map (·.name)).Nodup) {e : Equation} : e ∈ s.equations ↔ e ∈ es := by
  have held : e ∈ s.equations ↔ s.equation? e.name = some e := by
    simp [h.consistent.equation?_iff]
  rw [held, h.equation?_eq, List.findRev?_eq_find?_reverse]
  constructor
  · intro found
    exact List.mem_reverse.1 (List.mem_of_find?_eq_some found)
  · intro he
    have some : (es.reverse.find? (·.name == e.name)).isSome := by
      rw [List.find?_isSome]
      exact ⟨e, List.mem_reverse.2 he, beq_self_eq_true e.name⟩
    obtain ⟨e', found⟩ := Option.isSome_iff_exists.1 some
    have he' := List.mem_reverse.1 (List.mem_of_find?_eq_some found)
    have hname := List.find?_some found
    rw [found, List.inj_on_of_nodup_map distinct he' he (eq_of_beq hname)]

/-- A new solver with formulas registered under their names, one after the other. -/
def fed (config : Config) (pairs : List (String × String)) : Solver :=
  (empty config).after (pairs.map fun pair => .add (some pair.1) (some pair.2))

/-- The equations that formulas register under their names. Those that cannot be read are left
out. -/
def registrations (config : Config) (pairs : List (String × String)) : List Equation :=
  pairs.filterMap fun pair => Operation.registered? config (.add (some pair.1) (some pair.2))

section
variable (config : Config) {pairs pairs' : List (String × String)}

theorem holds_fed : (fed config pairs).Holds (registrations config pairs) := by
  have holds := ((Holds.empty config).after
    (pairs.map fun pair => .add (some pair.1) (some pair.2))).1
  rwa [List.nil_append, List.filterMap_map] at holds

theorem names_registrations_sublist :
    ((registrations config pairs).map (·.name)).Sublist (pairs.map Prod.fst) := by
  induction pairs with
  | nil => exact .slnil
  | cons pair pairs ih =>
    rw [registrations, List.filterMap_cons, ← registrations, List.map_cons, Operation.registered?]
    cases (readFormula config pair.1 pair.2).2 with
    | error cause => exact ih.cons _
    | ok formula => exact ih.cons_cons _

/-- Formulas that are registered under different names have the same solution, or none, in whatever
order they are registered. -/
theorem solve_fed_perm (distinct : (pairs.map Prod.fst).Nodup) (perm : pairs'.Perm pairs)
    (solution : Solution) :
    (fed config pairs').solve.1.result = .ok solution ↔
      (fed config pairs).solve.1.result = .ok solution := by
  have holds : (fed config pairs).Holds (registrations config pairs) := holds_fed config
  have holds' : (fed config pairs').Holds (registrations config pairs') := holds_fed config
  have distinct' := (perm.map Prod.fst).nodup_iff.2 distinct
  apply solve_ok_congr _ holds'.consistent holds.consistent
  intro e
  rw [holds.mem_equations_iff (distinct.sublist (names_registrations_sublist config)),
    holds'.mem_equations_iff (distinct'.sublist (names_registrations_sublist config))]
  exact (perm.filterMap _).mem_iff

end

theorem fed_linked : fed ⟨false⟩ [("a", "x"), ("x", "7.0")] = linked := by
  have first : ((empty ⟨false⟩).add (some "a") (some "x")).2 = _ :=
    (add_of_readFormula (read_linked _).1).2
  simp only [fed, List.map_cons, List.map_nil, after_cons, perform, first]
  exact (add_of_readFormula (read_linked _).2).2

theorem solve_fed_linked : ∃ solution,
    (fed ⟨false⟩ [("a", "x"), ("x", "7.0")]).solve.1.result = .ok solution ∧
      (fed ⟨false⟩ [("x", "7.0"), ("a", "x")]).solve.1.result = .ok solution ∧
      ("a", .number ⟨7, 0⟩) ∈ solution := by
  have solved := reachable_linked.consistent.solve_ok_iff.2
    ⟨⟨_, ordered_linked⟩, _, assigned_linked, rfl⟩
  rw [← fed_linked] at solved
  have swapped := (solve_fed_perm ⟨false⟩ (by decide) (.swap ("a", "x") ("x", "7.0") []) _).2 solved
  refine ⟨_, solved, swapped, ?_⟩
  -- The value of `a` is that of `x`, which is presented without the zero.
  have value : ("a", .number ⟨70, 1⟩) ∈ linkedValues.toList := by
    rw [Bindings.mem_toList_iff]
    simp [linkedValues, Bindings.get?_insert]
  have present : (Value.number ⟨70, 1⟩).present = .number ⟨7, 0⟩ := by decide +kernel
  rw [← present]
  exact List.mem_map.2 ⟨_, value, rfl⟩

end Solver

end EquationSystem
