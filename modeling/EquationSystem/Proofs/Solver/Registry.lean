import EquationSystem.Proofs.Formula.Visits
import EquationSystem.Solver.Basic
import Mathlib.Data.List.Nodup

/-!
# The equations of a solver

A solver that is reached by registering and solving holds one equation for every registered name,
at the place that its index gives, and the formula of an equation reads no other names than its
dependencies. Between the operations it holds no values.
-/

namespace EquationSystem

/-- The formula reads no names besides the dependencies. -/
def Equation.ReadsDependencies (e : Equation) : Prop :=
  match e.formula with
  | .constant _ => True
  | .computed term dependencies => term.references ⊆ dependencies.toList

theorem Equation.ReadsDependencies.evaluate_congr {e : Equation} {b b' : Bindings}
    (h : e.ReadsDependencies) (agree : Term.Agree b b' e.dependencies) :
    e.evaluate b = e.evaluate b' := by
  unfold ReadsDependencies at h
  unfold dependencies at agree
  unfold evaluate
  cases hf : e.formula with
  | constant value => rfl
  | computed term names =>
    rw [hf] at h agree
    exact Term.eval_congr (agree.mono h)

namespace Solver

/-- A solver that results from registering formulas and solving, in any order. -/
inductive Reachable : Solver → Prop
  | empty (config : Config) : Reachable (.empty config)
  | add {s : Solver} (h : Reachable s) (name raw : Option String) : Reachable (s.add name raw).2
  | solve {s : Solver} (h : Reachable s) : Reachable s.solve.2

/-- The invariant of a solver between its operations. -/
structure Consistent (s : Solver) : Prop where
  index_iff : ∀ (name : String) (place : Nat),
    s.index[name]? = some place ↔ s.names[place]? = some name
  reads : ∀ e ∈ s.equations, e.ReadsDependencies
  bindings_eq : s.bindings = ∅

variable {s : Solver} {name : String} {e : Equation}

theorem getElem?_names {place : Nat} :
    s.names[place]? = some name ↔ ∃ e, s.equations[place]? = some e ∧ e.name = name := by
  simp [names]

theorem mem_of_mem_insert {e' : Equation} (h : e' ∈ (s.insert e).equations) :
    e' ∈ s.equations ∨ e' = e := by
  rw [insert] at h
  split at h
  · exact Array.mem_or_eq_of_mem_setIfInBounds h
  · exact Array.mem_push.1 h

namespace Consistent

theorem empty (config : Config) : Consistent (.empty config) where
  index_iff := by simp [Solver.empty, names]
  reads := by simp [Solver.empty]
  bindings_eq := rfl

theorem names_nodup (h : s.Consistent) : s.names.Nodup := by
  refine List.nodup_iff_getElem?_ne_getElem?.2 fun i j hij hj same => ?_
  rw [List.getElem?_eq_getElem hj] at same
  have hi := (h.index_iff _ i).2 same
  rw [(h.index_iff _ j).2 (List.getElem?_eq_getElem hj)] at hi
  cases hi
  exact Nat.lt_irrefl _ hij

theorem equation?_iff (h : s.Consistent) :
    s.equation? name = some e ↔ e ∈ s.equations ∧ e.name = name := by
  unfold equation?
  rw [Option.bind_eq_some_iff, Array.mem_iff_getElem?]
  constructor
  · rintro ⟨place, hplace, he⟩
    obtain ⟨e', he', rfl⟩ := getElem?_names.1 ((h.index_iff name place).1 hplace)
    rw [he] at he'
    cases he'
    exact ⟨⟨place, he⟩, rfl⟩
  · rintro ⟨⟨place, he⟩, rfl⟩
    exact ⟨place, (h.index_iff _ place).2 (getElem?_names.2 ⟨e, he, rfl⟩), he⟩

theorem mem_names_iff (h : s.Consistent) :
    name ∈ s.names ↔ ∃ e, s.equation? name = some e := by
  simp only [h.equation?_iff, names, List.mem_map, Array.mem_toList_iff]

theorem not_mem_names (h : s.Consistent) (unknown : s.index[name]? = none) : name ∉ s.names := by
  intro hmem
  obtain ⟨place, hplace⟩ := List.getElem?_of_mem hmem
  rw [(h.index_iff name place).2 hplace] at unknown
  cases unknown

/-- Registering keeps the places of all names and puts a new one behind them. -/
theorem names_insert (h : s.Consistent) :
    (s.insert e).names = if e.name ∈ s.names then s.names else s.names ++ [e.name] := by
  unfold Solver.insert
  split
  · next place known =>
    have hplace := (h.index_iff e.name place).1 known
    rw [if_pos (List.mem_of_getElem? hplace)]
    obtain ⟨hlt, hname⟩ := List.getElem?_eq_some_iff.1 hplace
    simp only [names, Array.toList_setIfInBounds, List.map_set]
    rw [← names, ← hname, List.set_getElem_self]
  · next unknown =>
    rw [if_neg (h.not_mem_names unknown)]
    simp [names]

theorem insert (h : s.Consistent) (reads : e.ReadsDependencies) : (s.insert e).Consistent where
  index_iff := by
    intro name place
    have index := h.index_iff name place
    rw [h.names_insert]
    unfold Solver.insert
    split
    · next old known =>
      rw [if_pos (List.mem_of_getElem? ((h.index_iff _ old).1 known))]
      exact index
    · next unknown =>
      have new : e.name ∉ s.names := h.not_mem_names unknown
      have length : s.names.length = s.equations.size := by simp [names]
      simp only [Std.HashMap.getElem?_insert, beq_iff_eq, if_neg new, List.getElem?_append,
        ← length]
      by_cases here : e.name = name
      · subst here
        have out : s.names[place]? ≠ some e.name := fun hp => new (List.mem_of_getElem? hp)
        grind
      · grind
  reads := by
    intro e' he'
    rcases mem_of_mem_insert he' with he' | rfl
    · exact h.reads e' he'
    · exact reads
  bindings_eq := by
    unfold Solver.insert
    split <;> exact h.bindings_eq

end Consistent

/-- A formula is read as a numeric literal, or else parsed and compiled. -/
theorem readFormula_ok_iff {config : Config} {name raw : String} {formula : Formula} :
    (readFormula config name raw).2 = .ok formula ↔
      (∃ value, Decimal.literal? raw = some value ∧ formula = .constant value) ∨
      Decimal.literal? raw = none ∧ ∃ expr term dependencies,
        Expr.parse (String.ofList (stripReturns raw.toList)) = .ok expr ∧
        expr.compile ∅ = (.ok term, dependencies) ∧ formula = .computed term dependencies := by
  cases hl : Decimal.literal? raw with
  | some value =>
    simp only [readFormula, hl, Except.ok.injEq, Option.some.injEq, exists_eq_left', reduceCtorEq,
      false_and, or_false]
    exact eq_comm
  | none =>
    cases hp : Expr.parse (String.ofList (stripReturns raw.toList)) with
    | error cause => simp [readFormula, hl, hp]
    | ok expr =>
      rcases hc : expr.compile ∅ with ⟨cause | term, dependencies⟩
      · simp [readFormula, hl, hp, hc]
      · simp [readFormula, hl, hp, hc]
        exact eq_comm

theorem readsDependencies_of_readFormula {config : Config} {name raw : String} {formula : Formula}
    (h : (readFormula config name raw).2 = .ok formula) :
    (⟨name, raw, formula⟩ : Equation).ReadsDependencies := by
  rcases readFormula_ok_iff.1 h with ⟨value, -, rfl⟩ | ⟨-, expr, term, names, -, compiled, rfl⟩
  · trivial
  · show term.references ⊆ names.toList
    rw [Expr.references_of_compile (congrArg Prod.fst compiled), Expr.toList_of_compile compiled]
    exact fun name hn => List.mem_eraseDups.2 hn

theorem evaluateIn_keeps (names : List String) (done : List Event) (s : Solver) :
    ∃ b, (s.evaluateIn done names).2.2 = { s with bindings := b } := by
  induction names generalizing done s with
  | nil => exact ⟨s.bindings, rfl⟩
  | cons name names ih =>
    rw [evaluateIn]
    split
    · exact ⟨s.bindings, rfl⟩
    · split
      · exact ⟨s.bindings, rfl⟩
      · next value _ => exact ih _ { s with bindings := s.bindings.insert name value }

theorem evaluateAll_keeps (s : Solver) : ∃ b, s.evaluateAll.2.2 = { s with bindings := b } := by
  unfold evaluateAll
  split
  · exact ⟨s.bindings, rfl⟩
  · exact evaluateIn_keeps _ _ s

/-- Solving leaves the solver without values and changes nothing else. -/
theorem solve_snd (s : Solver) : s.solve.2 = { s with bindings := ∅ } := by
  obtain ⟨b, h⟩ := s.evaluateAll_keeps
  unfold solve
  simp only [h]

theorem Reachable.consistent (h : s.Reachable) : s.Consistent := by
  induction h with
  | empty config => exact .empty config
  | @add s h name raw ih =>
    unfold Solver.add
    split
    · next name raw =>
      split
      · next events formula read =>
        exact ih.insert (readsDependencies_of_readFormula (congrArg Prod.snd read))
      · exact ih
    · exact ih
  | @solve s h ih =>
    rw [solve_snd]
    exact ⟨ih.index_iff, ih.reads, rfl⟩

end Solver

end EquationSystem
