import EquationSystem.Problem
import EquationSystem.Proofs.Json.Objects
import EquationSystem.Proofs.Solver.Constants

/-!
# Registering the fields of a problem

A problem is registered exactly where every field holds a formula that can be read, and then its
solver holds the equations of the fields. A number is a formula that is read as a constant.
-/

namespace EquationSystem.Problem

open Json (Literal)

/-- The field holds the formula of the equation. -/
structure Registers (config : Config) (field : String × Json) (e : Equation) : Prop where
  name_eq : e.name = field.1
  text : formulaText field.1 field.2 = .ok (some e.raw)
  formula : (Solver.readFormula config e.name e.raw).2 = .ok e.formula

variable {config : Config} {s t : Solver} {field : String × Json} {fields : List (String × Json)}
  {e e' : Equation} {es : List Equation}

theorem Registers.unique (h : Registers config field e) (h' : Registers config field e') :
    e = e' := by
  obtain ⟨name, raw, formula⟩ := e
  obtain ⟨name', raw', formula'⟩ := e'
  have text := h.text
  rw [h'.text] at text
  cases h.name_eq
  cases h'.name_eq
  cases text
  have formula : formula = formula' := Except.ok.inj (h.formula.symm.trans h'.formula)
  rw [formula]

/-- Only a formula that can be read is registered. -/
theorem exists_of_add {name raw : String}
    (h : (s.add (some name) (some raw)).1.result = .ok ()) :
    ∃ formula, (Solver.readFormula s.config name raw).2 = .ok formula := by
  rw [Solver.add] at h
  rcases read : Solver.readFormula s.config name raw with ⟨events, cause | formula⟩
  · rw [read] at h
    cases h
  · exact ⟨formula, rfl⟩

theorem register_cons {name raw : String} {j : Json} (text : formulaText name j = .ok (some raw)) :
    register s ((name, j) :: fields) = match (s.add (some name) (some raw)).1.result with
      | .ok () => register (s.add (some name) (some raw)).2 fields
      | .error e => .error (.unsolved e) := by
  rw [register, text]
  dsimp only
  rcases s.add (some name) (some raw) with ⟨⟨events, cause | ⟨⟩⟩, t⟩ <;> rfl

theorem register_cons_ok_iff : register s (field :: fields) = .ok t ↔
    ∃ e, Registers s.config field e ∧ register (s.insert e) fields = .ok t := by
  obtain ⟨name, j⟩ := field
  constructor
  · intro registered
    cases text : formulaText name j with
    | error failure =>
      rw [register, text] at registered
      cases registered
    | ok raw? =>
      cases raw? with
      | none =>
        rw [register, text] at registered
        cases registered
      | some raw =>
        rw [register_cons text] at registered
        split at registered
        · next ok =>
          obtain ⟨formula, read⟩ := exists_of_add ok
          rw [(Solver.add_of_readFormula read).2] at registered
          exact ⟨⟨name, raw, formula⟩, ⟨rfl, text, read⟩, registered⟩
        · cases registered
  · rintro ⟨⟨name', raw, formula⟩, ⟨rfl, text, read⟩, registered⟩
    obtain ⟨ok, next⟩ := Solver.add_of_readFormula read
    rw [register_cons text, ok, next]
    exact registered

/-- A solver registers equations where every field holds the formula of one. -/
theorem register_ok_iff : register s fields = .ok t ↔
    ∃ es, List.Forall₂ (Registers s.config) fields es ∧ t = es.foldl Solver.insert s := by
  induction fields generalizing s with
  | nil =>
    rw [register]
    constructor
    · rintro ⟨⟩
      exact ⟨[], .nil, rfl⟩
    · rintro ⟨_, ⟨⟩, rfl⟩
      rfl
  | cons field fields ih =>
    simp only [register_cons_ok_iff, ih, Solver.config_insert]
    constructor
    · rintro ⟨e, first, es, others, rfl⟩
      exact ⟨e :: es, .cons first others, rfl⟩
    · rintro ⟨_, _ | ⟨first, others⟩, rfl⟩
      exact ⟨_, first, _, others, rfl⟩

theorem Registers.readsDependencies (h : Registers config field e) : e.ReadsDependencies :=
  Solver.readsDependencies_of_readFormula h.formula

/-- The solver of a problem holds the equations of its fields. -/
theorem holds_of_registers (h : List.Forall₂ (Registers config) fields es) :
    (es.foldl Solver.insert (.empty config)).Holds es := by
  refine (Solver.Holds.empty config).foldl_insert ?_
  induction h with
  | nil => exact List.forall_mem_nil _
  | cons first _ ih => exact List.forall_mem_cons.2 ⟨first.readsDependencies, ih⟩

theorem consistent_of_register (h : register (.empty config) fields = .ok s) : s.Consistent := by
  obtain ⟨es, all, rfl⟩ := register_ok_iff.1 h
  exact (holds_of_registers all).consistent

theorem names_of_registers (h : List.Forall₂ (Registers config) fields es) :
    es.map (·.name) = fields.map Prod.fst := by
  induction h with
  | nil => rfl
  | cons first _ ih => rw [List.map_cons, List.map_cons, ih, first.name_eq]

theorem exists_of_registers (h : List.Forall₂ (Registers config) fields es)
    (hfield : field ∈ fields) : ∃ e ∈ es, Registers config field e := by
  induction h with
  | nil => cases hfield
  | @cons _ e _ es first _ ih =>
    rcases List.mem_cons.1 hfield with rfl | hfield
    · exact ⟨e, List.mem_cons_self, first⟩
    · obtain ⟨e', he', registers⟩ := ih hfield
      exact ⟨e', List.mem_cons_of_mem e he', registers⟩

/-- Every field of a problem is registered. -/
theorem equation?_of_register (h : register (.empty config) fields = .ok s)
    (distinct : (fields.map Prod.fst).Nodup) (hfield : field ∈ fields)
    (registers : Registers config field e) : s.equation? field.1 = some e := by
  obtain ⟨es, all, rfl⟩ := register_ok_iff.1 h
  have holds : (es.foldl Solver.insert (.empty config)).Holds es := holds_of_registers all
  obtain ⟨e', he', registers'⟩ := exists_of_registers all hfield
  cases registers.unique registers'
  rw [holds.consistent.equation?_iff, holds.mem_equations_iff (names_of_registers all ▸ distinct)]
  exact ⟨he', registers.name_eq⟩

/-! ## Numbers -/

variable {name : String} {l : Literal}

/-- The constant that a number is registered as. -/
def numberEquation (name : String) (l : Literal) : Equation :=
  ⟨name, l.keptText, .constant l.decimal⟩

/-- Fields that are numbers, as they are read. -/
def numberFields (fields : List (String × Literal)) : List (String × Json) :=
  fields.map fun field => (field.1, .number field.2.keptText)

theorem names_numberFields (numbers : List (String × Literal)) :
    (numberFields numbers).map Prod.fst = numbers.map Prod.fst := by
  rw [numberFields, List.map_map]
  rfl

theorem registers_number (h : l.InRange) :
    Registers config (name, .number l.keptText) (numberEquation name l) where
  name_eq := rfl
  text := rfl
  formula := Solver.readFormula_ok_iff.2 (.inl ⟨l.decimal, Literal.literal?_keptText h, rfl⟩)

theorem registers_numbers {numbers : List (String × Literal)}
    (inRange : ∀ field ∈ numbers, field.2.InRange) :
    List.Forall₂ (Registers config) (numberFields numbers)
      (numbers.map fun field => numberEquation field.1 field.2) := by
  induction numbers with
  | nil => exact .nil
  | cons field numbers ih =>
    obtain ⟨first, others⟩ := List.forall_mem_cons.1 inRange
    exact .cons (registers_number first) (ih others)

/-- A problem of numbers is solved: every name has its number. -/
theorem solve_numbers (config : Config) {numbers : List (String × Literal)}
    (distinct : (numbers.map Prod.fst).Nodup) (inRange : ∀ field ∈ numbers, field.2.InRange) :
    ∃ (s : Solver) (b : Bindings), register (.empty config) (numberFields numbers) = .ok s ∧
      s.solve.1.result = .ok b.present.toList ∧
      ∀ name value, b.get? name = some value ↔
        ∃ l : Literal, (name, l) ∈ numbers ∧ value = .number l.decimal := by
  have all : List.Forall₂ (Registers config) (numberFields numbers) _ := registers_numbers inRange
  have holds := holds_of_registers all
  rw [← names_numberFields] at distinct
  have mem_iff {e : Equation} := holds.mem_equations_iff (e := e) (names_of_registers all ▸ distinct)
  have constants : ∀ e ∈ _, Solver.IsConstant e := fun e he => by
    obtain ⟨field, -, rfl⟩ := List.mem_map.1 (mem_iff.1 he)
    exact ⟨field.2.decimal, rfl⟩
  obtain ⟨b, assigned, solved⟩ := holds.consistent.solve_constants constants
  refine ⟨_, b, register_ok_iff.2 ⟨_, all, rfl⟩, solved, fun name value => ?_⟩
  rw [assigned.get?_iff constants]
  constructor
  · rintro ⟨e, he, x, formula, rfl, rfl⟩
    obtain ⟨field, hfield, rfl⟩ := List.mem_map.1 (mem_iff.1 he)
    cases formula
    exact ⟨field.2, hfield, rfl⟩
  · rintro ⟨l, hl, rfl⟩
    exact ⟨numberEquation name l, mem_iff.2 (List.mem_map.2 ⟨_, hl, rfl⟩), l.decimal, rfl, rfl, rfl⟩

end EquationSystem.Problem
