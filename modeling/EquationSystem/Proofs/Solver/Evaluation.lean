import EquationSystem.Proofs.Dependency.Sorting
import EquationSystem.Proofs.Solver.Registry

/-!
# Evaluating equations in an order

Evaluating the equations of an order one after the other ends at the first name that has no
equation or whose equation has no value in the bindings found so far (`evaluateIn_cases`). In an
order in which every name stands once and after its dependencies, later values do not change what
an equation evaluates to, so that the values found satisfy all equations together.
-/

namespace EquationSystem.Solver

/-- The equations of the names in `values` have these values when they are evaluated one after the
other, each in the bindings found before it. -/
inductive Evaluates (s : Solver) : Bindings → List (String × Value) → Bindings → Prop
  | nil {b : Bindings} : Evaluates s b [] b
  | cons {b b' : Bindings} {e : Equation} {name : String} {value : Value}
      {values : List (String × Value)} (known : s.equation? name = some e)
      (evaluates : e.evaluate b = .ok value) (rest : Evaluates s (b.insert name value) values b') :
      Evaluates s b ((name, value) :: values) b'

/-- In the bindings `b`, the equation of `name` is missing or has no value. -/
inductive FailsAt (s : Solver) (b : Bindings) (name : String) : SolveError → Prop
  | unknown (missing : s.equation? name = none) : FailsAt s b name (s.unbound name)
  | evaluation {e : Equation} {cause : EvalError} (known : s.equation? name = some e)
      (fails : e.evaluate b = .error cause) : FailsAt s b name (.evaluation name e.raw cause)

/-- The events that report values, in the order in which they were found. -/
def report (values : List (String × Value)) : List Event :=
  values.map fun (name, value) => .evaluated name value

variable {s : Solver} {b b' c : Bindings} {values : List (String × Value)} {order : List String}

/-- Between operations, evaluation begins without values. -/
theorem Consistent.with_empty_bindings (h : s.Consistent) :
    ({ s with bindings := ∅ } : Solver) = s := by
  rw [← h.bindings_eq]

/-- Evaluation goes through all names, or up to one that fails in the values found before it. -/
theorem evaluateIn_cases (s : Solver) (b : Bindings) (done : List Event) (names : List String) :
    ∃ values b' result, Evaluates s b values b' ∧
      ({ s with bindings := b } : Solver).evaluateIn done names =
        (done.reverse ++ report values, result, { s with bindings := b' }) ∧
      (names = values.map Prod.fst ∧ result = .ok () ∨
        ∃ name rest e, names = values.map Prod.fst ++ name :: rest ∧ result = .error e ∧
          FailsAt s b' name e) := by
  induction names generalizing b done with
  | nil => exact ⟨[], b, _, .nil, by simp [evaluateIn, report], .inl ⟨rfl, rfl⟩⟩
  | cons name names ih =>
    have lookup : ({ s with bindings := b } : Solver).equation? name = s.equation? name := rfl
    rw [evaluateIn, lookup]
    cases known : s.equation? name with
    | none =>
      refine ⟨[], b, _, .nil, ?_, .inr ⟨name, names, _, rfl, rfl, .unknown known⟩⟩
      rw [report, List.map_nil, List.append_nil]
      rfl
    | some e =>
      cases evaluates : e.evaluate b with
      | error cause =>
        exact ⟨[], b, _, .nil, by simp [evaluates, report],
          .inr ⟨name, names, _, rfl, rfl, .evaluation known evaluates⟩⟩
      | ok value =>
        obtain ⟨values, b', result, hv, hin, ending⟩ :=
          ih (b.insert name value) (.evaluated name value :: done)
        refine ⟨(name, value) :: values, b', result, .cons known evaluates hv, ?_, ?_⟩
        · simp [evaluates, hin, report]
        · rcases ending with ⟨rfl, rfl⟩ | ⟨failing, rest, e, rfl, rfl, fails⟩
          · exact .inl ⟨rfl, rfl⟩
          · exact .inr ⟨failing, rest, e, rfl, rfl, fails⟩

namespace Evaluates

theorem get?_of_not_mem {name : String} (h : Evaluates s b values b')
    (hn : name ∉ values.map Prod.fst) : b'.get? name = b.get? name := by
  induction h with
  | nil => rfl
  | cons known evaluates rest ih =>
    simp only [List.map_cons, List.mem_cons, not_or] at hn
    rw [ih hn.2, Bindings.get?_insert, if_neg (Ne.symm hn.1)]

theorem get?_of_mem {name : String} {value : Value} (h : Evaluates s b values b')
    (nodup : (values.map Prod.fst).Nodup) (hv : (name, value) ∈ values) :
    b'.get? name = some value := by
  induction h with
  | nil => cases hv
  | cons known evaluates rest ih =>
    obtain ⟨hn, nodup⟩ := List.nodup_cons.1 nodup
    rcases List.mem_cons.1 hv with same | hv
    · cases same
      rw [rest.get?_of_not_mem hn, Bindings.get?_insert, if_pos rfl]
    · exact ih nodup hv

theorem split {values' : List (String × Value)} (h : Evaluates s b (values ++ values') b') :
    ∃ c, Evaluates s b values c ∧ Evaluates s c values' b' := by
  induction values generalizing b with
  | nil => exact ⟨b, .nil, h⟩
  | cons v values ih =>
    cases h with
    | cons known evaluates rest =>
      obtain ⟨c, front, back⟩ := ih rest
      exact ⟨c, .cons known evaluates front, back⟩

end Evaluates

/-- An assignment that satisfies all equations together: it gives values to the registered names
only, and the formula of every equation has the value of its name. -/
structure IsAssignment (s : Solver) (b : Bindings) : Prop where
  domain : ∀ name, (∃ value, b.get? name = some value) ↔ name ∈ s.names
  equations : ∀ e ∈ s.equations, ∃ value, b.get? e.name = some value ∧ e.evaluate b = .ok value

theorem dependencies_ok_iff {name : String} {found : List String} :
    s.dependencies name = .ok found ↔
      ∃ e, s.equation? name = some e ∧ e.dependencies = found := by
  unfold dependencies
  cases s.equation? name <;> simp

/-- An order that is found holds every registered name once and after its dependencies. -/
theorem ordered_spec (h : s.Consistent) (ho : s.ordered = .ok order) :
    order.Nodup ∧ order.Perm s.names ∧ Dependency.DependenciesFirst s.dependencies order := by
  have hsort : (Dependency.sort s.dependencies s.names s.finiteReach).result = .ok order := by
    unfold ordered at ho
    split at ho <;> cases ho
    assumption
  obtain ⟨nodup, first, mem_iff⟩ := Dependency.order_of_run _ hsort
  refine ⟨nodup, ?_, first⟩
  refine (List.perm_ext_iff_of_nodup nodup h.names_nodup).2 fun name => ⟨fun hn => ?_, fun hn => ?_⟩
  · obtain ⟨before, after, split⟩ := List.append_of_mem hn
    obtain ⟨found, hf, -⟩ := first before name after split
    obtain ⟨e, he, -⟩ := dependencies_ok_iff.1 hf
    exact h.mem_names_iff.2 ⟨e, he⟩
  · exact (mem_iff name).2 (.of_mem hn)

section
variable (h : s.Consistent) (first : Dependency.DependenciesFirst s.dependencies order)
include h first

/-- In an order, an equation has the same value in all bindings that agree on what stands before
its name. -/
theorem evaluate_congr_of_order {before after : List String} {name : String} {e : Equation}
    (split : order = before ++ name :: after) (known : s.equation? name = some e)
    (agree : Term.Agree b b' before) : e.evaluate b = e.evaluate b' := by
  obtain ⟨found, hf, hd⟩ := first before name after split
  obtain ⟨e', known', rfl⟩ := dependencies_ok_iff.1 hf
  rw [known] at known'
  cases known'
  exact (h.reads e (h.equation?_iff.1 known).1).evaluate_congr (agree.mono hd)

/-- The values found along an order are those of any assignment. -/
theorem Evaluates.agree (evaluated : Evaluates s b values b') (assigned : s.IsAssignment c)
    (before after : List String) (split : order = before ++ values.map Prod.fst ++ after)
    (agree : Term.Agree b c before) : Term.Agree b' c (before ++ values.map Prod.fst) := by
  induction evaluated generalizing before with
  | nil => simpa using agree
  | @cons b b' e name value values known evaluates rest ih =>
    rw [List.map_cons, List.append_assoc, List.cons_append] at split
    obtain ⟨hmem, rfl⟩ := h.equation?_iff.1 known
    obtain ⟨value', hvalue, satisfied⟩ := assigned.equations e hmem
    rw [evaluate_congr_of_order h first split known agree, satisfied] at evaluates
    cases evaluates
    have agree' : Term.Agree (b.insert e.name value) c (before ++ [e.name]) := by
      intro name hn
      rw [Bindings.get?_insert]
      split
      · next same => rw [← same, hvalue]
      · next other =>
        rcases List.mem_append.1 hn with hn | hn
        · exact agree name hn
        · exact absurd (List.mem_singleton.1 hn).symm other
    simpa using ih (before ++ [e.name]) (by simpa using split) agree'

/-- The values found along the whole order satisfy the equations. -/
theorem Evaluates.isAssignment (evaluated : Evaluates s ∅ values b')
    (whole : order = values.map Prod.fst) (perm : order.Perm s.names) : s.IsAssignment b' := by
  have nodup : (values.map Prod.fst).Nodup := whole ▸ perm.nodup_iff.2 h.names_nodup
  have mem_iff : ∀ {name}, name ∈ s.names ↔ ∃ value, (name, value) ∈ values := by
    intro name
    rw [← perm.mem_iff, whole]
    simp
  refine ⟨fun name => ⟨?_, fun hn => ?_⟩, fun e he => ?_⟩
  · rintro ⟨value, hvalue⟩
    by_contra hn
    rw [evaluated.get?_of_not_mem (whole ▸ mt perm.mem_iff.1 hn), Bindings.get?_empty] at hvalue
    cases hvalue
  · obtain ⟨value, hv⟩ := mem_iff.1 hn
    exact ⟨value, evaluated.get?_of_mem nodup hv⟩
  · have known := h.equation?_iff.2 ⟨he, rfl⟩
    obtain ⟨value, hv⟩ := mem_iff.1 (h.mem_names_iff.2 ⟨e, known⟩)
    refine ⟨value, evaluated.get?_of_mem nodup hv, ?_⟩
    obtain ⟨before, after, rfl⟩ := List.append_of_mem hv
    obtain ⟨b, -, later⟩ := evaluated.split
    rw [List.map_append, List.map_cons] at whole nodup
    -- What stands before the name is not evaluated again.
    have agree : Term.Agree b' b (before.map Prod.fst) := fun name hn =>
      later.get?_of_not_mem fun again => (List.nodup_append.1 nodup).2.2 name hn name again rfl
    cases later with
    | cons known' evaluates _ =>
      rw [known] at known'
      cases known'
      rw [evaluate_congr_of_order h first whole known agree, evaluates]

end

end EquationSystem.Solver
