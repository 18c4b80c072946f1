import EquationSystem.Proofs.Solver.Independence

/-!
# What the value of a name depends on

The formula of an equation is read off its text, whatever the solver was asked before. So two
solvers that hold the same texts for a name and for all that it refers to, over any number of
equations, hold the same equations there, and give the name the same value. Their other equations,
and the order in which all were registered, play no part.
-/

namespace EquationSystem.Solver

open Relation

/-- The names that `name` refers to over any number of equations, itself included, each with the
text of its equation. -/
def support (s : Solver) (name : String) : Set (String × String) :=
  {p | ∃ e ∈ s.equations, ReflTransGen s.RefersTo name e.name ∧ p = (e.name, e.raw)}

variable {s t : Solver} {name d : String} {e e' : Equation} {b c : Bindings}

/-- The formula of every equation is what its text is read as. -/
theorem Reachable.read (h : s.Reachable) :
    ∀ e ∈ s.equations, ∃ config, (readFormula config e.name e.raw).2 = .ok e.formula := by
  induction h with
  | empty config => exact fun e he => absurd he (Array.not_mem_empty e)
  | @add s h name raw ih =>
    unfold Solver.add
    split
    · next name raw =>
      split
      · next events formula hread =>
        intro e he
        rcases mem_of_mem_insert he with he | rfl
        · exact ih e he
        · exact ⟨s.config, congrArg Prod.snd hread⟩
      · exact ih
    · exact ih
  | solve h ih =>
    rw [solve_snd]
    exact ih

/-- A text is read as one formula, under any name and configuration. -/
theorem readFormula_unique {config config' : Config} {name name' raw : String}
    {formula formula' : Formula} (h : (readFormula config name raw).2 = .ok formula)
    (h' : (readFormula config' name' raw).2 = .ok formula') : formula = formula' := by
  rcases readFormula_ok_iff.1 h with ⟨v, hv, rfl⟩ | ⟨hv, expr, term, ds, parsed, compiled, rfl⟩
  · rcases readFormula_ok_iff.1 h' with ⟨v', hv', rfl⟩ | ⟨hv', -⟩
    · rw [hv, Option.some.injEq] at hv'
      rw [hv']
    · rw [hv] at hv'
      cases hv'
  · rcases readFormula_ok_iff.1 h' with
      ⟨v', hv', -⟩ | ⟨-, expr', term', ds', parsed', compiled', rfl⟩
    · rw [hv] at hv'
      cases hv'
    · rw [parsed, Except.ok.injEq] at parsed'
      rw [← parsed', compiled] at compiled'
      cases compiled'
      rfl

section
variable (hs : s.Reachable) (ht : t.Reachable) (same : s.support name = t.support name)
include hs ht same

/-- Equations of equal names and texts are equal, so that the other solver holds them as well. -/
theorem mem_equations_of_support_eq (he : e ∈ s.equations)
    (reached : ReflTransGen s.RefersTo name e.name) : e ∈ t.equations := by
  have listed : (e.name, e.raw) ∈ s.support name := ⟨e, he, reached, rfl⟩
  rw [same] at listed
  obtain ⟨e', he', -, heq⟩ := listed
  obtain ⟨config, hread⟩ := hs.read e he
  obtain ⟨config', hread'⟩ := ht.read e' he'
  obtain ⟨hname, hraw⟩ := Prod.mk.inj heq
  rw [← hraw] at hread'
  have hformula := readFormula_unique hread hread'
  have : e = e' := by
    cases e
    cases e'
    simp_all
  rwa [this]

/-- Along an order, assignments of both solvers agree on what the name refers to. -/
theorem IsAssignment.agree_of_support_eq (hb : s.IsAssignment b) (hc : t.IsAssignment c)
    {order : List String} (first : Dependency.DependenciesFirst s.dependencies order)
    (before after : List String) (split : order = before ++ after) :
    ∀ d ∈ before, ReflTransGen s.RefersTo name d → b.get? d = c.get? d := by
  induction before using List.reverseRecOn generalizing after with
  | nil => exact List.forall_mem_nil _
  | append_singleton before last ih =>
    rw [List.append_assoc, List.singleton_append] at split
    have agree := ih _ split
    intro d hd reached
    rcases List.mem_append.1 hd with hd | hd
    · exact agree d hd reached
    · obtain rfl := List.mem_singleton.1 hd
      obtain ⟨found, hfound, below⟩ := first before d after split
      obtain ⟨e, known, rfl⟩ := dependencies_ok_iff.1 hfound
      obtain ⟨he, rfl⟩ := hs.consistent.equation?_iff.1 known
      have he' := mem_equations_of_support_eq hs ht same he reached
      obtain ⟨v, hv, evaluates⟩ := hb.equations e he
      obtain ⟨v', hv', evaluates'⟩ := hc.equations e he'
      -- What the equation reads stands before it and is referred to by the name as well.
      have reads : Term.Agree b c e.dependencies := fun d hd =>
        agree d (below d hd) (reached.tail ⟨e, he, rfl, hd⟩)
      rw [(hs.consistent.reads e he).evaluate_congr reads, evaluates'] at evaluates
      cases evaluates
      rw [hv, hv']

end

/-- Two solvers that solve give a name that both have the same value, and no other, where the
equations that the name depends on, its own included, have the same names and texts in both. -/
theorem solution_eq_of_support_eq {solution solution' : Solution} (hs : s.Reachable)
    (ht : t.Reachable) (solved : s.solve.1.result = .ok solution)
    (solved' : t.solve.1.result = .ok solution') (known : name ∈ s.names)
    (same : s.support name = t.support name) :
    ∃ value, ∀ other, ((name, other) ∈ solution ↔ other = value) ∧
      ((name, other) ∈ solution' ↔ other = value) := by
  obtain ⟨⟨order, ho⟩, b, hb, rfl⟩ := hs.consistent.solve_ok_iff.1 solved
  obtain ⟨-, c, hc, rfl⟩ := ht.consistent.solve_ok_iff.1 solved'
  obtain ⟨-, perm, first⟩ := ordered_spec hs.consistent ho
  obtain ⟨found, hfound⟩ := (hb.domain name).2 known
  have agree := hb.agree_of_support_eq hs ht same hc first order [] (List.append_nil _).symm
  have hfound' := agree name (perm.mem_iff.2 known) .refl
  rw [hfound] at hfound'
  refine ⟨found.present, fun other => ?_⟩
  simp only [mem_presented_iff, hfound, ← hfound', Option.some.injEq, exists_eq_left', and_self]

/-- Where `a = x` and `x = 7.0` are the equations of their names, `a` depends on these two. -/
theorem support_of_link (h : s.Consistent)
    (ha : ⟨"a", "x", .computed (.reference "x") (Names.insert ∅ "x")⟩ ∈ s.equations)
    (hx : ⟨"x", "7.0", .constant ⟨70, 1⟩⟩ ∈ s.equations) :
    s.support "a" = {("a", "x"), ("x", "7.0")} := by
  have refers : Equation.dependencies
      ⟨"a", "x", .computed (.reference "x") (Names.insert ∅ "x")⟩ = ["x"] := by cbv
  have only : ∀ {e e' : Equation}, e ∈ s.equations → e' ∈ s.equations → e.name = e'.name →
      e = e' := fun he he' hname =>
    Option.some.inj ((h.equation?_iff.2 ⟨he, hname⟩).symm.trans (h.equation?_iff.2 ⟨he', rfl⟩))
  have reached : ∀ {d}, ReflTransGen s.RefersTo "a" d → d = "a" ∨ d = "x" := by
    intro d hd
    induction hd with
    | refl => exact .inl rfl
    | tail _ last ih =>
      obtain ⟨e, he, hname, hd⟩ := last
      rcases ih with rfl | rfl
      · rw [only he ha hname, refers] at hd
        exact .inr (List.mem_singleton.1 hd)
      · rw [only he hx hname] at hd
        cases hd
  ext p
  constructor
  · rintro ⟨e, he, hreached, rfl⟩
    rcases reached hreached with hname | hname
    · rw [only he ha hname]
      exact .inl rfl
    · rw [only he hx hname]
      exact .inr rfl
  · rintro (rfl | rfl)
    · exact ⟨_, ha, .refl, rfl⟩
    · exact ⟨_, hx, .single ⟨_, ha, rfl, refers ▸ List.mem_singleton_self "x"⟩, rfl⟩

/-- A solver in which the equation of `a` was overwritten and `c = a` depends on the others. -/
def overwritten : Solver :=
  ((((Solver.empty ⟨true⟩).insert ⟨"x", "7.0", .constant ⟨70, 1⟩⟩).insert
    ⟨"c", "a", .computed (.reference "a") (Names.insert ∅ "a")⟩).insert
    ⟨"a", "7.0", .constant ⟨70, 1⟩⟩).insert
    ⟨"a", "x", .computed (.reference "x") (Names.insert ∅ "x")⟩

theorem reachable_overwritten : overwritten.Reachable := by
  have tokens : Lexer.tokenize (String.ofList (stripReturns "a".toList)) =
      .ok [⟨.name "a", 0, 1⟩] := by decide +kernel
  have read : ∀ name, (readFormula ⟨true⟩ name "7.0").2 = .ok (.constant ⟨70, 1⟩) := fun name =>
    readFormula_ok_iff.2 (.inl ⟨⟨70, 1⟩, by decide +kernel, rfl⟩)
  refine Reachable.insert (Reachable.insert (Reachable.insert (Reachable.insert (.empty _)
    (read "x")) (readFormula_of_name (by decide +kernel) tokens)) (read "a")) ?_
  exact (read_linked _).1

theorem solution_eq_overwritten : ∃ solution solution' value,
    linked.solve.1.result = .ok solution ∧ overwritten.solve.1.result = .ok solution' ∧
      ∀ other, (("a", other) ∈ solution ↔ other = value) ∧
        (("a", other) ∈ solution' ↔ other = value) := by
  have held' : overwritten.equations = #[
      ⟨"x", "7.0", .constant ⟨70, 1⟩⟩,
      ⟨"c", "a", .computed (.reference "a") (Names.insert ∅ "a")⟩,
      ⟨"a", "x", .computed (.reference "x") (Names.insert ∅ "x")⟩] := by cbv
  have ordered' : overwritten.ordered = .ok ["x", "a", "c"] := by
    have search : (Dependency.Search.start overwritten.names).within overwritten.dependencies 12 =
        some ⟨["x", "c", "a"], .ok ["x", "a", "c"]⟩ := by cbv
    rw [ordered, Dependency.sort_of_within _ search]
  have assigned' : overwritten.IsAssignment (linkedValues.insert "c" (.number ⟨70, 1⟩)) := by
    constructor
    · intro name
      by_cases ha : name = "a" <;> by_cases hx : name = "x" <;> by_cases hc : name = "c" <;>
        simp [linkedValues, Bindings.get?_insert, names, held', eq_comm, ha, hx, hc]
    · simp [linkedValues, Bindings.get?_insert, held', Equation.evaluate, Term.eval]
  have solved := reachable_linked.consistent.solve_ok_iff.2
    ⟨⟨_, ordered_linked⟩, _, assigned_linked, rfl⟩
  have solved' := reachable_overwritten.consistent.solve_ok_iff.2
    ⟨⟨_, ordered'⟩, _, assigned', rfl⟩
  have same : linked.support "a" = overwritten.support "a" := by
    rw [support_of_link reachable_linked.consistent (by simp [equations_linked])
        (by simp [equations_linked]),
      support_of_link reachable_overwritten.consistent (by simp [held']) (by simp [held'])]
  obtain ⟨value, agree⟩ := solution_eq_of_support_eq reachable_linked reachable_overwritten solved
    solved' (by simp [names, equations_linked]) same
  exact ⟨_, _, value, solved, solved', agree⟩

end EquationSystem.Solver
