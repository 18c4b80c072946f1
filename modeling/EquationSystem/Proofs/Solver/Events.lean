import EquationSystem.Proofs.Solver.Attribution
import EquationSystem.Proofs.Solver.History

/-!
# What a solver reports

An operation reports the error that it answers, once and at the end, and no error where it succeeds.
Solving reports the values as they are found, before they are presented. Whether the expressions of
formulas are reported changes nothing but these reports.
-/

namespace EquationSystem

/-- Whether the event shows the expression of a formula. -/
def Event.isTree : Event → Bool
  | .tree .. => true
  | _ => false

namespace Reply

variable {α : Type} {events : List Event} {result : Except SolveError α}

/-- The reply without the expressions of formulas. -/
def untraced (reply : Reply α) : Reply α := ⟨reply.events.filter (!·.isTree), reply.result⟩

/-- The error is the only one that is reported, and the last event; without an error there is
none. -/
structure Mirrors (reply : Reply α) : Prop where
  succeeded : ∀ a, reply.result = .ok a → ∀ event ∈ reply.events, event.isError = false
  failed : ∀ e, reply.result = .error e → ∃ front, reply.events = front ++ [.failed e] ∧
    ∀ event ∈ front, event.isError = false

theorem mirrors_ofResult (silent : ∀ event ∈ events, event.isError = false) :
    (ofResult events result).Mirrors := by
  cases result with
  | ok a => exact ⟨fun _ _ => silent, nofun⟩
  | error e => exact ⟨nofun, fun _ same => by cases same; exact ⟨events, rfl, silent⟩⟩

theorem untraced_ofResult : (ofResult events result).untraced =
    ofResult (events.filter (!·.isTree)) result := by
  cases result with
  | ok a => rfl
  | error e =>
    rw [ofResult, untraced, List.filter_append]
    rfl

end Reply

namespace Solver

variable {s : Solver}

theorem isError_of_mem_readFormula {config : Config} {name raw : String} :
    ∀ event ∈ (readFormula config name raw).1, event.isError = false := by
  rw [readFormula]
  cases Decimal.literal? raw with
  | some value => exact List.forall_mem_nil _
  | none =>
    dsimp only
    cases Expr.parse (String.ofList (stripReturns raw.toList)) with
    | error cause => exact List.forall_mem_singleton.2 rfl
    | ok expr =>
      dsimp only
      rcases expr.compile ∅ with ⟨cause | term, dependencies⟩ <;> dsimp only <;> split
      all_goals first | exact List.forall_mem_singleton.2 rfl | exact List.forall_mem_nil _

theorem add_eq (s : Solver) (name raw : String) : s.add (some name) (some raw) =
    (.ofResult (readFormula s.config name raw).1
        ((readFormula s.config name raw).2.map fun _ => ()),
      (readFormula s.config name raw).2.toOption.elim s fun formula =>
        s.insert ⟨name, raw, formula⟩) := by
  rw [add]
  rcases readFormula s.config name raw with ⟨events, e | formula⟩ <;> rfl

theorem add_mirrors (s : Solver) (name raw : Option String) : (s.add name raw).1.Mirrors := by
  have missing : (Reply.ofResult [] (.error (.missing name raw)) : Reply Unit).Mirrors :=
    Reply.mirrors_ofResult (List.forall_mem_nil _)
  cases name with
  | none => exact missing
  | some name =>
    cases raw with
    | none => exact missing
    | some raw =>
      rw [add_eq]
      exact Reply.mirrors_ofResult isError_of_mem_readFormula

theorem solvingOrder_mirrors (s : Solver) : s.solvingOrder.Mirrors :=
  Reply.mirrors_ofResult (List.forall_mem_nil _)

theorem isError_of_mem_report {values : List (String × Value)} :
    ∀ event ∈ report values, event.isError = false :=
  List.forall_mem_map.2 fun _ _ => rfl

/-- What solving an order reports and answers. -/
inductive Reports (s : Solver) (order : List String) : Reply Solution → Prop
  | solved {values : List (String × Value)} {b : Bindings} (h : Evaluates s ∅ values b)
      (whole : order = values.map Prod.fst) :
      Reports s order ⟨.solving s.size :: report values,
        .ok (b.toList.map fun v => (v.1, v.2.present))⟩
  | failed {values : List (String × Value)} {b : Bindings} {name : String} {rest : List String}
      {e : Equation} {cause : EvalError} (h : Evaluates s ∅ values b)
      (split : order = values.map Prod.fst ++ name :: rest) (known : s.equation? name = some e)
      (fails : e.evaluate b = .error cause) :
      Reports s order ⟨.solving s.size :: report values ++ [.failed (.evaluation name e.raw cause)],
        .error (.evaluation name e.raw cause)⟩

theorem Consistent.length_eq_size (h : s.Consistent) {order : List String}
    (ho : s.ordered = .ok order) : order.length = s.size := by
  rw [(ordered_spec h ho).2.1.length_eq, names, List.length_map, Array.length_toList, size]

theorem Consistent.solve_reports (h : s.Consistent) {order : List String}
    (ho : s.ordered = .ok order) : Reports s order s.solve.1 := by
  rcases solve_cases h with ⟨e, failed, -⟩ | ⟨_, values, b, result, ho', hv, hsolve, ending⟩
  · rw [ho] at failed
    cases failed
  · rw [ho] at ho'
    cases ho'
    rw [hsolve, h.length_eq_size ho]
    rcases ending with ⟨whole, rfl⟩ | ⟨name, rest, e, split, rfl, fails⟩
    · exact .solved hv whole
    · have hn : name ∈ order := split ▸ List.mem_append_right _ List.mem_cons_self
      obtain ⟨e, cause, known, evaluates, rfl⟩ := h.evaluation_of_failsAt ho hn fails
      exact .failed hv split known evaluates

theorem Consistent.solve_mirrors (h : s.Consistent) : s.solve.1.Mirrors := by
  rcases solve_cases h with ⟨e, -, hsolve⟩ | ⟨_, values, _, result, -, -, hsolve, -⟩
  · rw [hsolve]
    exact Reply.mirrors_ofResult (List.forall_mem_nil _)
  · rw [hsolve]
    exact Reply.mirrors_ofResult (List.forall_mem_cons.2 ⟨rfl, isError_of_mem_report⟩)

/-! ## Showing expressions -/

/-- The answer without the expressions of formulas. -/
def Answer.untraced : Answer → Answer
  | .added reply => .added reply.untraced
  | .solved reply => .solved reply.untraced
  | .ordered reply => .ordered reply.untraced
  | answer => answer

/-- The same solver with another configuration. -/
def withConfig (s : Solver) (config : Config) : Solver := { s with config }

variable {config : Config}

theorem ordered_withConfig : (s.withConfig config).ordered = s.ordered := rfl

theorem insert_withConfig (e : Equation) :
    (s.withConfig config).insert e = (s.insert e).withConfig config := by
  rw [insert, insert, withConfig]
  cases s.index[e.name]? <;> rfl

theorem readFormula_config (config config' : Config) (name raw : String) :
    (readFormula config name raw).1.filter (!·.isTree) =
        (readFormula config' name raw).1.filter (!·.isTree) ∧
      (readFormula config name raw).2 = (readFormula config' name raw).2 := by
  rw [readFormula, readFormula]
  cases Decimal.literal? raw with
  | some value => exact ⟨rfl, rfl⟩
  | none =>
    dsimp only
    cases Expr.parse (String.ofList (stripReturns raw.toList)) with
    | error cause => exact ⟨rfl, rfl⟩
    | ok expr =>
      dsimp only
      have traced (debug : Bool) (tree : Event) (h : tree.isTree = true) :
          (if debug then [tree] else []).filter (!·.isTree) = [] := by
        cases debug <;> simp [h]
      rcases expr.compile ∅ with ⟨cause | term, dependencies⟩
      · exact ⟨(traced _ _ rfl).trans (traced _ _ rfl).symm, rfl⟩
      · exact ⟨(traced _ _ rfl).trans (traced _ _ rfl).symm, rfl⟩

theorem evaluateIn_withConfig (names : List String) (done : List Event) (s : Solver) :
    (s.withConfig config).evaluateIn done names =
      ((s.evaluateIn done names).1, (s.evaluateIn done names).2.1,
        (s.evaluateIn done names).2.2.withConfig config) := by
  induction names generalizing done s with
  | nil => rfl
  | cons name names ih =>
    have lookup : (s.withConfig config).equation? name = s.equation? name := rfl
    rw [evaluateIn, evaluateIn, lookup]
    cases s.equation? name with
    | none => rfl
    | some e =>
      have bound : (s.withConfig config).bindings = s.bindings := rfl
      dsimp only
      rw [bound]
      cases e.evaluate s.bindings with
      | error cause => rfl
      | ok value => exact ih _ { s with bindings := s.bindings.insert name value }

theorem solve_withConfig : (s.withConfig config).solve = (s.solve.1, s.solve.2.withConfig config) := by
  have all : (s.withConfig config).evaluateAll = (s.evaluateAll.1, s.evaluateAll.2.1,
      s.evaluateAll.2.2.withConfig config) := by
    rw [evaluateAll, evaluateAll, ordered_withConfig]
    cases s.ordered with
    | error e => rfl
    | ok order => exact evaluateIn_withConfig order _ s
  rw [solve, solve, all]
  rfl

/-- An operation does with another configuration what it does, but for showing expressions. -/
theorem perform_withConfig (op : Operation) :
    ((s.withConfig config).perform op).1.untraced = (s.perform op).1.untraced ∧
      ((s.withConfig config).perform op).2 = (s.perform op).2.withConfig config := by
  cases op with
  | add name raw =>
    cases name with
    | none => exact ⟨rfl, rfl⟩
    | some name =>
      cases raw with
      | none => exact ⟨rfl, rfl⟩
      | some raw =>
        obtain ⟨events, result⟩ := readFormula_config config s.config name raw
        rw [perform, perform, add_eq, add_eq]
        refine ⟨congrArg Answer.added ?_, ?_⟩
        · rw [Reply.untraced_ofResult, Reply.untraced_ofResult]
          exact congrArg₂ Reply.ofResult events (congrArg (Except.map fun _ => ()) result)
        · have same : (readFormula (s.withConfig config).config name raw).2 =
              (readFormula s.config name raw).2 := result
          dsimp only
          rw [same]
          cases (readFormula s.config name raw).2 with
          | error cause => rfl
          | ok formula => exact insert_withConfig _
  | solve =>
    rw [perform, perform, solve_withConfig]
    exact ⟨rfl, rfl⟩
  | solvingOrder | equation | contains | equations | names | size | isEmpty => exact ⟨rfl, rfl⟩

theorem transcript_withConfig (ops : List Operation) (s : Solver) :
    ((s.withConfig config).transcript ops).map (fun entry => (entry.1, entry.2.untraced)) =
        (s.transcript ops).map (fun entry => (entry.1, entry.2.untraced)) ∧
      (s.withConfig config).after ops = (s.after ops).withConfig config := by
  induction ops generalizing s with
  | nil => exact ⟨rfl, rfl⟩
  | cons op ops ih =>
    obtain ⟨answer, next⟩ := @perform_withConfig s config op
    obtain ⟨answers, last⟩ := ih (s.perform op).2
    rw [transcript, transcript, List.map_cons, List.map_cons, after_cons, after_cons, answer, next]
    exact ⟨congrArg _ answers, last⟩

/-- A registration, an order and a solution come with an error event exactly where they fail: one,
at the end, with that error. Without an order solving reports nothing else; along an order it
reports how many equations there are and then, one after the other, the values that the equations
have, up to the one that has none. The configuration changes no answer and nothing that is held,
whatever a solver is asked. -/
theorem events_mirror (h : s.Reachable) :
    (∀ name raw, (s.add name raw).1.Mirrors) ∧ s.solvingOrder.Mirrors ∧ s.solve.1.Mirrors ∧
    (∀ e, s.solvingOrder.result = .error e → s.solve.1 = ⟨[.failed e], .error e⟩) ∧
    (∀ order, s.solvingOrder.result = .ok order → Reports s order s.solve.1) ∧
    ∀ config config' ops,
      ((empty config').transcript ops).map (fun entry => (entry.1, entry.2.untraced)) =
          ((empty config).transcript ops).map (fun entry => (entry.1, entry.2.untraced)) ∧
        (empty config').after ops = ((empty config).after ops).withConfig config' := by
  have hc := h.consistent
  refine ⟨s.add_mirrors, s.solvingOrder_mirrors, hc.solve_mirrors, ?_, ?_, ?_⟩
  · rw [solvingOrder, Reply.result_ofResult]
    intro e ho
    rcases solve_cases hc with ⟨e', failed, hsolve⟩ | ⟨_, _, _, _, found, -⟩
    · rw [ho] at failed
      cases failed
      exact hsolve
    · rw [ho] at found
      cases found
  · rw [solvingOrder, Reply.result_ofResult]
    exact fun order ho => hc.solve_reports ho
  · exact fun config config' ops => transcript_withConfig ops (empty config)

/-- The values are reported as they were registered and found, with their last zero. -/
theorem events_mirror_linked : linked.Reachable ∧ linked.solvingOrder.result = .ok ["x", "a"] ∧
    Reports linked ["x", "a"] linked.solve.1 ∧
    linked.solve.1.events = [.solving 2, .evaluated "x" (.number ⟨70, 1⟩),
      .evaluated "a" (.number ⟨70, 1⟩)] := by
  have ordered : linked.solvingOrder.result = .ok ["x", "a"] := by
    rw [solvingOrder, Reply.result_ofResult, ordered_linked]
  refine ⟨reachable_linked, ordered, ?_, ?_⟩
  · exact (events_mirror reachable_linked).2.2.2.2.1 _ ordered
  · have x : linked.equation? "x" = some ⟨"x", "7.0", .constant ⟨70, 1⟩⟩ := by cbv
    have a : linked.equation? "a" =
      some ⟨"a", "x", .computed (.reference "x") (Names.insert ∅ "x")⟩ := by cbv
    let b : Bindings := Bindings.insert ∅ "x" (.number ⟨70, 1⟩)
    have found : b.get? "x" = some (.number ⟨70, 1⟩) := by simp [b, Bindings.get?_insert]
    let values : List (String × Value) := [("x", .number ⟨70, 1⟩), ("a", .number ⟨70, 1⟩)]
    have evaluated : linked.Evaluates ∅ values (b.insert "a" (.number ⟨70, 1⟩)) :=
      .cons x rfl (.cons a (by simp [Equation.evaluate, Term.eval, b, found]) .nil)
    have whole : linked.ordered = .ok (values.map Prod.fst ++ []) := ordered_linked
    rw [solve, reachable_linked.consistent.evaluateAll_of_evaluates whole evaluated]
    rfl

end Solver

end EquationSystem
