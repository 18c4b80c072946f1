import EquationSystem.Proofs.Dependency.Graph
import EquationSystem.Proofs.Formula.Recognition
import EquationSystem.Proofs.Solver.Registry

/-!
# The history of a solver

A solver that is asked to register, to order, to solve and to look up, in any order, keeps one
equation for every name: the last that was registered for it, at the place of the first. It keeps
nothing else, so that every operation is answered as if only the successful registrations had come
before it.
-/

namespace EquationSystem.Solver

/-- What a solver can be asked. -/
inductive Operation where
  | add (name raw : Option String)
  | solve
  | solvingOrder
  | equation (name : String)
  | contains (name : String)
  | equations
  | names
  | size
  | isEmpty

inductive Answer where
  | added (reply : Reply Unit)
  | solved (reply : Reply Solution)
  | ordered (reply : Reply (List String))
  | found (equation : Option Equation)
  | listed (equations : List Equation)
  | named (names : List String)
  | counted (size : Nat)
  | decided (yes : Bool)

/-- Whether the answer is that an equation was registered. -/
def Answer.registers : Answer → Bool
  | .added reply => reply.result.isOk
  | _ => false

/-- The equation that an operation registers, if it registers one. -/
def Operation.registered? (config : Config) : Operation → Option Equation
  | .add (some name) (some raw) =>
    match (readFormula config name raw).2 with
    | .ok formula => some ⟨name, raw, formula⟩
    | .error _ => none
  | _ => none

/-- Performs one operation. -/
def perform (s : Solver) : Operation → Answer × Solver
  | .add name raw => (.added (s.add name raw).1, (s.add name raw).2)
  | .solve => (.solved s.solve.1, s.solve.2)
  | .solvingOrder => (.ordered s.solvingOrder, s)
  | .equation name => (.found (s.equation? name), s)
  | .contains name => (.decided (s.contains name), s)
  | .equations => (.listed s.equations.toList, s)
  | .names => (.named s.names, s)
  | .size => (.counted s.size, s)
  | .isEmpty => (.decided s.isEmpty, s)

/-- The solver that results from operations, one after the other. -/
def after (s : Solver) (ops : List Operation) : Solver :=
  ops.foldl (fun s op => (s.perform op).2) s

/-- The operations, each with its answer. -/
def transcript (s : Solver) : List Operation → List (Operation × Answer)
  | [] => []
  | op :: ops => (op, (s.perform op).1) :: (s.perform op).2.transcript ops

/-- One equation for every name, the last one of the name, in the order of the first ones. -/
def latest (es : List Equation) : List Equation :=
  (es.map (·.name)).eraseDups.filterMap fun name => es.findRev? (·.name == name)

variable {s : Solver} {e : Equation} {es : List Equation}

theorem after_cons (op : Operation) (ops : List Operation) :
    s.after (op :: ops) = (s.perform op).2.after ops := rfl

/-! ## Registering -/

/-- A formula is read by way of the expression that its tokens form. -/
theorem readFormula_of_derives {config : Config} {name raw : String} {ts : List PlacedToken}
    {expr : Expr} {term : Term} {dependencies : Names} (other : Decimal.literal? raw = none)
    (tokens : Lexer.tokenize (String.ofList (stripReturns raw.toList)) = .ok ts)
    (derives : Derives 64 .or ts expr) (compiled : expr.compile ∅ = (.ok term, dependencies)) :
    (readFormula config name raw).2 = .ok (.computed term dependencies) := by
  have parsed : Expr.parse (String.ofList (stripReturns raw.toList)) = .ok expr :=
    Parser.parse_ok_iff.2 ⟨ts, tokens, derives⟩
  exact readFormula_ok_iff.2 (.inr ⟨other, expr, term, dependencies, parsed, compiled, rfl⟩)

/-- A formula that consists of one name refers to that name. -/
theorem readFormula_of_name {config : Config} {name raw x : String} {start stop : Nat}
    (other : Decimal.literal? raw = none)
    (tokens : Lexer.tokenize (String.ofList (stripReturns raw.toList)) =
      .ok [⟨.name x, start, stop⟩]) :
    (readFormula config name raw).2 = .ok (.computed (.reference x) (Names.insert ∅ x)) :=
  readFormula_of_derives other tokens (Derives.of_primary .reference .or) rfl

theorem add_of_readFormula {name raw : String} {formula : Formula}
    (h : (readFormula s.config name raw).2 = .ok formula) :
    (s.add (some name) (some raw)).1.result = .ok () ∧
      (s.add (some name) (some raw)).2 = s.insert ⟨name, raw, formula⟩ := by
  rw [Solver.add]
  rcases read : readFormula s.config name raw with ⟨events, result⟩
  rw [read] at h
  cases h
  exact ⟨rfl, rfl⟩

theorem Reachable.insert {name raw : String} {formula : Formula} (h : s.Reachable)
    (read : (readFormula s.config name raw).2 = .ok formula) :
    (s.insert ⟨name, raw, formula⟩).Reachable := by
  rw [← (add_of_readFormula read).2]
  exact h.add _ _

@[simp] theorem config_insert : (s.insert e).config = s.config := by
  rw [Solver.insert]
  split <;> rfl

namespace Consistent

/-- Registering an equation changes what its name stands for, and nothing else. -/
theorem equation?_insert (h : s.Consistent) (name : String) :
    (s.insert e).equation? name = if e.name = name then some e else s.equation? name := by
  rw [Solver.insert]
  split
  · next place known =>
    obtain ⟨old, hold, -⟩ := getElem?_names.1 ((h.index_iff _ _).1 known)
    have bound : place < s.equations.size := (Array.getElem?_eq_some_iff.1 hold).1
    by_cases here : e.name = name
    · subst here
      simp [equation?, known, bound]
    · -- Another name has another place.
      have other : s.index[name]? ≠ some place := by
        intro same
        rw [h.index_iff] at known same
        rw [known] at same
        exact here (Option.some.inj same)
      rw [if_neg here, equation?, equation?]
      cases hp : s.index[name]? with
      | none => rfl
      | some p =>
        have hne : place ≠ p := by
          rintro rfl
          exact other hp
        simp [hne]
  · next unknown =>
    by_cases here : e.name = name
    · subst here
      simp [equation?]
    · rw [if_neg here, equation?, equation?]
      cases hp : s.index[name]? with
      | none => simp [Std.HashMap.getElem?_insert, here, hp]
      | some p =>
        obtain ⟨e', he', -⟩ := getElem?_names.1 ((h.index_iff _ _).1 hp)
        have bound : p < s.equations.size := (Array.getElem?_eq_some_iff.1 he').1
        simp [Std.HashMap.getElem?_insert, here, hp, Array.getElem?_push, Nat.ne_of_lt bound]

/-- The names, in their order, tell all equations. -/
theorem equations_eq (h : s.Consistent) :
    s.equations.toList = s.names.filterMap s.equation? := by
  have known : ∀ e ∈ s.equations.toList, s.equation? e.name = some e := fun e he =>
    h.equation?_iff.2 ⟨Array.mem_toList_iff.1 he, rfl⟩
  rw [names, List.filterMap_map]
  conv_lhs => rw [← List.filterMap_some (l := s.equations.toList)]
  exact List.filterMap_congr fun e he => (known e he).symm

end Consistent

/-- The solver holds what was registered by `es`, one after the other. -/
structure Holds (s : Solver) (es : List Equation) : Prop where
  consistent : s.Consistent
  names_eq : s.names = (es.map (·.name)).eraseDups
  equation?_eq : ∀ name, s.equation? name = es.findRev? (·.name == name)

namespace Holds

theorem empty (config : Config) : (Solver.empty config).Holds [] where
  consistent := .empty config
  names_eq := rfl
  equation?_eq := by simp [equation?, Solver.empty]

theorem insert (h : s.Holds es) (reads : e.ReadsDependencies) : (s.insert e).Holds (es ++ [e]) where
  consistent := h.consistent.insert reads
  names_eq := by
    rw [h.consistent.names_insert, h.names_eq, List.map_append, List.map_singleton,
      Dependency.eraseDups_concat]
    simp only [List.mem_eraseDups]
  equation?_eq := by
    intro name
    rw [h.consistent.equation?_insert, h.equation?_eq]
    by_cases here : e.name = name <;> simp [here]

theorem equations_eq (h : s.Holds es) : s.equations.toList = latest es := by
  rw [h.consistent.equations_eq, h.names_eq, latest]
  congr
  funext name
  exact h.equation?_eq name

end Holds

/-! ## Operations -/

/-- An operation registers an equation, or fails to or does something else and leaves the solver as
it was. -/
theorem perform_cases (h : s.Consistent) (op : Operation) :
    (∃ e, op.registered? s.config = some e ∧ e.ReadsDependencies ∧
      (s.perform op).1.registers = true ∧ (s.perform op).2 = s.insert e) ∨
    (op.registered? s.config = none ∧ (s.perform op).1.registers = false ∧
      (s.perform op).2 = s) := by
  cases op with
  | add name raw =>
    cases name with
    | none => exact .inr ⟨rfl, rfl, rfl⟩
    | some name =>
      cases raw with
      | none => exact .inr ⟨rfl, rfl, rfl⟩
      | some raw =>
        rw [perform, Solver.add, Operation.registered?]
        rcases read : readFormula s.config name raw with ⟨events, cause | formula⟩
        · exact .inr ⟨rfl, rfl, rfl⟩
        · have reads := readsDependencies_of_readFormula (congrArg Prod.snd read)
          exact .inl ⟨⟨name, raw, formula⟩, rfl, reads, rfl, rfl⟩
  | solve =>
    refine .inr ⟨rfl, rfl, ?_⟩
    rw [perform, solve_snd, ← h.bindings_eq]
  | _ => exact .inr ⟨rfl, rfl, rfl⟩

theorem Consistent.perform (h : s.Consistent) (op : Operation) :
    (s.perform op).2.Consistent := by
  rcases perform_cases h op with ⟨e, -, reads, -, next⟩ | ⟨-, -, next⟩
  · rw [next]
    exact h.insert reads
  · rw [next]
    exact h

theorem Holds.perform (h : s.Holds es) (op : Operation) :
    (s.perform op).2.Holds (es ++ (op.registered? s.config).toList) ∧
      (s.perform op).2.config = s.config := by
  rcases perform_cases h.consistent op with ⟨e, registers, reads, -, next⟩ | ⟨idle, -, next⟩
  · rw [next, registers]
    exact ⟨h.insert reads, config_insert⟩
  · rw [next, idle, Option.toList_none, List.append_nil]
    exact ⟨h, rfl⟩

theorem Holds.after (h : s.Holds es) (ops : List Operation) :
    (s.after ops).Holds (es ++ ops.filterMap (Operation.registered? s.config)) ∧
      (s.after ops).config = s.config := by
  induction ops generalizing s es with
  | nil => exact ⟨by rwa [List.filterMap_nil, List.append_nil], rfl⟩
  | cons op ops ih =>
    obtain ⟨next, same⟩ := h.perform op
    have rest := ih next
    rw [same, List.append_assoc] at rest
    rw [after_cons]
    cases registers : op.registered? s.config <;> simpa [registers] using rest

section
variable (h : s.Consistent)
include h

/-- An operation registers an equation exactly where it is answered so. -/
theorem registers_of_mem_transcript (ops : List Operation) :
    ∀ entry ∈ s.transcript ops, entry.2.registers = (entry.1.registered? s.config).isSome := by
  induction ops generalizing s with
  | nil =>
    rw [transcript]
    exact List.forall_mem_nil _
  | cons op ops ih =>
    rw [transcript, List.forall_mem_cons]
    rcases perform_cases h op with ⟨e, registers, reads, answer, next⟩ | ⟨idle, answer, next⟩
    · rw [next, answer, registers]
      refine ⟨rfl, ?_⟩
      have rest := ih (h.insert reads)
      rwa [config_insert] at rest
    · rw [next, answer, idle]
      exact ⟨rfl, ih h⟩

/-- Where operations that register nothing are left out, the others are answered as before and lead
to the same solver. -/
theorem transcript_of_sublist (ops : List Operation) {kept : List (Operation × Answer)}
    (sub : kept.Sublist (s.transcript ops))
    (all : kept.filter (·.2.registers) = (s.transcript ops).filter (·.2.registers)) :
    s.transcript (kept.map Prod.fst) = kept ∧ s.after (kept.map Prod.fst) = s.after ops := by
  induction ops generalizing s kept with
  | nil =>
    cases sub
    exact ⟨rfl, rfl⟩
  | cons op ops ih =>
    rw [transcript] at sub all
    cases sub with
    | cons _ sub =>
      rcases perform_cases h op with ⟨e, -, -, answer, -⟩ | ⟨-, answer, next⟩
      · -- What is left out registers nothing, for else a registration would be lost.
        simp only [List.filter_cons, answer, ↓reduceIte] at all
        have fewer := (sub.filter (·.2.registers)).length_le
        rw [all, List.length_cons] at fewer
        omega
      · simp only [List.filter_cons, answer, Bool.false_eq_true, ↓reduceIte] at all
        rw [next] at sub all
        rw [after_cons, next]
        exact ih h sub all
    | cons_cons _ sub =>
      rw [List.filter_cons, List.filter_cons] at all
      have rest := ih (h.perform op) sub (by split at all <;> simpa using all)
      rw [List.map_cons, transcript, rest.1, after_cons, after_cons, rest.2]
      exact ⟨rfl, rfl⟩

end

/-- Whatever a new solver is asked, in any order, it holds one equation for every name that was
registered with success, with the formula and text registered last, in the order in which the names
were registered first; its index gives the places of just these names, and it holds no values.
Every other operation, such as a registration that fails or solving, leaves it as it is, and the
answers of all others are those that they have without it. -/
theorem history_spec (config : Config) (ops : List Operation) :
    let s := (Solver.empty config).after ops
    let registered := ops.filterMap (Operation.registered? config)
    s.config = config ∧ s.bindings = ∅ ∧
    s.equations.toList = latest registered ∧
    s.names = (registered.map (·.name)).eraseDups ∧
    (∀ name, s.equation? name = registered.findRev? (·.name == name)) ∧
    (∀ (name : String) (place : Nat), s.index[name]? = some place ↔ s.names[place]? = some name) ∧
    (∀ entry ∈ (Solver.empty config).transcript ops,
      entry.2.registers = (entry.1.registered? config).isSome) ∧
    (∀ op, (s.perform op).1.registers = false → (s.perform op).2 = s) ∧
    ∀ kept, kept.Sublist ((Solver.empty config).transcript ops) →
      kept.filter (·.2.registers) =
        ((Solver.empty config).transcript ops).filter (·.2.registers) →
      (Solver.empty config).transcript (kept.map Prod.fst) = kept ∧
        (Solver.empty config).after (kept.map Prod.fst) = s := by
  intro s registered
  have fresh := Consistent.empty config
  obtain ⟨holds, same⟩ : s.Holds registered ∧ s.config = config := (Holds.empty config).after ops
  refine ⟨same, holds.consistent.bindings_eq, holds.equations_eq, holds.names_eq,
    holds.equation?_eq, holds.consistent.index_iff, registers_of_mem_transcript fresh ops, ?_,
    fun kept sub all => transcript_of_sublist fresh ops sub all⟩
  intro op failed
  rcases perform_cases holds.consistent op with ⟨e, -, -, answer, -⟩ | ⟨-, -, same⟩
  · rw [failed] at answer
    cases answer
  · exact same

end EquationSystem.Solver
