import EquationSystem.Proofs.Formula.Missing

/-!
# What compiling meets

Compiling goes through an expression from the left and meets numbers, references and calls. It ends
at the first that is at fault, and records the references before it. An expression without a fault
is compiled to a term that reads just the names that were met, so that these alone, and not the
names recorded by other expressions, tell what evaluation depends on; and the term gives every
function a number of arguments that it accepts.
-/

namespace EquationSystem

theorem Names.toList_foldl_insert (xs : List String) (names : Names) :
    (xs.foldl insert names).toList =
      names.toList ++ (xs.filter (· ∉ names.toList)).eraseDups := by
  induction xs generalizing names with
  | nil => exact (List.append_nil _).symm
  | cons x xs ih =>
    rw [List.foldl_cons, ih, toList_insert]
    split
    · next known => rw [List.filter_cons_of_neg (by simpa using known)]
    · next fresh =>
      rw [List.filter_cons_of_pos (by simpa using fresh), List.eraseDups_cons, List.filter_filter,
        List.append_assoc, List.singleton_append]
      congr 4
      funext y
      exact Bool.eq_iff_iff.2 (by simp [and_comm])

/-- A part of an expression that is recorded or that can keep the expression from being compiled. -/
inductive Visit where
  | number (text : String)
  | reference (name : String)
  /-- A call with its number of arguments and its place. -/
  | call (name : String) (count position : Nat)

namespace Visit

/-- What is wrong with the part, if anything is. -/
def fault? : Visit → Option SyntaxError
  | .number text =>
    match Decimal.parse text with
    | .ok _ => none
    | .error _ => some ⟨.invalidNumber text, 0⟩
  | .reference _ => none
  | .call name count position =>
    match Builtin.ofName? name with
    | none => some ⟨.unknownFunction name, position⟩
    | some f => if f.accepts count then none else some ⟨.argumentCount f count, position⟩

/-- The name that is recorded for the part. -/
def name? : Visit → Option String
  | .reference name => some name
  | _ => none

/-- The parts before the first that is at fault. -/
def passed (visits : List Visit) : List Visit := visits.takeWhile (·.fault?.isNone)

/-- The first fault among the parts. -/
def firstFault? (visits : List Visit) : Option SyntaxError := visits.findSome? fault?

/-- The names that are recorded for the parts, as often as they are met. -/
def names (visits : List Visit) : List String := visits.filterMap name?

variable {v : Visit} {visits visits' : List Visit} {e : SyntaxError}

@[simp] theorem names_nil : names [] = [] := rfl

@[simp] theorem names_append : names (visits ++ visits') = names visits ++ names visits' :=
  List.filterMap_append

theorem passed_cons_of_fault (h : v.fault? = some e) : passed (v :: visits) = [] :=
  List.takeWhile_cons_of_neg (by rw [h]; nofun)

theorem passed_cons_of_faultless (h : v.fault? = none) :
    passed (v :: visits) = v :: passed visits :=
  List.takeWhile_cons_of_pos (by rw [h, Option.isNone_none])

theorem firstFault?_cons_of_fault (h : v.fault? = some e) : firstFault? (v :: visits) = some e :=
  List.findSome?_cons_of_isSome (by rw [h, Option.isSome_some]) |>.trans h

theorem firstFault?_cons_of_faultless (h : v.fault? = none) :
    firstFault? (v :: visits) = firstFault? visits :=
  List.findSome?_cons_of_isNone (by rw [h, Option.isNone_none])

theorem firstFault?_append :
    firstFault? (visits ++ visits') = (firstFault? visits).or (firstFault? visits') :=
  List.findSome?_append

theorem passed_append_of_fault (h : firstFault? visits = some e) :
    passed (visits ++ visits') = passed visits := by
  induction visits with
  | nil => cases h
  | cons v visits ih =>
    cases hv : v.fault? with
    | some e' => rw [List.cons_append, passed_cons_of_fault hv, passed_cons_of_fault hv]
    | none =>
      rw [firstFault?_cons_of_faultless hv] at h
      rw [List.cons_append, passed_cons_of_faultless hv, passed_cons_of_faultless hv, ih h]

theorem passed_append_of_faultless (h : firstFault? visits = none) :
    passed (visits ++ visits') = visits ++ passed visits' :=
  List.takeWhile_append_of_pos fun v hv => by
    rw [List.findSome?_eq_none_iff.1 h v hv, Option.isNone_none]

theorem passed_of_faultless (h : firstFault? visits = none) : passed visits = visits := by
  have all := @passed_append_of_faultless visits [] h
  rwa [List.append_nil, show passed [] = [] from rfl, List.append_nil] at all

end Visit

namespace Term

mutual

/-- Every function gets a number of arguments that it accepts. -/
def WellCalled : Term → Prop
  | .constant _ | .reference _ => True
  | .unary _ operand => operand.WellCalled
  | .binary _ lhs rhs => lhs.WellCalled ∧ rhs.WellCalled
  | .chain first rest => first.WellCalled ∧ ChainWellCalled rest
  | .call f args => f.accepts args.length = true ∧ ArgumentsWellCalled args

def ChainWellCalled : List (BinaryOp × Term) → Prop
  | [] => True
  | (_, operand) :: rest => operand.WellCalled ∧ ChainWellCalled rest

def ArgumentsWellCalled : List Term → Prop
  | [] => True
  | arg :: args => arg.WellCalled ∧ ArgumentsWellCalled args

end

end Term

namespace Expr

open Term Visit

mutual

/-- The parts that compiling an expression meets, from the left, unless one is at fault: a call
comes before its arguments. -/
def visits : Expr → List Visit
  | .number text => [.number text]
  | .bool _ => []
  | .reference name => [.reference name]
  | .unary _ operand => operand.visits
  | .binary _ lhs rhs => lhs.visits ++ rhs.visits
  | .chain first rest => first.visits ++ chainVisits rest
  | .call name args position => .call name args.length position :: argumentVisits args

def chainVisits : List (BinaryOp × Expr) → List Visit
  | [] => []
  | (_, operand) :: rest => operand.visits ++ chainVisits rest

def argumentVisits : List Expr → List Visit
  | [] => []
  | arg :: args => arg.visits ++ argumentVisits args

end

/-- The names that an expression refers to, as often as it does, from the left. -/
def references (e : Expr) : List String := names e.visits

/-- The names that compiling gets to see. -/
def visited (e : Expr) : List String := names (passed e.visits)

theorem references_binary (op : BinaryOp) (lhs rhs : Expr) :
    (binary op lhs rhs).references = lhs.references ++ rhs.references :=
  names_append

theorem references_chain (first : Expr) (rest : List (BinaryOp × Expr)) :
    (chain first rest).references = first.references ++ rest.flatMap (·.2.references) := by
  have links : names (chainVisits rest) = rest.flatMap (·.2.references) := by
    induction rest with
    | nil => rfl
    | cons link rest ih =>
      rw [chainVisits, names_append, ih, List.flatMap_cons]
      rfl
  rw [← links]
  exact names_append

theorem references_call (name : String) (args : List Expr) (position : Nat) :
    (call name args position).references = args.flatMap references := by
  show names (argumentVisits args) = _
  induction args with
  | nil => rfl
  | cons arg args ih =>
    rw [argumentVisits, names_append, ih, List.flatMap_cons]
    rfl

/-- Compiling meets the given parts: it ends at their first fault, and has recorded the names before
it. Without a fault the result is as wanted. -/
structure Follows {α : Type} (recorded : Names) (visits : List Visit) (wanted : α → Prop)
    (compiled : Except SyntaxError α × Names) : Prop where
  records : compiled.2 = (names (passed visits)).foldl Names.insert recorded
  fails : ∀ e, compiled.1 = .error e → firstFault? visits = some e
  succeeds : ∀ a, compiled.1 = .ok a → firstFault? visits = none ∧ wanted a

namespace Follows

variable {α β : Type} {wanted : α → Prop} {wanted' : β → Prop} {recorded : Names}
  {visits visits' : List Visit} {v : Visit}

theorem nil {a : α} (h : wanted a) : Follows recorded [] wanted (.ok a, recorded) :=
  ⟨rfl, nofun, fun _ same => by cases same; exact ⟨rfl, h⟩⟩

theorem fault {e : SyntaxError} (h : v.fault? = some e) :
    Follows recorded (v :: visits) wanted (.error e, recorded) where
  records := by rw [passed_cons_of_fault h, names_nil, List.foldl_nil]
  fails _ same := by cases same; exact firstFault?_cons_of_fault h
  succeeds := nofun

theorem pass {compiled : Except SyntaxError α × Names} (faultless : v.fault? = none)
    (h : Follows (v.name?.toList.foldl Names.insert recorded) visits wanted compiled) :
    Follows recorded (v :: visits) wanted compiled where
  records := by
    rw [h.records, passed_cons_of_faultless faultless, ← List.singleton_append, names_append,
      List.foldl_append]
    cases v <;> rfl
  fails e same := by rw [firstFault?_cons_of_faultless faultless, h.fails e same]
  succeeds a same := by rw [firstFault?_cons_of_faultless faultless]; exact h.succeeds a same

/-- Compiling one part and then, unless that fails, another. -/
theorem bind {first : Except SyntaxError α × Names} {both : Except SyntaxError β × Names}
    (h : Follows recorded visits wanted first)
    (herror : ∀ e recorded', first = (.error e, recorded') → both = (.error e, recorded'))
    (hok : ∀ a recorded', first = (.ok a, recorded') → wanted a →
      Follows recorded' visits' wanted' both) :
    Follows recorded (visits ++ visits') wanted' both := by
  rcases hfirst : first with ⟨e | a, recorded'⟩ <;> rw [hfirst] at h
  · have fault := h.fails e rfl
    rw [herror e recorded' hfirst]
    refine ⟨?_, fun _ same => ?_, nofun⟩
    · rw [passed_append_of_fault fault]
      exact h.records
    · cases same
      rw [firstFault?_append, fault, Option.some_or]
  · obtain ⟨faultless, ha⟩ := h.succeeds a rfl
    have next := hok a recorded' hfirst ha
    have same : firstFault? (visits ++ visits') = firstFault? visits' := by
      rw [firstFault?_append, faultless, Option.none_or]
    refine ⟨?_, same ▸ next.fails, same ▸ next.succeeds⟩
    rw [next.records, passed_append_of_faultless faultless, names_append, List.foldl_append,
      show recorded' = _ from h.records, passed_of_faultless faultless]

/-- What is made of the last part meets nothing more. -/
theorem last {first : Except SyntaxError α × Names} {both : Except SyntaxError β × Names}
    (h : Follows recorded visits wanted first)
    (herror : ∀ e recorded', first = (.error e, recorded') → both = (.error e, recorded'))
    (hok : ∀ a recorded', first = (.ok a, recorded') → wanted a →
      ∃ b, both = (.ok b, recorded') ∧ wanted' b) :
    Follows recorded visits wanted' both := by
  rw [← List.append_nil visits]
  refine h.bind herror fun a recorded' same ha => ?_
  obtain ⟨b, rfl, hb⟩ := hok a recorded' same ha
  exact nil hb

theorem imp {wanted' : α → Prop} {compiled : Except SyntaxError α × Names}
    (h : Follows recorded visits wanted compiled) (weaker : ∀ a, wanted a → wanted' a) :
    Follows recorded visits wanted' compiled :=
  ⟨h.records, h.fails, fun a same => ⟨(h.succeeds a same).1, weaker a (h.succeeds a same).2⟩⟩

end Follows

/-- What is wanted of the term for an expression that meets the given parts. -/
structure Fits (visits : List Visit) (t : Term) : Prop where
  references : t.references = names visits
  wellCalled : t.WellCalled

/-- What is wanted of the operands of a chain, and of their operators. -/
structure FitsChain (visits : List Visit) (links : List (BinaryOp × Term)) : Prop where
  references : chainReferences links = names visits
  wellCalled : ChainWellCalled links

/-- What is wanted of the arguments of a call, of which there are `count`. -/
structure FitsArguments (visits : List Visit) (count : Nat) (args : List Term) : Prop where
  references : argumentReferences args = names visits
  wellCalled : ArgumentsWellCalled args
  length : args.length = count

mutual

theorem compile_follows (recorded : Names) : ∀ e : Expr,
    Follows recorded e.visits (Fits e.visits) (e.compile recorded)
  | .number text => by
    rw [compile, visits]
    cases h : Decimal.parse text with
    | ok x => exact .pass (by rw [fault?, h]) (.nil ⟨rfl, trivial⟩)
    | error _ => exact .fault (by rw [fault?, h])
  | .bool value => by
    rw [compile, visits]
    exact .nil ⟨rfl, trivial⟩
  | .reference name => by
    rw [compile, visits]
    exact .pass rfl (.nil ⟨rfl, trivial⟩)
  | .unary op operand => by
    rw [compile, visits]
    refine (compile_follows recorded operand).last (fun e _ h => by rw [h]) fun t _ h ht => ?_
    rw [h]
    exact ⟨_, rfl, ht.references, ht.wellCalled⟩
  | .binary op lhs rhs => by
    rw [compile, visits]
    refine (compile_follows recorded lhs).bind (fun e _ h => by rw [h]) fun t recorded' h ht => ?_
    simp only [h]
    refine (compile_follows recorded' rhs).last (fun e _ h => by rw [h]) fun t' _ h ht' => ?_
    rw [h]
    refine ⟨_, rfl, ?_, ht.wellCalled, ht'.wellCalled⟩
    rw [Term.references, ht.references, ht'.references, names_append]
  | .chain first rest => by
    rw [compile, visits]
    refine (compile_follows recorded first).bind
      (fun e _ h => by rw [h]) fun t recorded' h ht => ?_
    simp only [h]
    refine (compileChain_follows [] recorded' rest).last
      (fun e _ h => by rw [h]) fun links _ h hlinks => ?_
    obtain ⟨new, rfl, hnew⟩ := hlinks
    rw [h]
    refine ⟨_, rfl, ?_, ht.wellCalled, hnew.wellCalled⟩
    rw [names_append, ← ht.references, ← hnew.references]
    rfl
  | .call name args position => by
    rw [compile, visits]
    cases hname : Builtin.ofName? name with
    | none => exact .fault (by rw [fault?, hname])
    | some f =>
      dsimp only
      split
      · next accepted =>
        refine .pass (by simp only [fault?, hname, accepted, if_true]) ?_
        refine (compileArguments_follows [] recorded args).last
          (fun e _ h => by rw [h]) fun ts _ h hts => ?_
        obtain ⟨new, rfl, hnew⟩ := hts
        rw [h]
        exact ⟨_, rfl, hnew.references, hnew.length.symm ▸ accepted, hnew.wellCalled⟩
      · next refused => exact .fault (by simp only [fault?, hname, refused]; rfl)

theorem compileChain_follows (done : List (BinaryOp × Term)) (recorded : Names) : ∀ rest,
    Follows recorded (chainVisits rest)
      (fun links => ∃ new, links = done.reverse ++ new ∧ FitsChain (chainVisits rest) new)
      (compileChain done recorded rest)
  | [] => by
    rw [compileChain, chainVisits]
    exact .nil ⟨[], (List.append_nil _).symm, rfl, trivial⟩
  | (op, operand) :: rest => by
    rw [compileChain, chainVisits]
    refine (compile_follows recorded operand).bind
      (fun e _ h => by rw [h]) fun t recorded' h ht => ?_
    rw [h]
    refine (compileChain_follows ((op, t) :: done) recorded' rest).imp fun links hlinks => ?_
    obtain ⟨new, rfl, hnew⟩ := hlinks
    refine ⟨(op, t) :: new, by simp, ?_, ht.wellCalled, hnew.wellCalled⟩
    rw [chainReferences, ht.references, hnew.references, names_append]

theorem compileArguments_follows (done : List Term) (recorded : Names) : ∀ args,
    Follows recorded (argumentVisits args)
      (fun ts => ∃ new, ts = done.reverse ++ new ∧
        FitsArguments (argumentVisits args) args.length new)
      (compileArguments done recorded args)
  | [] => by
    rw [compileArguments, argumentVisits]
    exact .nil ⟨[], (List.append_nil _).symm, rfl, trivial, rfl⟩
  | arg :: args => by
    rw [compileArguments, argumentVisits]
    refine (compile_follows recorded arg).bind (fun e _ h => by rw [h]) fun t recorded' h ht => ?_
    rw [h]
    refine (compileArguments_follows (t :: done) recorded' args).imp fun ts hts => ?_
    obtain ⟨new, rfl, hnew⟩ := hts
    refine ⟨t :: new, by simp, ?_, ⟨ht.wellCalled, hnew.wellCalled⟩, congrArg (· + 1) hnew.length⟩
    rw [argumentReferences, ht.references, hnew.references, names_append]

end

theorem references_of_compile {e : Expr} {recorded : Names} {t : Term}
    (compiled : (e.compile recorded).1 = .ok t) : t.references = e.references :=
  ((compile_follows recorded e).succeeds t compiled).2.references

theorem wellCalled_of_compile {e : Expr} {recorded : Names} {t : Term}
    (compiled : (e.compile recorded).1 = .ok t) : t.WellCalled :=
  ((compile_follows recorded e).succeeds t compiled).2.wellCalled

theorem visited_of_compile {e : Expr} {recorded : Names} {t : Term}
    (compiled : (e.compile recorded).1 = .ok t) : e.visited = e.references := by
  rw [visited, passed_of_faultless ((compile_follows recorded e).succeeds t compiled).1, references]

theorem toList_compile (e : Expr) (recorded : Names) :
    (e.compile recorded).2.toList =
      recorded.toList ++ (e.visited.filter (· ∉ recorded.toList)).eraseDups := by
  rw [(compile_follows recorded e).records, Names.toList_foldl_insert, visited]

theorem toList_of_compile {e : Expr} {t : Term} {names : Names}
    (compiled : e.compile ∅ = (.ok t, names)) : names.toList = e.references.eraseDups := by
  have records := e.toList_compile ∅
  rwa [compiled, visited_of_compile (congrArg Prod.fst compiled), Names.toList_empty,
    List.nil_append, List.filter_eq_self.2 (by simp)] at records

theorem compile_error_iff {e : Expr} {recorded : Names} {error : SyntaxError} :
    (e.compile recorded).1 = .error error ↔ firstFault? e.visits = some error := by
  have follows := compile_follows recorded e
  refine ⟨follows.fails error, fun fault => ?_⟩
  cases h : (e.compile recorded).1 with
  | ok t =>
    rw [(follows.succeeds t h).1] at fault
    cases fault
  | error error' =>
    rw [follows.fails error' h] at fault
    cases fault
    rfl

/-- Compiling, also where it fails, appends the names it has met and that were not there, in the
order in which they were first met. What the term gives depends on these names alone, and it lacks
the value of no other name. -/
theorem compile_visited (e : Expr) (recorded : Names) :
    (e.compile recorded).2.toList =
        recorded.toList ++ (e.visited.filter (· ∉ recorded.toList)).eraseDups ∧
      (∀ error, (e.compile recorded).1 = .error error ↔ firstFault? e.visits = some error) ∧
      ∀ t, (e.compile recorded).1 = .ok t →
        e.visited = e.references ∧
        (∀ b b', (∀ name ∈ e.visited, b.get? name = b'.get? name) → t.eval b = t.eval b') ∧
        (∀ b name, t.eval b = .error (.unbound name) → name ∈ e.visited ∧ b.get? name = none) ∧
        ∀ b, (∀ name ∈ e.visited, ∃ value, b.get? name = some value) →
          ∀ name, t.eval b ≠ .error (.unbound name) := by
  refine ⟨e.toList_compile recorded, fun _ => compile_error_iff, fun t compiled => ?_⟩
  have references : t.references = e.visited := by
    rw [references_of_compile compiled, visited_of_compile compiled]
  have misses (b : Bindings) : MissesOnly (fun name => name ∈ e.visited ∧ b.get? name = none)
      (t.eval b) :=
    eval_missesOnly fun name hn absent => ⟨references ▸ hn, absent⟩
  refine ⟨visited_of_compile compiled, fun b b' agree => ?_, misses, fun b bound name failed => ?_⟩
  · exact eval_congr (references.symm ▸ agree)
  · obtain ⟨visited, absent⟩ := misses b name failed
    obtain ⟨value, found⟩ := bound name visited
    rw [absent] at found
    cases found

/-- A choice refers to the branch it does not take as well. -/
theorem compile_visited_choice :
    let e : Expr := .call "If" [.bool true, .reference "b", .reference "a"] 0
    let t : Term := .call .choose [.constant (.bool true), .reference "b", .reference "a"]
    let b := (∅ : Bindings).insert "b" (.bool false)
    (e.compile ((∅ : Names).insert "a")).1 = .ok t ∧
      (e.compile ((∅ : Names).insert "a")).2.toList = ["a", "b"] ∧
      t.eval b = t.eval (b.insert "c" (.bool true)) := by
  intro e t b
  have compiled : (e.compile ((∅ : Names).insert "a")).1 = .ok t := rfl
  have met : e.visited = ["b", "a"] := rfl
  obtain ⟨records, -, h⟩ := compile_visited e ((∅ : Names).insert "a")
  refine ⟨compiled, ?_, (h t compiled).2.1 _ _ fun name visited => ?_⟩
  · rw [records, met, Names.toList_insert]
    decide
  · have other : "c" ≠ name := by
      rintro rfl
      rw [met] at visited
      exact absurd visited (by decide)
    rw [Bindings.get?_insert b "c", if_neg other]

end Expr

end EquationSystem
