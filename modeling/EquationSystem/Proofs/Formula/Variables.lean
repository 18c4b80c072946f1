import EquationSystem.Proofs.Formula.Recognition
import EquationSystem.Proofs.Formula.Visits

/-!
# The variables of a text

A name in a formula is that of a function if a parenthesis opens right after it, and that of a
variable otherwise. The tree of a formula keeps the variables in the order of the text, however its
operators group, so that compiling records the variables at their first places in the text.
-/

namespace EquationSystem

namespace Parser

/-- The names of variables in the tokens, as often as they stand there. -/
def variableNames : List PlacedToken → List String
  | [] => []
  | t :: ts =>
    match t.token with
    | .name name =>
      if next? ts = some .leftParen then variableNames ts else name :: variableNames ts
    | _ => variableNames ts

/-- The token is no name, and a name right before it is that of a variable. -/
structure Separates (token : Token) : Prop where
  ne_leftParen : token ≠ .leftParen
  ne_name : ∀ name, token ≠ .name name

variable {t : PlacedToken} {ts us : List PlacedToken} {pieces : List Piece}

theorem variableNames_cons (h : ∀ name, t.token ≠ .name name) :
    variableNames (t :: ts) = variableNames ts := by
  rw [variableNames]
  split
  · next name same => exact absurd same (h name)
  · rfl

/-- The name of a function and the parenthesis after it. -/
theorem variableNames_callee {name : String} {start stop : Nat} (h : t.token = .leftParen) :
    variableNames (⟨.name name, start, stop⟩ :: t :: ts) = variableNames ts := by
  have called : next? (t :: ts) = some .leftParen := congrArg some h
  simp only [variableNames, called, if_true]
  rw [h]

theorem variableNames_append (h : next? us ≠ some .leftParen) :
    variableNames (ts ++ us) = variableNames ts ++ variableNames us := by
  induction ts with
  | nil => rfl
  | cons t ts ih =>
    have next : next? (ts ++ us) = some .leftParen ↔ next? ts = some .leftParen := by
      cases ts with
      | nil => exact iff_of_false h nofun
      | cons t ts => exact Iff.rfl
    simp only [List.cons_append, variableNames, next, ih]
    split
    · split <;> rfl
    · rfl

/-- What stands on one side of a separator makes no variables on the other. -/
theorem variableNames_append_cons (h : Separates t.token) :
    variableNames (ts ++ t :: us) = variableNames ts ++ variableNames us := by
  rw [variableNames_append, variableNames_cons h.ne_name]
  intro next
  exact h.ne_leftParen (Option.some.inj next)

theorem variableNames_concat (h : Separates t.token) :
    variableNames (ts ++ [t]) = variableNames ts := by
  rw [variableNames_append_cons h]
  exact List.append_nil _

theorem variableNames_spell (h : ∀ piece ∈ pieces, Separates piece.sign.token) :
    variableNames (ts ++ Piece.spell pieces) =
      variableNames ts ++ pieces.flatMap fun piece => variableNames piece.tokens := by
  induction pieces generalizing ts with
  | nil => simp
  | cons piece pieces ih =>
    rw [List.forall_mem_cons] at h
    rw [Piece.spell_cons, variableNames_append_cons h.1, ih h.2, List.flatMap_cons]

theorem Separates.of_joins {tier : Tier} {op : BinaryOp} (h : Joins tier t.token op) :
    Separates t.token := by
  generalize t.token = token at h
  cases h <;> exact ⟨nofun, nofun⟩

theorem Separates.of_compares {op : BinaryOp} (h : Compares t.token op) : Separates t.token := by
  generalize t.token = token at h
  cases h <;> exact ⟨nofun, nofun⟩

theorem ne_name_of_prefixes {op : UnaryOp} (h : Prefixes t.token op) (name : String) :
    t.token ≠ .name name := by
  generalize t.token = token at h
  cases h <;> nofun

theorem Separates.of_eq {token : Token} (h : t.token = token) (separates : Separates token) :
    Separates t.token :=
  h ▸ separates

/-- The references of a tree are the variables of the tokens that it was derived for. -/
theorem variableNames_of_derives {n : Nat} {tier : Tier} {e : Expr} (h : Derives n tier ts e) :
    variableNames ts = e.references := by
  induction h with
  | tighter _ _ ih => exact ih
  | @chain _ _ _ ts first links _ _ _ joins _ ihfirst ihlinks =>
    have separates : ∀ piece ∈ links.map (·.2), Separates piece.sign.token :=
      List.forall_mem_map.2 fun link hl => .of_joins (joins link hl)
    rw [variableNames_spell separates, ihfirst, Expr.references_chain, List.flatMap_map,
      List.flatMap_map]
    exact congrArg _ (List.flatMap_congr ihlinks)
  | comparison _ compares _ ihlhs ihrhs =>
    rw [variableNames_append_cons (.of_compares compares), ihlhs, ihrhs, Expr.references_binary]
  | prefixed prefixes _ ih => exact (variableNames_cons (ne_name_of_prefixes prefixes)).trans ih
  | power _ caret _ ihbase ihexponent =>
    rw [variableNames_append_cons (.of_eq caret ⟨nofun, nofun⟩), ihbase, ihexponent,
      Expr.references_binary]
  | number | bool | reference => rfl
  | parentheses hleft _ hright ih =>
    rw [variableNames_cons (by simp [hleft]), variableNames_concat (.of_eq hright ⟨nofun, nofun⟩),
      ih]
  | callWithoutArguments hleft hright =>
    rw [variableNames_callee hleft, variableNames_cons (by simp [hright])]
    rfl
  | @call _ _ _ _ _ _ _ _ more hleft _ commas _ hright ihfirst ihmore =>
    have separates : ∀ piece ∈ more, Separates piece.sign.token :=
      fun piece hp => .of_eq (commas piece hp) ⟨nofun, nofun⟩
    rw [variableNames_callee hleft, variableNames_concat (.of_eq hright ⟨nofun, nofun⟩),
      variableNames_spell separates, ihfirst, Expr.references_call, List.flatMap_cons,
      List.flatMap_map, List.flatMap_congr ihmore]

/-- Compiling what a text says records its variables, each where it first stands. -/
theorem recorded_eq_variableNames {text : String} {e : Expr} {term : Term} {names : Names}
    (parsed : Expr.parse text = .ok e) (compiled : e.compile ∅ = (.ok term, names)) :
    ∃ tokens, Lexer.tokenize text = .ok tokens ∧ names.toList = (variableNames tokens).eraseDups := by
  unfold Expr.parse at parsed
  cases h : Lexer.tokenize text with
  | error e =>
    rw [h] at parsed
    cases parsed
  | ok tokens =>
    rw [h] at parsed
    have derives := read_expression_iff.1 (parseTokens_ok_iff.1 parsed)
    exact ⟨tokens, rfl, by rw [Expr.toList_of_compile compiled, variableNames_of_derives derives]⟩

/-- The base of a power comes before its exponent, and a function may have the name of a
variable. -/
theorem recorded_eq_variableNames_power :
    ∃ e term names tokens, Expr.parse "max^max(a, max)" = .ok e ∧
      e.compile ∅ = (.ok term, names) ∧ Lexer.tokenize "max^max(a, max)" = .ok tokens ∧
      names.toList = (variableNames tokens).eraseDups ∧
      (variableNames tokens).eraseDups = ["max", "a"] := by
  let base : PlacedToken := ⟨.name "max", 0, 3⟩
  let caret : PlacedToken := ⟨.caret, 3, 4⟩
  let left : PlacedToken := ⟨.leftParen, 7, 8⟩
  let more : Piece := ⟨⟨.comma, 9, 10⟩, [⟨.name "max", 11, 14⟩], .reference "max"⟩
  let right : PlacedToken := ⟨.rightParen, 14, 15⟩
  let e : Expr := .binary .power (.reference "max") (.call "max" [.reference "a", more.operand] 4)
  have read : Lexer.tokenize "max^max(a, max)" = .ok [base, caret, ⟨.name "max", 4, 7⟩, left,
      ⟨.name "a", 8, 9⟩, more.sign, ⟨.name "max", 11, 14⟩, right] := by decide +kernel
  have loosest (name : String) (start stop : Nat) :
      Derives 62 .or [⟨.name name, start, stop⟩] (.reference name) :=
    .tighter rfl (.tighter rfl (.tighter rfl (.tighter rfl (.tighter rfl
      (.tighter rfl (.tighter rfl .reference))))))
  have call : Derives 63 .unary _ (.call "max" [.reference "a", more.operand] 4) :=
    .tighter rfl (.tighter rfl (@Derives.call 62 4 7 "max" left right _ _ [more] rfl
      (loosest "a" 8 9) (by simp [more]) (by simpa [more] using loosest "max" 11 14) rfl))
  have power : Derives 64 .power ([base] ++ caret :: _) e := .power .reference rfl call
  have parsed : Expr.parse "max^max(a, max)" = .ok e := by
    unfold Expr.parse
    rw [read]
    exact parseTokens_ok_iff.2 (read_expression_iff.2 (.tighter rfl (.tighter rfl (.tighter rfl
      (.tighter rfl (.tighter rfl (.tighter rfl power)))))))
  obtain ⟨tokens, read', recorded⟩ := recorded_eq_variableNames parsed rfl
  refine ⟨e, _, _, tokens, parsed, rfl, read', recorded, ?_⟩
  rw [read] at read'
  cases read'
  decide

end Parser

end EquationSystem
