import EquationSystem.Proofs.Formula.LineFeeds
import EquationSystem.Proofs.Formula.Literals
import EquationSystem.Proofs.Solver.History

/-!
# Line endings

A formula loses its carriage returns, each with a line feed that directly follows it. So a text
whose lines end in both is read without its line feeds, and one whose lines end in line feeds is
read with them, as blanks. Both are registered as the same formula if no line feed stands inside of
what is one token without it.
-/

namespace EquationSystem

/-- The text with a carriage return before every line feed. -/
def withReturns (cs : List Char) : List Char :=
  cs.flatMap fun c => if c = '\n' then ['\r', '\n'] else [c]

variable {cs : List Char} {text text' : String} {e : Expr}

theorem stripReturns_of_not_mem (h : '\r' ∉ cs) : stripReturns cs = cs := by
  induction cs with
  | nil => rfl
  | cons c cs ih =>
    rw [List.mem_cons, not_or] at h
    have other : c ≠ '\r' := fun same => h.1 same.symm
    rw [stripReturns.eq_4 _ _ (fun _ same => (other same).elim) other, ih h.2]

theorem withReturns_cons (c : Char) (cs : List Char) :
    withReturns (c :: cs) = (if c = '\n' then ['\r', '\n'] else [c]) ++ withReturns cs :=
  List.flatMap_cons

/-- Carriage returns before all line feeds take these along. -/
theorem stripReturns_withReturns (h : '\r' ∉ cs) :
    stripReturns (withReturns cs) = withoutFeeds cs := by
  induction cs with
  | nil => rfl
  | cons c cs ih =>
    rw [List.mem_cons, not_or] at h
    rw [withReturns_cons]
    split
    · next feed =>
      subst feed
      exact (stripReturns.eq_2 _).trans (ih h.2)
    · next other =>
      have first : c ≠ '\r' := fun same => h.1 same.symm
      rw [List.singleton_append, stripReturns.eq_4 _ _ (fun _ same => (first same).elim) first,
        ih h.2, Lexer.withoutFeeds_cons other]

/-! ## Literals -/

/-- Blanks can be replaced around a number. -/
theorem Shows.flatMap {sign : Sign} {numeral : List Char} {f : Char → List Char}
    (solid : ∀ c, isBlank c = false → f c = [c])
    (blank : ∀ c, isBlank c = true → ∀ d ∈ f c, isBlank d = true) (h : Shows sign numeral cs) :
    Shows sign numeral (cs.flatMap f) := by
  obtain ⟨front, back, rfl, hfront, hback⟩ := h.split
  have blanks {xs : List Char} (hxs : ∀ c ∈ xs, isBlank c = true) :
      ∀ d ∈ xs.flatMap f, isBlank d = true := by
    intro d hd
    obtain ⟨c, hc, hd⟩ := List.mem_flatMap.1 hd
    exact blank c (hxs c hc) d hd
  have core : (sign.chars ++ numeral).flatMap f = sign.chars ++ numeral := by
    rw [List.flatMap_congr fun c hc => solid c (Shows.core_not_blank h.isNumeral sign c hc)]
    exact List.flatMap_singleton' _
  exact ⟨h.isNumeral, front.flatMap f, back.flatMap f, by
    rw [List.flatMap_append, List.flatMap_append, core], blanks hfront, blanks hback⟩

theorem withReturns_flatMap (h : '\r' ∉ cs) :
    (withReturns cs).flatMap (fun c => if c = '\r' then [] else [c]) = cs := by
  rw [withReturns, List.flatMap_assoc, List.flatMap_congr (g := fun c => [c])]
  · exact List.flatMap_singleton' _
  · intro c hc
    by_cases feed : c = '\n'
    · subst feed
      rfl
    · have other : c ≠ '\r' := ne_of_mem_of_not_mem hc h
      simp [feed, other]

theorem shows_withReturns (h : '\r' ∉ cs) {sign : Sign} {numeral : List Char} :
    Shows sign numeral (withReturns cs) ↔ Shows sign numeral cs := by
  constructor
  · intro shows
    rw [← withReturns_flatMap h]
    refine shows.flatMap (fun c solid => if_neg ?_) fun c blank d hd => ?_
    · rintro rfl
      cases solid
    · split at hd
      · cases hd
      · rwa [List.mem_singleton.1 hd]
  · refine Shows.flatMap (fun c solid => if_neg ?_) fun c blank d hd => ?_
    · rintro rfl
      cases solid
    · split at hd
      · have blanks : ∀ d ∈ ['\r', '\n'], isBlank d = true :=
          List.forall_mem_cons.2 ⟨rfl, List.forall_mem_singleton.2 rfl⟩
        exact blanks d hd
      · rwa [List.mem_singleton.1 hd]

theorem literal?_eq_of_shows
    (h : ∀ sign numeral, Shows sign numeral text.toList ↔ Shows sign numeral text'.toList) :
    Decimal.literal? text = Decimal.literal? text' := by
  by_cases literal : Decimal.isLiteral (trimBlanks text.toList) = true
  · obtain ⟨sign, numeral, shows⟩ := Shows.of_isLiteral literal
    rw [shows.literal?_eq, ((h sign numeral).1 shows).literal?_eq]
  · have literal' : ¬Decimal.isLiteral (trimBlanks text'.toList) = true := by
      intro literal'
      obtain ⟨sign, numeral, shows⟩ := Shows.of_isLiteral literal'
      exact literal ((h sign numeral).2 shows).isLiteral
    rw [Decimal.literal?, Decimal.literal?, if_neg literal, if_neg literal']

/-! ## Formulas -/

/-- Where the one text has tokens, the other one has tokens of the same kinds. -/
def TokensKept (text text' : String) : Prop :=
  ∀ ts, Lexer.tokenize text = .ok ts → ∃ us, Lexer.tokenize text' = .ok us ∧ SameKinds us ts

theorem TokensKept.parse (h : TokensKept text text') (parsed : Expr.parse text = .ok e) :
    ∃ e', Expr.parse text' = .ok e' ∧ e'.unplaced = e.unplaced := by
  rw [Expr.parse] at parsed
  cases tokens : Lexer.tokenize text with
  | error cause =>
    rw [tokens] at parsed
    cases parsed
  | ok ts =>
    rw [tokens] at parsed
    obtain ⟨us, tokens', same⟩ := h ts tokens
    rw [Expr.parse, tokens']
    exact Parser.parseTokens_of_sameKinds parsed same

namespace Solver

/-- Texts with the same literal, if any, and with tokens of the same kinds are read as the same
formula. -/
theorem readFormula_of_tokensKept {config : Config} {name raw raw' : String} {formula : Formula}
    (literal : Decimal.literal? raw' = Decimal.literal? raw)
    (kept : TokensKept (String.ofList (stripReturns raw.toList))
      (String.ofList (stripReturns raw'.toList)))
    (read : (readFormula config name raw).2 = .ok formula) :
    (readFormula config name raw').2 = .ok formula := by
  rw [readFormula_ok_iff, literal]
  rcases readFormula_ok_iff.1 read with found | ⟨other, e, term, names, parsed, compiled, rfl⟩
  · exact .inl found
  · obtain ⟨e', parsed', unplaced⟩ := kept.parse parsed
    refine .inr ⟨other, e', term, names, parsed', ?_, rfl⟩
    obtain ⟨same, result⟩ := Expr.compile_eq_of_unplaced_eq unplaced ∅
    rw [compiled] at same result
    rcases compiled' : e'.compile ∅ with ⟨cause | term', names'⟩
    · rw [compiled'] at result
      cases result
    · rw [compiled'] at same result
      cases same
      cases result
      rfl

theorem add_of_unread {s : Solver} {name raw : String} {cause : SolveError}
    (h : (readFormula s.config name raw).2 = .error cause) :
    (s.add (some name) (some raw)).1.result = .error cause := by
  rw [Solver.add]
  rcases read : readFormula s.config name raw with ⟨events, result⟩
  rw [read] at h
  cases h
  rfl

/-- Both texts are refused under the name, or both are registered and make equations that depend on
the same names and have the same value in all bindings. -/
inductive SameOutcome (s : Solver) (name text text' : String) : Prop
  | refused {cause cause' : SolveError}
      (first : (s.add (some name) (some text)).1.result = .error cause)
      (second : (s.add (some name) (some text')).1.result = .error cause')
  | registered {e e' : Equation}
      (first : (s.add (some name) (some text)).1.result = .ok ())
      (second : (s.add (some name) (some text')).1.result = .ok ())
      (known : (s.add (some name) (some text)).2.equation? name = some e)
      (known' : (s.add (some name) (some text')).2.equation? name = some e')
      (dependencies : e.dependencies = e'.dependencies)
      (evaluate : ∀ b, e.evaluate b = e'.evaluate b)

variable {s : Solver} {name : String}

theorem equation?_add {raw : String} {formula : Formula} (h : s.Consistent)
    (read : (readFormula s.config name raw).2 = .ok formula) :
    (s.add (some name) (some raw)).2.equation? name = some ⟨name, raw, formula⟩ := by
  rw [(add_of_readFormula read).2, h.equation?_insert, if_pos rfl]

theorem sameOutcome_of_readFormula (h : s.Consistent)
    (same : ∀ formula, (readFormula s.config name text).2 = .ok formula ↔
      (readFormula s.config name text').2 = .ok formula) : SameOutcome s name text text' := by
  cases read : (readFormula s.config name text).2 with
  | error cause =>
    cases read' : (readFormula s.config name text').2 with
    | error cause' => exact .refused (add_of_unread read) (add_of_unread read')
    | ok formula =>
      cases read.symm.trans ((same formula).2 read')
  | ok formula =>
    have read' := (same formula).1 read
    exact .registered (add_of_readFormula read).1 (add_of_readFormula read').1
      (equation?_add h read) (equation?_add h read') rfl fun b => rfl

/-! ## Line feeds and tokens -/

/-- No line feed of the text stands inside of one of the tokens that the text has without its line
feeds. -/
def FeedsBetweenTokens (text : String) : Prop :=
  ∀ ts, Lexer.tokenize (String.ofList (withoutFeeds text.toList)) = .ok ts →
    Lexer.FeedsApart 0 text.toList ts

theorem FeedsBetweenTokens.tokensKept (h : FeedsBetweenTokens text) :
    TokensKept text (String.ofList (withoutFeeds text.toList)) ∧
      TokensKept (String.ofList (withoutFeeds text.toList)) text := by
  have restored : TokensKept (String.ofList (withoutFeeds text.toList)) text := by
    intro ts tokens
    have spells := Lexer.tokenize_ok_iff.1 tokens
    rw [String.toList_ofList] at spells
    obtain ⟨us, spells', same⟩ := spells.exists_with_feeds (h ts tokens) 0
    exact ⟨us, Lexer.tokenize_ok_iff.2 spells', same⟩
  refine ⟨fun ts tokens => ?_, restored⟩
  obtain ⟨us, spells⟩ := Lexer.exists_spells_withoutFeeds (Lexer.tokenize_ok_iff.1 tokens)
  have tokens' : Lexer.tokenize (String.ofList (withoutFeeds text.toList)) = .ok us := by
    rw [Lexer.tokenize_ok_iff, String.toList_ofList]
    exact spells
  obtain ⟨ts', again, same⟩ := restored us tokens'
  cases tokens.symm.trans again
  exact ⟨us, tokens', same.symm⟩

/-- A text without carriage returns is registered as the same formula with carriage returns before
its line feeds, if no line feed stands inside of a token of the text without line feeds. -/
theorem add_withReturns (h : s.Reachable) (name : String) (noReturn : '\r' ∉ text.toList)
    (apart : FeedsBetweenTokens text) :
    SameOutcome s name text (String.ofList (withReturns text.toList)) := by
  obtain ⟨dropped, restored⟩ := apart.tokensKept
  have literal : Decimal.literal? (String.ofList (withReturns text.toList)) =
      Decimal.literal? text := by
    refine literal?_eq_of_shows fun sign numeral => ?_
    rw [String.toList_ofList]
    exact shows_withReturns noReturn
  have cleaned : String.ofList (stripReturns text.toList) = text := by
    rw [stripReturns_of_not_mem noReturn, String.ofList_toList]
  have cleaned' : String.ofList (stripReturns (String.ofList (withReturns text.toList)).toList) =
      String.ofList (withoutFeeds text.toList) := by
    rw [String.toList_ofList, stripReturns_withReturns noReturn]
  refine sameOutcome_of_readFormula h.consistent fun formula => ⟨?_, ?_⟩
  · refine readFormula_of_tokensKept literal ?_
    rwa [cleaned, cleaned']
  · refine readFormula_of_tokensKept literal.symm ?_
    rwa [cleaned, cleaned']

/-- A line feed between an operator and a number can follow a carriage return. -/
theorem add_withReturns_comparison : (empty ⟨false⟩).Reachable ∧ '\r' ∉ "a <\n2".toList ∧
    FeedsBetweenTokens "a <\n2" ∧
    SameOutcome (.empty ⟨false⟩) "x" "a <\n2" (String.ofList (withReturns "a <\n2".toList)) := by
  have noReturn : '\r' ∉ "a <\n2".toList := by decide
  have apart : FeedsBetweenTokens "a <\n2" := by
    intro ts tokens
    have known : Lexer.tokenize (String.ofList (withoutFeeds "a <\n2".toList)) =
        .ok [⟨.name "a", 0, 1⟩, ⟨.less, 2, 3⟩, ⟨.number "2", 3, 4⟩] := by decide +kernel
    cases tokens.symm.trans known
    intro front back split
    have text : ['a', ' ', '<'] ++ '\n' :: ['2'] = front ++ '\n' :: back := split
    obtain ⟨rfl, -, -⟩ := (List.append_cons_inj_of_notMem (by decide) (by decide)).1 text
    decide
  exact ⟨.empty _, noReturn, apart, add_withReturns (.empty _) "x" noReturn apart⟩

/-- A line feed that ends a keyword is a blank of the formula by itself, and is lost with a carriage
return before it, so that another name is referred to. -/
theorem add_withReturns_keyword : (empty ⟨false⟩).Reachable ∧ '\r' ∉ "not\na".toList ∧
    ¬SameOutcome (.empty ⟨false⟩) "x" "not\na" (String.ofList (withReturns "not\na".toList)) := by
  refine ⟨.empty _, by decide, fun same => ?_⟩
  have consistent : (empty ⟨false⟩).Consistent := .empty _
  have tokens : Lexer.tokenize (String.ofList (stripReturns "not\na".toList)) =
      .ok [⟨.not, 0, 3⟩, ⟨.name "a", 4, 5⟩] := by decide +kernel
  have name : Derives 63 .unary [⟨.name "a", 4, 5⟩] (.reference "a") :=
    .tighter rfl (.tighter rfl .reference)
  have read : (readFormula ⟨false⟩ "x" "not\na").2 =
      .ok (.computed (.unary .not (.reference "a")) (Names.insert ∅ "a")) :=
    readFormula_of_derives (by decide +kernel) tokens (Derives.of_unary (.prefixed .not name)) rfl
  have tokens' : Lexer.tokenize (String.ofList (stripReturns
      (String.ofList (withReturns "not\na".toList)).toList)) = .ok [⟨.name "nota", 0, 4⟩] := by
    decide +kernel
  have read' : (readFormula ⟨false⟩ "x" (String.ofList (withReturns "not\na".toList))).2 =
      .ok (.computed (.reference "nota") (Names.insert ∅ "nota")) :=
    readFormula_of_name (by decide +kernel) tokens'
  cases same with
  | refused first => cases first.symm.trans (add_of_readFormula read).1
  | registered _ _ known known' dependencies =>
    cases known.symm.trans (equation?_add consistent read)
    cases known'.symm.trans (equation?_add consistent read')
    have alone (x : String) : (Names.insert ∅ x).toList = [x] := by
      rw [Names.toList_insert, Names.toList_empty, if_neg List.not_mem_nil, List.nil_append]
    have same : ["a"] = ["nota"] := (alone "a").symm.trans (dependencies.trans (alone "nota"))
    exact absurd same (by decide)

end Solver

end EquationSystem
