import EquationSystem.Proofs.Formula.Recognition
import EquationSystem.Proofs.Formula.Spans
import EquationSystem.Proofs.Formula.Visits

/-!
# Where compiling finds a fault

A call has the place at which the name of its function begins in the text, wherever in the formula
it stands, and a fault in a call is reported there. A number has no place in the tree: a literal
that no decimal can hold is reported at the beginning of the text.
-/

namespace EquationSystem

open Lexer

/-- The text has this part at the offset, in bytes. -/
def HasAt (text part : String) (offset : Nat) : Prop :=
  ∃ front back, text = front ++ part ++ back ∧ offset = front.utf8ByteSize

/-- The token is the part itself or, for a call, the name of the function. -/
def Visit.StandsAt : Visit → PlacedToken → Prop
  | .number text, t => t.token = .number text
  | .reference name, t => t.token = .name name
  | .call name _ position, t => t.token = .name name ∧ t.start = position

namespace Expr

variable {v : Visit}

theorem mem_chainVisits {rest : List (BinaryOp × Expr)} :
    v ∈ chainVisits rest ↔ ∃ link ∈ rest, v ∈ link.2.visits := by
  induction rest with
  | nil => simp [chainVisits]
  | cons link rest ih => rw [chainVisits, List.mem_append, ih, List.exists_mem_cons_iff]

theorem mem_argumentVisits {args : List Expr} :
    v ∈ argumentVisits args ↔ ∃ arg ∈ args, v ∈ arg.visits := by
  induction args with
  | nil => simp [argumentVisits]
  | cons arg args ih => rw [argumentVisits, List.mem_append, ih, List.exists_mem_cons_iff]

end Expr

variable {n : Nat} {tier : Tier} {ts us : List PlacedToken} {e : Expr} {v : Visit}

/-- One of the tokens is the part. -/
def Visit.StandsIn (v : Visit) (ts : List PlacedToken) : Prop := ∃ t ∈ ts, v.StandsAt t

theorem Visit.StandsIn.mono (h : v.StandsIn us) (sub : us ⊆ ts) : v.StandsIn ts :=
  let ⟨t, ht, stands⟩ := h
  ⟨t, sub ht, stands⟩

theorem Piece.tokens_subset_spell {piece : Piece} {pieces : List Piece} (h : piece ∈ pieces) :
    piece.tokens ⊆ spell pieces := fun _ ht =>
  List.mem_flatMap.2 ⟨piece, h, List.mem_cons_of_mem _ ht⟩

/-- What compiling meets in an expression stands in the tokens that it is derived for. -/
theorem Derives.standsIn (h : Derives n tier ts e) : ∀ v ∈ e.visits, v.StandsIn ts := by
  induction h with
  | tighter _ _ ih => exact ih
  | chain _ _ _ _ _ ihfirst ihlinks =>
    intro v hv
    rw [Expr.visits, List.mem_append, Expr.mem_chainVisits] at hv
    rcases hv with hv | ⟨link, hl, hv⟩
    · exact (ihfirst v hv).mono (List.subset_append_left _ _)
    · obtain ⟨l, hmem, rfl⟩ := List.mem_map.1 hl
      refine (ihlinks l hmem v hv).mono (List.Subset.trans ?_ (List.subset_append_right _ _))
      exact Piece.tokens_subset_spell (List.mem_map_of_mem hmem)
  | comparison _ _ _ ihlhs ihrhs | power _ _ _ ihlhs ihrhs =>
    intro v hv
    rw [Expr.visits, List.mem_append] at hv
    rcases hv with hv | hv
    · exact (ihlhs v hv).mono (List.subset_append_left _ _)
    · refine (ihrhs v hv).mono (List.Subset.trans ?_ (List.subset_append_right _ _))
      exact List.subset_cons_self _ _
  | prefixed _ _ ih =>
    intro v hv
    rw [Expr.visits] at hv
    exact (ih v hv).mono (List.subset_cons_self _ _)
  | number | reference =>
    refine List.forall_mem_singleton.2 ⟨_, List.mem_singleton_self _, rfl⟩
  | bool => exact List.forall_mem_nil _
  | parentheses _ _ _ ih =>
    intro v hv
    refine (ih v hv).mono fun t ht => ?_
    simp [ht]
  | callWithoutArguments =>
    exact List.forall_mem_singleton.2 ⟨_, List.mem_cons_self, rfl, rfl⟩
  | call _ _ _ _ _ ihfirst ihmore =>
    intro v hv
    rw [Expr.visits, List.mem_cons, Expr.mem_argumentVisits, List.exists_mem_cons_iff] at hv
    rcases hv with rfl | hv | ⟨arg, ha, hv⟩
    · exact ⟨_, List.mem_cons_self, rfl, rfl⟩
    · refine (ihfirst v hv).mono fun t ht => ?_
      simp [ht]
    · obtain ⟨piece, hp, rfl⟩ := List.mem_map.1 ha
      refine (ihmore piece hp v hv).mono fun t ht => ?_
      simp [Piece.tokens_subset_spell hp ht]

/-- Every token is the lexeme that the text has at its place. -/
theorem exists_hasAt {text : String} {t : PlacedToken} (read : tokenize text = .ok ts)
    (ht : t ∈ ts) : ∃ lexeme, HasAt text lexeme t.start ∧ Lexeme lexeme.toList t.token := by
  obtain ⟨lexemes, spans, alone, -⟩ := (covers_of_ok read).lexemes
  rw [List.forall₂_iff_get] at spans alone
  obtain ⟨i, hi, rfl⟩ := List.getElem_of_mem ht
  have bound : i < lexemes.length := spans.1 ▸ hi
  obtain ⟨front, back, split, start, -⟩ := spans.2 i bound hi
  exact ⟨lexemes[i], ⟨front, back, split, start⟩, alone_iff.1 (alone.2 i bound hi)⟩

theorem hasAt_of_name {text name : String} {t : PlacedToken} (read : tokenize text = .ok ts)
    (ht : t ∈ ts) (is : t.token = .name name) : HasAt text name t.start := by
  obtain ⟨lexeme, here, h⟩ := exists_hasAt read ht
  rw [is] at h
  rwa [h.of_nameToken, String.ofList_toList]

theorem hasAt_of_number {text literal : String} {t : PlacedToken} (read : tokenize text = .ok ts)
    (ht : t ∈ ts) (is : t.token = .number literal) : HasAt text literal t.start := by
  obtain ⟨lexeme, here, h⟩ := exists_hasAt read ht
  rw [is] at h
  rwa [h.of_numberToken.2, String.ofList_toList]

/-- What is wrong with a text that is an expression but is not compiled, and where that stands. -/
inductive Faulty (text : String) : SyntaxError → Prop
  | unknownFunction {name : String} {position : Nat} (unknown : Builtin.ofName? name = none)
      (here : HasAt text name position) : Faulty text ⟨.unknownFunction name, position⟩
  | argumentCount {name : String} {f : Builtin} {count position : Nat}
      (known : Builtin.ofName? name = some f) (refused : f.accepts count = false)
      (here : HasAt text name position) : Faulty text ⟨.argumentCount f count, position⟩
  /-- The literal is somewhere in the text. -/
  | invalidNumber {literal : String} {cause : NumeralError} {offset : Nat}
      (invalid : Decimal.parse literal = .error cause) (there : HasAt text literal offset) :
      Faulty text ⟨.invalidNumber literal, 0⟩

/-- An error of compiling is reported at the name of the function that is called, or at the
beginning of the text for a literal that is no decimal. -/
theorem faulty_of_compile_error {text : String} {recorded : Names} {error : SyntaxError}
    (parsed : Expr.parse text = .ok e) (failed : (e.compile recorded).1 = .error error) :
    Faulty text error := by
  obtain ⟨v, hv, fault⟩ := List.exists_of_findSome?_eq_some (Expr.compile_error_iff.1 failed)
  obtain ⟨ts, read, derives⟩ := Parser.parse_ok_iff.1 parsed
  obtain ⟨t, ht, stands⟩ := derives.standsIn v hv
  cases v with
  | number literal =>
    rw [Visit.fault?] at fault
    cases invalid : Decimal.parse literal with
    | ok x => rw [invalid] at fault; cases fault
    | error cause =>
      rw [invalid] at fault
      cases fault
      exact .invalidNumber invalid (hasAt_of_number read ht stands)
  | reference name => cases fault
  | call name count position =>
    obtain ⟨is, rfl⟩ := stands
    have here := hasAt_of_name read ht is
    rw [Visit.fault?] at fault
    cases known : Builtin.ofName? name with
    | none =>
      rw [known] at fault
      cases fault
      exact .unknownFunction known here
    | some f =>
      rw [known] at fault
      dsimp only at fault
      split at fault
      · cases fault
      · next refused =>
        cases fault
        exact .argumentCount known (eq_false_of_ne_true refused) here

/-- A number plus a product, as tokens. -/
theorem parse_of_plus {text literal : String} {start stop : Nat} {sign : PlacedToken}
    (read : tokenize text = .ok (⟨.number literal, start, stop⟩ :: sign :: us))
    (plus : sign.token = .plus) (h : Derives 64 .product us e) :
    Expr.parse text = .ok (.chain (.number literal) [(.add, e)]) := by
  have sum : Derives 64 .sum ([⟨.number literal, start, stop⟩] ++ sign :: us)
      (.chain (.number literal) [(.add, e)]) :=
    .chain_one rfl (Derives.of_primary .number .product) (plus ▸ .add) h
  exact Parser.parse_ok_iff.2 ⟨_, read, .tighter rfl (.tighter rfl (.tighter rfl sum))⟩

/-- The name of a function is found after other tokens and blanks. -/
theorem faulty_of_compile_error_unknown : ∃ e, Expr.parse "1 + sun(2)" = .ok e ∧
    (e.compile ∅).1 = .error ⟨.unknownFunction "sun", 4⟩ ∧
    Faulty "1 + sun(2)" ⟨.unknownFunction "sun", 4⟩ := by
  let e : Expr := .call "sun" [.number "2"] 4
  have read : tokenize "1 + sun(2)" = .ok [⟨.number "1", 0, 1⟩, ⟨.plus, 2, 3⟩, ⟨.name "sun", 4, 7⟩,
      ⟨.leftParen, 7, 8⟩, ⟨.number "2", 8, 9⟩, ⟨.rightParen, 9, 10⟩] := by decide +kernel
  have argument : Derives 63 .or [⟨.number "2", 8, 9⟩] (.number "2") :=
    Derives.of_primary .number .or
  have call : Derives 64 .primary _ e :=
    @Derives.call 63 4 7 "sun" ⟨.leftParen, 7, 8⟩ ⟨.rightParen, 9, 10⟩ _ _ [] rfl argument
      nofun nofun rfl
  have parsed := parse_of_plus read rfl (call.of_primary .product)
  have one : Visit.fault? (.number "1") = none := by decide +kernel
  have unknown : Visit.fault? (.call "sun" 1 4) = some ⟨.unknownFunction "sun", 4⟩ := by
    decide +kernel
  have met : (Expr.chain (.number "1") [(.add, e)]).visits =
      [.number "1", .call "sun" 1 4, .number "2"] := by
    simp [e, Expr.visits, Expr.chainVisits, Expr.argumentVisits]
  have failed : ((Expr.chain (.number "1") [(.add, e)]).compile ∅).1 =
      .error ⟨.unknownFunction "sun", 4⟩ := by
    rw [Expr.compile_error_iff, met, Visit.firstFault?_cons_of_faultless one,
      Visit.firstFault?_cons_of_fault unknown]
  exact ⟨_, parsed, failed, faulty_of_compile_error parsed failed⟩

/-- A literal whose exponent is too large for a decimal is not where the error is reported. -/
theorem not_hasAt_invalidNumber : ∃ e, Expr.parse "1 + 1e9223372036854775809" = .ok e ∧
    (e.compile ∅).1 = .error ⟨.invalidNumber "1e9223372036854775809", 0⟩ ∧
    HasAt "1 + 1e9223372036854775809" "1e9223372036854775809" 4 ∧
    ¬HasAt "1 + 1e9223372036854775809" "1e9223372036854775809" 0 := by
  let literal : String := "1e9223372036854775809"
  have read : tokenize "1 + 1e9223372036854775809" =
      .ok [⟨.number "1", 0, 1⟩, ⟨.plus, 2, 3⟩, ⟨.number literal, 4, 25⟩] := by decide +kernel
  have number : Derives 64 .product [⟨.number literal, 4, 25⟩] (.number literal) :=
    Derives.of_primary .number .product
  have one : Visit.fault? (.number "1") = none := by decide +kernel
  have invalid : Visit.fault? (.number literal) = some ⟨.invalidNumber literal, 0⟩ := by
    decide +kernel
  have met : (Expr.chain (.number "1") [(.add, .number literal)]).visits =
      [.number "1", .number literal] := by
    simp [Expr.visits, Expr.chainVisits]
  refine ⟨_, parse_of_plus read rfl number, Expr.compile_error_iff.2 ?_, ⟨"1 + ", "", rfl, rfl⟩, ?_⟩
  · rw [met, Visit.firstFault?_cons_of_faultless one, Visit.firstFault?_cons_of_fault invalid]
  · rintro ⟨front, back, split, start⟩
    rw [String.utf8ByteSize_eq_zero_iff.1 start.symm] at split
    have second := congrArg (·.toList[1]?) split
    simp at second

end EquationSystem
