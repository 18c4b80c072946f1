import EquationSystem.Proofs.Formula.Placement

/-!
# The first token that does not fit

What a parser does is settled by the tokens it reads and the kind of the one after them: it reads
the same whatever comes later, or it fails at that token whatever comes later (`Settled`). Where it
fails, the tokens before can be completed, unless nothing may nest any deeper.
-/

namespace EquationSystem.Parser

variable {α β : Type} {eof : Nat} {t : PlacedToken} {ts us front rest : List PlacedToken}

/-- The parser fails at the end of `front`, or reads `front`, for every continuation whose first
token is of the kind of that of `rest`. It fails after tokens that are `Open`. -/
inductive Settled (eof : Nat) (Open : List PlacedToken → Prop)
    (f : List PlacedToken → Except SyntaxError (α × List PlacedToken)) : List PlacedToken → Prop
  | reads {front rest : List PlacedToken} {a : α}
      (h : ∀ rest', next? rest' = next? rest → f (front ++ rest') = .ok (a, rest')) :
      Settled eof Open f (front ++ rest)
  | fails {front rest : List PlacedToken} {cause : SyntaxError.Cause}
      (alive : cause ≠ .nestedTooDeeply → Open front)
      (h : ∀ rest', next? rest' = next? rest →
        f (front ++ rest') = .error ⟨cause, position eof rest'⟩) :
      Settled eof Open f (front ++ rest)

theorem next?_append (same : next? us = next? ts) : next? (front ++ us) = next? (front ++ ts) := by
  cases front with
  | nil => exact same
  | cons t front => rfl

namespace Settled

variable {Open Open' : List PlacedToken → Prop}
  {f g : List PlacedToken → Except SyntaxError (α × List PlacedToken)}

theorem mono (h : Settled eof Open f ts) (le : ∀ front, Open front → Open' front) :
    Settled eof Open' f ts := by
  cases h with
  | reads h => exact .reads h
  | fails alive h => exact .fails (fun other => le _ (alive other)) h

/-- Nothing is read, and something is given for it. -/
theorem ok (a : α) (h : ∀ us, next? us = next? ts → f us = .ok (a, us)) : Settled eof Open f ts :=
  show Settled eof Open f ([] ++ ts) from .reads h

/-- The next token is the one that does not fit. -/
theorem error {cause : SyntaxError.Cause} (alive : cause ≠ .nestedTooDeeply → Open [])
    (h : ∀ us, next? us = next? ts → f us = .error ⟨cause, position eof us⟩) :
    Settled eof Open f ts :=
  show Settled eof Open f ([] ++ ts) from .fails alive h

theorem fail (cause : Option Token → SyntaxError.Cause) (alive : Open [])
    (h : ∀ us, next? us = next? ts → f us = Parser.fail eof cause us) : Settled eof Open f ts :=
  .error (fun _ => alive) fun us next => by rw [h us next, Parser.fail, next]

/-- What is done depends on the next token. -/
theorem congr (h : Settled eof Open g ts) (same : ∀ us, next? us = next? ts → f us = g us) :
    Settled eof Open f ts := by
  cases h with
  | reads h => exact .reads fun rest' next => (same _ (next?_append next)).trans (h rest' next)
  | fails alive h =>
    exact .fails alive fun rest' next => (same _ (next?_append next)).trans (h rest' next)

/-- The next token is read, and then what follows it. -/
theorem cons (h : Settled eof (fun front => Open (t :: front)) g ts)
    (same : ∀ us, f (t :: us) = g us) : Settled eof Open f (t :: ts) := by
  cases h with
  | @reads front rest a h =>
    rw [← List.cons_append]
    exact .reads fun rest' next => (same _).trans (h rest' next)
  | @fails front rest cause alive h =>
    rw [← List.cons_append]
    exact .fails alive fun rest' next => (same _).trans (h rest' next)

/-- One thing is read, and then another in what is left. -/
theorem bind {k : α × List PlacedToken → Except SyntaxError (β × List PlacedToken)}
    (hf : Settled eof Open' f ts) (le : ∀ front, Open' front → Open front)
    (hk : ∀ a front rest, ts = front ++ rest → f ts = .ok (a, rest) →
      Settled eof (fun back => Open (front ++ back)) (fun rest => k (a, rest)) rest) :
    Settled eof Open (fun ts => f ts >>= k) ts := by
  cases hf with
  | @fails front rest cause alive h =>
    refine .fails (fun other => le _ (alive other)) fun rest' next => ?_
    rw [h rest' next]
    rfl
  | @reads front rest a h =>
    cases hk a front rest rfl (h rest rfl) with
    | @reads back rest b hb =>
      rw [← List.append_assoc]
      refine .reads (a := b) fun rest' next => ?_
      rw [List.append_assoc, h _ (next?_append next)]
      exact hb rest' next
    | @fails back rest cause alive hb =>
      rw [← List.append_assoc]
      refine .fails alive fun rest' next => ?_
      rw [List.append_assoc, h _ (next?_append next)]
      exact hb rest' next

end Settled

/-! ## The tiers -/

/-- The tokens are the beginning of some that `R` describes. -/
def Begins (R : List PlacedToken → Expr → Prop) (front : List PlacedToken) : Prop :=
  ∃ more x, R (front ++ more) x

theorem Begins.imp {R R' : List PlacedToken → Expr → Prop} (le : ∀ {ts x}, R ts x → R' ts x)
    (h : Begins R front) : Begins R' front := by
  obtain ⟨more, x, hx⟩ := h
  exact ⟨more, x, le hx⟩

/-- The parser reads what `R` describes, and where it fails, what it has read begins such. -/
structure Settles (eof : Nat) (p : Level) (tier : Tier) (R : List PlacedToken → Expr → Prop) :
    Prop where
  recognizes : Recognizes p tier R
  settled : ∀ ts, Settled eof (Begins R) (read p) ts

variable {tier next : Tier} {n : Nat} {p inner operand : Level}
  {R : List PlacedToken → Expr → Prop} {Open : List PlacedToken → Prop}

/-- An operand is read, and then what follows it. -/
theorem Settles.bind (hp : Settles eof p tier R)
    {k : Expr × List PlacedToken → Except SyntaxError (β × List PlacedToken)}
    (le : ∀ front, Begins R front → Open front)
    (hk : ∀ x front rest, ts = front ++ rest → R front x →
      Settled eof (fun back => Open (front ++ back)) (fun rest => k (x, rest)) rest) :
    Settled eof Open (fun ts => read p ts >>= k) ts := by
  refine (hp.settled ts).bind le fun x front rest split reading => ?_
  obtain ⟨front', split', h⟩ := hp.recognizes.sound reading
  obtain rfl := List.append_cancel_right (split.symm.trans split')
  exact hk x front rest split h

/-- The tokens are the beginning of operators with their operands. -/
def BeginsLinks (tier : Tier) (R : List PlacedToken → Expr → Prop) (front : List PlacedToken) :
    Prop :=
  ∃ more links, Links tier R links ∧ front ++ more = Piece.spell (links.map (·.2))

theorem BeginsLinks.cons {op : BinaryOp} {x : Expr} {back : List PlacedToken}
    (joins : Joins tier t.token op) (hoperand : R front x) (h : BeginsLinks tier R back) :
    BeginsLinks tier R (t :: (front ++ back)) := by
  obtain ⟨more, links, hlinks, same⟩ := h
  refine ⟨more, (op, ⟨t, front, x⟩) :: links,
    List.forall_mem_cons.2 ⟨⟨joins, hoperand⟩, hlinks⟩, ?_⟩
  rw [List.map_cons, Piece.spell_cons, ← same, List.cons_append, List.append_assoc]

theorem beginsLinks_operand {op : BinaryOp} (joins : Joins tier t.token op) (h : Begins R front) :
    BeginsLinks tier R (t :: front) := by
  obtain ⟨more, x, hx⟩ := h
  refine ⟨more, [(op, ⟨t, front ++ more, x⟩)], List.forall_mem_singleton.2 ⟨joins, hx⟩, ?_⟩
  rw [List.map_singleton, Piece.spell_cons, Piece.spell_nil, List.append_nil, List.cons_append]

section
variable {operator? : Token → Option BinaryOp} (hp : Settles eof p next R)
include hp

theorem Settles.chainRest (table : ∀ token op, operator? token = some op → Joins tier token op)
    (done : List (BinaryOp × Expr)) (ts : List PlacedToken) :
    Settled eof (BeginsLinks tier R) (chainRest p operator? done) ts := by
  generalize hlen : ts.length = len
  induction len using Nat.strongRecOn generalizing ts done with
  | ind len ih =>
    cases hop : (next? ts).bind operator? with
    | none =>
      refine .ok done.reverse fun us same => ?_
      rw [chainRest_eq, same, hop]
    | some op =>
      obtain ⟨t, after, rfl, hsign⟩ := exists_cons_of_bind hop
      have joins := table _ _ hsign
      have step (us) : Parser.chainRest p operator? done (t :: us) = (read p us >>= fun found =>
          Parser.chainRest p operator? ((op, found.1) :: done) found.2) := by
        rw [chainRest_eq, next?_cons, Option.bind_some, hsign]
        rfl
      refine .cons (hp.bind (fun front => beginsLinks_operand joins) ?_) step
      rintro x front rest rfl hx
      have shorter : rest.length < len := by
        rw [← hlen, List.length_cons, List.length_append]
        omega
      exact (ih _ shorter ((op, x) :: done) rest rfl).mono fun back => .cons joins hx

end

theorem Settles.chain {operator? : Token → Option BinaryOp}
    (hp : Settles eof p next (Derives n next)) (below : tier.tighter? = some next)
    (joins : ∃ token op, Joins tier token op)
    (table : ∀ token op, operator? token = some op ↔ Joins tier token op) :
    Settles eof (chain p operator?) tier (Derives n tier) where
  recognizes := hp.recognizes.chain below joins table
  settled ts := by
    refine .congr (hp.bind (fun _ => .imp (.tighter below)) ?_) fun us _ => read_chain
    intro first front rest _ hfirst
    refine (hp.chainRest (fun token op => (table token op).1) [] rest).bind ?_ ?_
    · rintro back ⟨more, links, hlinks, same⟩
      refine ⟨more, _, (derives_iff_links below joins).2
        ⟨front, first, links, hfirst, hlinks, ?_, rfl⟩⟩
      rw [List.append_assoc, same]
    · exact fun links back last _ _ => .ok (.ofChain first links) fun us _ => rfl

theorem Settles.comparison (hp : Settles eof p .sum (Derives n .sum)) :
    Settles eof (comparison eof p) .comparison (Derives n .comparison) where
  recognizes := hp.recognizes.comparison eof
  settled ts := by
    refine .congr (hp.bind (fun _ => .imp (.tighter rfl)) ?_) fun us _ => read_comparison
    intro lhs front rest _ hlhs
    cases hop : (next? rest).bind comparisonOp? with
    | none => exact .ok lhs fun us same => by simp only [same, hop]; rfl
    | some op =>
      obtain ⟨sign, right, rfl, hsign⟩ := exists_cons_of_bind hop
      have compares := (comparisonOp?_iff _ _).1 hsign
      refine .cons (hp.bind ?_ ?_) fun us => by
        simp only [next?_cons, Option.bind_some, hsign, List.tail_cons]; rfl
      · rintro back ⟨more, x, h⟩
        refine ⟨more, .binary op lhs x, ?_⟩
        rw [List.append_assoc]
        exact .comparison hlhs compares h
      · intro rhs back last _ hrhs
        have whole := Derives.comparison hlhs compares hrhs
        cases chained : (next? last).bind comparisonOp? with
        | none => exact .ok (.binary op lhs rhs) fun us same => by simp only [same, chained]; rfl
        | some op' =>
          refine .error (fun _ => ⟨[], .binary op lhs rhs, ?_⟩) fun us same => by
            simp only [same, chained]; rfl
          rwa [List.append_nil, List.append_nil]

/-! ## Calls and parentheses -/

/-- A parenthesis that closes what is open. -/
def closingToken : PlacedToken := ⟨.rightParen, 0, 0⟩

/-- The tokens are the beginning of arguments with the parenthesis after them. -/
def BeginsArguments (R : List PlacedToken → Expr → Prop) (front : List PlacedToken) : Prop :=
  ∃ more tokens first pieces right, R tokens first ∧ Commas R pieces ∧
    right.token = .rightParen ∧ front ++ more = tokens ++ Piece.spell pieces ++ [right]

theorem beginsArguments_first (h : Begins R front) : BeginsArguments R front := by
  obtain ⟨more, x, hx⟩ := h
  exact ⟨more ++ [closingToken], _, x, [], closingToken, hx, nofun, rfl, by simp⟩

theorem BeginsArguments.cons {x : Expr} {back : List PlacedToken} (hx : R front x)
    (comma : t.token = .comma) (h : BeginsArguments R back) :
    BeginsArguments R (front ++ t :: back) := by
  obtain ⟨more, tokens, first, pieces, right, hfirst, hpieces, hright, same⟩ := h
  refine ⟨more, front, x, ⟨t, tokens, first⟩ :: pieces, right, hx,
    List.forall_mem_cons.2 ⟨⟨comma, hfirst⟩, hpieces⟩, hright, ?_⟩
  rw [List.append_assoc, List.cons_append, same, Piece.spell_cons]
  simp

theorem Settles.argumentsRest (hp : Settles eof p .or R) (done : List Expr)
    (ts : List PlacedToken) :
    Settled eof (BeginsArguments R) (argumentsRest eof p done) ts := by
  generalize hlen : ts.length = len
  induction len using Nat.strongRecOn generalizing ts done with
  | ind len ih =>
    refine .congr (hp.bind (fun front => beginsArguments_first) ?_) fun us _ =>
      argumentsRest_eq done us
    rintro x front rest rfl hx
    by_cases closing : next? rest = some .rightParen
    · obtain ⟨right, last, rfl, hright⟩ := exists_cons_of_next? closing
      refine .cons (.ok (x :: done).reverse fun us _ => rfl) fun us => ?_
      simp only [next?_cons, hright, if_true, List.tail_cons]
      rfl
    · by_cases comma : next? rest = some .comma
      · obtain ⟨sign, after, rfl, hsign⟩ := exists_cons_of_next? comma
        have shorter : after.length < len := by
          rw [← hlen, List.length_append, List.length_cons]
          omega
        refine .cons ((ih _ shorter (x :: done) after rfl).mono fun back => .cons hx hsign)
          fun us => ?_
        simp [hsign]
      · refine .fail .expectedNextArgument ?_ fun us same => by
          simp only [same, closing, comma, if_false]
        rw [List.append_nil]
        exact beginsArguments_first ⟨[], x, by rwa [List.append_nil]⟩

theorem Settles.readArguments (hp : Settles eof p .or R) (ts : List PlacedToken) :
    Settled eof (BeginsArguments R) (readArguments eof p) ts := by
  by_cases closing : next? ts = some .rightParen
  · obtain ⟨right, last, rfl, hright⟩ := exists_cons_of_next? closing
    refine .cons (.ok [] fun us _ => rfl) fun us => ?_
    rw [readArguments_eq, next?_cons, hright, if_pos rfl, List.tail_cons]
  · refine .congr (hp.argumentsRest [] ts) fun us same => ?_
    rw [readArguments_eq, same, if_neg closing]

theorem begins_primary : Begins (Derives n .primary) [] :=
  ⟨[⟨.name "", 0, 0⟩], .reference "", .reference⟩

theorem Settles.primary (hin : Settles eof inner .or (Nested n .or)) :
    Settles eof (primary eof inner) .primary (Derives n .primary) where
  recognizes := hin.recognizes.primary eof
  settled ts := by
    rcases ts with _ | ⟨⟨token, start, stop⟩, after⟩
    · refine .fail .expectedExpression begins_primary fun us same => ?_
      obtain rfl : us = [] := by cases us <;> [rfl; cases same]
      exact read_primary
    cases token with
    | number text => exact .cons (.ok (.number text) fun us _ => rfl) fun us => read_primary
    | bool value => exact .cons (.ok (.bool value) fun us _ => rfl) fun us => read_primary
    | name name =>
      by_cases opening : next? after = some .leftParen
      · obtain ⟨left, list, rfl, hleft⟩ := exists_cons_of_next? opening
        have step (us) : read (Parser.primary eof inner) (⟨.name name, start, stop⟩ :: left :: us) =
            (Parser.readArguments eof inner us >>= fun found =>
              return (.call name found.1 start, found.2)) := by
          rw [read_primary]
          simp only [next?_cons, hleft, if_true, List.tail_cons]
        refine .cons (.cons ((hin.readArguments list).bind ?_ ?_) step) fun us => rfl
        · rintro front ⟨more, tokens, first, pieces, right, hfirst, hpieces, hright, same⟩
          refine ⟨more, .call name (first :: pieces.map (·.operand)) start, ?_⟩
          rw [List.cons_append, List.cons_append, same]
          exact Nested.call hleft hfirst hpieces hright
        · exact fun args front rest _ _ => .ok (.call name args start) fun us _ => rfl
      · refine .cons (.ok (.reference name) fun us same => ?_) fun us => rfl
        rw [read_primary]
        simp only [same, opening, if_false]
    | leftParen =>
      refine .cons (hin.bind ?_ ?_) fun us => read_primary
      · rintro front ⟨more, x, hx⟩
        refine ⟨more ++ [closingToken], x, ?_⟩
        rw [List.cons_append, ← List.append_assoc]
        exact Nested.parentheses rfl hx rfl
      · intro x front rest _ hx
        by_cases closing : next? rest = some .rightParen
        · obtain ⟨right, last, rfl, hright⟩ := exists_cons_of_next? closing
          refine .cons (.ok x fun us _ => rfl) fun us => ?_
          simp only [next?_cons, hright, if_true, List.tail_cons]
          rfl
        · refine .fail .expectedClosing ⟨[closingToken], x, ?_⟩ fun us same => by
            simp only [same, closing, if_false]
          rw [List.append_nil]
          exact Nested.parentheses rfl hx rfl
    | _ =>
      refine .fail .expectedExpression begins_primary fun us same => ?_
      obtain ⟨⟨_, start, stop⟩, rest, rfl, rfl⟩ := exists_cons_of_next? same
      exact read_primary

/-! ## Prefix operators and exponents -/

theorem Settles.power (hin : Settles eof inner .or (Nested n .or))
    (hp : Settles eof operand .unary (Nested n .unary)) :
    Settles eof (power eof inner operand) .power (Derives n .power) where
  recognizes := hin.recognizes.power eof hp.recognizes
  settled ts := by
    refine .congr (hin.primary.bind (fun _ => .imp (.tighter rfl)) ?_) fun us _ => read_power
    intro base front rest _ hbase
    by_cases raised : next? rest = some .caret
    · obtain ⟨sign, right, rfl, caret⟩ := exists_cons_of_next? raised
      refine .cons (hp.bind ?_ ?_) fun us => by
        simp only [next?_cons, caret, if_true, List.tail_cons]; rfl
      · rintro back ⟨more, x, h⟩
        refine ⟨more, .binary .power base x, derives_power_iff.2 (.inr ?_)⟩
        exact ⟨front, sign, back ++ more, base, x, hbase, caret, h, by simp, rfl⟩
      · exact fun x back last _ _ => .ok (.binary .power base x) fun us _ => rfl
    · exact .ok base fun us same => by simp only [same, raised, if_false]; rfl

theorem Settles.tightest (hin : Settles eof inner .or (Nested n .or))
    (hp : Settles eof operand .unary (Nested n .unary)) :
    Settles eof (tightest eof inner operand) .unary (Derives n .unary) where
  recognizes := hin.recognizes.tightest eof hp.recognizes
  settled ts := by
    cases hop : (next? ts).bind prefixOp? with
    | none =>
      refine .congr (((hin.power hp).settled ts).mono fun _ => .imp (.tighter rfl)) ?_
      intro us same
      rw [read_tightest, same, hop]
    | some op =>
      obtain ⟨sign, right, rfl, hsign⟩ := exists_cons_of_bind hop
      have prefixes := (prefixOp?_iff _ _).1 hsign
      have step (us) : read (Parser.tightest eof inner operand) (sign :: us) =
          (read operand us >>= fun found => return (.unary op found.1, found.2)) := by
        rw [read_tightest, next?_cons, Option.bind_some, hsign]
        rfl
      refine .cons (hp.bind ?_ ?_) step
      · rintro back ⟨more, x, h⟩
        refine ⟨more, .unary op x, derives_unary_iff.2 (.inr ?_)⟩
        exact ⟨sign, back ++ more, op, x, prefixes, h, rfl, rfl⟩
      · exact fun x back last _ _ => .ok (.unary op x) fun us _ => rfl

theorem Settles.loosest (hp : Settles eof p .unary (Derives n .unary)) :
    Settles eof (loosest eof p) .or (Derives n .or) := by
  have product := hp.chain rfl ⟨_, _, .multiply⟩ productOp?_iff
  have sum := product.chain rfl ⟨_, _, .add⟩ sumOp?_iff
  have and := sum.comparison.chain rfl ⟨_, _, .and⟩ andOp?_iff
  exact and.chain rfl ⟨_, _, .or⟩ orOp?_iff

theorem settles_tooDeep (eof : Nat) (tier : Tier) :
    Settles eof (tooDeep eof) tier (Nested 0 tier) where
  recognizes := recognizes_tooDeep eof tier
  settled _ := .error (fun other => (other rfl).elim) fun _ _ => rfl

theorem Settles.nested (hp : Settles eof p tier (Derives n tier)) :
    Settles eof p tier (Nested (n + 1) tier) where
  recognizes := hp.recognizes.nested
  settled ts := (hp.settled ts).mono fun _ => .imp .intro

/-- The parsers for what nests at most that deep are settled, by induction on the depth. -/
theorem settles_tight (eof : Nat) :
    ∀ depth, Settles eof (tight eof depth) .unary (Derives depth .unary)
  | 0 => by
    have h := (settles_tooDeep eof .or).tightest (settles_tooDeep eof .unary)
    exact h
  | depth + 1 => by
    have ih := settles_tight eof depth
    have h := ih.loosest.nested.tightest ih.nested
    exact h

/-! ## Whole formulas -/

/-- Some tokens that the parser accepts begin with tokens of these kinds. -/
def Viable (ts : List PlacedToken) : Prop :=
  ∃ front back e, SameKinds front ts ∧ parseTokens (front ++ back) = .ok e

/-- The error is at the first token that cannot stand where it stands, or at the end of tokens that
lack something. -/
inductive FirstMisfit (ts : List PlacedToken) (e : SyntaxError) : Prop
  | token {before after : List PlacedToken} {t : PlacedToken} (split : ts = before ++ t :: after)
      (position : e.position = t.start) (dead : ¬Viable (before ++ [t]))
      (alive : e.cause ≠ .nestedTooDeeply → Viable before)
  | finish (position : e.position = endOf ts) (alive : e.cause ≠ .nestedTooDeeply → Viable ts)

theorem viable_of_begins (h : Begins (Derives 64 .or) ts) : Viable ts := by
  obtain ⟨more, e, derives⟩ := h
  exact ⟨ts, more, e, rfl, parseTokens_ok_iff.2 (read_expression_iff.2 derives)⟩

theorem Viable.exists_read (h : Viable ts) (eof : Nat) :
    ∃ more e, read (expression eof maxNesting) (ts ++ more) = .ok (e, []) := by
  obtain ⟨front, back, e, same, parsed⟩ := h
  have derives := read_expression_iff.1 (parseTokens_ok_iff.1 parsed)
  obtain ⟨e', derives', -⟩ := derives.movable (ts ++ back) (by
    rw [SameKinds, List.map_append, List.map_append, same])
  exact ⟨back, e', read_expression_iff.2 derives'⟩

/-- Tokens are refused where reading them ends or fails, and nothing past that place changes it. -/
theorem firstMisfit_of_error {e : SyntaxError} (h : parseTokens ts = .error e) :
    FirstMisfit ts e := by
  have settles : Settles (endOf ts) (expression (endOf ts) maxNesting) .or (Derives 64 .or) :=
    (settles_tight (endOf ts) maxNesting).loosest
  have settled := settles.settled ts
  rw [parseTokens_eq] at h
  generalize atEnd : endOf ts = eof at settles settled h
  cases settled with
  | @reads front rest x reads =>
    rw [reads rest rfl] at h
    cases rest with
    | nil => cases h
    | cons t after =>
      cases h
      refine .token rfl rfl (fun viable => ?_) fun _ => ?_
      · obtain ⟨more, x', read⟩ := viable.exists_read eof
        rw [List.append_assoc, reads ([t] ++ more) rfl] at read
        cases read
      · obtain ⟨front', same, derives⟩ := settles.recognizes.sound (reads (t :: after) rfl)
        obtain rfl := List.append_cancel_right same
        exact viable_of_begins ⟨[], x, by rwa [List.append_nil]⟩
  | @fails front rest cause alive fails =>
    rw [fails rest rfl] at h
    cases h
    cases rest with
    | nil =>
      refine .finish atEnd.symm fun other => viable_of_begins ?_
      rw [List.append_nil]
      exact alive other
    | cons t after =>
      refine .token rfl rfl (fun viable => ?_) fun other => viable_of_begins (alive other)
      obtain ⟨more, x', read⟩ := viable.exists_read eof
      rw [List.append_assoc, fails ([t] ++ more) rfl] at read
      cases read

/-- Tokens that do not parse are refused at the first of them with which nothing that the parser
accepts begins. -/
theorem parse_error_firstMisfit {text : String} {e : SyntaxError}
    (tokenized : Lexer.tokenize text = .ok ts) (h : Expr.parse text = .error e) :
    FirstMisfit ts e := by
  rw [Expr.parse, tokenized] at h
  exact firstMisfit_of_error h

/-- The second of two comparisons in a row. -/
theorem parse_error_firstMisfit_chained : FirstMisfit
    [⟨.number "1", 0, 1⟩, ⟨.less, 1, 2⟩, ⟨.name "a", 2, 3⟩, ⟨.equal, 4, 5⟩, ⟨.number "3", 5, 6⟩]
    ⟨.chainedComparison, 4⟩ := by
  have tokenized : Lexer.tokenize "1<a =3" = .ok [⟨.number "1", 0, 1⟩, ⟨.less, 1, 2⟩,
      ⟨.name "a", 2, 3⟩, ⟨.equal, 4, 5⟩, ⟨.number "3", 5, 6⟩] := by
    decide +kernel
  have refused : (Expr.parse "1<a =3").map (fun _ => ()) = .error ⟨.chainedComparison, 4⟩ := by
    decide +kernel
  cases parsed : Expr.parse "1<a =3" with
  | ok x =>
    rw [parsed] at refused
    cases refused
  | error e =>
    rw [parsed] at refused
    cases refused
    exact parse_error_firstMisfit tokenized parsed

end EquationSystem.Parser
