import EquationSystem.Formula.Parser

/-!
# What the parsers read

The result of a reading without the bound on the tokens that are left, and what the result of each
parser is in terms of those of the parsers it is made of.
-/

namespace EquationSystem.Parser

variable {α β ε : Type} {eof : Nat} {operand inner exponent argument : Level}
  {ts : List PlacedToken}

theorem bind_eq_ok_iff {x : Except ε α} {f : α → Except ε β} {b : β} :
    x >>= f = .ok b ↔ ∃ a, x = .ok a ∧ f a = .ok b := by
  cases x with
  | error e => exact ⟨nofun, nofun⟩
  | ok a => exact ⟨fun h => ⟨a, rfl, h⟩, fun ⟨_, h, hb⟩ => by cases h; exact hb⟩

/-- A reading without the bound on the tokens that are left. -/
def result (r : Reading α ts) : Except SyntaxError (α × List PlacedToken) :=
  r.map fun (a, rest) => (a, rest.1)

/-- What a parser reads, with the tokens that are left. -/
def read (p : Level) (ts : List PlacedToken) : Except SyntaxError (Expr × List PlacedToken) :=
  result (p ts)

@[simp] theorem result_ok (a : α) (rest : { rest : List PlacedToken // rest.length < ts.length }) :
    result (.ok (a, rest) : Reading α ts) = .ok (a, rest.1) := rfl

@[simp] theorem result_error (e : SyntaxError) : result (.error e : Reading α ts) = .error e := rfl

@[simp] theorem ok_bind (a : α) (f : α → Except ε β) : (Except.ok a >>= f) = f a := rfl

@[simp] theorem next?_cons (t : PlacedToken) (ts : List PlacedToken) :
    next? (t :: ts) = some t.token := rfl

theorem take?_cases (kind : Token → Option α) (ts : List PlacedToken) :
    take? kind ts = none ∧ (next? ts).bind kind = none ∨
      ∃ a h, take? kind ts = some (a, ⟨ts.tail, h⟩) ∧ (next? ts).bind kind = some a := by
  cases ts with
  | nil => exact .inl ⟨rfl, rfl⟩
  | cons t ts =>
    cases h : kind t.token with
    | none => exact .inl ⟨by simp [take?, h], by simp [next?, h]⟩
    | some a => exact .inr ⟨a, Nat.lt_succ_self _, by simp [take?, h], by simp [next?, h]⟩

theorem skip?_cases (token : Token) (ts : List PlacedToken) :
    skip? token ts = none ∧ next? ts ≠ some token ∨
      ∃ h, skip? token ts = some ⟨ts.tail, h⟩ ∧ next? ts = some token := by
  cases ts with
  | nil => exact .inl ⟨rfl, nofun⟩
  | cons t ts =>
    by_cases h : t.token = token
    · exact .inr ⟨Nat.lt_succ_self _, by simp [skip?, take?, h], by simp [next?, h]⟩
    · exact .inl ⟨by simp [skip?, take?, h], by simp [next?, h]⟩

section
variable {operator? : Token → Option BinaryOp}

theorem chainRest_eq (done : List (BinaryOp × Expr)) (ts : List PlacedToken) :
    chainRest operand operator? done ts = (match (next? ts).bind operator? with
      | none => .ok (done.reverse, ts)
      | some op => do
        let (x, after) ← read operand ts.tail
        chainRest operand operator? ((op, x) :: done) after) := by
  unfold read
  rw [chainRest]
  rcases take?_cases operator? ts with ⟨htake, hnext⟩ | ⟨op, hlt, htake, hnext⟩
  · simp only [htake, hnext]
  · simp only [htake, hnext]
    cases operand ts.tail <;> rfl

theorem read_chain : read (chain operand operator?) ts = (do
    let (first, after) ← read operand ts
    let (rest, last) ← chainRest operand operator? [] after
    return (.ofChain first rest, last)) := by
  unfold read chain
  cases operand ts with
  | error e => rfl
  | ok reading =>
    obtain ⟨first, after⟩ := reading
    simp only [result_ok, ok_bind]
    split <;> next h => simp only [result_ok, result_error, h]; rfl

end

theorem read_comparison : read (comparison eof operand) ts = (do
    let (lhs, after) ← read operand ts
    match (next? after).bind comparisonOp? with
    | none => return (lhs, after)
    | some op =>
      let (rhs, last) ← read operand after.tail
      if ((next? last).bind comparisonOp?).isSome then
        .error ⟨.chainedComparison, position eof last⟩
      else return (.binary op lhs rhs, last)) := by
  unfold read comparison
  cases operand ts with
  | error e => rfl
  | ok reading =>
    obtain ⟨lhs, after, hafter⟩ := reading
    simp only [result_ok, ok_bind]
    rcases take?_cases comparisonOp? after with ⟨htake, hnext⟩ | ⟨op, hlt, htake, hnext⟩
    · simp only [htake, hnext]
      rfl
    · simp only [htake, hnext]
      cases operand after.tail with
      | error e => rfl
      | ok reading =>
        obtain ⟨rhs, last, hlast⟩ := reading
        simp only [result_ok, ok_bind]
        rcases take?_cases comparisonOp? last with ⟨htake, hnext⟩ | ⟨op, hlt, htake, hnext⟩ <;>
          simp only [htake, hnext] <;> rfl

theorem argumentsRest_eq (done : List Expr) (ts : List PlacedToken) :
    argumentsRest eof argument done ts = (do
      let (x, after) ← read argument ts
      if next? after = some .rightParen then return ((x :: done).reverse, after.tail)
      else if next? after = some .comma then argumentsRest eof argument (x :: done) after.tail
      else fail eof .expectedNextArgument after) := by
  unfold read
  rw [argumentsRest]
  cases argument ts with
  | error e => rfl
  | ok reading =>
    obtain ⟨x, after, hafter⟩ := reading
    simp only [result_ok, ok_bind]
    rcases skip?_cases .rightParen after with ⟨hskip, hnext⟩ | ⟨hlt, hskip, hnext⟩
    · simp only [hskip, if_neg hnext]
      rcases skip?_cases .comma after with ⟨hskip, hnext⟩ | ⟨hlt, hskip, hnext⟩
      · simp only [hskip, if_neg hnext]
      · simp only [hskip, if_pos hnext]
    · simp only [hskip, if_pos hnext]
      rfl

/-- What is read of the arguments of a call, with the tokens that are left. -/
def readArguments (eof : Nat) (argument : Level) (ts : List PlacedToken) :
    Except SyntaxError (List Expr × List PlacedToken) :=
  result (arguments eof argument ts)

theorem readArguments_eq : readArguments eof argument ts =
    if next? ts = some .rightParen then .ok ([], ts.tail)
    else argumentsRest eof argument [] ts := by
  unfold readArguments arguments
  rcases skip?_cases .rightParen ts with ⟨hskip, hnext⟩ | ⟨hlt, hskip, hnext⟩
  · simp only [hskip, if_neg hnext]
    split <;> next h => simp only [result_ok, result_error, h]
  · simp only [hskip, if_pos hnext]
    rfl

theorem read_primary : read (primary eof inner) ts = (match ts with
    | [] => fail eof .expectedExpression []
    | ⟨.number text, _, _⟩ :: after => .ok (.number text, after)
    | ⟨.bool value, _, _⟩ :: after => .ok (.bool value, after)
    | ⟨.name name, start, _⟩ :: after =>
      if next? after = some .leftParen then do
        let (args, rest) ← readArguments eof inner after.tail
        return (.call name args start, rest)
      else .ok (.reference name, after)
    | ⟨.leftParen, _, _⟩ :: after => do
      let (x, rest) ← read inner after
      if next? rest = some .rightParen then return (x, rest.tail)
      else fail eof .expectedClosing rest
    | t :: after => fail eof .expectedExpression (t :: after)) := by
  unfold read readArguments primary
  rcases ts with _ | ⟨⟨token, start, stop⟩, after⟩
  · rfl
  cases token with
  | name name =>
    dsimp only
    rcases skip?_cases .leftParen after with ⟨hskip, hnext⟩ | ⟨hlt, hskip, hnext⟩
    · simp only [hskip, if_neg hnext]
      rfl
    · simp only [hskip, if_pos hnext]
      cases arguments eof inner after.tail <;> rfl
  | leftParen =>
    dsimp only
    cases inner after with
    | error e => rfl
    | ok reading =>
      obtain ⟨x, rest, hrest⟩ := reading
      simp only [result_ok, ok_bind]
      rcases skip?_cases .rightParen rest with ⟨hskip, hnext⟩ | ⟨hlt, hskip, hnext⟩
      · simp only [hskip, if_neg hnext]
        rfl
      · simp only [hskip, if_pos hnext]
        rfl
  | _ => rfl

theorem read_power : read (power eof inner exponent) ts = (do
    let (base, after) ← read (primary eof inner) ts
    if next? after = some .caret then
      let (x, rest) ← read exponent after.tail
      return (.binary .power base x, rest)
    else return (base, after)) := by
  unfold read power
  cases primary eof inner ts with
  | error e => rfl
  | ok reading =>
    obtain ⟨base, after, hafter⟩ := reading
    simp only [result_ok, ok_bind]
    rcases skip?_cases .caret after with ⟨hskip, hnext⟩ | ⟨hlt, hskip, hnext⟩
    · simp only [hskip, if_neg hnext]
      rfl
    · simp only [hskip, if_pos hnext]
      cases exponent after.tail <;> rfl

theorem read_tightest : read (tightest eof inner operand) ts =
    (match (next? ts).bind prefixOp? with
    | none => read (power eof inner operand) ts
    | some op => do
      let (x, rest) ← read operand ts.tail
      return (.unary op x, rest)) := by
  unfold read tightest
  rcases take?_cases prefixOp? ts with ⟨htake, hnext⟩ | ⟨op, hlt, htake, hnext⟩
  · simp only [htake, hnext]
  · simp only [htake, hnext]
    cases operand ts.tail <;> rfl

theorem parseTokens_eq : parseTokens ts = (do
    let (x, rest) ← read (expression (endOf ts) maxNesting) ts
    match rest with
    | [] => return x
    | t :: _ => .error ⟨.unexpectedToken t.token, t.start⟩) := by
  unfold read parseTokens
  cases expression (endOf ts) maxNesting ts with
  | error e => rfl
  | ok reading =>
    obtain ⟨x, rest, hrest⟩ := reading
    cases rest <;> rfl

end EquationSystem.Parser
