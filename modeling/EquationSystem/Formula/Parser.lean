import EquationSystem.Formula.Expr
import EquationSystem.Formula.Lexer

/-!
# From tokens to expressions

The levels of the grammar, from the loosest to the tightest, are `or`, `and`, comparisons, sums,
products, prefix operators and powers. Comparisons do not group. A power groups to the right and
its exponent may carry prefix operators. Parentheses, arguments, prefix operators and exponents
nest at most 64 deep; how deep a formula may still nest is an argument of the parser, and the
recursion is on it.
-/

namespace EquationSystem

def maxNesting : Nat := 64

namespace Parser

/-- What is read from the front of `ts`: a value and the tokens after it, which are fewer. -/
abbrev Reading (α : Type) (ts : List PlacedToken) : Type :=
  Except SyntaxError (α × { rest : List PlacedToken // rest.length < ts.length })

abbrev Level : Type := (ts : List PlacedToken) → Reading Expr ts

theorem length_lt {ts : List PlacedToken}
    {a : { rest : List PlacedToken // rest.length < ts.length }}
    (b : { rest : List PlacedToken // rest.length < a.1.length }) : b.1.length < ts.length :=
  Nat.lt_trans b.2 a.2

theorem length_lt_cons {t : PlacedToken} {ts : List PlacedToken}
    (a : { rest : List PlacedToken // rest.length < ts.length }) :
    a.1.length < (t :: ts).length :=
  Nat.lt_trans a.2 (Nat.lt_succ_self _)

def next? (ts : List PlacedToken) : Option Token := ts.head?.map (·.token)

/-- Where the next token begins; `eof` is where the last one ends. -/
def position (eof : Nat) (ts : List PlacedToken) : Nat :=
  match ts with
  | [] => eof
  | t :: _ => t.start

/-- An error at the next token, with a cause that names it. -/
def fail {α : Type} (eof : Nat) (cause : Option Token → SyntaxError.Cause)
    (ts : List PlacedToken) : Except SyntaxError α :=
  .error ⟨cause (next? ts), position eof ts⟩

/-- The tokens after the next one, if that is of the given kind; and what it stands for. -/
def take? {α : Type} (kind : Token → Option α) (ts : List PlacedToken) :
    Option (α × { rest : List PlacedToken // rest.length < ts.length }) :=
  match ts with
  | [] => none
  | t :: after => (kind t.token).map fun a => (a, ⟨after, Nat.lt_succ_self _⟩)

def skip? (token : Token) (ts : List PlacedToken) :
    Option { rest : List PlacedToken // rest.length < ts.length } :=
  (take? (fun t => if t = token then some () else none) ts).map (·.2)

/-- Reads `(operator operand)*` after the operands in `done`, the last of which comes first. -/
def chainRest (operand : Level) (operator? : Token → Option BinaryOp)
    (done : List (BinaryOp × Expr)) (ts : List PlacedToken) :
    Except SyntaxError (List (BinaryOp × Expr) × List PlacedToken) :=
  match take? operator? ts with
  | none => .ok (done.reverse, ts)
  | some (op, right) =>
    match operand right.1 with
    | .error e => .error e
    | .ok (x, after) => chainRest operand operator? ((op, x) :: done) after.1
termination_by ts.length
decreasing_by exact length_lt after

theorem chainRest_length_le {operand : Level} {operator? : Token → Option BinaryOp}
    {done all : List (BinaryOp × Expr)} {ts rest : List PlacedToken}
    (h : chainRest operand operator? done ts = .ok (all, rest)) : rest.length ≤ ts.length := by
  fun_induction chainRest operand operator? done ts with
  | case1 => simp_all
  | case2 => simp at h
  | case3 _ _ _ _ _ _ after _ ih => exact Nat.le_trans (ih h) (Nat.le_of_lt (length_lt after))

/-- Reads `operand (operator operand)*`. -/
def chain (operand : Level) (operator? : Token → Option BinaryOp) : Level := fun ts =>
  match operand ts with
  | .error e => .error e
  | .ok (first, after) =>
    match h : chainRest operand operator? [] after.1 with
    | .error e => .error e
    | .ok (rest, last) =>
      .ok (.ofChain first rest, ⟨last, Nat.lt_of_le_of_lt (chainRest_length_le h) after.2⟩)

def orOp? : Token → Option BinaryOp
  | .or => some .or
  | _ => none

def andOp? : Token → Option BinaryOp
  | .and => some .and
  | _ => none

def comparisonOp? : Token → Option BinaryOp
  | .equal => some .equal
  | .notEqual => some .notEqual
  | .less => some .less
  | .lessEqual => some .lessEqual
  | .greater => some .greater
  | .greaterEqual => some .greaterEqual
  | _ => none

def sumOp? : Token → Option BinaryOp
  | .plus => some .add
  | .minus => some .subtract
  | _ => none

def productOp? : Token → Option BinaryOp
  | .times => some .multiply
  | .over => some .divide
  | .percent => some .remainder
  | _ => none

def prefixOp? : Token → Option UnaryOp
  | .minus => some .negate
  | .plus => some .plus
  | .not => some .not
  | _ => none

/-- Reads `operand` or `operand comparison operand`, which no further comparison may follow. -/
def comparison (eof : Nat) (operand : Level) : Level := fun ts =>
  match operand ts with
  | .error e => .error e
  | .ok (lhs, after) =>
    match take? comparisonOp? after.1 with
    | none => .ok (lhs, after)
    | some (op, right) =>
      match operand right.1 with
      | .error e => .error e
      | .ok (rhs, last) =>
        if (take? comparisonOp? last.1).isSome then
          .error ⟨.chainedComparison, position eof last.1⟩
        else .ok (.binary op lhs rhs, ⟨last.1, Nat.lt_trans (length_lt last) after.2⟩)

/-- The levels above the prefix operators. -/
def loosest (eof : Nat) (tight : Level) : Level :=
  chain (chain (comparison eof (chain (chain tight productOp?) sumOp?)) andOp?) orOp?

/-- Reads `argument (, argument)* )` after the arguments in `done`, the last of which comes
first. -/
def argumentsRest (eof : Nat) (argument : Level) (done : List Expr) (ts : List PlacedToken) :
    Except SyntaxError (List Expr × List PlacedToken) :=
  match argument ts with
  | .error e => .error e
  | .ok (x, after) =>
    match skip? .rightParen after.1 with
    | some rest => .ok ((x :: done).reverse, rest.1)
    | none =>
      match skip? .comma after.1 with
      | none => fail eof .expectedNextArgument after.1
      | some rest => argumentsRest eof argument (x :: done) rest.1
termination_by ts.length
decreasing_by exact length_lt rest

theorem argumentsRest_length_lt {eof : Nat} {argument : Level} {done all : List Expr}
    {ts rest : List PlacedToken} (h : argumentsRest eof argument done ts = .ok (all, rest)) :
    rest.length < ts.length := by
  fun_induction argumentsRest eof argument done ts with
  | case1 => simp at h
  | case2 _ _ _ after _ last =>
    simp only [Except.ok.injEq, Prod.mk.injEq] at h
    exact h.2 ▸ length_lt last
  | case3 => simp [fail] at h
  | case4 _ _ _ after _ _ last _ ih => exact Nat.lt_trans (ih h) (length_lt last)

def arguments (eof : Nat) (argument : Level) (ts : List PlacedToken) : Reading (List Expr) ts :=
  match skip? .rightParen ts with
  | some rest => .ok ([], rest)
  | none =>
    match h : argumentsRest eof argument [] ts with
    | .error e => .error e
    | .ok (args, rest) => .ok (args, ⟨rest, argumentsRest_length_lt h⟩)

/-- Reads a number, a truth value, a name, a call or an expression in parentheses. -/
def primary (eof : Nat) (inner : Level) : Level := fun ts =>
  match ts with
  | [] => fail eof .expectedExpression []
  | ⟨.number text, _, _⟩ :: after => .ok (.number text, ⟨after, Nat.lt_succ_self _⟩)
  | ⟨.bool value, _, _⟩ :: after => .ok (.bool value, ⟨after, Nat.lt_succ_self _⟩)
  | ⟨.name name, start, _⟩ :: after =>
    match skip? .leftParen after with
    | none => .ok (.reference name, ⟨after, Nat.lt_succ_self _⟩)
    | some list =>
      match arguments eof inner list.1 with
      | .error e => .error e
      | .ok (args, rest) =>
        .ok (.call name args start, ⟨rest.1, length_lt_cons ⟨_, length_lt rest⟩⟩)
  | ⟨.leftParen, _, _⟩ :: after =>
    match inner after with
    | .error e => .error e
    | .ok (x, rest) =>
      match skip? .rightParen rest.1 with
      | none => fail eof .expectedClosing rest.1
      | some last => .ok (x, ⟨last.1, length_lt_cons ⟨_, length_lt last⟩⟩)
  | t :: after => fail eof .expectedExpression (t :: after)

def power (eof : Nat) (inner exponent : Level) : Level := fun ts =>
  match primary eof inner ts with
  | .error e => .error e
  | .ok (base, after) =>
    match skip? .caret after.1 with
    | none => .ok (base, after)
    | some right =>
      match exponent right.1 with
      | .error e => .error e
      | .ok (x, rest) =>
        .ok (.binary .power base x, ⟨rest.1, Nat.lt_trans (length_lt rest) after.2⟩)

/-- Reads a power, or a prefix operator and its operand. What nests one deeper is read by `inner`
between parentheses and by `operand` elsewhere. -/
def tightest (eof : Nat) (inner operand : Level) : Level := fun ts =>
  match take? prefixOp? ts with
  | none => power eof inner operand ts
  | some (op, right) =>
    match operand right.1 with
    | .error e => .error e
    | .ok (x, rest) => .ok (.unary op x, ⟨rest.1, length_lt rest⟩)

def tooDeep (eof : Nat) : Level := fun ts => .error ⟨.nestedTooDeeply, position eof ts⟩

/-- The tightest level where the formula may nest `depth` deeper. -/
def tight (eof depth : Nat) (ts : List PlacedToken) : Reading Expr ts :=
  match depth with
  | 0 => tightest eof (tooDeep eof) (tooDeep eof) ts
  | depth + 1 => tightest eof (loosest eof (tight eof depth)) (tight eof depth) ts

def expression (eof depth : Nat) : Level := loosest eof (tight eof depth)

def endOf (ts : List PlacedToken) : Nat := (ts.getLast?.map (·.stop)).getD 0

def parseTokens (ts : List PlacedToken) : Except SyntaxError Expr :=
  match expression (endOf ts) maxNesting ts with
  | .error e => .error e
  | .ok (x, rest) =>
    match rest.1 with
    | [] => .ok x
    | t :: _ => .error ⟨.unexpectedToken t.token, t.start⟩

end Parser

/-- Reads a formula. A character that belongs to no token is reported before any error in the
order of the tokens. -/
def Expr.parse (text : String) : Except SyntaxError Expr :=
  match Lexer.tokenize text with
  | .error e => .error e
  | .ok tokens => Parser.parseTokens tokens

end EquationSystem
