import EquationSystem.Formula.Expr
import EquationSystem.Formula.Token
import Mathlib.Data.List.Basic

/-!
# The grammar of formulas

`Derives n tier tokens e` says that the tokens are an expression of the tier with the tree `e`, and
that no place in them is enclosed by more than `n` parentheses, argument lists, operands of prefix
operators and exponents together. It is given by the tables of the operators and does not refer to
the parser.
-/

namespace EquationSystem

/-- The levels of the grammar, from the loosest to the tightest. -/
inductive Tier where
  | or
  | and
  | comparison
  | sum
  | product
  | unary
  | power
  | primary
deriving DecidableEq

/-- The next tighter tier. -/
def Tier.tighter? : Tier → Option Tier
  | .or => some .and
  | .and => some .comparison
  | .comparison => some .sum
  | .sum => some .product
  | .product => some .unary
  | .unary => some .power
  | .power => some .primary
  | .primary => none

/-- How many tiers are tighter. -/
def Tier.rank : Tier → Nat
  | .or => 7
  | .and => 6
  | .comparison => 5
  | .sum => 4
  | .product => 3
  | .unary => 2
  | .power => 1
  | .primary => 0

/-- The token joins operands of the next tighter tier, from the left, to an expression of the
tier. -/
inductive Joins : Tier → Token → BinaryOp → Prop
  | or : Joins .or .or .or
  | and : Joins .and .and .and
  | add : Joins .sum .plus .add
  | subtract : Joins .sum .minus .subtract
  | multiply : Joins .product .times .multiply
  | divide : Joins .product .over .divide
  | remainder : Joins .product .percent .remainder

/-- The token compares two sums. -/
inductive Compares : Token → BinaryOp → Prop
  | equal : Compares .equal .equal
  | notEqual : Compares .notEqual .notEqual
  | less : Compares .less .less
  | lessEqual : Compares .lessEqual .lessEqual
  | greater : Compares .greater .greater
  | greaterEqual : Compares .greaterEqual .greaterEqual

/-- The token stands before an operand. -/
inductive Prefixes : Token → UnaryOp → Prop
  | negate : Prefixes .minus .negate
  | plus : Prefixes .plus .plus
  | not : Prefixes .not .not

/-- An operand with the sign before it: an operator or a comma. -/
structure Piece where
  sign : PlacedToken
  tokens : List PlacedToken
  operand : Expr

/-- The tokens of some pieces, one after the other. -/
def Piece.spell (pieces : List Piece) : List PlacedToken :=
  pieces.flatMap fun piece => piece.sign :: piece.tokens

/-- The tokens are an expression of the tier, nested at most `n` deep. -/
inductive Derives : Nat → Tier → List PlacedToken → Expr → Prop
  | tighter {n : Nat} {tier next : Tier} {ts : List PlacedToken} {e : Expr}
      (below : tier.tighter? = some next) (h : Derives n next ts e) : Derives n tier ts e
  /-- A run of operators of one tier is one node, and has at least one operator. -/
  | chain {n : Nat} {tier next : Tier} {ts : List PlacedToken} {first : Expr}
      {links : List (BinaryOp × Piece)} (below : tier.tighter? = some next)
      (hfirst : Derives n next ts first) (nonempty : links ≠ [])
      (joins : ∀ link ∈ links, Joins tier link.2.sign.token link.1)
      (operands : ∀ link ∈ links, Derives n next link.2.tokens link.2.operand) :
      Derives n tier (ts ++ Piece.spell (links.map (·.2)))
        (.chain first (links.map fun link => (link.1, link.2.operand)))
  | comparison {n : Nat} {ts us : List PlacedToken} {sign : PlacedToken} {op : BinaryOp}
      {lhs rhs : Expr} (hlhs : Derives n .sum ts lhs) (compares : Compares sign.token op)
      (hrhs : Derives n .sum us rhs) :
      Derives n .comparison (ts ++ sign :: us) (.binary op lhs rhs)
  | prefixed {n : Nat} {ts : List PlacedToken} {sign : PlacedToken} {op : UnaryOp} {e : Expr}
      (prefixes : Prefixes sign.token op) (h : Derives n .unary ts e) :
      Derives (n + 1) .unary (sign :: ts) (.unary op e)
  | power {n : Nat} {ts us : List PlacedToken} {sign : PlacedToken} {base exponent : Expr}
      (hbase : Derives (n + 1) .primary ts base) (caret : sign.token = .caret)
      (hexponent : Derives n .unary us exponent) :
      Derives (n + 1) .power (ts ++ sign :: us) (.binary .power base exponent)
  | number {n start stop : Nat} {text : String} :
      Derives n .primary [⟨.number text, start, stop⟩] (.number text)
  | bool {n start stop : Nat} {value : Bool} :
      Derives n .primary [⟨.bool value, start, stop⟩] (.bool value)
  | reference {n start stop : Nat} {name : String} :
      Derives n .primary [⟨.name name, start, stop⟩] (.reference name)
  | parentheses {n : Nat} {ts : List PlacedToken} {left right : PlacedToken} {e : Expr}
      (hleft : left.token = .leftParen) (h : Derives n .or ts e)
      (hright : right.token = .rightParen) :
      Derives (n + 1) .primary (left :: (ts ++ [right])) e
  | callWithoutArguments {n start stop : Nat} {name : String} {left right : PlacedToken}
      (hleft : left.token = .leftParen) (hright : right.token = .rightParen) :
      Derives n .primary [⟨.name name, start, stop⟩, left, right] (.call name [] start)
  /-- The arguments are separated by commas. The call is placed where its name begins. -/
  | call {n start stop : Nat} {name : String} {left right : PlacedToken}
      {ts : List PlacedToken} {first : Expr} {more : List Piece}
      (hleft : left.token = .leftParen) (hfirst : Derives n .or ts first)
      (commas : ∀ piece ∈ more, piece.sign.token = .comma)
      (arguments : ∀ piece ∈ more, Derives n .or piece.tokens piece.operand)
      (hright : right.token = .rightParen) :
      Derives (n + 1) .primary
        (⟨.name name, start, stop⟩ :: left :: (ts ++ Piece.spell more ++ [right]))
        (.call name (first :: more.map (·.operand)) start)

variable {n : Nat} {tier next : Tier} {ts : List PlacedToken} {e : Expr}

@[simp] theorem Piece.spell_nil : Piece.spell [] = [] := rfl

@[simp] theorem Piece.spell_cons (piece : Piece) (pieces : List Piece) :
    Piece.spell (piece :: pieces) = piece.sign :: (piece.tokens ++ Piece.spell pieces) := rfl

theorem exists_joins {links : List (BinaryOp × Piece)} (nonempty : links ≠ [])
    (joins : ∀ link ∈ links, Joins tier link.2.sign.token link.1) :
    ∃ token op, Joins tier token op :=
  let ⟨link, hl⟩ := List.exists_mem_of_ne_nil links nonempty
  ⟨_, _, joins link hl⟩

theorem Tier.rank_of_tighter? (h : tier.tighter? = some next) : tier.rank = next.rank + 1 := by
  cases tier <;> cases h <;> rfl

/-- An expression begins with a token that closes nothing, and a power with no prefix operator. -/
theorem Derives.exists_first (h : Derives n tier ts e) :
    ∃ t rest, ts = t :: rest ∧ t.token ≠ .rightParen ∧
      (tier.rank ≤ Tier.power.rank → ∀ op, ¬Prefixes t.token op) := by
  induction h with
  | tighter below _ ih =>
    obtain ⟨t, rest, rfl, ht, first⟩ := ih
    refine ⟨t, rest, rfl, ht, fun le => first ?_⟩
    rw [Tier.rank_of_tighter? below] at le
    exact Nat.le_of_succ_le le
  | chain _ _ nonempty joins _ ih =>
    obtain ⟨t, rest, rfl, ht, -⟩ := ih
    obtain ⟨_, _, j⟩ := exists_joins nonempty joins
    exact ⟨t, _, rfl, ht, fun le => by cases j <;> exact absurd le (by decide)⟩
  | comparison _ _ _ ih _ =>
    obtain ⟨t, rest, rfl, ht, -⟩ := ih
    exact ⟨t, _, rfl, ht, fun le => absurd le (by decide)⟩
  | power _ _ _ ih _ =>
    obtain ⟨t, rest, rfl, ht, first⟩ := ih
    exact ⟨t, _, rfl, ht, fun _ => first (by decide)⟩
  | @prefixed _ _ sign _ _ prefixes =>
    refine ⟨sign, _, rfl, fun h => ?_, fun le => absurd le (by decide)⟩
    rw [h] at prefixes
    cases prefixes
  | number | bool | reference | callWithoutArguments | call =>
    exact ⟨_, _, rfl, nofun, fun _ _ => nofun⟩
  | @parentheses _ _ left _ _ hleft =>
    rcases left with ⟨_, _, _⟩
    cases hleft
    exact ⟨_, _, rfl, nofun, fun _ _ => nofun⟩

/-- A primary expression is an expression of every tier. -/
theorem Derives.of_primary (h : Derives n .primary ts e) : ∀ tier, Derives n tier ts e := by
  have power : Derives n .power ts e := .tighter rfl h
  have unary : Derives n .unary ts e := .tighter rfl power
  have product : Derives n .product ts e := .tighter rfl unary
  have sum : Derives n .sum ts e := .tighter rfl product
  have comparison : Derives n .comparison ts e := .tighter rfl sum
  have and : Derives n .and ts e := .tighter rfl comparison
  intro tier
  cases tier with
  | or => exact .tighter rfl and
  | _ => assumption

/-- A chain with one operator. -/
theorem Derives.chain_one {us : List PlacedToken} {sign : PlacedToken} {op : BinaryOp} {x : Expr}
    (below : tier.tighter? = some next) (h : Derives n next ts e) (joins : Joins tier sign.token op)
    (hx : Derives n next us x) : Derives n tier (ts ++ sign :: us) (.chain e [(op, x)]) := by
  have chain := @Derives.chain _ _ _ _ _ [(op, ⟨sign, us, x⟩)] below h (List.cons_ne_nil _ _)
    (List.forall_mem_singleton.2 joins) (List.forall_mem_singleton.2 hx)
  rwa [List.map_singleton, Piece.spell_cons, Piece.spell_nil, List.append_nil] at chain

/-- Derived in the tier where one of `n` nestings is used. -/
inductive Nested : Nat → Tier → List PlacedToken → Expr → Prop
  | intro {n : Nat} {tier : Tier} {ts : List PlacedToken} {e : Expr} (h : Derives n tier ts e) :
      Nested (n + 1) tier ts e

theorem nested_succ_iff : Nested (n + 1) tier ts e ↔ Derives n tier ts e :=
  ⟨fun ⟨h⟩ => h, .intro⟩

theorem Nested.exists_first (h : Nested n tier ts e) :
    ∃ t rest, ts = t :: rest ∧ t.token ≠ .rightParen := by
  cases h with
  | intro h =>
    obtain ⟨t, rest, rfl, ht, -⟩ := h.exists_first
    exact ⟨t, rest, rfl, ht⟩

/-- Operators that join expressions of the tier, each with an operand that `R` describes. -/
def Links (tier : Tier) (R : List PlacedToken → Expr → Prop) (links : List (BinaryOp × Piece)) :
    Prop :=
  ∀ link ∈ links, Joins tier link.2.sign.token link.1 ∧ R link.2.tokens link.2.operand

/-- An expression of a tier with operators that join is an operand, or several in a row. -/
theorem derives_iff_links (below : tier.tighter? = some next)
    (joins : ∃ token op, Joins tier token op) :
    Derives n tier ts e ↔ ∃ front first links, Derives n next front first ∧
      Links tier (Derives n next) links ∧ ts = front ++ Piece.spell (links.map (·.2)) ∧
      e = .ofChain first (links.map fun link => (link.1, link.2.operand)) := by
  constructor
  · intro h
    cases h with
    | tighter below' h =>
      rw [below] at below'
      cases below'
      exact ⟨ts, e, [], h, nofun, by simp, rfl⟩
    | @chain _ _ _ ts first links below' hfirst nonempty joins operands =>
      rw [below] at below'
      cases below'
      obtain ⟨link, links, rfl⟩ := List.exists_cons_of_ne_nil nonempty
      exact ⟨ts, first, link :: links, hfirst, fun l hl => ⟨joins l hl, operands l hl⟩, rfl, rfl⟩
    | comparison | prefixed | power | number | bool | reference | parentheses
      | callWithoutArguments | call =>
      obtain ⟨_, _, j⟩ := joins
      cases j
  · rintro ⟨front, first, links, hfirst, hlinks, rfl, rfl⟩
    cases links with
    | nil => simpa using .tighter below hfirst
    | cons link links =>
      exact .chain below hfirst nofun (fun l hl => (hlinks l hl).1) fun l hl => (hlinks l hl).2

theorem derives_comparison_iff : Derives n .comparison ts e ↔ Derives n .sum ts e ∨
    ∃ front sign back op lhs rhs, Derives n .sum front lhs ∧ Compares sign.token op ∧
      Derives n .sum back rhs ∧ ts = front ++ sign :: back ∧ e = .binary op lhs rhs := by
  constructor
  · intro h
    cases h with
    | tighter below h =>
      cases below
      exact .inl h
    | @chain _ _ _ _ _ links below _ nonempty joins =>
      obtain ⟨_, _, j⟩ := exists_joins nonempty joins
      cases j
    | comparison hlhs compares hrhs => exact .inr ⟨_, _, _, _, _, _, hlhs, compares, hrhs, rfl, rfl⟩
  · rintro (h | ⟨front, sign, back, op, lhs, rhs, hlhs, compares, hrhs, rfl, rfl⟩)
    · exact .tighter rfl h
    · exact .comparison hlhs compares hrhs

theorem derives_unary_iff : Derives n .unary ts e ↔ Derives n .power ts e ∨
    ∃ sign back op x, Prefixes sign.token op ∧ Nested n .unary back x ∧ ts = sign :: back ∧
      e = .unary op x := by
  constructor
  · intro h
    cases h with
    | tighter below h =>
      cases below
      exact .inl h
    | @chain _ _ _ _ _ links below _ nonempty joins =>
      obtain ⟨_, _, j⟩ := exists_joins nonempty joins
      cases j
    | prefixed prefixes h => exact .inr ⟨_, _, _, _, prefixes, .intro h, rfl, rfl⟩
  · rintro (h | ⟨sign, back, op, x, prefixes, h, rfl, rfl⟩)
    · exact .tighter rfl h
    · cases h with
      | intro h => exact .prefixed prefixes h

theorem derives_power_iff : Derives n .power ts e ↔ Derives n .primary ts e ∨
    ∃ front sign back base x, Derives n .primary front base ∧ sign.token = .caret ∧
      Nested n .unary back x ∧ ts = front ++ sign :: back ∧ e = .binary .power base x := by
  constructor
  · intro h
    cases h with
    | tighter below h =>
      cases below
      exact .inl h
    | @chain _ _ _ _ _ links below _ nonempty joins =>
      obtain ⟨_, _, j⟩ := exists_joins nonempty joins
      cases j
    | power hbase caret hexponent =>
      exact .inr ⟨_, _, _, _, _, hbase, caret, .intro hexponent, rfl, rfl⟩
  · rintro (h | ⟨front, sign, back, base, x, hbase, caret, h, rfl, rfl⟩)
    · exact .tighter rfl h
    · cases h with
      | intro h => exact .power hbase caret h

/-- Operands that `R` describes, each after a comma. -/
def Commas (R : List PlacedToken → Expr → Prop) (pieces : List Piece) : Prop :=
  ∀ piece ∈ pieces, piece.sign.token = .comma ∧ R piece.tokens piece.operand

theorem Nested.parentheses {left right : PlacedToken} (hleft : left.token = .leftParen)
    (h : Nested n .or ts e) (hright : right.token = .rightParen) :
    Derives n .primary (left :: (ts ++ [right])) e := by
  cases h with
  | intro h => exact .parentheses hleft h hright

theorem Nested.call {start stop : Nat} {name : String} {left right : PlacedToken}
    {more : List Piece} (hleft : left.token = .leftParen) (hfirst : Nested n .or ts e)
    (hmore : Commas (Nested n .or) more) (hright : right.token = .rightParen) :
    Derives n .primary (⟨.name name, start, stop⟩ :: left :: (ts ++ Piece.spell more ++ [right]))
      (.call name (e :: more.map (·.operand)) start) := by
  cases hfirst with
  | intro hfirst =>
    exact .call hleft hfirst (fun piece hp => (hmore piece hp).1)
      (fun piece hp => nested_succ_iff.1 (hmore piece hp).2) hright

theorem Derives.primary_cases (h : Derives n .primary ts e) :
    (∃ start stop text, ts = [⟨.number text, start, stop⟩] ∧ e = .number text) ∨
    (∃ start stop value, ts = [⟨.bool value, start, stop⟩] ∧ e = .bool value) ∨
    (∃ start stop name, ts = [⟨.name name, start, stop⟩] ∧ e = .reference name) ∨
    (∃ left front right, left.token = .leftParen ∧ Nested n .or front e ∧
      right.token = .rightParen ∧ ts = left :: (front ++ [right])) ∨
    (∃ start stop name left right, left.token = .leftParen ∧ right.token = .rightParen ∧
      ts = [⟨.name name, start, stop⟩, left, right] ∧ e = .call name [] start) ∨
    ∃ start stop name left front first more right, left.token = .leftParen ∧
      Nested n .or front first ∧ Commas (Nested n .or) more ∧ right.token = .rightParen ∧
      ts = ⟨.name name, start, stop⟩ :: left :: (front ++ Piece.spell more ++ [right]) ∧
      e = .call name (first :: more.map (·.operand)) start := by
  cases h with
  | tighter below => cases below
  | chain below => cases below
  | number => exact .inl ⟨_, _, _, rfl, rfl⟩
  | bool => exact .inr (.inl ⟨_, _, _, rfl, rfl⟩)
  | reference => exact .inr (.inr (.inl ⟨_, _, _, rfl, rfl⟩))
  | parentheses hleft h hright =>
    exact .inr (.inr (.inr (.inl ⟨_, _, _, hleft, .intro h, hright, rfl⟩)))
  | callWithoutArguments hleft hright =>
    exact .inr (.inr (.inr (.inr (.inl ⟨_, _, _, _, _, hleft, hright, rfl, rfl⟩))))
  | call hleft hfirst commas arguments hright =>
    exact .inr (.inr (.inr (.inr (.inr ⟨_, _, _, _, _, _, _, _, hleft, .intro hfirst,
      fun piece hp => ⟨commas piece hp, .intro (arguments piece hp)⟩, hright, rfl, rfl⟩))))

end EquationSystem
