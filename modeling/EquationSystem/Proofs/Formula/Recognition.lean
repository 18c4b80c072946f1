import EquationSystem.Proofs.Formula.Grammar
import EquationSystem.Proofs.Formula.Readings

/-!
# The parser reads the grammar

Every parser for a tier reads what is derived in the tier, and nothing else. It reads as much as
can be read: a token that could continue the expression is never left. So a derivation of the front
of some tokens is found where the token after it does not continue an expression of the tier.
-/

namespace EquationSystem

namespace Tier

/-- The token can stand right after an expression of the tier and belong to a longer one of the
same tier. -/
inductive Continues (tier : Tier) : Token → Prop
  | call : Continues tier .leftParen
  | exponent (h : power.rank ≤ tier.rank) : Continues tier .caret
  | joins {outer : Tier} {token : Token} {op : BinaryOp} (h : outer.rank ≤ tier.rank)
      (joins : Joins outer token op) : Continues tier token
  | compares {token : Token} {op : BinaryOp} (h : comparison.rank ≤ tier.rank)
      (compares : Compares token op) : Continues tier token

/-- The tokens do not begin with one that continues an expression of the tier. -/
def Stops (tier : Tier) (ts : List PlacedToken) : Prop :=
  ∀ token, Parser.next? ts = some token → ¬tier.Continues token

variable {tier next : Tier} {ts : List PlacedToken} {t : PlacedToken} {op : BinaryOp}

theorem Continues.mono {token : Token} (h : tier.Continues token) (le : tier.rank ≤ next.rank) :
    next.Continues token := by
  cases h with
  | call => exact .call
  | exponent h => exact .exponent (Nat.le_trans h le)
  | joins h j => exact .joins (Nat.le_trans h le) j
  | compares h c => exact .compares (Nat.le_trans h le) c

theorem Stops.tighter (h : tier.Stops ts) (below : tier.tighter? = some next) : next.Stops ts :=
  fun token hn hc => h token hn (hc.mono (by rw [rank_of_tighter? below]; exact Nat.le_succ _))

/-- What continues an operand of a prefix operator continues a power. -/
theorem Stops.unary (h : power.Stops ts) : unary.Stops ts := by
  intro token hn hc
  refine h token hn ?_
  cases hc with
  | call => exact .call
  | exponent => exact .exponent (Nat.le_refl _)
  | joins le j => cases j <;> exact absurd le (by decide)
  | compares le => exact absurd le (by decide)

theorem stops_nil (tier : Tier) : tier.Stops [] := nofun

theorem stops_cons : tier.Stops (t :: ts) ↔ ¬tier.Continues t.token := by
  simp [Stops, Parser.next?]

/-- An operator that joins expressions of a tier does not continue one of them. -/
theorem stops_of_joins (below : tier.tighter? = some next) (h : Joins tier t.token op) :
    next.Stops (t :: ts) := by
  refine stops_cons.2 fun hc => ?_
  generalize t.token = token at h hc
  have rank := rank_of_tighter? below
  cases hc with
  | call => cases h
  | exponent => cases h
  | joins le j =>
    cases h <;> cases j <;> simp [Tier.rank] at rank le <;> omega
  | compares le c => cases h <;> cases c

/-- What follows an operand in a run of operators does not continue it. -/
theorem Stops.links {R : List PlacedToken → Expr → Prop} {links : List (BinaryOp × Piece)}
    (h : tier.Stops ts) (below : tier.tighter? = some next) (hlinks : Links tier R links) :
    next.Stops (Piece.spell (links.map (·.2)) ++ ts) := by
  cases links with
  | nil => exact h.tighter below
  | cons link links => exact stops_of_joins below (hlinks link List.mem_cons_self).1

theorem stops_of_compares (h : Compares t.token op) : sum.Stops (t :: ts) := by
  refine stops_cons.2 fun hc => ?_
  generalize t.token = token at h hc
  cases hc with
  | call => cases h
  | exponent => cases h
  | joins le j => cases h <;> cases j
  | compares le c => exact absurd le (by decide)

theorem stops_of_caret (h : t.token = .caret) : primary.Stops (t :: ts) := by
  refine stops_cons.2 fun hc => ?_
  rw [h] at hc
  cases hc with
  | exponent le => exact absurd le (by decide)
  | joins le j => cases j
  | compares le c => cases c

theorem stops_of_separator (h : t.token = .comma ∨ t.token = .rightParen) :
    tier.Stops (t :: ts) := by
  refine stops_cons.2 fun hc => ?_
  generalize t.token = token at h hc
  cases hc with
  | call | exponent => simp at h
  | joins _ j => cases j <;> simp at h
  | compares _ c => cases c <;> simp at h

/-- No token that continues the tier is next. -/
theorem Stops.bind_eq_none {α : Type} {kind : Token → Option α} (h : tier.Stops ts)
    (continues : ∀ {token a}, kind token = some a → tier.Continues token) :
    (Parser.next? ts).bind kind = none := by
  refine Option.bind_eq_none_iff.2 fun token hn => ?_
  cases hk : kind token with
  | none => rfl
  | some a => exact absurd (continues hk) (h token hn)

end Tier

namespace Parser

variable {tier next : Tier} {n eof : Nat} {p inner operand : Level}
  {R : List PlacedToken → Expr → Prop}

/-- The parser reads the expressions of the tier that `R` describes: what it reads is one, and it
reads one wherever the token after it does not continue it. -/
structure Recognizes (p : Level) (tier : Tier) (R : List PlacedToken → Expr → Prop) : Prop where
  sound : ∀ {ts e rest}, read p ts = .ok (e, rest) → ∃ front, ts = front ++ rest ∧ R front e
  complete : ∀ {front rest e}, R front e → tier.Stops rest →
    read p (front ++ rest) = .ok (e, rest)

theorem orOp?_iff (token : Token) (op : BinaryOp) : orOp? token = some op ↔ Joins .or token op := by
  constructor
  · intro h
    unfold orOp? at h
    split at h <;> cases h
    exact .or
  · rintro ⟨⟩
    rfl

theorem andOp?_iff (token : Token) (op : BinaryOp) :
    andOp? token = some op ↔ Joins .and token op := by
  constructor
  · intro h
    unfold andOp? at h
    split at h <;> cases h
    exact .and
  · rintro ⟨⟩
    rfl

theorem sumOp?_iff (token : Token) (op : BinaryOp) :
    sumOp? token = some op ↔ Joins .sum token op := by
  constructor
  · intro h
    unfold sumOp? at h
    split at h <;> cases h <;> constructor
  · rintro (_ | _) <;> rfl

theorem productOp?_iff (token : Token) (op : BinaryOp) :
    productOp? token = some op ↔ Joins .product token op := by
  constructor
  · intro h
    unfold productOp? at h
    split at h <;> cases h <;> constructor
  · rintro (_ | _ | _) <;> rfl

theorem comparisonOp?_iff (token : Token) (op : BinaryOp) :
    comparisonOp? token = some op ↔ Compares token op := by
  constructor
  · intro h
    unfold comparisonOp? at h
    split at h <;> cases h <;> constructor
  · rintro (_ | _) <;> rfl

theorem prefixOp?_iff (token : Token) (op : UnaryOp) :
    prefixOp? token = some op ↔ Prefixes token op := by
  constructor
  · intro h
    unfold prefixOp? at h
    split at h <;> cases h <;> constructor
  · rintro (_ | _) <;> rfl

section
variable {operator? : Token → Option BinaryOp} (hp : Recognizes p next R)
include hp

theorem chainRest_sound (table : ∀ token op, operator? token = some op → Joins tier token op)
    {done all : List (BinaryOp × Expr)} {ts rest : List PlacedToken}
    (h : chainRest p operator? done ts = .ok (all, rest)) :
    ∃ links, Links tier R links ∧ ts = Piece.spell (links.map (·.2)) ++ rest ∧
      all = done.reverse ++ links.map fun link => (link.1, link.2.operand) := by
  generalize hlen : ts.length = len
  induction len using Nat.strongRecOn generalizing ts done with
  | ind len ih =>
    rw [chainRest_eq] at h
    cases ts with
    | nil =>
      cases h
      exact ⟨[], nofun, rfl, by simp⟩
    | cons t ts =>
      simp only [next?_cons, Option.bind_some, List.tail_cons] at h
      cases hop : operator? t.token with
      | none =>
        rw [hop] at h
        cases h
        exact ⟨[], nofun, rfl, by simp⟩
      | some op =>
        simp only [hop] at h
        obtain ⟨⟨x, after⟩, hx, h'⟩ := bind_eq_ok_iff.1 h
        obtain ⟨front, rfl, hfront⟩ := hp.sound hx
        have shorter : after.length < len := by
          rw [← hlen, List.length_cons, List.length_append]
          omega
        obtain ⟨links, hlinks, rfl, rfl⟩ := ih after.length shorter h' rfl
        refine ⟨(op, ⟨t, front, x⟩) :: links, ?_, by simp, by simp⟩
        exact List.forall_mem_cons.2 ⟨⟨table _ _ hop, hfront⟩, hlinks⟩

theorem chainRest_complete (below : tier.tighter? = some next)
    (table : ∀ token op, operator? token = some op ↔ Joins tier token op)
    {links : List (BinaryOp × Piece)} (hlinks : Links tier R links) {rest : List PlacedToken}
    (stop : tier.Stops rest) (done : List (BinaryOp × Expr)) :
    chainRest p operator? done (Piece.spell (links.map (·.2)) ++ rest) =
      .ok (done.reverse ++ links.map fun link => (link.1, link.2.operand), rest) := by
  induction links generalizing done with
  | nil =>
    rw [chainRest_eq]
    simp [stop.bind_eq_none fun h => .joins (Nat.le_refl _) ((table _ _).1 h)]
  | cons link links ih =>
    obtain ⟨op, sign, tokens, x⟩ := link
    obtain ⟨⟨joins, hoperand⟩, hlinks⟩ := List.forall_mem_cons.1 hlinks
    have hread := hp.complete hoperand (stop.links below hlinks)
    rw [chainRest_eq]
    simp [(table _ _).2 joins, hread, ih hlinks]

end

theorem exists_cons_of_next? {ts : List PlacedToken} {token : Token} (h : next? ts = some token) :
    ∃ t rest, ts = t :: rest ∧ t.token = token := by
  cases ts with
  | nil => cases h
  | cons t rest => exact ⟨t, rest, rfl, Option.some.inj h⟩

theorem exists_cons_of_bind {α : Type} {kind : Token → Option α} {ts : List PlacedToken} {a : α}
    (h : (next? ts).bind kind = some a) : ∃ t rest, ts = t :: rest ∧ kind t.token = some a := by
  obtain ⟨token, hn, ha⟩ := Option.bind_eq_some_iff.1 h
  obtain ⟨t, rest, rfl, rfl⟩ := exists_cons_of_next? hn
  exact ⟨t, rest, rfl, ha⟩

/-- A run of operators of one tier, from a parser for the operands. -/
theorem Recognizes.chain {operator? : Token → Option BinaryOp}
    (hp : Recognizes p next (Derives n next)) (below : tier.tighter? = some next)
    (joins : ∃ token op, Joins tier token op)
    (table : ∀ token op, operator? token = some op ↔ Joins tier token op) :
    Recognizes (chain p operator?) tier (Derives n tier) where
  sound := by
    intro ts e rest h
    rw [read_chain] at h
    obtain ⟨⟨first, after⟩, hfirst, h⟩ := bind_eq_ok_iff.1 h
    obtain ⟨⟨all, last⟩, hall, h⟩ := bind_eq_ok_iff.1 h
    cases h
    obtain ⟨front, rfl, hfront⟩ := hp.sound hfirst
    obtain ⟨links, hlinks, rfl, rfl⟩ := chainRest_sound hp (fun token op => (table token op).1) hall
    refine ⟨front ++ Piece.spell (links.map (·.2)), by simp, ?_⟩
    exact (derives_iff_links below joins).2 ⟨front, first, links, hfront, hlinks, rfl, by simp⟩
  complete := by
    intro front rest e h stop
    obtain ⟨front, first, links, hfirst, hlinks, rfl, rfl⟩ := (derives_iff_links below joins).1 h
    have hread := hp.complete hfirst (stop.links below hlinks)
    rw [read_chain, List.append_assoc]
    simp [hread, chainRest_complete hp below table hlinks stop]

theorem Recognizes.comparison (eof : Nat) (hp : Recognizes p .sum (Derives n .sum)) :
    Recognizes (comparison eof p) .comparison (Derives n .comparison) where
  sound := by
    intro ts e rest h
    rw [read_comparison] at h
    obtain ⟨⟨lhs, after⟩, hlhs, h'⟩ := bind_eq_ok_iff.1 h
    obtain ⟨front, rfl, hfront⟩ := hp.sound hlhs
    cases hop : (next? after).bind comparisonOp? with
    | none =>
      simp only [hop] at h'
      cases h'
      exact ⟨front, rfl, derives_comparison_iff.2 (.inl hfront)⟩
    | some op =>
      simp only [hop] at h'
      obtain ⟨sign, right, rfl, hsign⟩ := exists_cons_of_bind hop
      obtain ⟨⟨rhs, last⟩, hrhs, h''⟩ := bind_eq_ok_iff.1 h'
      obtain ⟨back, rfl, hback⟩ := hp.sound hrhs
      split at h'' <;> cases h''
      refine ⟨front ++ sign :: back, by simp, derives_comparison_iff.2 (.inr ?_)⟩
      exact ⟨front, sign, back, op, lhs, rhs, hfront, (comparisonOp?_iff _ _).1 hsign, hback, rfl,
        rfl⟩
  complete := by
    intro front rest e h stop
    have none : (next? rest).bind comparisonOp? = none :=
      stop.bind_eq_none fun h => .compares (Nat.le_refl _) ((comparisonOp?_iff _ _).1 h)
    rw [read_comparison]
    rcases derives_comparison_iff.1 h with
      h | ⟨front, sign, back, op, lhs, rhs, hlhs, compares, hrhs, rfl, rfl⟩
    · simp [hp.complete h (stop.tighter rfl), none, pure, Except.pure]
    · have first : read p (front ++ sign :: (back ++ rest)) = .ok (lhs, sign :: (back ++ rest)) :=
        hp.complete hlhs (Tier.stops_of_compares compares)
      have second := hp.complete hrhs (stop.tighter rfl)
      simp [first, second, none, (comparisonOp?_iff _ _).2 compares, pure, Except.pure]

section
variable (hp : Recognizes p .or R)
include hp

theorem argumentsRest_sound {done args : List Expr} {ts rest : List PlacedToken}
    (h : argumentsRest eof p done ts = .ok (args, rest)) :
    ∃ front first more right, R front first ∧ Commas R more ∧ right.token = .rightParen ∧
      ts = front ++ Piece.spell more ++ right :: rest ∧
      args = done.reverse ++ first :: more.map (·.operand) := by
  generalize hlen : ts.length = len
  induction len using Nat.strongRecOn generalizing ts done with
  | ind len ih =>
    rw [argumentsRest_eq] at h
    obtain ⟨⟨x, after⟩, hx, h'⟩ := bind_eq_ok_iff.1 h
    obtain ⟨front, rfl, hfront⟩ := hp.sound hx
    simp only at h'
    split at h'
    · next closing =>
      cases h'
      obtain ⟨right, rest, rfl, hright⟩ := exists_cons_of_next? closing
      exact ⟨front, x, [], right, hfront, nofun, hright, by simp, by simp⟩
    · split at h'
      · next comma =>
        obtain ⟨sign, after, rfl, hsign⟩ := exists_cons_of_next? comma
        have shorter : after.length < len := by
          rw [← hlen, List.length_append, List.length_cons]
          omega
        obtain ⟨tokens, operand, more, right, hoperand, hmore, hright, rfl, rfl⟩ :=
          ih after.length shorter h' rfl
        refine ⟨front, x, ⟨sign, tokens, operand⟩ :: more, right, hfront, ?_, hright, by simp,
          by simp⟩
        exact List.forall_mem_cons.2 ⟨⟨hsign, hoperand⟩, hmore⟩
      · cases h'

theorem argumentsRest_complete {more : List Piece} (hmore : Commas R more) {right : PlacedToken}
    (hright : right.token = .rightParen) (rest : List PlacedToken) {front : List PlacedToken}
    {first : Expr} (hfirst : R front first) (done : List Expr) :
    argumentsRest eof p done (front ++ Piece.spell more ++ right :: rest) =
      .ok (done.reverse ++ first :: more.map (·.operand), rest) := by
  induction more generalizing front first done with
  | nil =>
    have hread : read p (front ++ right :: rest) = .ok (first, right :: rest) :=
      hp.complete hfirst (Tier.stops_of_separator (.inr hright))
    rw [argumentsRest_eq]
    simp [hread, hright, pure, Except.pure]
  | cons piece more ih =>
    obtain ⟨sign, tokens, operand⟩ := piece
    obtain ⟨⟨comma, hoperand⟩, hmore⟩ := List.forall_mem_cons.1 hmore
    have hread : read p (front ++ sign :: (tokens ++ (Piece.spell more ++ right :: rest))) =
        .ok (first, sign :: (tokens ++ (Piece.spell more ++ right :: rest))) :=
      hp.complete hfirst (Tier.stops_of_separator (.inl comma))
    have hrest := ih hmore hoperand (first :: done)
    rw [argumentsRest_eq]
    simp_all [pure, Except.pure]

end

theorem Recognizes.primary (eof : Nat) (hp : Recognizes inner .or (Nested n .or)) :
    Recognizes (primary eof inner) .primary (Derives n .primary) where
  sound := by
    intro ts e rest h
    rw [read_primary] at h
    rcases ts with _ | ⟨⟨token, start, stop⟩, after⟩
    · cases h
    cases token with
    | number text =>
      cases h
      exact ⟨[_], rfl, .number⟩
    | bool value =>
      cases h
      exact ⟨[_], rfl, .bool⟩
    | name name =>
      simp only at h
      split at h
      · next opening =>
        obtain ⟨left, list, rfl, hleft⟩ := exists_cons_of_next? opening
        obtain ⟨⟨args, last⟩, hargs, h'⟩ := bind_eq_ok_iff.1 h
        cases h'
        rw [readArguments_eq] at hargs
        split at hargs
        · next closing =>
          cases hargs
          obtain ⟨right, last, hlist, hright⟩ := exists_cons_of_next? closing
          rw [List.tail_cons] at hlist
          subst hlist
          exact ⟨[_, left, right], rfl, .callWithoutArguments hleft hright⟩
        · obtain ⟨front, first, more, right, hfirst, hmore, hright, hlist, rfl⟩ :=
            argumentsRest_sound hp hargs
          rw [List.tail_cons] at hlist
          subst hlist
          exact ⟨⟨.name name, start, stop⟩ :: left :: (front ++ Piece.spell more ++ [right]),
            by simp, Nested.call hleft hfirst hmore hright⟩
      · cases h
        exact ⟨[_], rfl, .reference⟩
    | leftParen =>
      obtain ⟨⟨x, last⟩, hx, h'⟩ := bind_eq_ok_iff.1 h
      obtain ⟨front, rfl, hfront⟩ := hp.sound hx
      simp only at h'
      split at h'
      · next closing =>
        cases h'
        obtain ⟨right, last, rfl, hright⟩ := exists_cons_of_next? closing
        exact ⟨⟨.leftParen, start, stop⟩ :: (front ++ [right]), by simp,
          Nested.parentheses rfl hfront hright⟩
      · cases h'
    | _ => cases h
  complete := by
    intro front rest e h stop
    have none : next? rest ≠ some .leftParen := fun h => stop _ h .call
    rw [read_primary]
    rcases h.primary_cases with ⟨_, _, _, rfl, rfl⟩ | ⟨_, _, _, rfl, rfl⟩ |
      ⟨_, _, _, rfl, rfl⟩ | ⟨left, front, right, hleft, hinner, hright, rfl⟩ |
      ⟨_, _, _, left, right, hleft, hright, rfl, rfl⟩ |
      ⟨_, _, _, left, front, first, more, right, hleft, hfirst, hmore, hright, rfl, rfl⟩
    · rfl
    · rfl
    · simp [none]
    · obtain ⟨token, start, stop⟩ := left
      cases hleft
      have hread : read inner (front ++ right :: rest) = .ok (e, right :: rest) :=
        hp.complete hinner (Tier.stops_of_separator (.inr hright))
      simp [hread, hright, pure, Except.pure]
    · simp [hleft, hright, readArguments_eq, pure, Except.pure]
    · obtain ⟨t, tokens, rfl, ht⟩ := hfirst.exists_first
      have hread : argumentsRest eof inner []
          (t :: (tokens ++ (Piece.spell more ++ right :: rest))) =
          .ok (first :: more.map (·.operand), rest) := by
        simpa using argumentsRest_complete hp hmore hright rest hfirst []
      simp [hleft, readArguments_eq, ht, hread, pure, Except.pure]

theorem Recognizes.power (eof : Nat) (hin : Recognizes inner .or (Nested n .or))
    (hp : Recognizes operand .unary (Nested n .unary)) :
    Recognizes (power eof inner operand) .power (Derives n .power) where
  sound := by
    intro ts e rest h
    rw [read_power] at h
    obtain ⟨⟨base, after⟩, hbase, h'⟩ := bind_eq_ok_iff.1 h
    obtain ⟨front, rfl, hfront⟩ := (hin.primary eof).sound hbase
    simp only at h'
    split at h'
    · next raised =>
      obtain ⟨sign, right, rfl, caret⟩ := exists_cons_of_next? raised
      obtain ⟨⟨x, last⟩, hx, h''⟩ := bind_eq_ok_iff.1 h'
      cases h''
      obtain ⟨back, hright, hback⟩ := hp.sound hx
      rw [List.tail_cons] at hright
      subst hright
      refine ⟨front ++ sign :: back, by simp, derives_power_iff.2 (.inr ?_)⟩
      exact ⟨front, sign, back, base, x, hfront, caret, hback, rfl, rfl⟩
    · cases h'
      exact ⟨front, rfl, derives_power_iff.2 (.inl hfront)⟩
  complete := by
    intro front rest e h stop
    have none : next? rest ≠ some .caret := fun h => stop _ h (.exponent (Nat.le_refl _))
    rw [read_power]
    rcases derives_power_iff.1 h with
      h | ⟨front, sign, back, base, x, hbase, caret, hback, rfl, rfl⟩
    · simp [(hin.primary eof).complete h (stop.tighter rfl), none, pure, Except.pure]
    · have first : read (Parser.primary eof inner) (front ++ sign :: (back ++ rest)) =
          .ok (base, sign :: (back ++ rest)) :=
        (hin.primary eof).complete hbase (Tier.stops_of_caret caret)
      have second := hp.complete hback stop.unary
      simp [first, second, caret, pure, Except.pure]

theorem Recognizes.tightest (eof : Nat) (hin : Recognizes inner .or (Nested n .or))
    (hp : Recognizes operand .unary (Nested n .unary)) :
    Recognizes (tightest eof inner operand) .unary (Derives n .unary) where
  sound := by
    intro ts e rest h
    rw [read_tightest] at h
    cases hop : (next? ts).bind prefixOp? with
    | none =>
      simp only [hop] at h
      obtain ⟨front, rfl, hfront⟩ := (hin.power eof hp).sound h
      exact ⟨front, rfl, derives_unary_iff.2 (.inl hfront)⟩
    | some op =>
      simp only [hop] at h
      obtain ⟨sign, right, rfl, hsign⟩ := exists_cons_of_bind hop
      obtain ⟨⟨x, last⟩, hx, h'⟩ := bind_eq_ok_iff.1 h
      cases h'
      obtain ⟨back, hright, hback⟩ := hp.sound hx
      rw [List.tail_cons] at hright
      subst hright
      refine ⟨sign :: back, rfl, derives_unary_iff.2 (.inr ?_)⟩
      exact ⟨sign, back, op, x, (prefixOp?_iff _ _).1 hsign, hback, rfl, rfl⟩
  complete := by
    intro front rest e h stop
    rw [read_tightest]
    rcases derives_unary_iff.1 h with h | ⟨sign, back, op, x, prefixes, hback, rfl, rfl⟩
    · obtain ⟨t, tokens, rfl, -, first⟩ := h.exists_first
      have none : prefixOp? t.token = none := by
        cases hop : prefixOp? t.token with
        | none => rfl
        | some op => exact absurd ((prefixOp?_iff _ _).1 hop) (first (Nat.le_refl _) op)
      have hread : read (Parser.power eof inner operand) (t :: tokens ++ rest) = .ok (e, rest) :=
        (hin.power eof hp).complete h (stop.tighter rfl)
      simpa [none] using hread
    · simp [(prefixOp?_iff _ _).2 prefixes, hp.complete hback stop, pure, Except.pure]

theorem Recognizes.loosest (eof : Nat) (hp : Recognizes p .unary (Derives n .unary)) :
    Recognizes (loosest eof p) .or (Derives n .or) := by
  have product := hp.chain rfl ⟨_, _, .multiply⟩ productOp?_iff
  have sum := product.chain rfl ⟨_, _, .add⟩ sumOp?_iff
  have and := (sum.comparison eof).chain rfl ⟨_, _, .and⟩ andOp?_iff
  exact and.chain rfl ⟨_, _, .or⟩ orOp?_iff

theorem recognizes_tooDeep (eof : Nat) (tier : Tier) :
    Recognizes (tooDeep eof) tier (Nested 0 tier) :=
  ⟨nofun, nofun⟩

theorem Recognizes.nested (hp : Recognizes p tier (Derives n tier)) :
    Recognizes p tier (Nested (n + 1) tier) where
  sound := by
    intro ts e rest h
    obtain ⟨front, rfl, hfront⟩ := hp.sound h
    exact ⟨front, rfl, .intro hfront⟩
  complete h stop := hp.complete (nested_succ_iff.1 h) stop

/-- The parsers read what nests as deep as they may go, by induction on that depth. -/
theorem recognizes_tight (eof : Nat) :
    ∀ depth, Recognizes (tight eof depth) .unary (Derives depth .unary)
  | 0 => by
    have h := (recognizes_tooDeep eof .or).tightest eof (recognizes_tooDeep eof .unary)
    exact h
  | depth + 1 => by
    have ih := recognizes_tight eof depth
    have h := (ih.loosest eof).nested.tightest eof ih.nested
    exact h

/-- The expression that all tokens form is the one that is derived for them, at any depth. -/
theorem read_expression_iff {ts : List PlacedToken} {e : Expr} :
    read (expression eof n) ts = .ok (e, []) ↔ Derives n .or ts e := by
  have h : Recognizes (expression eof n) .or (Derives n .or) := (recognizes_tight eof n).loosest eof
  constructor
  · intro hread
    obtain ⟨front, rfl, hfront⟩ := h.sound hread
    rwa [List.append_nil]
  · intro hd
    have hread := h.complete hd (Tier.stops_nil .or)
    rwa [List.append_nil] at hread

theorem parseTokens_ok_iff {ts : List PlacedToken} {e : Expr} :
    parseTokens ts = .ok e ↔ read (expression (endOf ts) maxNesting) ts = .ok (e, []) := by
  rw [parseTokens_eq]
  rcases read (expression (endOf ts) maxNesting) ts with _ | ⟨x, _ | ⟨t, rest⟩⟩
  · exact ⟨nofun, nofun⟩
  · simp [pure, Except.pure]
  · simp

/-- A text is read by way of its tokens. -/
theorem parse_ok_iff {text : String} {e : Expr} : Expr.parse text = .ok e ↔
    ∃ ts, Lexer.tokenize text = .ok ts ∧ Derives maxNesting .or ts e := by
  unfold Expr.parse
  cases Lexer.tokenize text with
  | error _ => exact ⟨nofun, nofun⟩
  | ok ts =>
    refine (parseTokens_ok_iff.trans read_expression_iff).trans ⟨fun h => ⟨ts, rfl, h⟩, ?_⟩
    rintro ⟨_, same, h⟩
    cases same
    exact h

/-- The parser succeeds exactly on what the grammar derives with 64 nestings, and no tokens have
two trees. -/
theorem parseTokens_ok_iff_derives (ts : List PlacedToken) :
    (∀ e, parseTokens ts = .ok e ↔ Derives 64 .or ts e) ∧
      ∀ n e e', Derives n .or ts e → Derives n .or ts e' → e = e' := by
  refine ⟨fun e => parseTokens_ok_iff.trans read_expression_iff, fun n e e' h h' => ?_⟩
  have hread : read (expression 0 n) ts = .ok (e, []) := read_expression_iff.2 h
  rw [read_expression_iff.2 h'] at hread
  cases hread
  rfl

theorem parseTokens_negated_power : parseTokens
    [⟨.minus, 0, 1⟩, ⟨.name "a", 1, 2⟩, ⟨.caret, 2, 3⟩, ⟨.number "2", 3, 4⟩] =
      .ok (.unary .negate (.binary .power (.reference "a") (.number "2"))) := by
  refine ((parseTokens_ok_iff_derives _).1 _).2 ?_
  have two : Derives 62 .unary [⟨.number "2", 3, 4⟩] (.number "2") :=
    .tighter rfl (.tighter rfl .number)
  have power : Derives 63 .power ([⟨.name "a", 1, 2⟩] ++ ⟨.caret, 2, 3⟩ :: [⟨.number "2", 3, 4⟩])
      (.binary .power (.reference "a") (.number "2")) := .power .reference rfl two
  have negated : Derives 64 .unary (⟨.minus, 0, 1⟩ :: _) (.unary .negate _) :=
    .prefixed .negate (.tighter rfl power)
  exact .tighter rfl (.tighter rfl (.tighter rfl (.tighter rfl (.tighter rfl negated))))

end Parser

end EquationSystem
