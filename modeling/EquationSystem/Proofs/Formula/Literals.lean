import EquationSystem.Proofs.Formula.Lexicon
import EquationSystem.Proofs.Formula.Negation
import EquationSystem.Proofs.Formula.Recognition
import EquationSystem.Solver.Equation

/-!
# Literals are formulas

A text that is taken as a numeric literal never comes to the parser, and means what the parser would
make of it. Both the reader of literals and the reader of tokens see a sign and a numeral between
blanks (`Shows`): a literal is found in no other text, and a text with the tokens of a number has no
other form. What either makes of the text follows from that alone. With a literal the sign is read
by the number itself, and in a formula it is a prefix operator.
-/

namespace EquationSystem

/-! ## Blanks around a text -/

section
variable {front core back cs : List Char}

theorem trimBlanks_append (hfront : ∀ c ∈ front, isBlank c = true)
    (hcore : ∀ c ∈ core, isBlank c = false) (hback : ∀ c ∈ back, isBlank c = true) :
    trimBlanks (front ++ core ++ back) = core := by
  rw [trimBlanks, List.append_assoc]
  cases core with
  | nil =>
    have blank : ∀ c ∈ front ++ back, isBlank c = true := List.forall_mem_append.2 ⟨hfront, hback⟩
    rw [List.nil_append, List.dropWhile_eq_nil_iff.2 blank]
    rfl
  | cons c core =>
    have first : Misses isBlank (c :: core ++ back) := misses_cons.2 (hcore c List.mem_cons_self)
    have last : Misses isBlank (c :: core).reverse := by
      intro d head
      exact hcore d (List.mem_reverse.1 (List.mem_of_head? head))
    have hback' : ∀ d ∈ back.reverse, isBlank d = true := fun d hd =>
      hback d (List.mem_reverse.1 hd)
    rw [dropWhile_append_of_misses hfront first, List.reverse_append,
      dropWhile_append_of_misses hback' last, List.reverse_reverse]

theorem exists_trimBlanks (cs : List Char) : ∃ front back, cs = front ++ trimBlanks cs ++ back ∧
    (∀ c ∈ front, isBlank c = true) ∧ ∀ c ∈ back, isBlank c = true := by
  have left : cs.takeWhile isBlank ++ cs.dropWhile isBlank = cs := List.takeWhile_append_dropWhile
  have right : (cs.dropWhile isBlank).reverse.takeWhile isBlank ++
      (cs.dropWhile isBlank).reverse.dropWhile isBlank = (cs.dropWhile isBlank).reverse :=
    List.takeWhile_append_dropWhile
  refine ⟨cs.takeWhile isBlank, ((cs.dropWhile isBlank).reverse.takeWhile isBlank).reverse, ?_,
    fun c hc => List.mem_takeWhile_imp hc, fun c hc => ?_⟩
  · rw [List.append_assoc, trimBlanks, ← List.reverse_append, right, List.reverse_reverse, left]
  · exact List.mem_takeWhile_imp (List.mem_reverse.1 hc)

theorem stripReturns_subset (cs : List Char) : stripReturns cs ⊆ cs := by
  fun_induction stripReturns cs with
  | case1 => exact List.Subset.refl _
  | case2 cs ih => exact List.subset_cons_of_subset _ (List.subset_cons_of_subset _ ih)
  | case3 cs _ ih => exact List.subset_cons_of_subset _ ih
  | case4 c cs _ _ ih => exact List.cons_subset_cons c ih

/-- Only a line feed can be left out together with what is before it. -/
theorem stripReturns_append_cons {c : Char} (h : c ≠ '\n') (front rest : List Char) :
    stripReturns (front ++ c :: rest) = stripReturns front ++ stripReturns (c :: rest) := by
  fun_induction stripReturns front with
  | case1 => rfl
  | case2 front ih => rw [List.cons_append, List.cons_append, stripReturns.eq_2, ih]
  | case3 front alone ih =>
    have alone' : ∀ cs, front ++ c :: rest = '\n' :: cs → False := by
      intro cs same
      cases front with
      | nil => exact h (List.cons.inj same).1
      | cons d front => exact alone front (by rw [(List.cons.inj same).1])
    rw [List.cons_append, stripReturns.eq_3 _ alone', ih]
  | case4 d front _ other ih =>
    rw [List.cons_append, stripReturns.eq_4 _ _ (fun _ same => (other same).elim) other, ih,
      List.cons_append]

theorem stripReturns_append (hcore : ∀ c ∈ core, isBlank c = false) (back : List Char) :
    stripReturns (core ++ back) = core ++ stripReturns back := by
  induction core with
  | nil => rfl
  | cons c core ih =>
    rw [List.forall_mem_cons] at hcore
    have other : c ≠ '\r' := by
      rintro rfl
      cases hcore.1
    rw [List.cons_append, stripReturns.eq_4 _ _ (fun _ same => (other same).elim) other,
      ih hcore.2, List.cons_append]

end

/-! ## Numerals with a sign -/

/-- What stands before a number. -/
inductive Sign where
  | none
  | plus
  | minus

namespace Sign

def chars : Sign → List Char
  | none => []
  | plus => ['+']
  | minus => ['-']

/-- The number with the sign. -/
def applyTo (x : Decimal) : Sign → Decimal
  | none | plus => x
  | minus => -x

/-- The expression with the sign as a prefix operator. -/
def before (e : Expr) : Sign → Expr
  | none => e
  | plus => .unary .plus e
  | minus => .unary .negate e

/-- The token of the sign at a place. -/
def tokens (pos : Nat) : Sign → List PlacedToken
  | none => []
  | plus => [⟨.plus, pos, pos + 1⟩]
  | minus => [⟨.minus, pos, pos + 1⟩]

theorem chars_cases (sign : Sign) :
    sign.chars = [] ∨ sign.chars = ['+'] ∨ sign.chars = ['-'] := by
  cases sign with
  | none => exact .inl rfl
  | plus => exact .inr (.inl rfl)
  | minus => exact .inr (.inr rfl)

end Sign

/-- What begins a numeral is none of the characters that begin something else. -/
theorem ne_of_number {c d : Char} (first : (c.isDigit || c == '.') = true)
    (other : (d.isDigit || d == '.') = false) : c ≠ d := by
  rintro rfl
  rw [first] at other
  cases other

/-- The text is a numeral after a sign, with blanks around them. -/
structure Shows (sign : Sign) (numeral cs : List Char) : Prop where
  isNumeral : IsNumeral numeral
  split : ∃ front back, cs = front ++ (sign.chars ++ numeral) ++ back ∧
    (∀ c ∈ front, isBlank c = true) ∧ ∀ c ∈ back, isBlank c = true

namespace Shows

variable {sign : Sign} {numeral cs : List Char} {text : String}

theorem core_not_blank (h : IsNumeral numeral) (sign : Sign) :
    ∀ c ∈ sign.chars ++ numeral, isBlank c = false := by
  rw [List.forall_mem_append]
  refine ⟨?_, h.not_blank⟩
  cases sign with
  | none => exact List.forall_mem_nil _
  | plus | minus => exact List.forall_mem_singleton.2 rfl

theorem trimBlanks_eq (h : Shows sign numeral cs) : trimBlanks cs = sign.chars ++ numeral := by
  obtain ⟨front, back, rfl, hfront, hback⟩ := h.split
  exact trimBlanks_append hfront (core_not_blank h.isNumeral sign) hback

theorem of_isLiteral (h : Decimal.isLiteral (trimBlanks cs) = true) :
    ∃ sign numeral, Shows sign numeral cs := by
  rw [isLiteral_iff] at h
  obtain ⟨front, back, split, hfront, hback⟩ := exists_trimBlanks cs
  rw [← takeSign_append_dropSign (trimBlanks cs)] at split
  rcases takeSign_cases (trimBlanks cs) with sign | sign | sign <;> rw [sign] at split
  · exact ⟨.none, _, h, front, back, split, hfront, hback⟩
  · exact ⟨.plus, _, h, front, back, split, hfront, hback⟩
  · exact ⟨.minus, _, h, front, back, split, hfront, hback⟩

theorem isLiteral (h : Shows sign numeral cs) : Decimal.isLiteral (trimBlanks cs) = true := by
  rw [h.trimBlanks_eq, isLiteral_iff]
  have unsigned : dropSign (sign.chars ++ numeral) = numeral := by
    obtain ⟨c, rest, rfl, first⟩ := h.isNumeral.exists_head
    cases sign with
    | none => exact (sign_of_ne (ne_of_number first rfl) (ne_of_number first rfl)).2
    | plus | minus => rfl
  exact unsigned.symm ▸ h.isNumeral

/-- Without its carriage returns a text shows the same number. -/
theorem stripReturns (h : Shows sign numeral cs) : Shows sign numeral (stripReturns cs) := by
  obtain ⟨front, back, rfl, hfront, hback⟩ := h.split
  refine ⟨h.isNumeral, EquationSystem.stripReturns front, EquationSystem.stripReturns back, ?_,
    fun c hc => hfront c (stripReturns_subset front hc),
    fun c hc => hback c (stripReturns_subset back hc)⟩
  have hcore := core_not_blank h.isNumeral sign
  obtain ⟨c, rest, same, -⟩ := h.isNumeral.exists_head
  cases core : sign.chars ++ numeral with
  | nil =>
    rw [same] at core
    exact (List.append_ne_nil_of_right_ne_nil _ (List.cons_ne_nil c rest) core).elim
  | cons d core' =>
    have other : d ≠ '\n' := by
      rintro rfl
      cases hcore '\n' (core ▸ List.mem_cons_self)
    rw [core] at hcore
    rw [List.append_assoc, List.cons_append, stripReturns_append_cons other, ← List.cons_append,
      stripReturns_append hcore, ← List.append_assoc]

theorem spells_numeral (h : IsNumeral numeral) {back : List Char}
    (hback : ∀ c ∈ back, isBlank c = true) (pos : Nat) : ∃ stop,
      Lexer.Spells pos (numeral ++ back) [⟨.number (String.ofList numeral), pos, stop⟩] := by
  obtain ⟨c, tail, rfl, -⟩ := h.exists_head
  have blank : BlankNext back := fun d head => hback d (List.mem_of_head? head)
  refine ⟨_, .token (h.not_blank c List.mem_cons_self) ((Lexer.Lexeme.number h).readToken blank) ?_⟩
  change Lexer.Spells _ ((tail ++ back).drop tail.length) []
  rw [List.drop_left]
  exact .of_blank hback

theorem spells (h : Shows sign numeral cs) : ∃ pos start stop,
    Lexer.Spells 0 cs (sign.tokens pos ++ [⟨.number (String.ofList numeral), start, stop⟩]) := by
  obtain ⟨front, back, rfl, hfront, hback⟩ := h.split
  rw [List.append_assoc, List.append_assoc]
  cases sign with
  | none =>
    obtain ⟨stop, spells⟩ := spells_numeral h.isNumeral hback (0 + front.length)
    exact ⟨0, _, stop, spells.after_blank hfront⟩
  | plus | minus =>
    obtain ⟨stop, spells⟩ := spells_numeral h.isNumeral hback (0 + front.length + 1)
    refine ⟨0 + front.length, 0 + front.length + 1, stop, .after_blank hfront ?_⟩
    exact .single rfl rfl spells

/-- A numeral and its negation with a zero before a point that begins them. -/
theorem completeFraction_eq (h : IsNumeral numeral) : ∃ d rest, d.isDigit = true ∧
    Decimal.completeFraction numeral = d :: rest ∧
    Decimal.completeFraction ('-' :: numeral) = '-' :: d :: rest := by
  obtain ⟨c, rest, rfl, first⟩ := h.exists_head
  rw [Bool.or_eq_true, beq_iff_eq] at first
  rcases first with digit | rfl
  · refine ⟨c, rest, digit, ?_, ?_⟩ <;> unfold Decimal.completeFraction <;> split
    · next same =>
      cases (List.cons.inj same).1
      cases digit
    · next same =>
      cases (List.cons.inj same).1
      cases digit
    · rfl
    · next same =>
      cases (List.cons.inj (List.cons.inj same).2).1
      cases digit
    · next same => cases (List.cons.inj same).1
    · rfl
  · exact ⟨'0', '.' :: rest, rfl, rfl, rfl⟩

theorem startsWith_plus (h : IsNumeral numeral) : Decimal.startsWith '+' numeral = false := by
  obtain ⟨c, rest, rfl, first⟩ := h.exists_head
  exact beq_eq_false_iff_ne.2 fun same => ne_of_number first rfl (Option.some.inj same)

/-- A numeral is read as it stands. -/
theorem parse_numeral (h : IsNumeral numeral) : Decimal.parse (String.ofList numeral) =
    Decimal.readNumeral (Decimal.completeFraction numeral) := by
  have bare : trimBlanks (String.ofList numeral).toList = numeral := by
    rw [String.toList_ofList]
    simpa using trimBlanks_append (List.forall_mem_nil _) h.not_blank (List.forall_mem_nil _)
  rw [Decimal.parse, bare, startsWith_plus h, if_neg nofun]

theorem literal?_eq (h : Shows sign numeral text.toList) : Decimal.literal? text =
    (Decimal.parse (String.ofList numeral)).toOption.map (sign.applyTo ·) := by
  rw [Decimal.literal?, if_pos h.isLiteral, parse_numeral h.isNumeral, Decimal.parse,
    h.trimBlanks_eq]
  cases sign with
  | none =>
    rw [Sign.chars, List.nil_append, startsWith_plus h.isNumeral, if_neg nofun]
    exact (congrFun Option.map_id _).symm
  | plus =>
    have signed : Decimal.startsWith '+' (Sign.plus.chars ++ numeral) = true := rfl
    rw [signed, if_pos rfl]
    exact (congrFun Option.map_id _).symm
  | minus =>
    obtain ⟨d, rest, digit, complete, negated⟩ := completeFraction_eq h.isNumeral
    have plain : Decimal.startsWith '+' (Sign.minus.chars ++ numeral) = false := rfl
    rw [plain, if_neg nofun, Sign.chars, List.singleton_append, negated, complete,
      Decimal.readNumeral_minus digit]
    rfl

end Shows

/-! ## Tokens and expressions -/

/-- One number, or a sign and a number that begins where the sign ends. -/
inductive IsSignedNumber : List PlacedToken → String → Prop
  | bare {text : String} {start stop : Nat} : IsSignedNumber [⟨.number text, start, stop⟩] text
  | plus {text : String} {start middle stop : Nat} :
      IsSignedNumber [⟨.plus, start, middle⟩, ⟨.number text, middle, stop⟩] text
  | minus {text : String} {start middle stop : Nat} :
      IsSignedNumber [⟨.minus, start, middle⟩, ⟨.number text, middle, stop⟩] text

namespace Lexer.Spells

variable {pos start stop : Nat} {cs : List Char} {text : String}

theorem exists_numeral (h : Spells pos cs [⟨.number text, start, stop⟩]) :
    ∃ front numeral back, cs = front ++ (numeral ++ back) ∧ (∀ c ∈ front, isBlank c = true) ∧
      IsNumeral numeral ∧ text = String.ofList numeral ∧ (∀ c ∈ back, isBlank c = true) ∧
      start = pos + front.length := by
  obtain ⟨front, c, rest, more, rfl, blanks, read, hstart, -, spells⟩ := h.exists_first
  obtain ⟨tail, back, rfl, rfl, longest⟩ := exists_of_readToken read
  obtain ⟨numeral, rfl⟩ := longest.isLexeme.of_numberToken
  rw [List.drop_left] at spells
  exact ⟨front, c :: tail, back, rfl, blanks, numeral, rfl, spells.blank_of_nil, hstart⟩

/-- A sign is directly before a number whose token begins where that of the sign ends. -/
theorem exists_signed {token : Token} {sign : Char} {middle : Nat}
    (isSign : ∀ {lexeme}, Lexeme lexeme token → lexeme = [sign])
    (h : Spells pos cs [⟨token, start, middle⟩, ⟨.number text, middle, stop⟩]) :
    ∃ front numeral back, cs = front ++ (sign :: numeral) ++ back ∧
      (∀ c ∈ front, isBlank c = true) ∧ IsNumeral numeral ∧ text = String.ofList numeral ∧
      ∀ c ∈ back, isBlank c = true := by
  obtain ⟨front, c, rest, more, rfl, blanks, read, -, -, spells⟩ := h.exists_first
  obtain ⟨tail, rest, rfl, rfl, longest⟩ := exists_of_readToken read
  cases isSign longest.isLexeme
  obtain ⟨between, numeral, back, split, -, isNumeral, rfl, hback, adjacent⟩ :=
    spells.exists_numeral
  obtain rfl : between = [] := List.eq_nil_of_length_eq_zero (by dsimp only at adjacent; omega)
  obtain rfl : rest = numeral ++ back := split
  exact ⟨front, numeral, back, by simp, blanks, isNumeral, rfl, hback⟩

theorem shows (h : Spells pos cs ts) (signed : IsSignedNumber ts text) :
    ∃ sign numeral, Shows sign numeral cs ∧ text = String.ofList numeral := by
  cases signed with
  | bare =>
    obtain ⟨front, numeral, back, rfl, hfront, isNumeral, rfl, hback, -⟩ := h.exists_numeral
    exact ⟨.none, numeral, ⟨isNumeral, front, back, (List.append_assoc _ _ _).symm, hfront, hback⟩,
      rfl⟩
  | plus =>
    obtain ⟨front, numeral, back, rfl, hfront, isNumeral, rfl, hback⟩ :=
      h.exists_signed fun lexeme => lexeme.of_plus
    exact ⟨.plus, numeral, ⟨isNumeral, front, back, rfl, hfront, hback⟩, rfl⟩
  | minus =>
    obtain ⟨front, numeral, back, rfl, hfront, isNumeral, rfl, hback⟩ :=
      h.exists_signed fun lexeme => lexeme.of_minus
    exact ⟨.minus, numeral, ⟨isNumeral, front, back, rfl, hfront, hback⟩, rfl⟩

end Lexer.Spells

section
variable {n start stop : Nat} {ts : List PlacedToken} {e : Expr} {text : String} {sign : Sign}

theorem Derives.of_unary (h : Derives n .unary ts e) : Derives n .or ts e :=
  .tighter rfl (.tighter rfl (.tighter rfl (.tighter rfl (.tighter rfl h))))

theorem Sign.derives (sign : Sign) (pos start stop : Nat) (text : String) : Derives 64 .or
    (sign.tokens pos ++ [⟨.number text, start, stop⟩]) (sign.before (.number text)) := by
  have number : ∀ n, Derives n .unary [⟨.number text, start, stop⟩] (.number text) :=
    fun n => .tighter rfl (.tighter rfl .number)
  cases sign with
  | none => exact (number 64).of_unary
  | plus => exact (Derives.prefixed .plus (number 63)).of_unary
  | minus => exact (Derives.prefixed .negate (number 63)).of_unary

theorem Shows.parse {numeral : List Char} (h : Shows sign numeral text.toList) :
    Expr.parse text = .ok (sign.before (.number (String.ofList numeral))) := by
  obtain ⟨pos, start, stop, spells⟩ := h.spells
  rw [Expr.parse, Lexer.tokenize_ok_iff.2 spells]
  exact (Parser.parseTokens_ok_iff.trans Parser.read_expression_iff).2 (sign.derives _ _ _ _)

/-- The formula of a number that can be read is the number with its sign. -/
theorem Sign.compile_ok {x : Decimal} (read : Decimal.parse text = .ok x) (sign : Sign) :
    ∃ term, (∀ names, (sign.before (.number text)).compile names = (.ok term, names)) ∧
      ∀ b : Bindings, term.eval b = .ok (.number (sign.applyTo x)) := by
  have number : ∀ names,
      (Expr.number text).compile names = (.ok (.constant (.number x)), names) := by
    intro names
    rw [Expr.compile, read]
  cases sign with
  | none => exact ⟨_, number, fun b => rfl⟩
  | plus =>
    refine ⟨.unary .plus (.constant (.number x)), fun names => ?_, fun b => rfl⟩
    rw [Sign.before, Expr.compile, number]
  | minus =>
    refine ⟨.unary .negate (.constant (.number x)), fun names => ?_, fun b => rfl⟩
    rw [Sign.before, Expr.compile, number]

theorem Sign.compile_error {cause : NumeralError} (unread : Decimal.parse text = .error cause)
    (sign : Sign) (names : Names) : (sign.before (.number text)).compile names =
      (.error ⟨.invalidNumber text, 0⟩, names) := by
  have number : (Expr.number text).compile names = (.error ⟨.invalidNumber text, 0⟩, names) := by
    rw [Expr.compile, unread]
  cases sign with
  | none => exact number
  | plus | minus => rw [Sign.before, Expr.compile, number]

end

/-- A text that is taken as a numeric literal is also a formula, which refers to no names and has
the literal's digits and scale in all bindings. A text whose tokens are a number, perhaps with a
sign directly before it, is taken as the literal that its formula computes, unless that formula is
refused for the number in it. -/
theorem literal_iff_formula (text : String) :
    (∀ v, Decimal.literal? text = some v → ∃ e term,
      Expr.parse (String.ofList (stripReturns text.toList)) = .ok e ∧
      (∀ names, e.compile names = (.ok term, names)) ∧
      ∀ b : Bindings, term.eval b = .ok (.number v)) ∧
    ∀ tokens numeral, Lexer.tokenize text = .ok tokens → IsSignedNumber tokens numeral →
      ∃ e, Expr.parse text = .ok e ∧
        ((∃ v term, Decimal.literal? text = some v ∧
          (∀ names, e.compile names = (.ok term, names)) ∧
          ∀ b : Bindings, term.eval b = .ok (.number v)) ∨
        (Decimal.literal? text = none ∧
          ∀ names, e.compile names = (.error ⟨.invalidNumber numeral, 0⟩, names))) := by
  constructor
  · intro v found
    have isLiteral : Decimal.isLiteral (trimBlanks text.toList) = true := by
      by_contra other
      rw [Decimal.literal?, if_neg other] at found
      cases found
    obtain ⟨sign, numeral, shows⟩ := Shows.of_isLiteral isLiteral
    rw [shows.literal?_eq] at found
    have stripped : Shows sign numeral (String.ofList (stripReturns text.toList)).toList := by
      rw [String.toList_ofList]
      exact shows.stripReturns
    cases read : Decimal.parse (String.ofList numeral) with
    | error cause =>
      rw [read] at found
      cases found
    | ok x =>
      rw [read] at found
      cases found
      obtain ⟨term, compiled, value⟩ := sign.compile_ok read
      exact ⟨_, term, stripped.parse, compiled, value⟩
  · intro tokens numeral tokenized signed
    obtain ⟨sign, numeral, shows, rfl⟩ := (Lexer.tokenize_ok_iff.1 tokenized).shows signed
    refine ⟨_, shows.parse, ?_⟩
    rw [shows.literal?_eq]
    cases read : Decimal.parse (String.ofList numeral) with
    | error cause => exact .inr ⟨rfl, sign.compile_error read⟩
    | ok x =>
      obtain ⟨term, compiled, value⟩ := sign.compile_ok read
      exact .inl ⟨_, term, rfl, compiled, value⟩

/-- A number with blanks, a sign, a point without digits before it, and an exponent. -/
theorem literal_iff_formula_negative : ∃ text v e term,
    Decimal.literal? text = some v ∧
    Expr.parse (String.ofList (stripReturns text.toList)) = .ok e ∧
    (∀ names, e.compile names = (.ok term, names)) ∧
    (∀ b : Bindings, term.eval b = .ok (.number v)) ∧ ∃ tokens e',
      Lexer.tokenize text = .ok tokens ∧ IsSignedNumber tokens ".5e1" ∧ Expr.parse text = .ok e' ∧
      ∃ term', ∀ b : Bindings, Term.eval b term' = .ok (.number v) := by
  let text := "\t-.5e1\r\n"
  obtain ⟨formula, literal⟩ := literal_iff_formula text
  have found : Decimal.literal? text = some ⟨-5, 0⟩ := by decide +kernel
  have tokens : Lexer.tokenize text = .ok [⟨.minus, 1, 2⟩, ⟨.number ".5e1", 2, 6⟩] := by
    decide +kernel
  obtain ⟨e, term, parsed, compiled, value⟩ := formula _ found
  obtain ⟨e', parsed', result⟩ := literal _ _ tokens .minus
  rcases result with ⟨v, term', found', -, value'⟩ | ⟨none, -⟩
  · cases found.symm.trans found'
    exact ⟨text, _, e, term, found, parsed, compiled, value, _, e', tokens, .minus, parsed', term',
      value'⟩
  · cases found.symm.trans none

end EquationSystem
