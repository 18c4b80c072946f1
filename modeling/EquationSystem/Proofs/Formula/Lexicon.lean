import EquationSystem.Proofs.Formula.Tokens

/-!
# The lexemes of formulas

A lexeme is a text that is one token: a word, a numeral or one of the signs. At every place the
longest lexeme that begins there is read (`reads_readToken`), unless it is followed by a point that
belongs to no number. So what comes after a token matters only up to the next blank, which no
lexeme contains (`readToken_of_cut`).
-/

namespace EquationSystem.Lexer

/-- The signs with the tokens that they stand for. -/
def signs : List (List Char × Token) :=
  [(['('], .leftParen), ([')'], .rightParen), ([','], .comma), (['+'], .plus), (['-'], .minus),
    (['*'], .times), (['/'], .over), (['%'], .percent), (['^'], .caret), (['='], .equal),
    (['=', '='], .equal), (['!'], .not), (['!', '='], .notEqual), (['<'], .less),
    (['<', '='], .lessEqual), (['<', '>'], .notEqual), (['>'], .greater),
    (['>', '='], .greaterEqual), (['&', '&'], .and), (['|', '|'], .or)]

/-- The text is one token. -/
inductive Lexeme : List Char → Token → Prop
  | word {c : Char} {cs : List Char} (first : isNameStart c = true)
      (inside : ∀ d ∈ cs, isNameChar d = true) :
      Lexeme (c :: cs) (word (String.ofList (c :: cs)))
  | number {cs : List Char} (h : IsNumeral cs) : Lexeme cs (.number (String.ofList cs))
  | sign {cs : List Char} {token : Token} (listed : (cs, token) ∈ signs) : Lexeme cs token

/-- The longest lexeme that a text begins with. -/
structure Longest (cs lexeme : List Char) (token : Token) : Prop where
  isLexeme : Lexeme lexeme token
  initial : lexeme <+: cs
  longest : ∀ other t, Lexeme other t → other <+: cs → other.length ≤ lexeme.length

/-- The text begins with digits, perhaps none, and a point that no digit follows. -/
inductive PointAlone (whole : List Char) : List Char → Prop
  | intro {rest : List Char} (hwhole : Digits whole) (next : Misses Char.isDigit rest) :
      PointAlone whole (whole ++ '.' :: rest)

/-- What is read at the beginning of a text whose first character is not blank. -/
inductive Reads (c : Char) (cs : List Char) : Except SyntaxError (Token × Nat) → Prop
  | point {whole : List Char} (h : PointAlone whole (c :: cs)) :
      Reads c cs (.error ⟨.pointWithoutDigits, whole.length⟩)
  | nothing (noPoint : ∀ whole, ¬PointAlone whole (c :: cs))
      (none : ∀ lexeme token, Lexeme lexeme token → ¬lexeme <+: c :: cs) :
      Reads c cs (.error ⟨.unexpectedCharacter c, 0⟩)
  | token {tail : List Char} {token : Token} {more : Nat}
      (noPoint : ∀ whole, ¬PointAlone whole (c :: cs)) (h : Longest (c :: cs) (c :: tail) token)
      (length : tail.length = more) : Reads c cs (.ok (token, more))

variable {c : Char} {cs tail rest rest' lexeme whole : List Char} {token : Token} {more : Nat}

/-! ## Characters -/

/-- The character takes one byte and separates no tokens. -/
def Solid (c : Char) : Prop := isBlank c = false ∧ c.utf8Size = 1

instance (c : Char) : Decidable (Solid c) := inferInstanceAs (Decidable (_ ∧ _))

theorem isNameChar_of_isNameStart (h : isNameStart c = true) : isNameChar c = true := by
  rw [isNameStart, Bool.or_eq_true] at h
  rw [isNameChar, Char.isAlphanum, Bool.or_eq_true, Bool.or_eq_true]
  exact h.imp_left .inl

theorem isNameChar_of_isDigit (h : c.isDigit = true) : isNameChar c = true := by
  rw [isNameChar, Char.isAlphanum, h, Bool.or_true, Bool.true_or]

/-- No letter comes after `z`. -/
theorem solid_of_isNameChar (h : isNameChar c = true) : Solid c := by
  constructor
  · by_contra blank
    simp only [isBlank, Bool.not_eq_false, Bool.or_eq_true, beq_iff_eq] at blank
    rcases blank with (((rfl | rfl) | rfl) | rfl) | rfl <;> cases h
  · have le : c.val ≤ 'z'.val := by
      rw [isNameChar, Char.isAlphanum, Bool.or_eq_true, Bool.or_eq_true] at h
      rcases h with (letter | digit) | underscore
      · rcases (Bool.or_eq_true _ _).mp letter with upper | lower
        · exact UInt32.le_trans (of_decide_eq_true upper).2 (by decide)
        · exact of_decide_eq_true ((Bool.and_eq_true _ _).mp lower).2
      · exact UInt32.le_trans (of_decide_eq_true ((Bool.and_eq_true _ _).mp digit).2) (by decide)
      · rw [eq_of_beq underscore]
        decide
    exact Char.utf8Size_eq_one_iff.2 (UInt32.le_trans le (by decide))

theorem solid_of_isExponentMark (h : isExponentMark c = true) : Solid c := by
  simp only [isExponentMark, Bool.or_eq_true, beq_iff_eq] at h
  rcases h with rfl | rfl <;> decide

/-! ## Signs -/

/-- A property of the characters of all signs, by evaluation. Deciding it as it is stated would go
through all characters there are, and not just through those of the signs. -/
theorem forall_mem_signs {p : List Char × Token → Char → Prop} [∀ x c, Decidable (p x c)]
    (h : (signs.all fun x => x.1.all fun c => p x c) = true) : ∀ x ∈ signs, ∀ c ∈ x.1, p x c := by
  simpa only [List.all_eq_true, decide_eq_true_eq] using h

theorem of_mem_signs : ∀ x ∈ signs, x.1 ≠ [] ∧
    ∀ c ∈ x.1, isNameStart c = false ∧ (c.isDigit || c == '.') = false ∧ Solid c := by
  have nonempty : ∀ x ∈ signs, x.1 ≠ [] := by decide
  have chars : ∀ x ∈ signs, ∀ c ∈ x.1,
      isNameStart c = false ∧ (c.isDigit || c == '.') = false ∧ Solid c :=
    forall_mem_signs (by decide)
  exact fun x listed => ⟨nonempty x listed, chars x listed⟩

theorem signs_unique : ∀ x ∈ signs, ∀ y ∈ signs, x.1 = y.1 → x.2 = y.2 := by
  decide

theorem sign?_sound {next : Option Char} (h : sign? c next = some (token, more)) :
    more = 0 ∧ ([c], token) ∈ signs ∨ more = 1 ∧ ∃ d, next = some d ∧ ([c, d], token) ∈ signs := by
  unfold sign? at h
  split at h <;> cases h <;> simp [signs]

theorem sign?_one (h : ([c], token) ∈ signs) (next : Option Char) : sign? c next ≠ none := by
  intro none
  unfold sign? at none
  split at none <;> cases none
  simp_all [signs]

theorem sign?_two : ∀ x ∈ signs, ∀ c d, x.1 = [c, d] → sign? c (some d) = some (x.2, 1) := by
  simp [signs, sign?]

theorem length_of_mem_signs : ∀ x ∈ signs, x.1.length ≤ 2 := by
  decide

/-- Where a text begins with a sign, one is read that is at least as long. -/
theorem sign?_of_initial {sign : List Char} {other : Token} (listed : (sign, other) ∈ signs)
    (initial : sign <+: c :: cs) :
    ∃ token more, sign? c cs.head? = some (token, more) ∧ sign.length ≤ more + 1 := by
  match sign with
  | [] => exact ((of_mem_signs _ listed).1 rfl).elim
  | [a] =>
    obtain ⟨rfl, -⟩ := List.cons_prefix_cons.1 initial
    obtain ⟨⟨token, more⟩, read⟩ := Option.ne_none_iff_exists'.1 (sign?_one listed cs.head?)
    exact ⟨token, more, read, Nat.succ_le_succ (Nat.zero_le _)⟩
  | [a, b] =>
    obtain ⟨rfl, ⟨cs, rfl⟩⟩ := List.cons_prefix_cons.1 initial
    exact ⟨other, 1, sign?_two _ listed a b rfl, Nat.le_refl _⟩
  | _ :: _ :: _ :: _ => exact absurd (length_of_mem_signs _ listed) (by simp)

/-! ## Lexemes by their first characters -/

namespace Lexeme

theorem solid (h : Lexeme lexeme token) : ∀ c ∈ lexeme, Solid c := by
  cases h with
  | word first inside =>
    exact List.forall_mem_cons.2 ⟨solid_of_isNameChar (isNameChar_of_isNameStart first),
      fun d hd => solid_of_isNameChar (inside d hd)⟩
  | number h =>
    exact h.forall_mem (fun _ digit => solid_of_isNameChar (isNameChar_of_isDigit digit))
      (fun _ => solid_of_isExponentMark) (by decide) (by decide)
  | sign listed => exact fun c hc => ((of_mem_signs _ listed).2 c hc).2.2

theorem exists_cons (h : Lexeme lexeme token) : ∃ c tail, lexeme = c :: tail := by
  cases h with
  | word => exact ⟨_, _, rfl⟩
  | number h =>
    obtain ⟨c, tail, same, -⟩ := h.exists_head
    exact ⟨c, tail, same⟩
  | sign listed => exact List.exists_cons_of_ne_nil (of_mem_signs _ listed).1

theorem number_head (h : IsNumeral (c :: tail)) : (c.isDigit || c == '.') = true := by
  obtain ⟨first, rest, same, number⟩ := h.exists_head
  cases same
  exact number

theorem of_nameStart (h : Lexeme (c :: tail) token) (first : isNameStart c = true) :
    (∀ d ∈ tail, isNameChar d = true) ∧ token = Lexer.word (String.ofList (c :: tail)) := by
  cases h with
  | word _ inside => exact ⟨inside, rfl⟩
  | number h =>
    rw [not_isNameStart_of_number (number_head h)] at first
    cases first
  | sign listed =>
    rw [((of_mem_signs _ listed).2 c List.mem_cons_self).1] at first
    cases first

theorem of_number (h : Lexeme (c :: tail) token) (first : (c.isDigit || c == '.') = true) :
    IsNumeral (c :: tail) ∧ token = .number (String.ofList (c :: tail)) := by
  cases h with
  | word start =>
    rw [not_isNameStart_of_number first] at start
    cases start
  | number h => exact ⟨h, rfl⟩
  | sign listed =>
    rw [((of_mem_signs _ listed).2 c List.mem_cons_self).2.1] at first
    cases first

theorem of_other (h : Lexeme (c :: tail) token) (noName : isNameStart c = false)
    (noNumber : (c.isDigit || c == '.') = false) : (c :: tail, token) ∈ signs := by
  cases h with
  | word first => exact absurd first (ne_true_of_eq_false noName)
  | number h => exact absurd (number_head h) (ne_true_of_eq_false noNumber)
  | sign listed => exact listed

theorem unique {other : Token} (h : Lexeme lexeme token) (h' : Lexeme lexeme other) :
    token = other := by
  obtain ⟨c, tail, rfl⟩ := h.exists_cons
  by_cases first : isNameStart c = true
  · rw [(h.of_nameStart first).2, (h'.of_nameStart first).2]
  by_cases number : (c.isDigit || c == '.') = true
  · rw [(h.of_number number).2, (h'.of_number number).2]
  have noName := eq_false_of_ne_true first
  have noNumber := eq_false_of_ne_true number
  exact signs_unique _ (h.of_other noName noNumber) _ (h'.of_other noName noNumber) rfl

end Lexeme

/-! ## Lexemes by their tokens -/

/-- A word is neither a number nor a sign of a number. -/
theorem word_cases (text : String) :
    (∀ numeral, word text ≠ .number numeral) ∧ word text ≠ .plus ∧ word text ≠ .minus := by
  unfold word
  split <;> exact ⟨nofun, nofun, nofun⟩

namespace Lexeme

/-- A number is read from a numeral. -/
theorem of_numberToken {text : String} (h : Lexeme lexeme (.number text)) :
    IsNumeral lexeme ∧ text = String.ofList lexeme := by
  generalize same : Token.number text = token at h
  cases h with
  | word => exact ((word_cases _).1 text same.symm).elim
  | number h =>
    cases same
    exact ⟨h, rfl⟩
  | sign listed =>
    have none : ∀ x ∈ signs, ∀ text, Token.number text ≠ x.2 := by simp [signs]
    exact (none _ listed text same).elim

/-- A name is the word that it is read from. -/
theorem of_nameToken {name : String} (h : Lexeme lexeme (.name name)) :
    name = String.ofList lexeme := by
  generalize same : Token.name name = token at h
  cases h with
  | word =>
    unfold Lexer.word at same
    split at same <;> cases same
    rfl
  | number => cases same
  | sign listed =>
    have none : ∀ x ∈ signs, ∀ name, Token.name name ≠ x.2 := by simp [signs]
    exact (none _ listed name same).elim

theorem mem_signs (h : Lexeme lexeme token) (noWord : ∀ text, Lexer.word text ≠ token)
    (noNumber : ∀ text, token ≠ .number text) : (lexeme, token) ∈ signs := by
  cases h with
  | word => exact (noWord _ rfl).elim
  | number => exact (noNumber _ rfl).elim
  | sign listed => exact listed

theorem of_plus (h : Lexeme lexeme .plus) : lexeme = ['+'] := by
  have only : ∀ x ∈ signs, x.2 = .plus → x.1 = ['+'] := by decide
  exact only _ (h.mem_signs (fun text => (word_cases text).2.1) nofun) rfl

theorem of_minus (h : Lexeme lexeme .minus) : lexeme = ['-'] := by
  have only : ∀ x ∈ signs, x.2 = .minus → x.1 = ['-'] := by decide
  exact only _ (h.mem_signs (fun text => (word_cases text).2.2) nofun) rfl

end Lexeme

/-! ## The longest numeral -/

/-- An exponent at the beginning of a text is part of the one that is read there. -/
theorem length_exponent_le {exponent : List Char} (h : IsExponent exponent)
    (initial : exponent <+: cs) : exponent.length ≤ (exponentLexeme cs).length := by
  cases h with
  | absent => exact Nat.zero_le _
  | @present mark sign digits isMark isSign nonempty hdigits =>
    obtain ⟨rest, rfl⟩ := initial
    obtain ⟨c, head, digit⟩ := hdigits.exists_head nonempty
    have first : (digits ++ rest).head? = some c := by simp [head]
    have signed := sign_append isSign first digit
    rw [List.cons_append, List.append_assoc, exponentLexeme, signed.1, signed.2,
      List.takeWhile_append_of_pos hdigits]
    simp [isMark, nonempty]

/-- Digits and an exponent at the beginning of a text are part of those that are read there. -/
theorem length_digits_exponent_le {digits exponent : List Char} (hdigits : Digits digits)
    (h : IsExponent exponent) (initial : digits ++ exponent <+: cs) :
    (digits ++ exponent).length ≤ (cs.takeWhile Char.isDigit ++
      exponentLexeme (cs.dropWhile Char.isDigit)).length := by
  obtain ⟨rest, rfl⟩ := initial
  rw [List.append_assoc]
  match exponent, h with
  | [], _ =>
    rw [List.takeWhile_append_of_pos hdigits]
    simp only [List.length_append, List.length_nil]
    omega
  | mark :: exponent, h =>
    have next : Misses Char.isDigit (mark :: exponent ++ rest) :=
      misses_cons.2 (misses_cons.1 h.misses_digit)
    rw [takeWhile_append_of_misses hdigits next, dropWhile_append_of_misses hdigits next,
      List.length_append, List.length_append]
    exact Nat.add_le_add_left (length_exponent_le h (List.prefix_append _ _)) _

/-! ## Points without digits -/

theorem pointAlone_iff : PointAlone whole cs ↔ cs.takeWhile Char.isDigit = whole ∧
    ∃ rest, cs.dropWhile Char.isDigit = '.' :: rest ∧ rest.takeWhile Char.isDigit = [] := by
  constructor
  · rintro ⟨hwhole, next⟩
    refine ⟨takeWhile_append_of_misses hwhole (misses_cons.2 rfl), _,
      dropWhile_append_of_misses hwhole (misses_cons.2 rfl), ?_⟩
    exact takeWhile_append_of_misses (List.forall_mem_nil _) next
  · rintro ⟨rfl, rest, point, none⟩
    have next : Misses Char.isDigit rest := by
      cases rest with
      | nil => exact misses_nil
      | cons d rest =>
        refine misses_cons.2 (eq_false_of_ne_true fun digit => ?_)
        rw [List.takeWhile_cons_of_pos digit] at none
        cases none
    have h := PointAlone.intro (digits_takeWhile cs) next
    rwa [← point, takeDigits_append] at h

/-- Digits and points begin no word and no sign. -/
theorem PointAlone.number_head (h : PointAlone whole (c :: cs)) :
    (c.isDigit || c == '.') = true := by
  generalize text : c :: cs = all at h
  obtain ⟨hwhole, -⟩ := h
  cases whole with
  | nil =>
    cases text
    rfl
  | cons d whole =>
    cases text
    rw [hwhole c List.mem_cons_self, Bool.true_or]

theorem numberLexeme_error_iff {offset : Nat} : numberLexeme cs = .error offset ↔
    ∃ whole, PointAlone whole cs ∧ offset = whole.length := by
  simp only [pointAlone_iff]
  rw [numberLexeme]
  constructor
  · intro h
    split at h
    · next rest point =>
      dsimp only at h
      split at h
      · next none =>
        cases h
        exact ⟨_, ⟨rfl, rest, point, List.isEmpty_iff.1 none⟩, rfl⟩
      · cases h
    · cases h
  · rintro ⟨_, ⟨rfl, rest, point, none⟩, rfl⟩
    rw [point]
    exact if_pos (List.isEmpty_iff.2 none)

/-- What is read as a number is as long as any numeral at the beginning of the text. -/
theorem length_numeral_le {numeral : List Char} (h : IsNumeral numeral) (initial : numeral <+: cs)
    (read : numberLexeme cs = .ok lexeme) : numeral.length ≤ lexeme.length := by
  obtain ⟨more, rfl⟩ := initial
  rw [numberLexeme] at read
  split at read
  · next rest point =>
    dsimp only at read
    split at read <;> cases read
    cases h with
    | @integer whole exponent nonempty hwhole hexponent =>
      have le := length_digits_exponent_le hwhole hexponent (List.prefix_append _ more)
      have none : exponentLexeme ('.' :: rest) = [] := rfl
      simp only [point, none, List.length_append, List.length_nil] at le ⊢
      omega
    | @fraction whole places exponent hwhole nonempty hplaces hexponent =>
      rw [List.append_assoc, List.cons_append] at point ⊢
      rw [dropWhile_append_of_misses hwhole (misses_cons.2 rfl)] at point
      obtain rfl := (List.cons.inj point).2
      have le := length_digits_exponent_le hplaces hexponent (List.prefix_append _ more)
      rw [takeWhile_append_of_misses hwhole (misses_cons.2 rfl)]
      simp only [List.length_append, List.length_cons] at le ⊢
      omega
  · next noPoint =>
    cases read
    cases h with
    | integer nonempty hwhole hexponent =>
      exact length_digits_exponent_le hwhole hexponent (List.prefix_append _ _)
    | fraction hwhole =>
      rw [List.append_assoc, List.cons_append] at noPoint
      exact (noPoint _ (dropWhile_append_of_misses hwhole (misses_cons.2 rfl))).elim

/-! ## What is read -/

theorem prefix_takeWhile {p : Char → Bool} {front : List Char} (inside : ∀ c ∈ front, p c = true)
    (initial : front <+: cs) : front <+: cs.takeWhile p := by
  obtain ⟨rest, rfl⟩ := initial
  rw [List.takeWhile_append_of_pos inside]
  exact List.prefix_append _ _

theorem reads_word (first : isNameStart c = true) : Reads c cs (.ok
    (word (String.ofList (c :: cs.takeWhile isNameChar)), (cs.takeWhile isNameChar).length)) := by
  refine .token (fun whole h => ?_) ⟨?_, ?_, ?_⟩ rfl
  · rw [not_isNameStart_of_number h.number_head] at first
    cases first
  · exact .word first fun _ hd => List.mem_takeWhile_imp hd
  · exact (List.prefix_cons_inj c).2 (List.takeWhile_prefix _)
  · intro other t h initial
    obtain ⟨d, tail, rfl⟩ := h.exists_cons
    obtain ⟨rfl, within⟩ := List.cons_prefix_cons.1 initial
    have le := (prefix_takeWhile (h.of_nameStart first).1 within).length_le
    exact Nat.succ_le_succ le

theorem reads_number (number : (c.isDigit || c == '.') = true) : Reads c cs
    (match numberLexeme (c :: cs) with
      | .ok lexeme => .ok (.number (String.ofList lexeme), lexeme.length - 1)
      | .error offset => .error ⟨.pointWithoutDigits, offset⟩) := by
  cases read : numberLexeme (c :: cs) with
  | error offset =>
    obtain ⟨whole, h, rfl⟩ := numberLexeme_error_iff.1 read
    exact .point h
  | ok lexeme =>
    obtain ⟨numeral, initial⟩ := numberLexeme_sound number read
    obtain ⟨d, tail, rfl, -⟩ := numeral.exists_head
    obtain ⟨rfl, -⟩ := List.cons_prefix_cons.1 initial
    refine .token (fun whole h => ?_) ⟨.number numeral, initial, fun other t h within => ?_⟩ rfl
    · rw [numberLexeme_error_iff.2 ⟨whole, h, rfl⟩] at read
      cases read
    · obtain ⟨d, tail, rfl⟩ := h.exists_cons
      obtain ⟨rfl, -⟩ := List.cons_prefix_cons.1 within
      exact length_numeral_le (h.of_number number).1 within read

theorem reads_sign (noName : isNameStart c = false) (noNumber : (c.isDigit || c == '.') = false) :
    Reads c cs (match sign? c cs.head? with
      | some token => .ok token
      | none => .error ⟨.unexpectedCharacter c, 0⟩) := by
  have noPoint (whole) : ¬PointAlone whole (c :: cs) := fun h =>
    ne_true_of_eq_false noNumber h.number_head
  cases read : sign? c cs.head? with
  | none =>
    refine .nothing noPoint fun lexeme token h initial => ?_
    obtain ⟨d, tail, rfl⟩ := h.exists_cons
    obtain ⟨rfl, -⟩ := List.cons_prefix_cons.1 initial
    obtain ⟨_, _, found, -⟩ := sign?_of_initial (h.of_other noName noNumber) initial
    rw [read] at found
    cases found
  | some found =>
    obtain ⟨token, more⟩ := found
    have longest (other t) (h : Lexeme other t) (initial : other <+: c :: cs) :
        other.length ≤ more + 1 := by
      obtain ⟨d, tail, rfl⟩ := h.exists_cons
      obtain ⟨rfl, -⟩ := List.cons_prefix_cons.1 initial
      obtain ⟨_, _, found, le⟩ := sign?_of_initial (h.of_other noName noNumber) initial
      rw [read] at found
      cases found
      exact le
    rcases sign?_sound read with ⟨rfl, listed⟩ | ⟨rfl, d, next, listed⟩
    · exact .token noPoint ⟨.sign listed, by simp, longest⟩ rfl
    · obtain ⟨cs, rfl⟩ := List.head?_eq_some_iff.1 next
      exact .token noPoint ⟨.sign listed, by simp, longest⟩ rfl

theorem reads_readToken (c : Char) (cs : List Char) : Reads c cs (readToken c cs) := by
  unfold readToken
  split
  · next first => exact reads_word first
  · next noName =>
    split
    · next number => exact reads_number number
    · next noNumber =>
      exact reads_sign (eq_false_of_ne_true noName) (eq_false_of_ne_true noNumber)

theorem Longest.unique {other : List Char} {otherToken : Token} (h : Longest cs lexeme token)
    (h' : Longest cs other otherToken) : lexeme = other ∧ token = otherToken := by
  have length := Nat.le_antisymm (h'.longest _ _ h.isLexeme h.initial)
    (h.longest _ _ h'.isLexeme h'.initial)
  obtain rfl := (List.prefix_of_prefix_length_le h.initial h'.initial length.le).eq_of_length length
  exact ⟨rfl, h.isLexeme.unique h'.isLexeme⟩

/-- The longest lexeme is read where digits and a point that no digit follows do not stand. -/
theorem readToken_ok_iff : readToken c cs = .ok (token, more) ↔
    (∀ whole, ¬PointAlone whole (c :: cs)) ∧
      ∃ tail, Longest (c :: cs) (c :: tail) token ∧ tail.length = more := by
  have reads := reads_readToken c cs
  constructor
  · intro h
    rw [h] at reads
    cases reads with
    | token noPoint h length => exact ⟨noPoint, _, h, length⟩
  · rintro ⟨noPoint, tail, h, rfl⟩
    generalize readToken c cs = result at reads
    cases reads with
    | point h => exact (noPoint _ h).elim
    | nothing _ none => exact (none _ _ h.isLexeme h.initial).elim
    | token _ h' length =>
      obtain ⟨same, rfl⟩ := h.unique h'
      cases same
      rw [length]

theorem exists_of_readToken (h : readToken c cs = .ok (token, more)) :
    ∃ tail rest, cs = tail ++ rest ∧ tail.length = more ∧ Longest (c :: cs) (c :: tail) token := by
  obtain ⟨-, tail, h, length⟩ := readToken_ok_iff.1 h
  obtain ⟨rest, rfl⟩ := (List.prefix_cons_inj c).1 h.initial
  exact ⟨tail, rest, rfl, length, h⟩

/-! ## What comes after a token -/

theorem blankNext_nil : BlankNext [] := nofun

/-- Up to its first blank, one text is the beginning of the other. -/
def Cut (rest' rest : List Char) : Prop := rest'.takeWhile (!isBlank ·) <+: rest

theorem Cut.of_initial (h : rest' <+: rest) : Cut rest' rest :=
  (List.takeWhile_prefix _).trans h

theorem Cut.of_blankNext (h : BlankNext rest') : Cut rest' rest := by
  have none : rest'.takeWhile (!isBlank ·) = [] :=
    takeWhile_append_of_misses (List.forall_mem_nil _) fun c head => by rw [h c head, Bool.not_true]
  rw [Cut, none]
  exact List.nil_prefix

/-- What has no blanks and stands before or across the cut stands also in the other text. -/
theorem Cut.initial {x : List Char} (cut : Cut rest' rest) (front : List Char)
    (solid : ∀ c ∈ x, isBlank c = false) (h : x <+: front ++ rest') : x <+: front ++ rest := by
  rcases List.prefix_or_prefix_of_prefix h (List.prefix_append front rest') with short | ⟨y, rfl⟩
  · exact short.trans (List.prefix_append front rest)
  · rw [List.prefix_append_right_inj] at h ⊢
    refine (prefix_takeWhile (fun c hc => ?_) h).trans cut
    rw [solid c (List.mem_append_right front hc), Bool.not_false]

/-- Where a point before a cut begins a fraction, it does so after the cut. -/
theorem Cut.not_pointAlone (cut : Cut rest' rest) (front : List Char)
    (longest : ∀ other t, Lexeme other t → other <+: front ++ rest → other.length ≤ front.length)
    (noPoint : ¬PointAlone whole (front ++ rest)) : ¬PointAlone whole (front ++ rest') := by
  intro alone
  generalize text : front ++ rest' = cs at alone
  obtain @⟨after, hwhole, next⟩ := alone
  have mark : whole ++ ['.'] <+: front ++ rest := by
    refine cut.initial front (fun d hd => ?_) ⟨after, by rw [text, List.append_assoc]; rfl⟩
    rcases List.mem_append.1 hd with digit | point
    · exact isBlank_of_isDigit (hwhole d digit)
    · cases List.mem_singleton.1 point
      rfl
  obtain ⟨after', text'⟩ := mark
  rw [List.append_assoc, List.singleton_append] at text'
  rw [← text'] at noPoint
  cases after' with
  | nil => exact noPoint (.intro hwhole misses_nil)
  | cons d after' =>
    by_cases digit : d.isDigit = true
    · have initial : whole ++ '.' :: ([d] ++ []) <+: front ++ rest :=
        ⟨after', by rw [← text', List.append_assoc]; rfl⟩
      have numeral : IsNumeral (whole ++ '.' :: ([d] ++ [])) :=
        .fraction hwhole (List.cons_ne_nil _ _) (List.forall_mem_singleton.2 digit) .absent
      have within := List.prefix_of_prefix_length_le initial (List.prefix_append front rest)
        (longest _ _ (.number numeral) initial)
      have same := text ▸ within.trans (List.prefix_append front rest')
      obtain ⟨more, rfl⟩ := (List.prefix_cons_inj _).1 ((List.prefix_append_right_inj _).1 same)
      exact absurd digit (ne_true_of_eq_false (misses_cons.1 next))
    · exact noPoint (.intro hwhole (misses_cons.2 (eq_false_of_ne_true digit)))

/-- A token is read from its lexeme whatever comes after the next blank. -/
theorem readToken_of_cut (cut : Cut rest' rest)
    (h : readToken c (tail ++ rest) = .ok (token, tail.length)) :
    readToken c (tail ++ rest') = .ok (token, tail.length) := by
  obtain ⟨noPoint, tail', h, length⟩ := readToken_ok_iff.1 h
  obtain rfl : tail' = tail := (List.prefix_of_prefix_length_le
    ((List.prefix_cons_inj c).1 h.initial) (List.prefix_append _ _) length.le).eq_of_length length
  refine readToken_ok_iff.2 ⟨fun whole => ?_, tail',
    ⟨h.isLexeme, List.prefix_append (c :: tail') rest', fun other t lexeme initial => ?_⟩, rfl⟩
  · exact cut.not_pointAlone (c :: tail') h.longest (noPoint whole)
  · have blank (d) (hd : d ∈ other) : isBlank d = false := (lexeme.solid d hd).1
    exact h.longest other t lexeme (cut.initial (c :: tail') blank initial)

/-- Tokens that follow a token behind a cut follow it also in the other text. -/
theorem Spells.token_of_cut {pos : Nat} {ts : List PlacedToken} (nonblank : isBlank c = false)
    (read : readToken c (tail ++ rest) = .ok (token, tail.length)) (cut : Cut rest' rest)
    (h : Spells (pos + 1 + tail.length) rest' ts) :
    Spells pos (c :: (tail ++ rest')) (⟨token, pos, pos + 1 + tail.length⟩ :: ts) := by
  refine .token nonblank (readToken_of_cut cut read) ?_
  rwa [List.drop_left]

/-! ## A lexeme by itself -/

theorem Lexeme.not_pointAlone (h : Lexeme lexeme token) : ¬PointAlone whole lexeme := by
  intro alone
  obtain ⟨c, tail, rfl⟩ := h.exists_cons
  obtain ⟨numeral, -⟩ := h.of_number alone.number_head
  have read := numberLexeme_append numeral blankNext_nil
  rw [List.append_nil, numberLexeme_error_iff.2 ⟨whole, alone, rfl⟩] at read
  cases read

/-- Before a blank, or at the end, a lexeme is read as a whole. -/
theorem Lexeme.readToken (h : Lexeme (c :: tail) token) (blank : BlankNext rest) :
    readToken c (tail ++ rest) = .ok (token, tail.length) := by
  have alone : Lexer.readToken c (tail ++ []) = .ok (token, tail.length) := by
    rw [List.append_nil]
    exact readToken_ok_iff.2 ⟨fun whole => h.not_pointAlone, tail,
      ⟨h, List.prefix_rfl, fun other t _ initial => initial.length_le⟩, rfl⟩
  exact readToken_of_cut (.of_blankNext blank) alone

end EquationSystem.Lexer
