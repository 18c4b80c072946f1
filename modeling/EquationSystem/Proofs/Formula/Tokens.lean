import EquationSystem.Proofs.Formula.Numerals

/-!
# The tokens of a text

`Spells pos cs ts` says that the text, which begins at `pos`, has the tokens: blanks are left out,
and every token is read where the one before it ends or where the blanks after that end. It is what
`Lexer.tokenize` computes, and it is opened from both ends: by the text, and by the tokens.
-/

namespace EquationSystem.Lexer

/-- The tokens of a text that begins at a place, without a place where none can be read. -/
inductive Spells : Nat → List Char → List PlacedToken → Prop
  | nil {pos : Nat} : Spells pos [] []
  | skip {pos : Nat} {c : Char} {cs : List Char} {ts : List PlacedToken}
      (blank : isBlank c = true) (h : Spells (pos + 1) cs ts) : Spells pos (c :: cs) ts
  | token {pos more : Nat} {c : Char} {cs : List Char} {token : Token} {ts : List PlacedToken}
      (nonblank : isBlank c = false) (read : readToken c cs = .ok (token, more))
      (h : Spells (pos + 1 + more) (cs.drop more) ts) :
      Spells pos (c :: cs) (⟨token, pos, pos + 1 + more⟩ :: ts)

variable {pos more : Nat} {c : Char} {cs front rest : List Char} {t : PlacedToken}
  {done tokens ts : List PlacedToken}

theorem tokenizeFrom_sound (h : tokenizeFrom done pos cs = .ok tokens) :
    ∃ ts, tokens = done.reverse ++ ts ∧ Spells pos cs ts := by
  fun_induction tokenizeFrom done pos cs with
  | case1 =>
    cases h
    exact ⟨[], (List.append_nil _).symm, .nil⟩
  | case2 done pos c cs blank ih =>
    obtain ⟨ts, split, spells⟩ := ih h
    exact ⟨ts, split, .skip blank spells⟩
  | case3 => cases h
  | case4 done pos c cs nonblank token more read stop ih =>
    obtain ⟨ts, split, spells⟩ := ih h
    refine ⟨⟨token, pos, stop⟩ :: ts, ?_, .token (eq_false_of_ne_true nonblank) read spells⟩
    rw [split, List.reverse_cons, List.append_assoc, List.singleton_append]

theorem Spells.tokenizeFrom (h : Spells pos cs ts) (done : List PlacedToken) :
    tokenizeFrom done pos cs = .ok (done.reverse ++ ts) := by
  induction h generalizing done with
  | nil => rw [Lexer.tokenizeFrom, List.append_nil]
  | skip blank h ih => rw [Lexer.tokenizeFrom, if_pos blank, ih]
  | token nonblank read h ih =>
    rw [Lexer.tokenizeFrom, if_neg (ne_true_of_eq_false nonblank), read]
    dsimp only
    rw [ih, List.reverse_cons, List.append_assoc, List.singleton_append]

theorem tokenize_ok_iff {text : String} : tokenize text = .ok ts ↔ Spells 0 text.toList ts := by
  constructor
  · intro h
    obtain ⟨ts, rfl, spells⟩ := tokenizeFrom_sound h
    exact spells
  · intro h
    exact h.tokenizeFrom []

namespace Spells

theorem of_blank (blank : ∀ c ∈ cs, isBlank c = true) : Spells pos cs [] := by
  induction cs generalizing pos with
  | nil => exact .nil
  | cons c cs ih =>
    rw [List.forall_mem_cons] at blank
    exact .skip blank.1 (ih blank.2)

theorem after_blank (blank : ∀ c ∈ front, isBlank c = true)
    (h : Spells (pos + front.length) cs ts) : Spells pos (front ++ cs) ts := by
  induction front generalizing pos with
  | nil => exact h
  | cons c front ih =>
    rw [List.forall_mem_cons] at blank
    refine .skip blank.1 (ih blank.2 ?_)
    rwa [List.length_cons, Nat.add_comm front.length, ← Nat.add_assoc] at h

/-- A token of one character. -/
theorem single {token : Token} (nonblank : isBlank c = false)
    (read : readToken c cs = .ok (token, 0)) (h : Spells (pos + 1) cs ts) :
    Spells pos (c :: cs) (⟨token, pos, pos + 1⟩ :: ts) :=
  .token nonblank read h

theorem blank_of_nil (h : Spells pos cs []) : ∀ c ∈ cs, isBlank c = true := by
  generalize none : ([] : List PlacedToken) = ts at h
  induction h with
  | nil => exact List.forall_mem_nil _
  | skip blank h ih => exact List.forall_mem_cons.2 ⟨blank, ih none⟩
  | token => cases none

/-- The first token, the blanks before it, and what is after it. -/
theorem exists_first (h : Spells pos cs (t :: ts)) : ∃ front c rest more,
    cs = front ++ c :: rest ∧ (∀ b ∈ front, isBlank b = true) ∧
    readToken c rest = .ok (t.token, more) ∧ t.start = pos + front.length ∧
    t.stop = t.start + 1 + more ∧ Spells t.stop (rest.drop more) ts := by
  generalize some : t :: ts = tokens at h
  induction h with
  | nil => cases some
  | @skip pos c cs tokens blank h ih =>
    obtain ⟨front, first, rest, more, rfl, blanks, read, start, stop, spells⟩ := ih some
    refine ⟨c :: front, first, rest, more, rfl, List.forall_mem_cons.2 ⟨blank, blanks⟩, read, ?_,
      stop, spells⟩
    rw [start, List.length_cons]
    omega
  | @token pos more c cs token tokens nonblank read h =>
    cases some
    exact ⟨[], c, cs, more, rfl, List.forall_mem_nil _, read, rfl, rfl, h⟩

end Spells

/-! ## First characters -/

theorem not_isNameStart_of_number (first : (c.isDigit || c == '.') = true) :
    isNameStart c = false := by
  rw [Bool.or_eq_true, beq_iff_eq] at first
  rcases first with digit | rfl
  · exact isNameStart_of_isDigit digit
  · rfl

end EquationSystem.Lexer
