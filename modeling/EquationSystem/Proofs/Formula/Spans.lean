import EquationSystem.Proofs.Formula.Lexicon
import Mathlib.Data.List.Forall2

/-!
# The places of tokens

Every text has tokens that cover all of it but blanks, each of which can be read from its span
alone (`Covers`), or a first place where no token can be read (`Stops`). All places are offsets of
characters: the text is split there as a string, not as bytes.
-/

namespace EquationSystem.Lexer

/-- All of the text is one token. -/
def Alone (lexeme : String) (token : Token) : Prop :=
  tokenize lexeme = .ok [⟨token, 0, lexeme.utf8ByteSize⟩]

/-- The token has its places around this part of the text. -/
def Spans (text lexeme : String) (t : PlacedToken) : Prop :=
  ∃ front back, text = front ++ lexeme ++ back ∧ t.start = front.utf8ByteSize ∧
    t.stop = (front ++ lexeme).utf8ByteSize

/-- What the tokens of a text are to the text. -/
structure Covers (text : String) (ts : List PlacedToken) : Prop where
  nonempty : ∀ t ∈ ts, t.start < t.stop
  ordered : ts.Pairwise (·.stop ≤ ·.start)
  /-- At every byte outside of the tokens stands a blank. -/
  blank : ∀ i < text.utf8ByteSize, (∀ t ∈ ts, ¬(t.start ≤ i ∧ i < t.stop)) →
    ∃ front c back, text = front ++ String.singleton c ++ back ∧ i = front.utf8ByteSize ∧
      isBlank c = true
  /-- The spans by themselves, and joined by spaces, have the same tokens. -/
  lexemes : ∃ lexemes, List.Forall₂ (Spans text) lexemes ts ∧
    List.Forall₂ (fun lexeme t => Alone lexeme t.token) lexemes ts ∧
    ∃ again, tokenize (" ".intercalate lexemes) = .ok again ∧
      again.map (·.token) = ts.map (·.token)

/-- Before the rest of the text stands a character with which no token can go on. -/
inductive NoToken : Char → String → SyntaxError.Cause → Prop
  | point {rest : String} (next : Misses Char.isDigit rest.toList) :
      NoToken '.' rest .pointWithoutDigits
  | character {c : Char} {rest : String} (nonblank : isBlank c = false)
      (none : ∀ lexeme token, Alone lexeme token → ¬lexeme.toList <+: c :: rest.toList) :
      NoToken c rest (.unexpectedCharacter c)

/-- The error is at the first place where no token can be read. -/
def Stops (text : String) (e : SyntaxError) : Prop :=
  ∃ front c rest, text = front ++ String.singleton c ++ rest ∧ e.position = front.utf8ByteSize ∧
    (∃ ts, tokenize front = .ok ts) ∧ NoToken c rest e.cause

variable {c : Char} {cs lexeme : List Char} {token : Token} {pos : Nat} {t : PlacedToken}
  {ts : List PlacedToken}

/-! ## Bytes -/

theorem byteSize_ofList (h : ∀ c ∈ cs, c.utf8Size = 1) :
    (String.ofList cs).utf8ByteSize = cs.length := by
  induction cs with
  | nil => rfl
  | cons c cs ih =>
    rw [List.forall_mem_cons] at h
    rw [String.ofList_cons, String.utf8ByteSize_append, String.utf8ByteSize_singleton, h.1, ih h.2,
      List.length_cons, Nat.add_comm]

theorem oneByte_of_isBlank (h : isBlank c = true) : c.utf8Size = 1 := by
  simp only [isBlank, Bool.or_eq_true, beq_iff_eq] at h
  rcases h with (((rfl | rfl) | rfl) | rfl) | rfl <;> rfl

/-! ## Lexemes of a text -/

theorem Lexeme.spells (h : Lexeme lexeme token) {rest : List Char} (blank : BlankNext rest)
    (hrest : Spells (pos + lexeme.length) rest ts) :
    Spells pos (lexeme ++ rest) (⟨token, pos, pos + lexeme.length⟩ :: ts) := by
  obtain ⟨c, tail, rfl⟩ := h.exists_cons
  have next : pos + (c :: tail).length = pos + 1 + tail.length := by
    rw [List.length_cons]
    omega
  rw [next] at hrest ⊢
  exact hrest.token_of_cut (h.solid c List.mem_cons_self).1 (h.readToken blank)
    (.of_initial List.prefix_rfl)

theorem Lexeme.spells_alone (h : Lexeme lexeme token) :
    Spells pos lexeme [⟨token, pos, pos + lexeme.length⟩] := by
  have spells := h.spells blankNext_nil (.nil : Spells (pos + lexeme.length) [] [])
  rwa [List.append_nil] at spells

namespace Spells

theorem oneByte (h : Spells pos cs ts) : ∀ c ∈ cs, c.utf8Size = 1 := by
  induction h with
  | nil => exact List.forall_mem_nil _
  | skip blank h ih => exact List.forall_mem_cons.2 ⟨oneByte_of_isBlank blank, ih⟩
  | token nonblank read h ih =>
    obtain ⟨tail, rest, rfl, rfl, longest⟩ := exists_of_readToken read
    rw [List.drop_left] at ih
    rw [← List.cons_append, List.forall_mem_append]
    exact ⟨fun d hd => (longest.isLexeme.solid d hd).2, ih⟩

theorem start_le (h : Spells pos cs ts) : ∀ t ∈ ts, pos ≤ t.start ∧ t.start < t.stop := by
  induction h with
  | nil => exact List.forall_mem_nil _
  | skip blank h ih => exact fun t ht => ⟨Nat.le_of_succ_le (ih t ht).1, (ih t ht).2⟩
  | token nonblank read h ih =>
    refine List.forall_mem_cons.2 ⟨⟨Nat.le_refl _, by dsimp only; omega⟩, fun t ht => ?_⟩
    exact ⟨Nat.le_trans (by omega) (ih t ht).1, (ih t ht).2⟩

theorem ordered (h : Spells pos cs ts) : ts.Pairwise (·.stop ≤ ·.start) := by
  induction h with
  | nil => exact .nil
  | skip blank h ih => exact ih
  | token nonblank read h ih => exact .cons (fun t ht => (h.start_le t ht).1) ih

/-- What is not part of a token is blank. -/
theorem blank_of_outside (h : Spells pos cs ts) {i : Nat} (at? : cs[i]? = some c)
    (outside : ∀ t ∈ ts, ¬(t.start ≤ pos + i ∧ pos + i < t.stop)) : isBlank c = true := by
  induction h generalizing i with
  | nil => cases at?
  | skip blank h ih =>
    cases i with
    | zero =>
      cases at?
      exact blank
    | succ i =>
      refine ih at? fun t ht => ?_
      rw [Nat.add_right_comm]
      exact outside t ht
  | @token pos more first cs token ts nonblank read h ih =>
    rw [List.forall_mem_cons] at outside
    have after : 1 + more ≤ i := by
      have := outside.1
      dsimp only at this
      omega
    obtain ⟨j, rfl⟩ := Nat.exists_eq_add_of_le after
    refine ih (i := j) ?_ fun t ht => ?_
    · rw [List.getElem?_drop]
      rwa [Nat.add_assoc, Nat.add_comm 1, List.getElem?_cons_succ] at at?
    · rw [Nat.add_assoc pos, Nat.add_assoc pos]
      exact outside.2 t ht

/-- The lexemes of the tokens with their places. -/
theorem exists_lexemes (h : Spells pos cs ts) : ∃ lexemes,
    List.Forall₂ (fun lexeme t => Lexeme lexeme t.token) lexemes ts ∧
    List.Forall₂ (fun lexeme t => ∃ front back, cs = front ++ lexeme ++ back ∧
      t.start = pos + front.length ∧ t.stop = t.start + lexeme.length) lexemes ts := by
  induction h with
  | nil => exact ⟨[], .nil, .nil⟩
  | @skip pos c cs ts blank h ih =>
    obtain ⟨lexemes, lexeme, places⟩ := ih
    refine ⟨lexemes, lexeme, places.imp ?_⟩
    rintro lexeme t ⟨front, back, rfl, start, stop⟩
    exact ⟨c :: front, back, rfl, by rw [start, List.length_cons]; omega, stop⟩
  | @token pos more c cs token ts nonblank read h ih =>
    obtain ⟨tail, rest, rfl, rfl, longest⟩ := exists_of_readToken read
    obtain ⟨lexemes, lexeme, places⟩ := ih
    rw [List.drop_left] at places
    refine ⟨(c :: tail) :: lexemes, .cons longest.isLexeme lexeme, .cons ?_ (places.imp ?_)⟩
    · exact ⟨[], rest, rfl, rfl, by simp; omega⟩
    · rintro lexeme t ⟨front, back, rfl, start, stop⟩
      exact ⟨c :: tail ++ front, back, by simp, by rw [start]; simp; omega, stop⟩

end Spells

/-- Lexemes that are separated by spaces are the lexemes of the text. -/
theorem spells_intercalate {lexemes : List (List Char)} {tokens : List Token}
    (h : List.Forall₂ Lexeme lexemes tokens) (pos : Nat) :
    ∃ ts, Spells pos ([' '].intercalate lexemes) ts ∧ ts.map (·.token) = tokens := by
  induction h generalizing pos with
  | nil => exact ⟨[], .nil, rfl⟩
  | @cons lexeme token lexemes tokens first h ih =>
    cases h with
    | nil =>
      refine ⟨[⟨token, pos, pos + lexeme.length⟩], ?_, rfl⟩
      rw [List.intercalate_singleton]
      exact first.spells_alone
    | cons second h =>
      obtain ⟨ts, spells, same⟩ := ih (pos + lexeme.length + 1)
      refine ⟨⟨token, pos, pos + lexeme.length⟩ :: ts, ?_, by rw [List.map_cons, same]⟩
      rw [List.intercalate_cons_cons, List.append_assoc]
      refine first.spells (fun c head => ?_) (.skip rfl spells)
      cases head
      rfl

theorem alone_iff {lexeme : String} : Alone lexeme token ↔ Lexeme lexeme.toList token := by
  rw [Alone, tokenize_ok_iff]
  have size (h : ∀ c ∈ lexeme.toList, c.utf8Size = 1) :
      lexeme.utf8ByteSize = lexeme.toList.length := by
    rw [← byteSize_ofList h, String.ofList_toList]
  constructor
  · intro h
    have length := size h.oneByte
    generalize lexeme.toList = cs at h length
    obtain ⟨front, c, rest, more, rfl, -, read, start, stop, -⟩ := h.exists_first
    obtain ⟨tail, rest, rfl, rfl, longest⟩ := exists_of_readToken read
    dsimp only at start stop
    rw [List.length_append, List.length_cons, List.length_append] at length
    obtain rfl : front = [] := List.length_eq_zero_iff.1 (by omega)
    obtain rfl : rest = [] := List.length_eq_zero_iff.1 (by simp at length; omega)
    rw [List.append_nil]
    exact longest.isLexeme
  · intro h
    have length := size fun c hc => (h.solid c hc).2
    have spells : Spells 0 lexeme.toList [⟨token, 0, 0 + lexeme.toList.length⟩] := h.spells_alone
    rwa [Nat.zero_add, ← length] at spells

/-! ## Where no token can be read -/

/-- The digits before a point that belongs to no number are a number. -/
theorem PointAlone.spells {whole : List Char} (h : PointAlone whole cs) (pos : Nat) :
    ∃ rest ts, cs = whole ++ '.' :: rest ∧ Spells pos whole ts ∧ Misses Char.isDigit rest := by
  obtain @⟨rest, hwhole, next⟩ := h
  cases whole with
  | nil => exact ⟨rest, [], rfl, .nil, next⟩
  | cons c whole =>
    have numeral : IsNumeral (c :: whole) := by
      simpa using IsNumeral.integer (List.cons_ne_nil c whole) hwhole .absent
    exact ⟨rest, _, rfl, (Lexeme.number numeral).spells_alone, next⟩

/-- The characters before a place where no token can be read form tokens. -/
theorem exists_of_tokenizeFrom_error {done : List PlacedToken} {e : SyntaxError}
    (h : tokenizeFrom done pos cs = .error e) : ∃ front c rest ts, cs = front ++ c :: rest ∧
      e.position = pos + front.length ∧ Spells pos front ts ∧
      NoToken c (String.ofList rest) e.cause := by
  fun_induction tokenizeFrom done pos cs with
  | case1 => cases h
  | case2 done pos c cs blank ih =>
    obtain ⟨front, d, rest, ts, rfl, position, spells, none⟩ := ih h
    refine ⟨c :: front, d, rest, ts, rfl, ?_, .skip blank spells, none⟩
    rw [position, List.length_cons]
    omega
  | case3 done pos c cs nonblank e' read =>
    cases h
    have reads := reads_readToken c cs
    rw [read] at reads
    cases reads with
    | point alone =>
      obtain ⟨rest, ts, split, spells, next⟩ := alone.spells pos
      refine ⟨_, '.', rest, ts, split, rfl, spells, .point ?_⟩
      rwa [String.toList_ofList]
    | nothing _ none =>
      refine ⟨[], c, cs, [], rfl, rfl, .nil,
        .character (eq_false_of_ne_true nonblank) fun lexeme token alone initial => ?_⟩
      rw [String.toList_ofList] at initial
      exact none _ _ (alone_iff.1 alone) initial
  | case4 done pos c cs nonblank token more read stop ih =>
    obtain ⟨tail, after, rfl, rfl, longest⟩ := exists_of_readToken read
    rw [List.drop_left] at ih h
    obtain ⟨front, d, rest, ts, rfl, position, spells, none⟩ := ih h
    have cut : Cut front (front ++ d :: rest) := .of_initial (List.prefix_append _ _)
    refine ⟨c :: (tail ++ front), d, rest, _, by simp, ?_,
      spells.token_of_cut (eq_false_of_ne_true nonblank) read cut, none⟩
    rw [position, List.length_cons, List.length_append]
    omega

/-! ## All texts -/

theorem eq_append_of_toList {text : String} {front middle back : List Char}
    (h : text.toList = front ++ middle ++ back) :
    text = String.ofList front ++ String.ofList middle ++ String.ofList back := by
  rw [← String.ofList_append, ← String.ofList_append, ← h, String.ofList_toList]

theorem covers_of_ok {text : String} (h : tokenize text = .ok ts) : Covers text ts := by
  have spells := tokenize_ok_iff.1 h
  have oneByte := spells.oneByte
  have bytes {front back : List Char} (split : text.toList = front ++ back) :
      (String.ofList front).utf8ByteSize = front.length :=
    byteSize_ofList fun c hc => oneByte c (split ▸ List.mem_append_left back hc)
  refine ⟨fun t ht => (spells.start_le t ht).2, spells.ordered, fun i lt outside => ?_, ?_⟩
  · have length : text.utf8ByteSize = text.toList.length := by
      rw [← byteSize_ofList oneByte, String.ofList_toList]
    rw [length] at lt
    have split :
        text.toList = text.toList.take i ++ [text.toList[i]] ++ text.toList.drop (i + 1) := by
      rw [List.append_assoc, List.singleton_append, List.getElem_cons_drop, List.take_append_drop]
    refine ⟨_, text.toList[i], _, eq_append_of_toList split, ?_, ?_⟩
    · rw [bytes (List.append_assoc .. ▸ split), List.length_take, Nat.min_eq_left (Nat.le_of_lt lt)]
    · refine spells.blank_of_outside (List.getElem?_eq_getElem lt) fun t ht => ?_
      rw [Nat.zero_add]
      exact outside t ht
  · obtain ⟨lexemes, lexeme, places⟩ := spells.exists_lexemes
    refine ⟨lexemes.map String.ofList, ?_, ?_, ?_⟩
    · refine List.forall₂_map_left_iff.2 (places.imp fun lexeme t => ?_)
      rintro ⟨front, back, split, start, stop⟩
      refine ⟨_, _, eq_append_of_toList split, ?_, ?_⟩
      · rw [start, bytes (List.append_assoc .. ▸ split), Nat.zero_add]
      · rw [← String.ofList_append, bytes split, stop, start, List.length_append, Nat.zero_add]
    · refine List.forall₂_map_left_iff.2 (lexeme.imp fun lexeme t h => ?_)
      rw [alone_iff, String.toList_ofList]
      exact h
    · obtain ⟨again, respelled, same⟩ :=
        spells_intercalate (List.forall₂_map_right_iff.2 lexeme) 0
      refine ⟨again, tokenize_ok_iff.2 ?_, same⟩
      rw [String.toList_intercalate, List.map_map]
      simpa using respelled

theorem stops_of_error {text : String} {e : SyntaxError} (h : tokenize text = .error e) :
    Stops text e := by
  obtain ⟨front, c, rest, ts, split, position, spells, none⟩ := exists_of_tokenizeFrom_error h
  refine ⟨String.ofList front, c, String.ofList rest, ?_, ?_, ⟨ts, ?_⟩, none⟩
  · rw [← List.singleton_append, ← List.append_assoc] at split
    exact eq_append_of_toList split
  · rw [position, byteSize_ofList spells.oneByte, Nat.zero_add]
  · rw [tokenize_ok_iff, String.toList_ofList]
    exact spells

/-- Every text has tokens that cover it, or a first place where no token can be read. -/
theorem tokenize_covers_or_stops (text : String) :
    (∃ ts, tokenize text = .ok ts ∧ Covers text ts) ∨
      ∃ e, tokenize text = .error e ∧ Stops text e := by
  cases h : tokenize text with
  | ok ts => exact .inl ⟨ts, rfl, covers_of_ok h⟩
  | error e => exact .inr ⟨e, rfl, stops_of_error h⟩

end EquationSystem.Lexer
