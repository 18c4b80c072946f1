import EquationSystem.Proofs.Formula.Placement
import EquationSystem.Proofs.Formula.Spans

/-!
# Line feeds between tokens

Taking the line feeds out of a text can make one token of what stands around them, but it leaves no
character unread that was read before. Where no line feed stands inside of what is then one token,
the tokens stay the same but for their places.
-/

namespace EquationSystem

/-- The text without its line feeds. -/
def withoutFeeds (cs : List Char) : List Char := cs.filter (· ≠ '\n')

namespace Lexer

variable {c : Char} {cs a b front rest lexeme : List Char} {token : Token} {pos pos' : Nat}
  {ts ts' : List PlacedToken}

/-! ## Characters inside of lexemes -/

/-- The character belongs to no token but a pair of itself. -/
def Paired (c : Char) : Prop := c = '&' ∨ c = '|'

instance (c : Char) : Decidable (Paired c) := inferInstanceAs (Decidable (_ ∨ _))

theorem signs_cases : ∀ x ∈ signs, ∀ c ∈ x.1,
    (∃ y ∈ signs, y.1 = [c]) ∨ x.1 = [c, c] ∧ Paired c :=
  forall_mem_signs (by decide)

theorem not_paired_of_mem_signs : ∀ x ∈ signs, ∀ c ∈ x.1, x.1 = [c] → ¬Paired c :=
  forall_mem_signs (by decide)

theorem lexeme_of_isNameChar (h : isNameChar c = true) : ∃ token, Lexeme [c] token := by
  rw [isNameChar, Char.isAlphanum, Bool.or_eq_true, Bool.or_eq_true] at h
  rcases h with (letter | digit) | underscore
  · exact ⟨_, .word (by rw [isNameStart, letter, Bool.true_or]) (List.forall_mem_nil _)⟩
  · have numeral : IsNumeral ([c] ++ []) :=
      .integer (List.cons_ne_nil _ _) (List.forall_mem_singleton.2 digit) .absent
    exact ⟨_, .number numeral⟩
  · exact ⟨_, .word (by rw [isNameStart, underscore, Bool.or_true]) (List.forall_mem_nil _)⟩

namespace Lexeme

/-- A character of a lexeme is a point, a lexeme itself, or one of a pair. -/
theorem mem_cases (h : Lexeme lexeme token) : ∀ c ∈ lexeme,
    c = '.' ∨ (∃ t, Lexeme [c] t) ∨ lexeme = [c, c] ∧ Paired c := by
  cases h with
  | word first inside =>
    have starts := lexeme_of_isNameChar (isNameChar_of_isNameStart first)
    exact List.forall_mem_cons.2
      ⟨.inr (.inl starts), fun d hd => .inr (.inl (lexeme_of_isNameChar (inside d hd)))⟩
  | number h =>
    refine h.forall_mem (fun d digit => ?_) (fun d mark => ?_) ⟨?_, ?_⟩ (.inl rfl)
    · exact .inr (.inl (lexeme_of_isNameChar (isNameChar_of_isDigit digit)))
    · refine .inr (.inl (lexeme_of_isNameChar ?_))
      simp only [isExponentMark, Bool.or_eq_true, beq_iff_eq] at mark
      rcases mark with rfl | rfl <;> rfl
    · exact .inr (.inl ⟨.plus, .sign (by decide)⟩)
    · exact .inr (.inl ⟨.minus, .sign (by decide)⟩)
  | sign listed =>
    intro c hc
    rcases signs_cases _ listed c hc with ⟨⟨_, t⟩, single, rfl⟩ | pair
    · exact .inr (.inl ⟨t, .sign single⟩)
    · exact .inr (.inr pair)

theorem not_paired (h : Lexeme [c] token) : ¬Paired c := by
  intro paired
  have listed : ([c], token) ∈ signs := by
    rcases paired with rfl | rfl <;> exact h.of_other rfl rfl
  exact not_paired_of_mem_signs _ listed c List.mem_cons_self rfl paired

/-- Such characters come in pairs. -/
theorem count_paired (h : Lexeme lexeme token) (paired : Paired c) :
    lexeme.count c % 2 = 0 := by
  by_cases mem : c ∈ lexeme
  · rcases h.mem_cases c mem with rfl | ⟨t, single⟩ | ⟨rfl, -⟩
    · exact absurd paired (by decide)
    · exact absurd paired single.not_paired
    · rw [List.count_cons_self, List.count_cons_self, List.count_nil]
  · rw [List.count_eq_zero_of_not_mem mem]

/-- A point in a lexeme is followed by a digit. -/
theorem digit_of_point (h : Lexeme (a ++ '.' :: b) token) :
    ∃ d more, b = d :: more ∧ d.isDigit = true := by
  generalize text : a ++ '.' :: b = cs at h
  have point : '.' ∈ cs := text ▸ List.mem_append_right a List.mem_cons_self
  cases h with
  | word first inside =>
    rcases List.mem_cons.1 point with rfl | mem
    · cases first
    · cases inside _ mem
  | sign listed => exact absurd ((of_mem_signs _ listed).2 _ point).2.1 (by decide)
  | number h =>
    have noPoint {ds exponent : List Char} (hd : Digits ds) (he : IsExponent exponent) :
        '.' ∉ ds ++ exponent := by
      intro mem
      rcases List.mem_append.1 mem with digit | mem
      · cases hd _ digit
      · refine he.forall_mem (p := (· ≠ '.')) ?_ ?_ ⟨by decide, by decide⟩ _ mem rfl
        · rintro d digit rfl
          cases digit
        · rintro d mark rfl
          cases mark
    cases h with
    | integer nonempty hwhole hexponent => exact (noPoint hwhole hexponent point).elim
    | @fraction whole places exponent hwhole nonempty hplaces hexponent =>
      have whole' := noPoint hwhole .absent
      rw [List.append_nil] at whole'
      obtain ⟨-, -, rfl⟩ :=
        (List.append_cons_inj_of_notMem whole' (noPoint hplaces hexponent)).1 text.symm
      obtain ⟨d, more, rfl⟩ := List.exists_cons_of_ne_nil nonempty
      exact ⟨d, more ++ exponent, rfl, hplaces d List.mem_cons_self⟩

/-- What is left of a lexeme from one of its characters on begins with a lexeme, unless the
character is the second of a pair. -/
theorem suffix_cases (h : Lexeme (a ++ c :: b) token) :
    (∃ lexeme t, Lexeme lexeme t ∧ lexeme <+: c :: b) ∨ a = [c] ∧ b = [] ∧ Paired c := by
  rcases h.mem_cases c (List.mem_append_right a List.mem_cons_self) with
    rfl | ⟨t, single⟩ | ⟨pair, paired⟩
  · obtain ⟨d, more, rfl, digit⟩ := h.digit_of_point
    have numeral : IsNumeral ([] ++ '.' :: ([d] ++ [])) :=
      .fraction (List.forall_mem_nil _) (List.cons_ne_nil _ _)
        (List.forall_mem_singleton.2 digit) .absent
    exact .inl ⟨_, _, .number numeral, more, rfl⟩
  · exact .inl ⟨[c], t, single, b, rfl⟩
  · rcases a with _ | ⟨first, a⟩
    · exact .inl ⟨_, _, h, List.prefix_rfl⟩
    · obtain ⟨rfl, rest⟩ := List.cons.inj pair
      obtain ⟨rfl, single⟩ := List.append_eq_singleton_iff.1 rest |>.resolve_right (by simp)
      exact .inr ⟨rfl, (List.cons.inj single).2, paired⟩

end Lexeme

namespace Spells

theorem count_paired (h : Spells pos cs ts) (paired : Paired c) : cs.count c % 2 = 0 := by
  induction h with
  | nil => rfl
  | @skip pos d cs ts blank h ih =>
    have other : d ≠ c := by
      rintro rfl
      rcases paired with rfl | rfl <;> cases blank
    rwa [List.count_cons_of_ne other]
  | token nonblank read h ih =>
    obtain ⟨tail, rest, rfl, rfl, longest⟩ := exists_of_readToken read
    rw [List.drop_left] at ih
    rw [← List.cons_append, List.count_append, Nat.add_mod, longest.isLexeme.count_paired paired,
      ih]

/-- The lexeme around a character that is not blank, and the tokens before it. -/
theorem exists_lexeme (h : Spells pos (front ++ c :: rest) ts) (nonblank : isBlank c = false) :
    ∃ before a b after token ts', front = before ++ a ∧ rest = b ++ after ∧
      Lexeme (a ++ c :: b) token ∧ Spells pos before ts' := by
  generalize text : front ++ c :: rest = cs at h
  induction h generalizing front with
  | nil => exact (List.append_ne_nil_of_right_ne_nil _ (List.cons_ne_nil _ _) text).elim
  | @skip pos d cs ts blank h ih =>
    cases front with
    | nil =>
      cases text
      rw [blank] at nonblank
      cases nonblank
    | cons e front =>
      obtain ⟨rfl, behind⟩ := List.cons.inj text
      obtain ⟨before, a, b, after, token, ts', rfl, same, lexeme, spells⟩ := ih behind
      exact ⟨e :: before, a, b, after, token, ts', rfl, same, lexeme, .skip blank spells⟩
  | @token pos more d cs token ts nonblank' read h ih =>
    obtain ⟨tail, rest', rfl, rfl, longest⟩ := exists_of_readToken read
    rw [List.drop_left] at ih
    have first : front <+: (d :: tail) ++ rest' := ⟨c :: rest, text⟩
    have second : d :: tail <+: (d :: tail) ++ rest' := List.prefix_append _ _
    rcases Nat.lt_or_ge front.length (d :: tail).length with short | long
    · -- The character is part of this lexeme.
      obtain ⟨x, inside⟩ := List.prefix_of_prefix_length_le first second short.le
      rw [← List.cons_append, ← inside, List.append_assoc] at text
      have behind := List.append_cancel_left text
      cases x with
      | nil => rw [← inside, List.append_nil] at short; exact (Nat.lt_irrefl _ short).elim
      | cons e b =>
        obtain ⟨rfl, rfl⟩ := List.cons.inj behind
        exact ⟨[], front, b, rest', token, [], rfl, rfl, inside ▸ longest.isLexeme, .nil⟩
    · obtain ⟨y, rfl⟩ := List.prefix_of_prefix_length_le second first long
      rw [← List.cons_append, List.append_assoc] at text
      have behind := List.append_cancel_left text
      obtain ⟨before, a, b, after, token', ts', rfl, same, lexeme, spells⟩ := ih behind
      have cut : Cut before rest' := .of_initial ⟨a ++ c :: rest, by rw [← behind]; simp⟩
      exact ⟨d :: (tail ++ before), a, b, after, token', _, by simp, same, lexeme,
        spells.token_of_cut nonblank' read cut⟩

end Spells

/-! ## Without line feeds -/

theorem withoutFeeds_of_solid (h : ∀ c ∈ cs, isBlank c = false) : withoutFeeds cs = cs := by
  refine List.filter_eq_self.2 fun c hc => decide_eq_true ?_
  rintro rfl
  cases h '\n' hc

theorem withoutFeeds_append : withoutFeeds (a ++ b) = withoutFeeds a ++ withoutFeeds b :=
  List.filter_append ..

theorem withoutFeeds_cons (other : c ≠ '\n') : withoutFeeds (c :: cs) = c :: withoutFeeds cs :=
  List.filter_cons_of_pos (decide_eq_true other)

theorem count_withoutFeeds (other : c ≠ '\n') : (withoutFeeds cs).count c = cs.count c :=
  List.count_filter (by simpa using other)

theorem exists_of_withoutFeeds (h : withoutFeeds cs = front ++ c :: rest) :
    ∃ front' rest', cs = front' ++ c :: rest' ∧ withoutFeeds front' = front ∧
      withoutFeeds rest' = rest := by
  obtain ⟨front₁, back, rfl, rfl, split⟩ := List.filter_eq_append_iff.1 h
  obtain ⟨feeds, rest', rfl, none, -, rfl⟩ := List.filter_eq_cons_iff.1 split
  refine ⟨front₁ ++ feeds, rest', by simp, ?_, rfl⟩
  rw [withoutFeeds_append, show withoutFeeds feeds = [] from List.filter_eq_nil_iff.2 none,
    List.append_nil]
  rfl

/-- Up to its first blank a text loses no line feed. -/
theorem cut_withoutFeeds (cs : List Char) : Cut cs (withoutFeeds cs) := by
  have solid : ∀ c ∈ cs.takeWhile (!isBlank ·), isBlank c = false := fun c hc => by
    simpa using List.mem_takeWhile_imp hc
  have split : cs.takeWhile (!isBlank ·) ++ cs.dropWhile (!isBlank ·) = cs :=
    List.takeWhile_append_dropWhile
  rw [Cut]
  conv_rhs => rw [← split, withoutFeeds_append, withoutFeeds_of_solid solid]
  exact List.prefix_append _ _

theorem NoToken.nonblank {rest : String} {cause : SyntaxError.Cause} (h : NoToken c rest cause) :
    isBlank c = false := by
  cases h with
  | point => rfl
  | character nonblank => exact nonblank

/-- Inside of a lexeme the only place where no token can be read is between the two characters of a
pair. -/
theorem Lexeme.pair_of_noToken {cause : SyntaxError.Cause} (h : Lexeme (a ++ c :: b) token)
    (stuck : NoToken c (String.ofList (b ++ rest)) cause) : a = [c] ∧ b = [] ∧ Paired c := by
  cases stuck with
  | point next =>
    obtain ⟨d, more, rfl, digit⟩ := h.digit_of_point
    rw [String.toList_ofList] at next
    exact absurd digit (ne_true_of_eq_false (misses_cons.1 next))
  | character _ unread =>
    rcases h.suffix_cases with ⟨other, t, begins, initial⟩ | pair
    · refine (unread (String.ofList other) t (alone_iff.2 ?_) ?_).elim
      · rwa [String.toList_ofList]
      · rw [String.toList_ofList, String.toList_ofList]
        exact initial.trans ((List.prefix_cons_inj c).2 (List.prefix_append _ _))
    · exact pair

/-- Where a text has tokens it also has some without its line feeds. A character that begins no
token then would be inside of one before, and this only as the second of a pair; but up to there
the pairs are whole. -/
theorem exists_spells_withoutFeeds (h : Spells pos cs ts) :
    ∃ ts', Spells 0 (withoutFeeds cs) ts' := by
  cases result : tokenizeFrom [] 0 (withoutFeeds cs) with
  | ok ts' =>
    obtain ⟨ts', -, spells⟩ := tokenizeFrom_sound result
    exact ⟨ts', spells⟩
  | error e =>
    obtain ⟨front, c, rest, ts', split, -, spells, stuck⟩ := exists_of_tokenizeFrom_error result
    obtain ⟨front', rest', rfl, rfl, rfl⟩ := exists_of_withoutFeeds split
    obtain ⟨before, a, b, after, token, ts'', rfl, rfl, lexeme, spells'⟩ :=
      h.exists_lexeme stuck.nonblank
    have solid : ∀ d ∈ b, isBlank d = false := fun d hd =>
      (lexeme.solid d (List.mem_append_right a (List.mem_cons_of_mem c hd))).1
    rw [withoutFeeds_append, withoutFeeds_of_solid solid] at stuck
    obtain ⟨rfl, rfl, paired⟩ := lexeme.pair_of_noToken stuck
    have other : c ≠ '\n' := by
      rintro rfl
      cases stuck.nonblank
    have even := spells.count_paired paired
    have even' := spells'.count_paired paired
    rw [count_withoutFeeds other, List.count_append, List.count_singleton_self] at even
    omega

/-! ## Line feeds between the tokens of a text without them -/

/-- No line feed of the text stands inside of one of the tokens, which have their places in the text
without its line feeds. -/
def FeedsApart (pos : Nat) (cs : List Char) (ts : List PlacedToken) : Prop :=
  ∀ front back, cs = front ++ '\n' :: back → ∀ t ∈ ts,
    ¬(t.start < pos + (withoutFeeds front).length ∧ pos + (withoutFeeds front).length < t.stop)

namespace FeedsApart

theorem of_cons_feed (h : FeedsApart pos ('\n' :: cs) ts) : FeedsApart pos cs ts := by
  rintro front back rfl
  exact h ('\n' :: front) back rfl

theorem of_append (h : FeedsApart pos (a ++ cs) ts) (solid : withoutFeeds a = a) :
    FeedsApart (pos + a.length) cs ts := by
  rintro front back rfl
  have inside := h (a ++ front) back (List.append_assoc ..).symm
  rwa [withoutFeeds_append, solid, List.length_append, ← Nat.add_assoc] at inside

theorem of_token {t : PlacedToken} (h : FeedsApart pos cs (t :: ts)) : FeedsApart pos cs ts :=
  fun front back split t ht => h front back split t (List.mem_cons_of_mem _ ht)

end FeedsApart

/-- What comes first without the line feeds comes first with them, if they are all behind it. -/
theorem exists_append_of_withoutFeeds {tail : List Char} (split : withoutFeeds cs = tail ++ rest)
    (behind : ∀ front back, cs = front ++ '\n' :: back →
      tail.length ≤ (withoutFeeds front).length) :
    ∃ cs', cs = tail ++ cs' ∧ withoutFeeds cs' = rest := by
  induction tail generalizing cs with
  | nil => exact ⟨cs, rfl, split⟩
  | cons c tail ih =>
    cases cs with
    | nil => cases split
    | cons d cs =>
      have other : d ≠ '\n' := by
        rintro rfl
        exact absurd (behind [] cs rfl) (by simp [withoutFeeds])
      rw [withoutFeeds_cons other] at split
      obtain ⟨rfl, split'⟩ := List.cons.inj split
      obtain ⟨cs', rfl, same⟩ := ih split' fun front back split => by
        have le := behind (d :: front) back (by rw [split, List.cons_append])
        rwa [withoutFeeds_cons other, List.length_cons, List.length_cons,
          Nat.succ_le_succ_iff] at le
      exact ⟨cs', rfl, same⟩

/-- Line feeds outside of the tokens change only where these are. -/
theorem Spells.exists_with_feeds (h : Spells pos (withoutFeeds cs) ts)
    (apart : FeedsApart pos cs ts) (pos' : Nat) : ∃ us, Spells pos' cs us ∧ SameKinds us ts := by
  generalize hlen : cs.length = len
  induction len using Nat.strongRecOn generalizing cs pos pos' ts with
  | ind len ih =>
    rcases cs with _ | ⟨c, cs⟩
    · cases h
      exact ⟨[], .nil, rfl⟩
    rw [List.length_cons] at hlen
    by_cases feed : c = '\n'
    · subst feed
      have h' : Spells pos (withoutFeeds cs) ts := h
      obtain ⟨us, spells, same⟩ := ih cs.length (by omega) h' apart.of_cons_feed (pos' + 1) rfl
      exact ⟨us, .skip rfl spells, same⟩
    rw [withoutFeeds_cons feed] at h
    have apart' : FeedsApart (pos + 1) cs ts := apart.of_append (a := [c]) (withoutFeeds_cons feed)
    generalize text : withoutFeeds cs = cs' at h
    cases h with
    | skip blank h =>
      subst text
      obtain ⟨us, spells, same⟩ := ih cs.length (by omega) h apart' (pos' + 1) rfl
      exact ⟨us, .skip blank spells, same⟩
    | @token _ more _ _ token ts nonblank read h =>
      obtain ⟨tail, rest, rfl, rfl, longest⟩ := exists_of_readToken read
      rw [List.drop_left] at h
      obtain ⟨cs', rfl, rfl⟩ := exists_append_of_withoutFeeds text fun front back split => by
        have outside := apart' front back split _ List.mem_cons_self
        dsimp only at outside
        omega
      have solid : withoutFeeds tail = tail := withoutFeeds_of_solid fun d hd =>
        (longest.isLexeme.solid d (List.mem_cons_of_mem c hd)).1
      obtain ⟨us, spells, same⟩ := ih cs'.length (by rw [List.length_append] at hlen; omega) h
        (apart'.of_token.of_append solid) (pos' + 1 + tail.length) rfl
      exact ⟨_, spells.token_of_cut nonblank read (cut_withoutFeeds cs'), by
        rw [SameKinds, List.map_cons, List.map_cons, same]⟩

end Lexer

end EquationSystem
