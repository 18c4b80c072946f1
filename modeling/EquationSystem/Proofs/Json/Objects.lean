import EquationSystem.Proofs.Json.Fields
import EquationSystem.Proofs.Json.Literal
import EquationSystem.Proofs.Json.Strings

/-!
# Objects of JSON

An object whose fields stand between braces and commas, with blanks anywhere between them, is read
as the object that holds the last value for every key. What stands for a value of a field may be
anything that is read as the value by itself, such as a number or a string.
-/

namespace EquationSystem.Json

/-- The reading takes `a` and leaves `rest`. -/
def Yields {α : Type} {cs : List Char} (r : Reading α cs) (a : α) (rest : List Char) : Prop :=
  ∃ fewer, r = some (a, ⟨rest, fewer⟩)

/-- Only characters that are skipped. -/
def Blanks (cs : List Char) : Prop := ∀ c ∈ cs, isSpace c = true

instance (cs : List Char) : Decidable (Blanks cs) :=
  decidable_of_iff (cs.all isSpace = true) List.all_eq_true

/-- In an object, the characters are read as the value, whatever blanks stand before them and
whatever stands behind them that is not part of a number. -/
def Reads (cs : List Char) (j : Json) : Prop :=
  ∀ b rest, Blanks b → Ends rest → Yields (value (maxDepth - 1) (b ++ (cs ++ rest))) j rest

/-- What stands for the value of a field, and the value that it is read as. -/
structure Entry where
  chars : List Char
  value : Json
  reads : Reads chars value

variable {α β : Type} {b b' k text cs ds rest : List Char} {c d : Char} {j : Json}

/-! ## Blanks -/

theorem Blanks.skipSpaces_eq (h : Blanks b) (solid : isSpace c = false) (cs : List Char) :
    (Json.skipSpaces (b ++ c :: cs)).1 = c :: cs :=
  dropWhile_append_of_misses h (misses_cons.2 solid)

theorem skip?_cons (h : Blanks b) (solid : isSpace c = false) (rest : List Char) :
    ∃ fewer, skip? c (b ++ c :: rest) = some ⟨rest, fewer⟩ := by
  have next := h.skipSpaces_eq solid rest
  unfold skip?
  split
  · next none =>
    rw [next] at none
    cases none
  · next d after found =>
    rw [next] at found
    cases found
    refine ⟨?_, if_pos rfl⟩
    rw [List.length_append, List.length_cons]
    omega

theorem skip?_other (h : Blanks b) (solid : isSpace d = false) (differs : d ≠ c) :
    skip? c (b ++ d :: rest) = none := by
  have next := h.skipSpaces_eq solid rest
  unfold skip?
  split
  · rfl
  · next e after found =>
    rw [next] at found
    cases found
    exact if_neg differs

/-! ## Values -/

/-- What reads the values that nest in one of at most `depth`. -/
def inner (depth : Nat) : Option ((cs : List Char) → Reading Json cs) :=
  match depth with
  | 0 => none
  | depth + 1 => some (value depth)

theorem Yields.cons {r : Reading α cs} {a : α} (h : Yields r a rest) (f : α → β) :
    Yields (Reading.cons f r : Reading β (c :: cs)) (f a) rest := by
  obtain ⟨fewer, rfl⟩ := h
  exact ⟨Nat.lt_trans fewer (Nat.lt_succ_self _), rfl⟩

theorem Yields.value {depth : Nat} (h : Yields (valueFrom (inner depth) c cs) j rest)
    (blanks : Blanks b) (solid : isSpace c = false) : Yields (value depth (b ++ c :: cs)) j rest := by
  have next := blanks.skipSpaces_eq solid cs
  obtain ⟨fewer, h⟩ := h
  unfold Json.value
  split
  · next none =>
    rw [next] at none
    cases none
  · next e after found =>
    rw [next] at found
    cases found
    refine ⟨by simp only [List.length_append]; omega, ?_⟩
    show (valueFrom (inner depth) c cs).map _ = _
    rw [h]
    rfl

theorem yields_number {within : Option ((cs : List Char) → Reading Json cs)} {text : String}
    {taken : Nat} (first : c.isDigit = true ∨ c = '-')
    (read : readNumber (c :: cs) = some (text, taken)) :
    Yields (valueFrom within c cs) (.number text) (cs.drop (taken - 1)) := by
  refine ⟨by simp only [List.length_drop, List.length_cons]; omega, ?_⟩
  unfold valueFrom
  split
  case h_7 => rw [read]
  all_goals rcases first with digit | minus <;> contradiction

theorem StringText.yields (h : StringText k text) (rest : List Char) :
    Yields (readString (k ++ '"' :: rest)) (String.ofList text) rest := by
  have read := h.stringRest_eq [] rest
  unfold readString
  split
  · next none =>
    rw [none] at read
    cases read
  · next found =>
    rw [found] at read
    cases read
    exact ⟨_, rfl⟩

/-- A string is read as the text that it stands for. -/
theorem reads_string (h : StringText k text) :
    Reads ('"' :: (k ++ ['"'])) (.string (String.ofList text)) := by
  intro b rest blanks _
  have yields : Yields (valueFrom (inner (maxDepth - 1)) '"' (k ++ '"' :: rest)) _ rest :=
    (h.yields rest).cons Json.string
  rw [List.cons_append, List.append_assoc]
  exact yields.value blanks rfl

/-- A number is read as the text that is kept of it. -/
theorem reads_literal (l : Literal) : Reads l.chars (.number l.keptText) := by
  intro b rest blanks ends
  have read := l.readNumber_append ends
  obtain ⟨c, cs, hc, first⟩ := l.exists_head
  have solid : isSpace c = false := by
    rcases first with digit | rfl
    · simp only [isSpace, Bool.or_eq_false_iff]
      exact ⟨⟨⟨isDigit_ne digit rfl, isDigit_ne digit rfl⟩, isDigit_ne digit rfl⟩,
        isDigit_ne digit rfl⟩
    · rfl
  rw [hc, List.cons_append] at read ⊢
  have yields : Yields (valueFrom (inner (maxDepth - 1)) c (cs ++ rest)) _ _ :=
    yields_number first read
  rw [List.length_cons, Nat.add_sub_cancel, List.drop_left] at yields
  exact yields.value blanks solid

/-- The literal as the value of a field. -/
def Literal.entry (l : Literal) : Entry := ⟨l.chars, .number l.keptText, reads_literal l⟩

/-! ## Fields -/

/-- The characters are a field, with blanks before each of its parts. -/
inductive FieldText : List Char → String × Entry → Prop
  | mk {b₁ b₂ b₃ k : List Char} {key : String} {entry : Entry} (before : Blanks b₁)
      (spelled : StringText k key.toList) (colon : Blanks b₂) (value : Blanks b₃) :
      FieldText (b₁ ++ '"' :: (k ++ '"' :: (b₂ ++ ':' :: (b₃ ++ entry.chars)))) (key, entry)

/-- The characters are what stands after the first field of an object: the other fields, each after
a comma, and the closing brace. -/
inductive FieldsText : List Char → List (String × Entry) → Prop
  | close {b : List Char} (before : Blanks b) : FieldsText (b ++ ['}']) []
  | next {b cs ds : List Char} {field : String × Entry} {fields : List (String × Entry)}
      (before : Blanks b) (first : FieldText cs field) (rest : FieldsText ds fields) :
      FieldsText (b ++ ',' :: (cs ++ ds)) (field :: fields)

/-- The characters are an object with the fields, one after the other. -/
inductive ObjectText : List Char → List (String × Entry) → Prop
  | empty {b₁ b₂ b₃ : List Char} (before : Blanks b₁) (inside : Blanks b₂) (behind : Blanks b₃) :
      ObjectText (b₁ ++ '{' :: (b₂ ++ '}' :: b₃)) []
  | fields {b b' cs ds : List Char} {field : String × Entry} {fields : List (String × Entry)}
      (before : Blanks b) (first : FieldText cs field) (rest : FieldsText ds fields)
      (behind : Blanks b') : ObjectText (b ++ '{' :: (cs ++ (ds ++ b'))) (field :: fields)

variable {first : String × Entry} {others : List (String × Entry)}

theorem ends_blanks (h : Blanks b) (next : Ends (c :: cs)) : Ends (b ++ c :: cs) := by
  refine Misses.append (fun d head => ?_) next
  have space := h d (List.mem_of_head? head)
  simp only [isSpace, Bool.or_eq_true, beq_iff_eq] at space
  rcases space with ((rfl | rfl) | rfl) | rfl <;> rfl

theorem FieldsText.ends (h : FieldsText cs others) (rest : List Char) : Ends (cs ++ rest) := by
  cases h with
  | close before =>
    rw [List.append_assoc]
    exact ends_blanks before (misses_cons.2 rfl)
  | next before first others =>
    rw [List.append_assoc]
    exact ends_blanks before (misses_cons.2 rfl)

theorem field_yields {read : (cs : List Char) → Reading Json cs} {key : String} (before : Blanks b)
    (spelled : StringText k key.toList) (colon : Blanks b') (value : Yields (read cs) j rest) :
    Yields (field read (b ++ '"' :: (k ++ '"' :: (b' ++ ':' :: cs)))) (key, j) rest := by
  obtain ⟨hopened, opened⟩ := skip?_cons before (c := '"') rfl (k ++ '"' :: (b' ++ ':' :: cs))
  obtain ⟨hclosed, closed⟩ := spelled.yields (b' ++ ':' :: cs)
  obtain ⟨hcolon, colon⟩ := skip?_cons colon (c := ':') rfl cs
  obtain ⟨hvalue, value⟩ := value
  rw [String.ofList_toList] at closed
  refine ⟨Nat.lt_trans hvalue (Nat.lt_trans hcolon (Nat.lt_trans hclosed hopened)), ?_⟩
  unfold field
  simp only [opened, closed, colon, value]

theorem FieldText.yields (h : FieldText cs first) (ends : Ends rest) :
    Yields (field (value (maxDepth - 1)) (cs ++ rest)) (first.1, first.2.value) rest := by
  cases h with
  | mk before spelled colon blanks =>
    rw [List.append_assoc, List.cons_append, List.append_assoc, List.cons_append, List.append_assoc,
      List.cons_append, List.append_assoc]
    exact field_yields before spelled colon (Entry.reads _ _ _ blanks ends)

/-- A field does not begin like the end of an object. -/
theorem FieldText.skip?_eq_none (h : FieldText cs first) (rest : List Char) :
    skip? '}' (cs ++ rest) = none := by
  cases h with
  | mk before spelled colon blanks =>
    rw [List.append_assoc, List.cons_append]
    exact skip?_other before rfl (by decide)

/-- The fields after the first one are read up to the closing brace. -/
theorem FieldsText.fieldsRest_eq (h : FieldsText cs others) (done : Fields) (rest : List Char) :
    fieldsRest (value (maxDepth - 1)) done (cs ++ rest) =
      some ((others.foldl (fun done field => done.set field.1 field.2.value) done).toList, rest) := by
  induction h generalizing done with
  | close before =>
    obtain ⟨_, closed⟩ := skip?_cons before (c := '}') rfl rest
    rw [List.append_assoc, List.singleton_append, fieldsRest]
    simp only [closed]
    rfl
  | @next b cs ds field fields before first others ih =>
    have isOpen : skip? '}' (b ++ ',' :: (cs ++ (ds ++ rest))) = none :=
      skip?_other before rfl (by decide)
    obtain ⟨_, comma⟩ := skip?_cons before (c := ',') rfl (cs ++ (ds ++ rest))
    obtain ⟨_, read⟩ := first.yields (others.ends rest)
    rw [List.append_assoc, List.cons_append, List.append_assoc, fieldsRest]
    simp only [isOpen, comma, read]
    exact ih _

/-- The fields in the form in which they are read. -/
def values (fields : List (String × Entry)) : List (String × Json) :=
  fields.map fun field => (field.1, field.2.value)

theorem readObject_yields (hfirst : FieldText cs first) (hothers : FieldsText ds others)
    (proper : first.1 ≠ numberKey) : Yields (readObject (value (maxDepth - 1)) (cs ++ (ds ++ rest)))
      (.object (merge (values (first :: others))).toList) rest := by
  obtain ⟨fewer, read⟩ := hfirst.yields (hothers.ends rest)
  have remaining := hothers.fieldsRest_eq (Fields.set ∅ first.1 first.2.value) rest
  have all : merge (values (first :: others)) =
      others.foldl (fun done field => done.set field.1 field.2.value)
        (Fields.set ∅ first.1 first.2.value) := by
    rw [merge, values, List.map_cons, List.foldl_cons, List.foldl_map]
  unfold readObject
  simp only [hfirst.skip?_eq_none, read, if_neg proper, all]
  split
  · next none =>
    rw [none] at remaining
    cases remaining
  · next found =>
    rw [found] at remaining
    cases remaining
    exact ⟨_, rfl⟩

theorem yields_braced (h : Yields (readObject (value (maxDepth - 1)) cs) j rest) :
    Yields (valueFrom (inner maxDepth) '{' cs) j rest :=
  h.cons id

/-- An object whose first key is not that of a number is read as an object, and only blanks are left
behind it. -/
theorem ObjectText.yields {fields : List (String × Entry)} (h : ObjectText cs fields)
    (proper : fields.head?.map Prod.fst ≠ some numberKey) :
    ∃ b, Blanks b ∧ Yields (value maxDepth cs) (.object (merge (values fields)).toList) b := by
  cases h with
  | @empty b₁ b₂ b₃ before inside behind =>
    obtain ⟨fewer, closed⟩ := skip?_cons inside (c := '}') rfl b₃
    have read : Yields (readObject (value (maxDepth - 1)) (b₂ ++ '}' :: b₃)) (.object []) b₃ := by
      unfold readObject
      simp only [closed]
      exact ⟨fewer, rfl⟩
    exact ⟨b₃, behind, (yields_braced read).value before rfl⟩
  | fields before first others behind =>
    refine ⟨_, behind, (yields_braced (readObject_yields first others ?_)).value before rfl⟩
    exact fun same => proper (congrArg some same)

theorem ObjectText.parse?_eq {text : String} {fields : List (String × Entry)}
    (h : ObjectText text.toList fields) (proper : fields.head?.map Prod.fst ≠ some numberKey) :
    parse? text = some (.object (merge (values fields)).toList) := by
  obtain ⟨b, blanks, _, read⟩ := h.yields proper
  unfold parse?
  simp only [read]
  rw [if_pos (List.all_eq_true.2 blanks)]

end EquationSystem.Json
