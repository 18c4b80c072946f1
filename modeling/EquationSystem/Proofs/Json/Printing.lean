import EquationSystem.Proofs.Json.Objects

/-!
# Printed objects

The pretty form of an object of numbers is an object with the same fields, each with the literal
that stands in the text of its number.
-/

namespace EquationSystem.Json

/-- A field on a line of its own. -/
def prettyField (level : Nat) (field : String × Json) : List Char :=
  newLine level ++ quote field.1 ++ ':' :: ' ' :: field.2.prettyChars level

theorem prettyFields_cons (level : Nat) (field : String × Json) (others : List (String × Json)) :
    prettyFields level (field :: others) =
      prettyField level field ++ others.flatMap fun field => ',' :: prettyField level field := by
  induction others generalizing field with
  | nil => rw [prettyFields, List.flatMap_nil, List.append_nil, prettyField]
  | cons next others ih =>
    rw [prettyFields, ih, List.flatMap_cons, prettyField]
    · rfl
    · exact nofun

theorem blanks_newLine (level : Nat) : Blanks (newLine level) := by
  refine List.forall_mem_cons.2 ⟨rfl, fun c hc => ?_⟩
  rw [List.eq_of_mem_replicate hc]
  rfl

/-- The number as it is printed. -/
def Literal.json (l : Literal) : Json := .number (String.ofList l.chars)

theorem fieldText_prettyField (level : Nat) (key : String) (l : Literal) :
    FieldText (prettyField level (key, l.json)) (key, l.entry) := by
  have printed : prettyField level (key, l.json) = newLine level ++
      '"' :: (key.toList.flatMap escapeChar ++ '"' :: ([] ++ ':' :: ([' '] ++ l.chars))) := by
    rw [prettyField, quote, Literal.json, prettyChars, String.toList_ofList, List.append_assoc,
      List.cons_append, List.append_assoc]
    rfl
  rw [printed]
  exact @FieldText.mk _ _ _ _ key l.entry (blanks_newLine level) (stringText_flatMap key.toList)
    (List.forall_mem_nil _) (List.forall_mem_singleton.2 rfl)

theorem fieldsText_pretty (level : Nat) (fields : List (String × Literal)) :
    FieldsText ((fields.map fun field => (field.1, field.2.json)).flatMap
        (fun field => ',' :: prettyField level field) ++ (newLine 0 ++ ['}']))
      (fields.map fun field => (field.1, field.2.entry)) := by
  induction fields with
  | nil => exact .close (blanks_newLine 0)
  | cons field fields ih =>
    rw [List.map_cons, List.map_cons, List.flatMap_cons, List.append_assoc, List.cons_append]
    exact @FieldsText.next [] _ _ _ _ (List.forall_mem_nil _)
      (fieldText_prettyField level field.1 field.2) ih

/-- The pretty form of an object of numbers, and a line feed behind it, is an object. -/
theorem objectText_pretty (fields : List (String × Literal)) :
    ObjectText ((object (fields.map fun field => (field.1, field.2.json))).prettyChars 0 ++ ['\n'])
      (fields.map fun field => (field.1, field.2.entry)) := by
  have lineFeed : Blanks ['\n'] := List.forall_mem_singleton.2 rfl
  cases fields with
  | nil =>
    rw [List.map_nil, prettyChars]
    exact @ObjectText.empty [] [] _ (List.forall_mem_nil _) (List.forall_mem_nil _) lineFeed
  | cons field fields =>
    rw [List.map_cons, List.map_cons, prettyChars, prettyFields_cons, List.append_assoc,
      List.append_assoc, List.cons_append, List.append_assoc]
    · exact @ObjectText.fields [] _ _ _ _ _ (List.forall_mem_nil _)
        (fieldText_prettyField 1 field.1 field.2) (fieldsText_pretty 1 fields) lineFeed
    · exact nofun

end EquationSystem.Json
