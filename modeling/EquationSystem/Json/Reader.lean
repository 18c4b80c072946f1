import EquationSystem.Json.Fields
import EquationSystem.Text.Ascii

/-!
# Reading JSON

The whole text must be one value by the grammar of JSON. Arrays and objects nest at most 127 deep.
The text of a number is kept, apart from its exponent, which is written with a small `e` and a
sign. Of fields with one key the last value counts, at the place of the first. An object that
begins with the key `numberKey` is a number.
-/

namespace EquationSystem.Json

def maxDepth : Nat := 127

def isSpace (c : Char) : Bool := c == ' ' || c == '\t' || c == '\n' || c == '\r'

/-- What is read from the front of `cs`: a value and the characters after it, which are fewer. -/
abbrev Reading (α : Type) (cs : List Char) : Type :=
  Option (α × { rest : List Char // rest.length < cs.length })

def skipSpaces (cs : List Char) : { rest : List Char // rest.length ≤ cs.length } :=
  ⟨cs.dropWhile isSpace, (List.dropWhile_suffix _).length_le⟩

/-- The characters after the next one, if that is `c`; blanks before it are skipped. -/
def skip? (c : Char) (cs : List Char) : Option { rest : List Char // rest.length < cs.length } :=
  match h : (skipSpaces cs).1 with
  | [] => none
  | d :: rest =>
    if d = c then
      some ⟨rest, Nat.lt_of_lt_of_le (by rw [h]; exact Nat.lt_succ_self _) (skipSpaces cs).2⟩
    else none

/-! ## Numbers -/

def fraction? : List Char → Option (List Char)
  | '.' :: cs =>
    let digits := cs.takeWhile Char.isDigit
    if digits.isEmpty then none else some ('.' :: digits)
  | _ => some []

/-- The exponent at the front, in the form in which it is kept, with the number of characters that
it takes; `readNumber` answers likewise. -/
def exponent? : List Char → Option (List Char × Nat)
  | [] => some ([], 0)
  | mark :: cs =>
    if isExponentMark mark then
      let sign := takeSign cs
      let digits := (dropSign cs).takeWhile Char.isDigit
      if digits.isEmpty then none
      else some ('e' :: ((if sign.isEmpty then ['+'] else sign) ++ digits),
        1 + sign.length + digits.length)
    else some ([], 0)

def readNumber (cs : List Char) : Option (String × Nat) :=
  let sign := if cs.head? = some '-' then ['-'] else []
  let body := cs.drop sign.length
  let whole := body.takeWhile Char.isDigit
  if whole.isEmpty || (whole.head? = some '0' && 1 < whole.length) then none
  else
    match fraction? (body.drop whole.length) with
    | none => none
    | some fraction =>
      match exponent? (body.drop (whole.length + fraction.length)) with
      | none => none
      | some (exponent, taken) =>
        some (String.ofList (sign ++ whole ++ fraction ++ exponent),
          sign.length + whole.length + fraction.length + taken)

def numeral? (text : String) : Option Json :=
  match readNumber text.toList with
  | some (kept, taken) => if taken = text.length then some (.number kept) else none
  | none => none

def ofNumeral (text : String) : Json := (numeral? text).getD (.string text)

/-! ## Strings -/

def hexDigit? (c : Char) : Option Nat :=
  if c.isDigit then some (c.toNat - '0'.toNat)
  else if 'a' ≤ c ∧ c ≤ 'f' then some (c.toNat - 'a'.toNat + 10)
  else if 'A' ≤ c ∧ c ≤ 'F' then some (c.toNat - 'A'.toNat + 10)
  else none

def hexWord? : List Char → Option Nat
  | a :: b :: c :: d :: _ => do
    return (((← hexDigit? a) * 16 + (← hexDigit? b)) * 16 + (← hexDigit? c)) * 16 + (← hexDigit? d)
  | _ => none

/-- The character that an escape by code stands for, with the number of characters that it takes
after its `u`. A character outside the basic plane is escaped by a pair of surrogates. -/
def codeEscape? (cs : List Char) : Option (Char × Nat) := do
  let word ← hexWord? cs
  if 0xD800 ≤ word ∧ word < 0xDC00 then
    match cs.drop 4 with
    | '\\' :: 'u' :: cs =>
      let low ← hexWord? cs
      if 0xDC00 ≤ low ∧ low < 0xE000 then
        return (Char.ofNat (0x10000 + (word - 0xD800) * 0x400 + (low - 0xDC00)), 10)
      else none
    | _ => none
  else if 0xDC00 ≤ word ∧ word < 0xE000 then none
  else return (Char.ofNat word, 4)

def escape? (c : Char) (cs : List Char) : Option (Char × Nat) :=
  match c with
  | '"' => some ('"', 0)
  | '\\' => some ('\\', 0)
  | '/' => some ('/', 0)
  | 'b' => some ('\x08', 0)
  | 'f' => some ('\x0c', 0)
  | 'n' => some ('\n', 0)
  | 'r' => some ('\r', 0)
  | 't' => some ('\t', 0)
  | 'u' => codeEscape? cs
  | _ => none

/-- Reads a string after its opening quote and the characters in `done`, the last of which comes
first. -/
def stringRest (done : List Char) (cs : List Char) : Option (String × List Char) :=
  match cs with
  | [] => none
  | '"' :: rest => some (String.ofList done.reverse, rest)
  | '\\' :: c :: rest =>
    match escape? c rest with
    | none => none
    | some (d, taken) => stringRest (d :: done) (rest.drop taken)
  | c :: rest => if c.toNat < 0x20 then none else stringRest (c :: done) rest
termination_by cs.length
decreasing_by
  · simp only [List.length_drop, List.length_cons]; omega
  · simp

theorem stringRest_length_lt {done cs rest : List Char} {text : String}
    (h : stringRest done cs = some (text, rest)) : rest.length < cs.length := by
  fun_induction stringRest done cs with
  | case1 => simp at h
  | case2 => simp_all
  | case3 => simp at h
  | case4 _ _ _ _ _ _ ih =>
    have := ih h
    simp only [List.length_drop] at this
    simp only [List.length_cons]
    omega
  | case5 => simp at h
  | case6 _ _ _ _ _ _ ih => exact Nat.lt_trans (ih h) (Nat.lt_succ_self _)

def readString (cs : List Char) : Reading String cs :=
  match h : stringRest [] cs with
  | none => none
  | some (text, rest) => some (text, ⟨rest, stringRest_length_lt h⟩)

/-! ## Values -/

/-- Reads `value (, value)* ]` after the items in `done`, the last of which comes first. -/
def itemsRest (value : (cs : List Char) → Reading Json cs) (done : List Json) (cs : List Char) :
    Option (List Json × List Char) :=
  match value cs with
  | none => none
  | some (item, after) =>
    match skip? ']' after.1 with
    | some rest => some ((item :: done).reverse, rest.1)
    | none =>
      match skip? ',' after.1 with
      | none => none
      | some rest => itemsRest value (item :: done) rest.1
termination_by cs.length
decreasing_by exact Nat.lt_trans rest.2 after.2

theorem itemsRest_length_lt {value : (cs : List Char) → Reading Json cs} {done items : List Json}
    {cs rest : List Char} (h : itemsRest value done cs = some (items, rest)) :
    rest.length < cs.length := by
  fun_induction itemsRest value done cs with
  | case1 => simp at h
  | case2 _ _ _ after _ last =>
    simp only [Option.some.injEq, Prod.mk.injEq] at h
    exact h.2 ▸ Nat.lt_trans last.2 after.2
  | case3 => simp at h
  | case4 _ _ _ after _ _ last _ ih => exact Nat.lt_trans (ih h) (Nat.lt_trans last.2 after.2)

def items (value : (cs : List Char) → Reading Json cs) (cs : List Char) : Reading (List Json) cs :=
  match skip? ']' cs with
  | some rest => some ([], rest)
  | none =>
    match h : itemsRest value [] cs with
    | none => none
    | some (items, rest) => some (items, ⟨rest, itemsRest_length_lt h⟩)

/-- Reads `"key" : value`. -/
def field (value : (cs : List Char) → Reading Json cs) (cs : List Char) :
    Reading (String × Json) cs :=
  match skip? '"' cs with
  | none => none
  | some opened =>
    match readString opened.1 with
    | none => none
    | some (key, closed) =>
      match skip? ':' closed.1 with
      | none => none
      | some colon =>
        match value colon.1 with
        | none => none
        | some (j, last) =>
          some ((key, j), ⟨last.1, Nat.lt_trans last.2
            (Nat.lt_trans colon.2 (Nat.lt_trans closed.2 opened.2))⟩)

def fieldsRest (value : (cs : List Char) → Reading Json cs) (done : Fields) (cs : List Char) :
    Option (List (String × Json) × List Char) :=
  match skip? '}' cs with
  | some rest => some (done.toList, rest.1)
  | none =>
    match skip? ',' cs with
    | none => none
    | some comma =>
      match field value comma.1 with
      | none => none
      | some ((key, j), after) => fieldsRest value (done.set key j) after.1
termination_by cs.length
decreasing_by exact Nat.lt_trans after.2 comma.2

theorem fieldsRest_length_lt {value : (cs : List Char) → Reading Json cs}
    {done : Fields} {fields : List (String × Json)} {cs rest : List Char}
    (h : fieldsRest value done cs = some (fields, rest)) : rest.length < cs.length := by
  fun_induction fieldsRest value done cs with
  | case1 _ _ last =>
    simp only [Option.some.injEq, Prod.mk.injEq] at h
    exact h.2 ▸ last.2
  | case2 => simp at h
  | case3 => simp at h
  | case4 _ _ _ comma _ _ _ after _ ih =>
    exact Nat.lt_trans (ih h) (Nat.lt_trans after.2 comma.2)

/-- The key of a number in the form of an object. Such an object begins with it, and the text of
the number, as a string, is all that it holds. -/
def numberKey : String := "$serde_json::private::Number"

def disguised? : Json → Option Json
  | .string text => numeral? text
  | _ => none

def readObject (value : (cs : List Char) → Reading Json cs) (cs : List Char) : Reading Json cs :=
  match skip? '}' cs with
  | some rest => some (.object [], rest)
  | none =>
    match field value cs with
    | none => none
    | some ((key, j), after) =>
      if key = numberKey then
        match disguised? j, skip? '}' after.1 with
        | some j, some rest => some (j, ⟨rest.1, Nat.lt_trans rest.2 after.2⟩)
        | _, _ => none
      else
        match h : fieldsRest value (Fields.set ∅ key j) after.1 with
        | none => none
        | some (fields, rest) =>
          some (.object fields, ⟨rest, Nat.lt_trans (fieldsRest_length_lt h) after.2⟩)

/-- What is read after a character belongs to what is read from that character on. -/
def Reading.cons {α β : Type} {c : Char} {cs : List Char} (f : α → β) (r : Reading α cs) :
    Reading β (c :: cs) :=
  r.map fun (a, rest) => (f a, ⟨rest.1, Nat.lt_trans rest.2 (Nat.lt_succ_self _)⟩)

def word {c : Char} (letters : List Char) (j : Json) (cs : List Char) : Reading Json (c :: cs) :=
  if letters.isPrefixOf cs then
    some (j, ⟨cs.drop letters.length, by simp only [List.length_drop, List.length_cons]; omega⟩)
  else none

/-- Reads a value that begins with `c`. What nests one deeper is read by `inner`, if anything
may. -/
def valueFrom (inner : Option ((cs : List Char) → Reading Json cs)) (c : Char) (cs : List Char) :
    Reading Json (c :: cs) :=
  match c with
  | 'n' => word ['u', 'l', 'l'] .null cs
  | 't' => word ['r', 'u', 'e'] (.bool true) cs
  | 'f' => word ['a', 'l', 's', 'e'] (.bool false) cs
  | '"' => (readString cs).cons .string
  | '[' => match inner with
    | some value => (items value cs).cons Json.array
    | none => none
  | '{' => match inner with
    | some value => (readObject value cs).cons id
    | none => none
  | c =>
    match readNumber (c :: cs) with
    | none => none
    | some (text, taken) =>
      some (.number text,
        ⟨cs.drop (taken - 1), by simp only [List.length_drop, List.length_cons]; omega⟩)

/-- Reads a value in which arrays and objects nest at most `depth` deep, after blanks. -/
def value (depth : Nat) (cs : List Char) : Reading Json cs :=
  match h : (skipSpaces cs).1 with
  | [] => none
  | c :: rest =>
    let inner := match depth with
      | 0 => none
      | depth + 1 => some (value depth)
    (valueFrom inner c rest).map fun (j, last) =>
      (j, ⟨last.1, Nat.lt_of_lt_of_le last.2 (h ▸ (skipSpaces cs).2)⟩)

def parse? (text : String) : Option Json :=
  match value maxDepth text.toList with
  | some (j, rest) => if rest.1.all isSpace then some j else none
  | none => none

end EquationSystem.Json
