import EquationSystem.Proofs.Json.Printing
import EquationSystem.Proofs.Problem.Registering

/-!
# Problems with numbers

A solution of numbers is printed as an object of numbers, with the digits of the values. Read as a
problem, it has the same solution and is printed as the same text. A number of a problem is
registered as the number that it denotes, however it is written, and is printed as a number that
denotes the same, unless its scale without the zeros at its end is none of 64 bits.
-/

namespace EquationSystem.Problem

open Json (Literal)

/-! ## Printing numbers -/

theorem ofNumeral_chars (l : Literal) : Json.ofNumeral (String.ofList l.chars) = l.kept.json := by
  have read : Json.readNumber (l.chars ++ []) = _ := l.readNumber_append misses_nil
  rw [List.append_nil] at read
  rw [Json.ofNumeral, Json.numeral?, String.toList_ofList, read]
  dsimp only
  rw [if_pos (String.length_ofList).symm]
  rfl

/-- The number is printed as the literal. -/
structure Prints (x : Decimal) (l : Literal) : Prop where
  json : valueToJson (.number x) = l.json
  decimal : l.decimal = x
  inRange : x.ScaleInRange → l.InRange

/-- A number that shows its scale is printed with its digits. -/
theorem exists_prints {x : Decimal} (h : x.ShowsScale) : ∃ l, Prints x l := by
  obtain ⟨l, render, decimal, inRange⟩ := x.exists_literal h
  refine ⟨l.kept, ?_, l.decimal_kept.trans decimal, fun h => Literal.inRange_kept (inRange h)⟩
  rw [valueToJson, render, ofNumeral_chars]

theorem exists_map_eq {α β : Type} {f : α → β} {p : α → Prop} {bs : List β}
    (h : ∀ b ∈ bs, ∃ a, f a = b ∧ p a) : ∃ as : List α, as.map f = bs ∧ ∀ a ∈ as, p a := by
  induction bs with
  | nil => exact ⟨[], rfl, List.forall_mem_nil p⟩
  | cons b bs ih =>
    obtain ⟨⟨a, ha, hp⟩, others⟩ := List.forall_mem_cons.1 h
    obtain ⟨as, rfl, hps⟩ := ih others
    exact ⟨a :: as, by rw [List.map_cons, ha], List.forall_mem_cons.2 ⟨hp, hps⟩⟩

/-- The values of a solution that numbers denote. -/
def numberValues (numbers : List (String × Literal)) : Solution :=
  numbers.map fun field => (field.1, .number field.2.decimal)

/-- A solution of numbers is printed as an object of numbers with their digits. -/
theorem exists_printed {solution : Solution}
    (numbers : ∀ entry ∈ solution, ∃ x, entry.2 = .number x ∧ x.ShowsScale) :
    ∃ printed, numberValues printed = solution ∧
      solutionToJson solution = .object (printed.map fun field => (field.1, field.2.json)) ∧
      ∀ field ∈ printed, Prints field.2.decimal field.2 := by
  obtain ⟨printed, rfl, prints⟩ : ∃ printed, numberValues printed = solution ∧
      ∀ field ∈ printed, Prints field.2.decimal field.2 := by
    refine exists_map_eq fun entry hentry => ?_
    obtain ⟨name, value⟩ := entry
    obtain ⟨x, rfl, shows⟩ := numbers _ hentry
    obtain ⟨l, prints⟩ := exists_prints shows
    cases prints.decimal
    exact ⟨(name, l), rfl, prints⟩
  refine ⟨printed, rfl, ?_, prints⟩
  rw [solutionToJson, numberValues, List.map_map]
  congr 1
  exact List.map_congr_left fun field hfield => Prod.ext rfl (prints field hfield).json

/-! ## Solving -/

/-- The equations of the problem have the solution. -/
def Solves (config : Config) (text : String) (solution : Solution) : Prop :=
  ∃ equations s, read text = .ok equations ∧ register (.empty config) equations = .ok s ∧
    s.solve.1.result = .ok solution

variable {options : Options} {text : String} {solution : Solution}

theorem Solves.unique {config : Config} {solution' : Solution} (h : Solves config text solution)
    (h' : Solves config text solution') : solution = solution' := by
  obtain ⟨equations, s, hread, hregister, hsolve⟩ := h
  obtain ⟨equations', s', hread', hregister', hsolve'⟩ := h'
  cases hread.symm.trans hread'
  cases hregister.symm.trans hregister'
  exact Except.ok.inj (hsolve.symm.trans hsolve')

/-- The values are printed where there is a solution. -/
theorem answer_ok_iff (values : options.order = false) {j : Json} :
    answer options text = .ok j ↔
      ∃ solution, Solves ⟨options.debug⟩ text solution ∧ j = solutionToJson solution := by
  simp only [answer, Parser.bind_eq_ok_iff, values, Bool.false_eq_true, if_false]
  constructor
  · rintro ⟨equations, hread, s, hregister, answered⟩
    cases hsolve : s.solve.1.result with
    | ok solution =>
      rw [hsolve] at answered
      cases answered
      exact ⟨solution, ⟨equations, s, hread, hregister, hsolve⟩, rfl⟩
    | error e =>
      rw [hsolve] at answered
      cases answered
  · rintro ⟨solution, ⟨equations, s, hread, hregister, hsolve⟩, rfl⟩
    refine ⟨equations, hread, s, hregister, ?_⟩
    rw [hsolve]
    rfl

theorem run_of_solves (values : options.order = false)
    (h : Solves ⟨options.debug⟩ text solution) :
    run options text = ⟨0, (solutionToJson solution).pretty ++ "\n", ""⟩ := by
  rw [run, (answer_ok_iff values).2 ⟨solution, h, rfl⟩]
  rfl

theorem exists_solves (values : options.order = false) (h : (run options text).exitCode = 0) :
    ∃ solution, Solves ⟨options.debug⟩ text solution := by
  rw [run] at h
  cases answered : answer options text with
  | error failure =>
    rw [answered] at h
    cases h
  | ok j =>
    obtain ⟨solution, solves, -⟩ := (answer_ok_iff values).1 answered
    exact ⟨solution, solves⟩

theorem read_of_objectText {fields : List (String × Json.Entry)}
    (h : Json.ObjectText text.toList fields)
    (proper : fields.head?.map Prod.fst ≠ some Json.numberKey) :
    read text = .ok (Json.merge (Json.values fields)).toList := by
  rw [read, h.parse?_eq proper]

theorem values_entries (numbers : List (String × Literal)) :
    Json.values (numbers.map fun field => (field.1, field.2.entry)) = numberFields numbers := by
  rw [Json.values, List.map_map]
  rfl

theorem objectText_printed (printed : List (String × Literal)) :
    Json.ObjectText
      ((Json.object (printed.map fun field => (field.1, field.2.json))).pretty ++ "\n").toList
      (printed.map fun field => (field.1, field.2.entry)) := by
  rw [String.toList_append, Json.pretty, String.toList_ofList]
  exact Json.objectText_pretty printed

theorem mem_numberValues_iff {numbers : List (String × Literal)} {name : String} {value : Value} :
    (name, value) ∈ numberValues numbers ↔
      ∃ l : Literal, (name, l) ∈ numbers ∧ value = .number l.decimal := by
  simp only [numberValues, List.mem_map, Prod.exists, Prod.mk.injEq]
  constructor
  · rintro ⟨_, l, hl, rfl, rfl⟩
    exact ⟨l, hl, rfl⟩
  · rintro ⟨l, hl, rfl⟩
    exact ⟨name, l, hl, rfl, rfl⟩

theorem names_nodup_of_values {printed : List (String × Literal)} {b : Bindings}
    (h : numberValues printed = b.toList) : (printed.map Prod.fst).Nodup := by
  have names := b.names_nodup
  rwa [← h, numberValues, List.map_map] at names

/-- What is printed of a solution of numbers, read as a problem, has the solution. -/
theorem Solves.again {config : Config} (h : Solves config text solution)
    (numbers : ∀ entry ∈ solution, ∃ x, entry.2 = .number x)
    (proper : solution.head?.map Prod.fst ≠ some Json.numberKey) :
    Solves config ((solutionToJson solution).pretty ++ "\n") solution := by
  obtain ⟨equations, s, -, hregister, hsolve⟩ := h
  obtain ⟨-, c, -, presented⟩ := (consistent_of_register hregister).solve_ok_iff.1 hsolve
  rw [← Bindings.toList_present] at presented
  subst presented
  have presented : ∀ entry ∈ c.present.toList, ∃ v : Value, v.present = entry.2 := by
    intro entry hentry
    rw [Bindings.toList_present] at hentry
    obtain ⟨bound, -, rfl⟩ := List.mem_map.1 hentry
    exact ⟨bound.2, rfl⟩
  have shown : ∀ entry ∈ c.present.toList, ∃ x, entry.2 = .number x ∧ x.ShowsScale := by
    intro entry hentry
    obtain ⟨x, number⟩ := numbers entry hentry
    obtain ⟨v, present⟩ := presented entry hentry
    exact ⟨x, number, Value.showsScale_of_present (present.trans number)⟩
  obtain ⟨printed, values, json, prints⟩ := exists_printed shown
  have distinct := names_nodup_of_values values
  have inRange : ∀ field ∈ printed, field.2.InRange := by
    intro field hfield
    obtain ⟨v, present⟩ := presented (field.1, .number field.2.decimal)
      (values ▸ mem_numberValues_iff.2 ⟨field.2, hfield, rfl⟩)
    exact (prints field hfield).inRange (Value.scaleInRange_of_present present)
  obtain ⟨s', b, registered, solved, bound⟩ := solve_numbers config distinct inRange
  refine ⟨_, s', ?_, registered, ?_⟩
  · rw [json]
    refine (read_of_objectText (objectText_printed printed) ?_).trans (congrArg _ ?_)
    · rw [← values, numberValues] at proper
      simpa using proper
    · rw [values_entries]
      exact Json.toList_merge (names_numberFields printed ▸ distinct)
  · have same : ∀ name, b.get? name = c.present.get? name := by
      intro name
      ext value
      rw [bound, ← mem_numberValues_iff, values, Bindings.mem_toList_iff]
    rw [solved, Bindings.toList_present, Bindings.toList_eq_of_get?_eq same,
      ← Bindings.toList_present, Bindings.present_present]

/-! ## Numbers of a problem -/

theorem last?_values (fields : List (String × Json.Entry)) (key : String) :
    Json.last? (Json.values fields) key = (Json.last? fields key).map Json.Entry.value :=
  Json.last?_map fields Json.Entry.value key

/-- A number that is the last value of its key is registered as the number that it denotes. -/
theorem registered_number {fields : List (String × Json.Entry)} {key : String} {l : Literal}
    (last : Json.last? fields key = some l.entry) (h : l.InRange) :
    (key, Json.number l.keptText) ∈ (Json.merge (Json.values fields)).toList ∧
    (∀ s, register s [(key, .number l.keptText)] = .ok (s.insert (numberEquation key l))) ∧
    ∀ config s, register (.empty config) (Json.merge (Json.values fields)).toList = .ok s →
      s.equation? key = some (numberEquation key l) := by
  have held : (key, Json.number l.keptText) ∈ (Json.merge (Json.values fields)).toList := by
    rw [Json.mem_merge_iff, last?_values, last]
    rfl
  refine ⟨held, fun s => ?_, fun config s registered => ?_⟩
  · exact register_ok_iff.2 ⟨_, .cons (registers_number h) .nil, rfl⟩
  · exact equation?_of_register registered (Json.keys_merge_nodup _) held (registers_number h)

/-- The numbers of a problem that count are held, each once. -/
theorem exists_held (numbers : List (String × Literal)) :
    ∃ held, numberFields held = (Json.merge (numberFields numbers)).toList ∧
      (held.map Prod.fst).Nodup ∧
      ∀ key l, (key, l) ∈ held ↔ Json.last? numbers key = some l := by
  have last (key : String) : Json.last? (numberFields numbers) key =
      (Json.last? numbers key).map fun l => .number l.keptText :=
    Json.last?_map numbers (fun l => Json.number l.keptText) key
  obtain ⟨held, fields, hheld⟩ : ∃ held,
      numberFields held = (Json.merge (numberFields numbers)).toList ∧
      ∀ field ∈ held, Json.last? numbers field.1 = some field.2 := by
    refine exists_map_eq fun entry hentry => ?_
    obtain ⟨key, j⟩ := entry
    rw [Json.mem_merge_iff, last] at hentry
    obtain ⟨l, hl, rfl⟩ := Option.map_eq_some_iff.1 hentry
    exact ⟨(key, l), rfl, hl⟩
  refine ⟨held, fields, ?_, fun key l => ⟨fun h => hheld _ h, fun h => ?_⟩⟩
  · rw [← names_numberFields, fields]
    exact Json.keys_merge_nodup _
  · have field : (key, Json.number l.keptText) ∈ numberFields held := by
      rw [fields, Json.mem_merge_iff, last, h]
      rfl
    obtain ⟨⟨key', l'⟩, hl', same⟩ := List.mem_map.1 field
    cases congrArg Prod.fst same
    have known := hheld _ hl'
    rw [h] at known
    cases known
    exact hl'

section
variable (config : Config) {numbers : List (String × Literal)}
  (h : Json.ObjectText text.toList (numbers.map fun field => (field.1, field.2.entry)))
  (proper : numbers.head?.map Prod.fst ≠ some Json.numberKey)
  (inRange : ∀ key l, Json.last? numbers key = some l → l.InRange)
include h proper inRange

/-- A problem of numbers is solved: every name has the last number of its key. -/
theorem exists_solves_numbers : ∃ b : Bindings, Solves config text b.present.toList ∧
    ∀ name value, b.get? name = some value ↔
      ∃ l : Literal, Json.last? numbers name = some l ∧ value = .number l.decimal := by
  obtain ⟨held, fields, distinct, mem_held⟩ := exists_held numbers
  obtain ⟨s, b, registered, solved, bound⟩ := solve_numbers config distinct
    fun field hfield => inRange field.1 field.2 ((mem_held _ _).1 hfield)
  refine ⟨b, ⟨_, s, read_of_objectText h (by simpa using proper), ?_, solved⟩, ?_⟩
  · rwa [values_entries, ← fields]
  · simpa only [mem_held] using bound

theorem exists_number_of_solves {solution : Solution} (solves : Solves config text solution) :
    ∀ entry ∈ solution, ∃ l : Literal,
      Json.last? numbers entry.1 = some l ∧ entry.2 = .number l.decimal.present := by
  obtain ⟨b, solves', bound⟩ := exists_solves_numbers config h proper inRange
  intro entry hentry
  obtain ⟨name, value⟩ := entry
  rw [solves.unique solves', Bindings.toList_present, Solver.mem_presented_iff] at hentry
  obtain ⟨found, hfound, rfl⟩ := hentry
  obtain ⟨l, hl, rfl⟩ := (bound name found).1 hfound
  exact ⟨l, hl, rfl⟩

/-- What is printed for a problem of numbers is an object of these numbers as they are presented. -/
theorem exists_printed_numbers : ∃ solution printed, Solves config text solution ∧
    Json.ObjectText ((solutionToJson solution).pretty ++ "\n").toList
      (printed.map fun field : String × Literal => (field.1, field.2.entry)) ∧
    ∀ key, (Json.last? printed key).map Literal.decimal =
      (Json.last? numbers key).map fun l => l.decimal.present := by
  obtain ⟨b, solves, bound⟩ := exists_solves_numbers config h proper inRange
  have presented := exists_number_of_solves config h proper inRange solves
  obtain ⟨printed, values, json, -⟩ := exists_printed fun entry hentry => by
    obtain ⟨l, -, number⟩ := presented entry hentry
    exact ⟨_, number, l.decimal.showsScale_present⟩
  refine ⟨_, printed, solves, json ▸ objectText_printed printed, fun key => ?_⟩
  cases hp : Json.last? printed key with
  | some l' =>
    obtain ⟨l, hl, number⟩ := presented (key, .number l'.decimal)
      (values ▸ mem_numberValues_iff.2 ⟨l', Json.mem_of_last? hp, rfl⟩)
    rw [hl]
    exact congrArg some (Value.number.inj number)
  | none =>
    cases hn : Json.last? numbers key with
    | none => rfl
    | some l =>
      have known : (key, (Value.number l.decimal).present) ∈ b.present.toList := by
        rw [Bindings.toList_present, Solver.mem_presented_iff]
        exact ⟨_, (bound key _).2 ⟨l, hn, rfl⟩, rfl⟩
      rw [← values, mem_numberValues_iff] at known
      obtain ⟨l', hl', -⟩ := known
      rw [(Json.last?_eq_some_iff (names_nodup_of_values values)).2 hl'] at hp
      cases hp

end

/-- A problem of one number is solved by that number as it is presented. -/
theorem solves_single (config : Config) {key : String} {l : Literal}
    (h : Json.ObjectText text.toList [(key, l.entry)]) (proper : key ≠ Json.numberKey)
    (inRange : l.InRange) : Solves config text [(key, .number l.decimal.present)] := by
  have last (name : String) (l' : Literal) :
      Json.last? [(key, l)] name = some l' ↔ name = key ∧ l' = l := by
    have distinct : ([(key, l)].map Prod.fst).Nodup := List.nodup_singleton key
    rw [Json.last?_eq_some_iff distinct, List.mem_singleton, Prod.mk.injEq]
  have h : Json.ObjectText text.toList ([(key, l)].map fun field => (field.1, field.2.entry)) := h
  obtain ⟨b, solves, bound⟩ := exists_solves_numbers config h
    (fun same => proper (Option.some.inj same))
    fun name l' found => ((last name l').1 found).2 ▸ inRange
  have same : ∀ name, b.get? name = (Bindings.insert ∅ key (.number l.decimal)).get? name := by
    intro name
    ext value
    simp only [bound, last, Bindings.get?_insert]
    split
    · next here => simp [here, eq_comm]
    · next other => simp [Ne.symm other]
  rwa [Bindings.toList_present, Bindings.toList_eq_of_get?_eq same] at solves

/-- Where the values of a problem are numbers, what is printed of them is a problem that is printed in
the same way. A number of a problem is never refused, and is registered as a constant of the same
value. A problem of numbers is solved and printed as an object of numbers with the same keys, which
has for a key a number of the same value if this needs no scale beyond 64 bits without the zeros at
its end. Exponents and scales of the numbers are in range, and no object begins with the key that
stands for a number. -/
theorem numbers_spec (options : Options) (values : options.order = false) (text : String) :
    ((run options text).exitCode = 0 → ∃ solution, Solves ⟨options.debug⟩ text solution ∧
      ((∀ entry ∈ solution, ∃ x, entry.2 = .number x) →
        solution.head?.map Prod.fst ≠ some Json.numberKey →
        run options (run options text).stdout = run options text)) ∧
    (∀ fields, Json.ObjectText text.toList fields →
      fields.head?.map Prod.fst ≠ some Json.numberKey → ∃ equations, read text = .ok equations ∧
        ∀ key (l : Literal), Json.last? fields key = some l.entry → l.InRange →
          (key, .number l.keptText) ∈ equations ∧ ∃ x, x.value = l.value ∧
            (∀ s, register s [(key, .number l.keptText)] =
              .ok (s.insert ⟨key, l.keptText, .constant x⟩)) ∧
            ∀ config s, register (.empty config) equations = .ok s →
              s.equation? key = some ⟨key, l.keptText, .constant x⟩) ∧
    ∀ numbers : List (String × Literal),
      Json.ObjectText text.toList (numbers.map fun field => (field.1, field.2.entry)) →
      numbers.head?.map Prod.fst ≠ some Json.numberKey →
      (∀ key l, Json.last? numbers key = some l → l.InRange) →
      (run options text).exitCode = 0 ∧ ∃ printed : List (String × Literal),
        Json.ObjectText (run options text).stdout.toList
          (printed.map fun field => (field.1, field.2.entry)) ∧
        ∀ key, (Json.last? printed key).isSome = (Json.last? numbers key).isSome ∧
          ((∀ l ∈ Json.last? numbers key, l.decimal.stripped.ScaleInRange) →
            (Json.last? printed key).map Literal.value =
              (Json.last? numbers key).map Literal.value) := by
  refine ⟨fun solved => ?_, fun fields h proper => ?_, fun numbers h proper inRange => ?_⟩
  · obtain ⟨solution, solves⟩ := exists_solves values solved
    refine ⟨solution, solves, fun numbers proper => ?_⟩
    rw [run_of_solves values solves, run_of_solves values (solves.again numbers proper)]
  · refine ⟨_, read_of_objectText h proper, fun key l last inRange => ?_⟩
    obtain ⟨held, accepted, registered⟩ := registered_number last inRange
    exact ⟨held, l.decimal, l.value_decimal, accepted, registered⟩
  · obtain ⟨solution, printed, solves, written, same⟩ :=
      exists_printed_numbers ⟨options.debug⟩ h proper inRange
    rw [run_of_solves values solves]
    refine ⟨rfl, printed, written, fun key => ⟨?_, fun range => ?_⟩⟩
    · simpa using congrArg Option.isSome (same key)
    · have shown := same key
      cases hn : Json.last? numbers key with
      | none => simpa [hn] using shown
      | some l =>
        rw [hn] at shown
        obtain ⟨l', hl', decimal⟩ := Option.map_eq_some_iff.1 shown
        rw [hl', Option.map_some, Option.map_some, ← l'.value_decimal, decimal,
          Decimal.value_present (range l hn), l.value_decimal]

/-- The number `1E2`. -/
def hundred : Literal where
  whole := ['1']
  places := []
  exponent? := some ⟨'E', .none, ['2'], rfl, by decide, nofun⟩
  hwhole := by decide
  hplaces := List.forall_mem_nil _
  nonempty := nofun
  negative := false
  hleading := nofun
  hzero := nofun

/-- The number `0.50`. -/
def half : Literal where
  whole := ['0']
  places := ['5', '0']
  exponent? := none
  hwhole := by decide
  hplaces := by decide
  nonempty := nofun
  negative := false
  hleading := nofun
  hzero := fun _ => Nat.le_refl 1

/-- The number `7.0`. -/
def seven : Literal where
  whole := ['7']
  places := ['0']
  exponent? := none
  hwhole := by decide
  hplaces := by decide
  nonempty := nofun
  negative := false
  hleading := nofun
  hzero := fun _ => Nat.le_refl 1

theorem isExponentMark_lower : isExponentMark 'e' = true := rfl

/-- The exponent `e9223372036854775807`, with a sign. -/
def mostExponent (sign : Sign) : Exponent where
  mark := 'e'
  sign := sign
  digits := Nat.toDigits 10 0x7fffffffffffffff
  isMark := isExponentMark_lower
  hdigits := digits_toDigits _
  nonempty := nofun

/-- The number `100e9223372036854775807`. -/
def huge : Literal where
  whole := ['1', '0', '0']
  places := []
  exponent? := some (mostExponent .none)
  hwhole := by decide
  hplaces := List.forall_mem_nil _
  nonempty := nofun
  negative := false
  hleading := nofun
  hzero := nofun

/-- The number `1e-9223372036854775807`. -/
def tiny : Literal where
  whole := ['1']
  places := []
  exponent? := some (mostExponent .minus)
  hwhole := by decide
  hplaces := List.forall_mem_nil _
  nonempty := nofun
  negative := false
  hleading := nofun
  hzero := nofun

/-- A problem of a number that has two zeros too many. -/
def hugeText : String := "\x7b\"a\": 100e9223372036854775807\x7d"

/-- What is printed for it. -/
def tinyText : String := "\x7b\n  \"a\": 1e-9223372036854775807\n\x7d\n"

/-- A problem of two numbers. -/
def priceList : String := "\x7b\"b\": 1E2, \"a\": 0.50\x7d"

def prices : List (String × Literal) := [("b", hundred), ("a", half)]

/-- A problem of a number and a formula that refers to it. -/
def linkedText : String := "\x7b\"a\": \"x\", \"x\": 7.0\x7d"

theorem stringText_letter {c : Char} (plain : c ≠ '"' ∧ c ≠ '\\' ∧ ¬c.toNat < 0x20) :
    Json.StringText [c] [c] :=
  .plain plain.1 plain.2.1 plain.2.2 .nil

/-- The formula that is the name `x`. -/
def nameEntry : Json.Entry where
  chars := ['"', 'x', '"']
  value := .string "x"
  reads := Json.reads_string (stringText_letter (by decide))

section
variable (c c' : Char) (plain : c ≠ '"' ∧ c ≠ '\\' ∧ ¬c.toNat < 0x20)
  (plain' : c' ≠ '"' ∧ c' ≠ '\\' ∧ ¬c'.toNat < 0x20) (e e' : Json.Entry)
include plain

theorem fieldText_letter {before : List Char} (h : Json.Blanks before) :
    Json.FieldText (before ++ '"' :: c :: '"' :: ':' :: ' ' :: e.chars) (String.ofList [c], e) :=
  @Json.FieldText.mk before [] [' '] [c] (String.ofList [c]) e h
    (String.toList_ofList ▸ stringText_letter plain) (by decide) (by decide)

theorem objectText_single :
    Json.ObjectText ('{' :: '"' :: c :: '"' :: ':' :: ' ' :: (e.chars ++ ['}']))
      [(String.ofList [c], e)] := by
  have nothing : Json.Blanks [] := by decide
  have closed : Json.FieldsText ['}'] [] := .close nothing
  have text := Json.ObjectText.fields nothing (fieldText_letter c plain e nothing) closed nothing
  simpa using text

include plain' in
theorem objectText_pair :
    Json.ObjectText ('{' :: '"' :: c :: '"' :: ':' :: ' ' :: (e.chars ++ ',' :: ' ' :: '"' ::
      c' :: '"' :: ':' :: ' ' :: (e'.chars ++ ['}'])))
      [(String.ofList [c], e), (String.ofList [c'], e')] := by
  have nothing : Json.Blanks [] := by decide
  have space : Json.Blanks [' '] := by decide
  have closed : Json.FieldsText ['}'] [] := .close nothing
  have others := Json.FieldsText.next nothing (fieldText_letter c' plain' e' space) closed
  have text := Json.ObjectText.fields nothing (fieldText_letter c plain e nothing) others nothing
  simpa using text

end

theorem objectText_priceList : Json.ObjectText priceList.toList
    (prices.map fun field => (field.1, field.2.entry)) :=
  objectText_pair 'b' 'a' (by decide) (by decide) hundred.entry half.entry

theorem objectText_linkedText :
    Json.ObjectText linkedText.toList [("a", nameEntry), ("x", seven.entry)] :=
  objectText_pair 'a' 'x' (by decide) (by decide) nameEntry seven.entry

theorem objectText_hugeText : Json.ObjectText hugeText.toList
    ([("a", huge)].map fun field => (field.1, field.2.entry)) :=
  objectText_single 'a' (by decide) huge.entry

theorem inRange_huge : huge.InRange := by constructor <;> decide

theorem inRange_hundred : hundred.InRange := by constructor <;> decide

theorem inRange_half : half.InRange := by constructor <;> decide

theorem inRange_seven : seven.InRange := by constructor <;> decide

theorem mem_prices {name : String} {l : Literal} (h : Json.last? prices name = some l) :
    name = "b" ∧ l = hundred ∨ name = "a" ∧ l = half := by
  have price : (name, l) ∈ prices := Json.mem_of_last? h
  simpa [prices] using price

/-- The two zeros are taken off, which leads beyond the least scale and around to the largest. -/
theorem huge_printed_tiny : let options : Options := ⟨"-", false, false⟩
    Json.ObjectText hugeText.toList [("a", huge.entry)] ∧ huge.InRange ∧
      run options hugeText = ⟨0, tinyText, ""⟩ ∧
      Json.ObjectText tinyText.toList [("a", tiny.entry)] ∧
      tiny.value < huge.value := by
  intro options
  have solves := solves_single ⟨options.debug⟩ objectText_hugeText (by decide) inRange_huge
  have wrapped : huge.decimal.present = ⟨1, 0x7fffffffffffffff⟩ := by decide +kernel
  have printed : (solutionToJson [("a", .number ⟨1, 0x7fffffffffffffff⟩)]).pretty ++ "\n" =
      tinyText := by decide +kernel
  have written : (Json.object ([("a", tiny)].map fun field => (field.1, field.2.json))).pretty ++
      "\n" = tinyText := by decide +kernel
  refine ⟨objectText_hugeText, inRange_huge, ?_, written ▸ objectText_printed [("a", tiny)], ?_⟩
  · rw [run_of_solves rfl solves, wrapped, printed]
  · rw [← tiny.value_decimal, ← huge.value_decimal]
    calc tiny.decimal.value ≤ (1 : ℤ) := Decimal.value_le_digits (by decide) (by decide)
      _ < (100 : ℤ) := Int.cast_lt.2 (by decide)
      _ ≤ huge.decimal.value := Decimal.digits_le_value (by decide) (by decide)

theorem numbers_spec_priceList : let options : Options := ⟨"-", false, false⟩
    (run options priceList).exitCode = 0 ∧
      run options (run options priceList).stdout = run options priceList ∧
      (∃ printed : List (String × Literal),
        Json.ObjectText (run options priceList).stdout.toList
          (printed.map fun field => (field.1, field.2.entry)) ∧
        ∀ key, (Json.last? printed key).map Literal.value =
          (Json.last? prices key).map Literal.value) ∧
      ∃ equations s x, read linkedText = .ok equations ∧
        register (.empty ⟨false⟩) equations = .ok s ∧
        s.equation? "x" = some ⟨"x", "7.0", .constant x⟩ ∧ x.value = 7 := by
  intro options
  obtain ⟨again, -, printing⟩ := numbers_spec options rfl priceList
  have inRange : ∀ name l, Json.last? prices name = some l → l.InRange := by
    intro name l last
    rcases mem_prices last with ⟨-, rfl⟩ | ⟨-, rfl⟩
    · exact inRange_hundred
    · exact inRange_half
  obtain ⟨exit, printed, written, shown⟩ :=
    printing prices objectText_priceList (by decide) inRange
  have same : ∀ key, (Json.last? printed key).map Literal.value =
      (Json.last? prices key).map Literal.value := by
    refine fun key => (shown key).2 fun l last => ?_
    rcases mem_prices last with ⟨-, rfl⟩ | ⟨-, rfl⟩ <;> decide +kernel
  obtain ⟨solution, solves, again⟩ := again exit
  have numbers := exists_number_of_solves _ objectText_priceList (by decide) inRange solves
  refine ⟨exit, again (fun entry hentry => ?_) fun first => ?_,
    ⟨printed, written, same⟩, ?_⟩
  · obtain ⟨l, -, number⟩ := numbers entry hentry
    exact ⟨_, number⟩
  · obtain ⟨entry, first, key⟩ := Option.map_eq_some_iff.1 first
    obtain ⟨l, last, -⟩ := numbers entry (List.mem_of_head? first)
    rw [key] at last
    rcases mem_prices last with ⟨other, -⟩ | ⟨other, -⟩ <;> revert other <;> decide
  · obtain ⟨-, registered, -⟩ := numbers_spec options rfl linkedText
    obtain ⟨equations, hread, registered⟩ := registered _ objectText_linkedText (by decide)
    obtain ⟨-, x, value, -, registered⟩ := registered "x" seven rfl inRange_seven
    have fields : read linkedText = .ok [("a", .string "x"), ("x", .number "7.0")] :=
      (read_of_objectText objectText_linkedText (by decide)).trans
        (congrArg _ (Json.toList_merge (by decide)))
    cases hread.symm.trans fields
    obtain ⟨name, number⟩ := Solver.read_linked ⟨false⟩
    have first : Registers ⟨false⟩ ("a", .string "x")
      ⟨"a", "x", .computed (.reference "x") (Names.insert ∅ "x")⟩ := ⟨rfl, rfl, name⟩
    have second : Registers ⟨false⟩ ("x", .number "7.0") ⟨"x", "7.0", .constant ⟨70, 1⟩⟩ :=
      ⟨rfl, rfl, number⟩
    have added : register (.empty ⟨false⟩) [("a", .string "x"), ("x", .number "7.0")] = .ok _ :=
      register_ok_iff.2 ⟨_, .cons first (.cons second .nil), rfl⟩
    refine ⟨_, _, x, fields, added, registered _ _ added, ?_⟩
    have decimal : seven.decimal = ⟨70, 1⟩ := rfl
    rw [value, ← seven.value_decimal, decimal]
    norm_num [Decimal.value]

end EquationSystem.Problem
