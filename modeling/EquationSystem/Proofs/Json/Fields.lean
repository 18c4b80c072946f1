import EquationSystem.Json.Fields
import Mathlib.Data.List.Induction

/-!
# Fields of an object, one after the other

What an object holds for a key is the value of the last field with the key, and it holds every key
once.
-/

namespace EquationSystem.Json

/-- The value of the last field with a key. -/
def last? {α : Type} (fields : List (String × α)) (key : String) : Option α :=
  fields.reverse.lookup key

/-- The fields of an object in which `fields` stand one after the other. -/
def merge (fields : List (String × Json)) : Fields :=
  fields.foldl (fun done field => done.set field.1 field.2) ∅

section
variable {α β : Type} {fields : List (String × α)} {key : String}

theorem last?_concat (fields : List (String × α)) (other : String) (a : α) (key : String) :
    last? (fields ++ [(other, a)]) key = if key = other then some a else last? fields key := by
  rw [last?, List.reverse_concat, List.lookup_cons]
  by_cases same : key = other
  · rw [if_pos same, beq_iff_eq.2 same]
  · rw [if_neg same, beq_eq_false_iff_ne.2 same]
    rfl

theorem last?_map (fields : List (String × α)) (f : α → β) (key : String) :
    last? (fields.map fun field => (field.1, f field.2)) key = (last? fields key).map f := by
  induction fields using List.reverseRecOn with
  | nil => rfl
  | append_singleton fields field ih =>
    rw [List.map_append, List.map_singleton, last?_concat, last?_concat, ih]
    split <;> rfl

theorem mem_of_last? {a : α} (h : last? fields key = some a) : (key, a) ∈ fields := by
  induction fields using List.reverseRecOn with
  | nil => cases h
  | append_singleton fields field ih =>
    rw [last?_concat] at h
    split at h
    · next same =>
      cases h
      exact List.mem_append_right _ (List.mem_singleton.2 (Prod.ext same rfl))
    · exact List.mem_append_left _ (ih h)

theorem last?_eq_some_iff (distinct : (fields.map Prod.fst).Nodup) {a : α} :
    last? fields key = some a ↔ (key, a) ∈ fields := by
  refine ⟨mem_of_last?, fun h => ?_⟩
  induction fields using List.reverseRecOn with
  | nil => cases h
  | append_singleton fields field ih =>
    rw [List.map_append, List.nodup_append] at distinct
    rw [last?_concat]
    rcases List.mem_append.1 h with h | h
    · rw [if_neg (distinct.2.2 key (List.mem_map_of_mem h) field.1 (List.mem_singleton_self _))]
      exact ih distinct.1 h
    · cases List.mem_singleton.1 h
      exact if_pos rfl

end

namespace Fields

variable {f : Fields} {key other : String} {value j : Json}

theorem mem_keys_iff : key ∈ f.keys ↔ key ∈ f.toList.map Prod.fst := by
  rw [f.mem_keys, toList, List.map_reverse, List.mem_reverse]

/-- A field that is set is held in place of those with its key. -/
theorem mem_set_iff :
    (other, j) ∈ (f.set key value).toList ↔
      if other = key then j = value else (other, j) ∈ f.toList := by
  unfold set
  split
  · next known =>
    simp only [toList, List.mem_reverse, List.mem_map, Prod.exists]
    obtain ⟨⟨name, old⟩, held, rfl⟩ := List.mem_map.1 ((f.mem_keys key).1 known)
    constructor
    · rintro ⟨k, v, held, same⟩
      split at same <;> cases same
      · rw [if_pos rfl]
      · next differs => rwa [if_neg differs]
    · split
      · next same =>
        rintro rfl
        exact ⟨name, old, held, by rw [if_pos rfl, same]⟩
      · next differs => exact fun held => ⟨other, j, held, if_neg differs⟩
  · next new =>
    have absent : (key, j) ∉ f.latest := fun held =>
      new ((f.mem_keys key).2 (List.mem_map_of_mem held))
    simp only [toList, List.mem_reverse, List.mem_cons, Prod.mk.injEq]
    split
    · next same => simp [same, absent]
    · next differs => simp [differs]

theorem keys_set (f : Fields) (key : String) (value : Json) :
    (f.set key value).toList.map Prod.fst =
      if key ∈ f.keys then f.toList.map Prod.fst else f.toList.map Prod.fst ++ [key] := by
  by_cases known : key ∈ f.keys
  · rw [if_pos known, set, if_pos known, toList, toList, List.map_reverse, List.map_reverse,
      List.map_map]
    congr 2
    funext field
    simp only [Function.comp_apply]
    split
    · next same => exact same.symm
    · rfl
  · rw [if_neg known, toList_set_of_new value (mt mem_keys_iff.2 known), List.map_append,
      List.map_singleton]

end Fields

variable {fields : List (String × Json)} {key : String} {j : Json}

theorem merge_concat (fields : List (String × Json)) (field : String × Json) :
    merge (fields ++ [field]) = (merge fields).set field.1 field.2 := by
  rw [merge, List.foldl_append]
  rfl

/-- An object holds the last value for every key. -/
theorem mem_merge_iff : (key, j) ∈ (merge fields).toList ↔ last? fields key = some j := by
  induction fields using List.reverseRecOn with
  | nil => exact ⟨nofun, nofun⟩
  | append_singleton fields field ih =>
    rw [merge_concat, Fields.mem_set_iff, last?_concat, ih]
    split
    · exact ⟨fun same => congrArg some same.symm, fun same => (Option.some.inj same).symm⟩
    · rfl

theorem keys_merge_nodup (fields : List (String × Json)) :
    ((merge fields).toList.map Prod.fst).Nodup := by
  induction fields using List.reverseRecOn with
  | nil => exact List.nodup_nil
  | append_singleton fields field ih =>
    rw [merge_concat, Fields.keys_set]
    split
    · exact ih
    · next new =>
      refine List.nodup_append.2 ⟨ih, List.pairwise_singleton _ _, ?_⟩
      intro key held other single same
      rw [same, List.mem_singleton.1 single] at held
      exact new (Fields.mem_keys_iff.2 held)

/-- Fields with different keys are all held, in their order. -/
theorem toList_merge (distinct : (fields.map Prod.fst).Nodup) : (merge fields).toList = fields := by
  induction fields using List.reverseRecOn with
  | nil => rfl
  | append_singleton fields field ih =>
    rw [List.map_append, List.nodup_append] at distinct
    rw [merge_concat, Fields.toList_set_of_new, ih distinct.1]
    rw [ih distinct.1]
    exact fun held => distinct.2.2 field.1 held field.1 (List.mem_singleton_self _) rfl

end EquationSystem.Json
