import EquationSystem.Json.Basic
import Std.Data.HashSet

/-!
# Fields of an object

Of fields with one key the last value counts, at the place of the first.
-/

namespace EquationSystem.Json

/-- The fields of an object that is being read. -/
structure Fields where
  /-- The fields in the reverse of their order. -/
  latest : List (String × Json)
  keys : Std.HashSet String
  mem_keys : ∀ key, key ∈ keys ↔ key ∈ latest.map (·.1)

namespace Fields

def empty : Fields := ⟨[], ∅, by simp⟩

instance : Inhabited Fields := ⟨empty⟩
instance : EmptyCollection Fields := ⟨empty⟩

def toList (f : Fields) : List (String × Json) := f.latest.reverse

/-- Puts a field at the end, or gives a new value to the one that has its key already. -/
def set (f : Fields) (key : String) (value : Json) : Fields :=
  if key ∈ f.keys then
    ⟨f.latest.map fun field => if field.1 = key then (key, value) else field, f.keys, by
      intro other
      have same : ((fun field : String × Json => field.1) ∘
          fun field => if field.1 = key then (key, value) else field) = (·.1) := by
        funext field
        simp only [Function.comp_apply]
        split <;> simp_all
      rw [f.mem_keys, List.map_map, same]⟩
  else
    ⟨(key, value) :: f.latest, f.keys.insert key, by
      intro other
      simp only [Std.HashSet.mem_insert, beq_iff_eq, f.mem_keys, List.map_cons, List.mem_cons]
      exact or_congr_left eq_comm⟩

@[simp] theorem toList_empty : (∅ : Fields).toList = [] := rfl

theorem toList_set_of_new {f : Fields} {key : String} (value : Json)
    (new : key ∉ f.toList.map (·.1)) : (f.set key value).toList = f.toList ++ [(key, value)] := by
  have absent : key ∉ f.keys := fun h => new (by
    simpa [toList] using (f.mem_keys key).1 h)
  simp [set, absent, toList]

end Fields

end EquationSystem.Json
