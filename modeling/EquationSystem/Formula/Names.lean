import Std.Data.HashSet

/-!
# Names in order of first appearance
-/

namespace EquationSystem

/-- A list of names without repetition, in which a name is quickly found. -/
structure Names where
  order : Array String
  known : Std.HashSet String
  mem_known : ∀ name, name ∈ known ↔ name ∈ order

namespace Names

def empty : Names := ⟨#[], ∅, by simp⟩

instance : Inhabited Names := ⟨empty⟩
instance : EmptyCollection Names := ⟨empty⟩

def contains (names : Names) (name : String) : Bool := names.known.contains name

def size (names : Names) : Nat := names.order.size

def isEmpty (names : Names) : Bool := names.order.isEmpty

def toList (names : Names) : List String := names.order.toList

def insert (names : Names) (name : String) : Names :=
  if names.contains name then names
  else ⟨names.order.push name, names.known.insert name, by
    intro other
    simp only [Std.HashSet.mem_insert, beq_iff_eq, names.mem_known, Array.mem_push]
    exact ⟨fun h => h.elim (fun h => .inr h.symm) .inl, fun h => h.elim .inr fun h => .inl h.symm⟩⟩

@[simp] theorem toList_empty : (∅ : Names).toList = [] := rfl

theorem contains_iff {names : Names} {name : String} :
    names.contains name = true ↔ name ∈ names.toList := by
  simp only [contains, toList, Array.mem_toList_iff, ← names.mem_known]
  exact Std.HashSet.contains_iff_mem

theorem toList_insert (names : Names) (name : String) :
    (names.insert name).toList =
      if name ∈ names.toList then names.toList else names.toList ++ [name] := by
  unfold insert
  by_cases h : names.contains name = true
  · rw [if_pos h, if_pos (contains_iff.1 h)]
  · rw [if_neg h, if_neg (mt contains_iff.2 h)]
    simp [toList]

end Names

end EquationSystem
