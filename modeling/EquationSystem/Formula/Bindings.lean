import EquationSystem.Formula.Value
import Std.Data.TreeMap

/-!
# Values of names

The bindings that a formula is evaluated in, ordered by name. Names are ordered by their
characters' code points.
-/

namespace EquationSystem

structure Bindings where
  values : Std.TreeMap String Value compare

namespace Bindings

def empty : Bindings := ⟨∅⟩

instance : Inhabited Bindings := ⟨empty⟩
instance : EmptyCollection Bindings := ⟨empty⟩

def get? (b : Bindings) (name : String) : Option Value := b.values[name]?

def contains (b : Bindings) (name : String) : Bool := b.values.contains name

def size (b : Bindings) : Nat := b.values.size

def isEmpty (b : Bindings) : Bool := b.values.isEmpty

/-- Binds a name, in place of the value it had. -/
def insert (b : Bindings) (name : String) (value : Value) : Bindings :=
  ⟨b.values.insert name value⟩

def toList (b : Bindings) : List (String × Value) := b.values.toList

@[simp] theorem get?_empty (name : String) : (∅ : Bindings).get? name = none :=
  Std.TreeMap.getElem?_emptyc

theorem get?_insert (b : Bindings) (name other : String) (value : Value) :
    (b.insert name value).get? other = if name = other then some value else b.get? other := by
  simp [get?, insert, Std.TreeMap.getElem?_insert, Std.LawfulEqCmp.compare_eq_iff_eq]

theorem mem_toList_iff {b : Bindings} {name : String} {value : Value} :
    (name, value) ∈ b.toList ↔ b.get? name = some value :=
  Std.TreeMap.mem_toList_iff_getElem?_eq_some

theorem names_nodup (b : Bindings) : (b.toList.map Prod.fst).Nodup := by
  refine List.pairwise_map.2 (Std.TreeMap.distinct_keys_toList.imp fun {v w} distinct same => ?_)
  exact distinct (Std.LawfulEqCmp.compare_eq_iff_eq.2 same)

end Bindings

end EquationSystem
