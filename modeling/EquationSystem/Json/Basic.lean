/-!
# JSON values

Numbers keep their text, so no digit is lost. The fields of an object keep their order.
-/

namespace EquationSystem

inductive Json where
  | null
  | bool (value : Bool)
  | number (text : String)
  | string (text : String)
  | array (items : List Json)
  | object (fields : List (String × Json))

namespace Json

instance : Inhabited Json := ⟨.null⟩

end Json

end EquationSystem
