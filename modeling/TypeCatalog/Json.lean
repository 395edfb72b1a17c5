import TypeCatalog.Assoc
import TypeCatalog.Binary64

/-!
JSON values.

Whole numbers and binary64 numbers are kept apart, and an object is the list of its members as
they were written, repeated keys included.  `merged` is the value in which every key counts
once: it keeps the place where it was first written and the value written last.
-/

namespace TypeCatalog

/-- A JSON value. -/
inductive Json where
  | null
  | bool (b : Bool)
  | int (i : Int)
  | float (x : Binary64)
  | str (s : String)
  | arr (items : List Json)
  | obj (members : List (String × Json))

namespace Json

instance : Inhabited Json := ⟨null⟩

mutual

/-- Merge the repeated keys of every object in a value. -/
def merged : Json → Json
  | .arr items => .arr (mergedItems items)
  | .obj members => .obj (Assoc.ofPairs (mergedMembers members))
  | other => other

/-- `merged` on every element. -/
def mergedItems : List Json → List Json
  | [] => []
  | v :: rest => v.merged :: mergedItems rest

/-- `merged` on every member's value. -/
def mergedMembers : List (String × Json) → List (String × Json)
  | [] => []
  | (k, v) :: rest => (k, v.merged) :: mergedMembers rest

end

end Json

end TypeCatalog
