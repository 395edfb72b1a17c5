/-!
The kinds of types that are collected by name.
-/

namespace TypeCatalog

/-- The kinds of collected types. -/
inductive CollectedKind where
  | function
  | classType
  | record
  | typeAlias
deriving DecidableEq

namespace CollectedKind

/-- The order in which a bare name is looked up. -/
def searchOrder : List CollectedKind := [classType, record, function, typeAlias]

/-- The word for a kind. -/
def name : CollectedKind → String
  | function => "function"
  | classType => "class"
  | record => "record"
  | typeAlias => "alias"

/-- The kind of a word. -/
def ofName? (word : String) : Option CollectedKind :=
  searchOrder.find? fun k => k.name == word

end CollectedKind

end TypeCatalog
