import TypeCatalog.Shape.Encode

/-!
Catalogs: the finished collected types of an extraction, by kind and name, each table in the
order of discovery.
-/

namespace TypeCatalog

/-- The finished collected types. -/
structure Catalog where
  functions : List (String × Shape)
  classes : List (String × Shape)
  records : List (String × Shape)
  aliases : List (String × Shape)

namespace Catalog

/-- The types of a kind. -/
def table (c : Catalog) : CollectedKind → List (String × Shape)
  | .function => c.functions
  | .classType => c.classes
  | .record => c.records
  | .typeAlias => c.aliases

/-- The type of a kind and a name. -/
def get? (c : Catalog) (kind : CollectedKind) (name : String) : Option Shape :=
  Assoc.find? name (c.table kind)

/-- The number of types. -/
def size (c : Catalog) : Nat :=
  c.functions.length + c.classes.length + c.records.length + c.aliases.length

/-- A catalog in JSON.  Aliases are written only where there are any. -/
def toJson (c : Catalog) : Json :=
  .obj ([("functions", .obj (Shape.tableToJson c.functions)),
    ("classes", .obj (Shape.tableToJson c.classes)),
    ("records", .obj (Shape.tableToJson c.records))] ++
    (if c.aliases.isEmpty then [] else [("aliases", .obj (Shape.tableToJson c.aliases))]))

end Catalog

end TypeCatalog
