import TypeCatalog.Catalog
import TypeCatalog.Schema

/-!
The schema of a shape.

Classes, records and references stand in a schema as pointers to `$defs`, where
`Schema.document` writes the bodies of all that was collected, functions apart; so schemas of
recursive types end.  A field of a class is required when it cannot hold the absent value, and
all fields of a record are when it is total.
-/

namespace TypeCatalog

namespace Schema

/-! ## Pointers -/

/-- A character of a name as a pointer writes it. -/
def escapedChar (c : Char) : List Char :=
  if c = '~' then ['~', '0'] else if c = '/' then ['~', '1'] else [c]

/-- A name as one token of a pointer. -/
def pointerToken (name : String) : String :=
  String.ofList (name.toList.flatMap escapedChar)

/-- The pointer to a definition. -/
def pointerTo (name : String) : String :=
  "#/$defs/" ++ pointerToken name

/-! ## Shapes in the place of a value -/

/-- The schema of a built-in type; of one that is not known, its name as a title. -/
def ofBuiltin (name : String) : Schema :=
  if name = "int" then [.type .integer]
  else if name = "float" then [.type .number]
  else if name = "str" then [.type .string]
  else if name = "bool" then [.type .boolean]
  else if ["bytes", "bytearray"].contains name then [.type .string, .contentEncoding "base64"]
  else if ["list", "set", "frozenset", "tuple"].contains name then [.type .array]
  else if name = "dict" then [.type .object]
  else [.title name]

/-- An object with named properties. -/
def object (title : String) (properties : List (String × Schema)) (required : List String) :
    Schema :=
  [.type .object, .title title, .properties properties]
    ++ (if required.isEmpty then [] else [.required required])

/-- The names of a table whose shapes cannot hold the absent value. -/
def notNullable (table : List (String × Shape)) : List String :=
  (table.filter fun (_, shape) => !shape.isNullable).map Prod.fst

end Schema

namespace Shape

open Schema

mutual

/-- The schema of a shape in the place of a value. -/
def schema : Shape → Schema
  | unknown => []
  | none => [.type .null]
  | builtin name => ofBuiltin name
  | list element _ => [.type .array, .items element.schema]
  | tuple elements true _ => [.type .array, .items (schemaOfFirst elements)]
  | tuple elements false _ =>
    [.type .array, .prefixItems (schemas elements), .minItems elements.length,
      .maxItems elements.length]
  | dict _ value _ => [.type .object, .additionalProperties value.schema]
  | mapping _ value _ => [.type .object, .additionalProperties value.schema]
  | union members _ => [.oneOf (schemas members)]
  | optional inner _ => [.oneOf [inner.schema, [.type .null]]]
  | literal values => [.enum values]
  | enum name members => [.title name, .enum (members.map Prod.snd)]
  | typeVar _ (some bound) _ => bound.schema
  | typeVar _ .none [] => []
  | typeVar _ .none constraints => [.oneOf (schemas constraints)]
  | classType name _ _ => [.ref (pointerTo name)]
  | record name _ _ _ => [.ref (pointerTo name)]
  | reference name .function => [.title name]
  | reference name _ => [.ref (pointerTo name)]
  | function name params _ _ => object name (schemaTable params) (notNullable params)
  | newType name base => setTitle name base.schema
  | fixedGeneric base _ _ => base.schema

/-- The schema of the first of some shapes. -/
def schemaOfFirst : List Shape → Schema
  | [] => []
  | shape :: _ => shape.schema

/-- The schemas of some shapes. -/
def schemas : List Shape → List Schema
  | [] => []
  | shape :: rest => shape.schema :: schemas rest

/-- The schemas of a table of shapes. -/
def schemaTable : List (String × Shape) → List (String × Schema)
  | [] => []
  | (name, shape) :: rest => (name, shape.schema) :: schemaTable rest

end

/-- The schema of a collected shape in its place under `$defs`. -/
def definitionSchema : Shape → Schema
  | classType name fields _ => object name (schemaTable fields) (notNullable fields)
  | record name fields total _ =>
    object name (schemaTable fields) (if total then Assoc.keys fields else [])
  | other => other.schema

end Shape

namespace Schema

/-- The schemas of all that was collected, functions apart. -/
def definitions (catalog : Catalog) : List (String × Schema) :=
  Assoc.ofPairs ((catalog.classes ++ catalog.records ++ catalog.aliases).map
    fun (name, shape) => (name, shape.definitionSchema))

/-- The schema of a root with the definitions that it may point to. -/
def document (root : Shape) (catalog : Catalog) : Schema :=
  match definitions catalog with
  | [] => root.schema
  | definitions => root.schema ++ [.defs definitions]

end Schema

end TypeCatalog
