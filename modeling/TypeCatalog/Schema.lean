import TypeCatalog.Scalar

/-!
JSON schemas, as far as shapes need them.

A schema is a list of keywords, no two of one name.  Parts that are schemas themselves stand in
keywords of their own, so one can tell a schema from a value, a name or a text that looks like
one.
-/

namespace TypeCatalog

/-- The types of JSON values that a schema tells apart. -/
inductive JsonType where
  | null
  | integer
  | number
  | string
  | boolean
  | array
  | object
deriving DecidableEq

/-- The word for a type. -/
def JsonType.name : JsonType → String
  | null => "null"
  | integer => "integer"
  | number => "number"
  | string => "string"
  | boolean => "boolean"
  | array => "array"
  | object => "object"

/-- A keyword of a schema with its value. -/
inductive Keyword where
  | type (t : JsonType)
  | title (text : String)
  | contentEncoding (encoding : String)
  | enum (values : List Scalar)
  | ref (target : String)
  | items (schema : List Keyword)
  | prefixItems (schemas : List (List Keyword))
  | minItems (n : Nat)
  | maxItems (n : Nat)
  | additionalProperties (schema : List Keyword)
  | oneOf (schemas : List (List Keyword))
  | properties (schemas : List (String × List Keyword))
  | required (names : List String)
  | defs (schemas : List (String × List Keyword))

/-- A schema. -/
abbrev Schema := List Keyword

namespace Schema

/-- Set the title, in place where there is one. -/
def setTitle (text : String) : Schema → Schema
  | [] => [.title text]
  | .title _ :: rest => .title text :: rest
  | keyword :: rest => keyword :: setTitle text rest

end Schema

mutual

/-- A keyword as a member of its schema. -/
def Keyword.toMember : Keyword → String × Json
  | .type t => ("type", .str t.name)
  | .title text => ("title", .str text)
  | .contentEncoding encoding => ("contentEncoding", .str encoding)
  | .enum values => ("enum", .arr (values.map Scalar.toJson))
  | .ref target => ("$ref", .str target)
  | .items schema => ("items", .obj (Schema.toMembers schema))
  | .prefixItems schemas => ("prefixItems", .arr (Schema.listToJson schemas))
  | .minItems n => ("minItems", .int n)
  | .maxItems n => ("maxItems", .int n)
  | .additionalProperties schema => ("additionalProperties", .obj (Schema.toMembers schema))
  | .oneOf schemas => ("oneOf", .arr (Schema.listToJson schemas))
  | .properties schemas => ("properties", .obj (Schema.tableToJson schemas))
  | .required names => ("required", .arr (names.map .str))
  | .defs schemas => ("$defs", .obj (Schema.tableToJson schemas))

/-- The members of a schema. -/
def Schema.toMembers : List Keyword → List (String × Json)
  | [] => []
  | keyword :: rest => keyword.toMember :: Schema.toMembers rest

/-- Schemas in JSON. -/
def Schema.listToJson : List (List Keyword) → List Json
  | [] => []
  | schema :: rest => .obj (Schema.toMembers schema) :: Schema.listToJson rest

/-- A table of schemas in JSON. -/
def Schema.tableToJson : List (String × List Keyword) → List (String × Json)
  | [] => []
  | (name, schema) :: rest => (name, .obj (Schema.toMembers schema)) :: Schema.tableToJson rest

end

/-- A schema in JSON. -/
def Schema.toJson (schema : Schema) : Json :=
  .obj (Schema.toMembers schema)

end TypeCatalog
