import TypeCatalog.Shape

/-!
Shapes as JSON values: the kind first, then the parts.  Options, a bound and constraints are
written only where there are any.
-/

namespace TypeCatalog

/-- The member that records options. -/
def OptionSet.toMembers (s : OptionSet) : List (String × Json) :=
  if s.isEmpty then [] else [("options", s.toJson)]

namespace Shape

/-- The member that holds constraints. -/
def constraintsToMembers : List Json → List (String × Json)
  | [] => []
  | constraints => [("constraints", .arr constraints)]

mutual

/-- A shape in JSON. -/
def toJson : Shape → Json
  | unknown => .obj [("kind", .str "unknown")]
  | none => .obj [("kind", .str "none")]
  | builtin name => .obj [("kind", .str "builtin"), ("name", .str name)]
  | list element options =>
    .obj ([("kind", .str "list"), ("element", element.toJson)] ++ options.toMembers)
  | tuple elements variadic options =>
    .obj ([("kind", .str "tuple"), ("elements", .arr (listToJson elements)),
      ("variadic", .bool variadic)] ++ options.toMembers)
  | dict key value options =>
    .obj ([("kind", .str "dict"), ("key", key.toJson), ("value", value.toJson)]
      ++ options.toMembers)
  | mapping key value options =>
    .obj ([("kind", .str "mapping"), ("key", key.toJson), ("value", value.toJson)]
      ++ options.toMembers)
  | union members options =>
    .obj ([("kind", .str "union"), ("members", .arr (listToJson members))] ++ options.toMembers)
  | optional inner options =>
    .obj ([("kind", .str "optional"), ("inner", inner.toJson)] ++ options.toMembers)
  | literal values =>
    .obj [("kind", .str "literal"), ("values", .arr (values.map Scalar.toJson))]
  | enum name members =>
    .obj [("kind", .str "enum"), ("name", .str name),
      ("members", .obj (Assoc.mapValues Scalar.toJson members))]
  | typeVar name bound constraints =>
    .obj ([("kind", .str "type_var"), ("name", .str name)] ++ boundToMembers bound
      ++ constraintsToMembers (listToJson constraints))
  | classType name fields options =>
    .obj ([("kind", .str "class"), ("name", .str name), ("fields", .obj (tableToJson fields))]
      ++ options.toMembers)
  | record name fields total options =>
    .obj ([("kind", .str "record"), ("name", .str name), ("fields", .obj (tableToJson fields)),
      ("total", .bool total)] ++ options.toMembers)
  | function name params returns options =>
    .obj ([("kind", .str "function"), ("name", .str name), ("params", .obj (tableToJson params)),
      ("returns", returns.toJson)] ++ options.toMembers)
  | newType name base =>
    .obj [("kind", .str "new_type"), ("name", .str name), ("base", base.toJson)]
  | fixedGeneric base bindings options =>
    .obj ([("kind", .str "fixed_generic"), ("base", base.toJson),
      ("bindings", .obj (tableToJson bindings))] ++ options.toMembers)
  | reference name target =>
    .obj [("kind", .str "reference"), ("name", .str name), ("target", .str target.name)]

/-- The member that holds a bound. -/
def boundToMembers : Option Shape → List (String × Json)
  | .none => []
  | some bound => [("bound", bound.toJson)]

/-- Shapes in JSON. -/
def listToJson : List Shape → List Json
  | [] => []
  | a :: rest => a.toJson :: listToJson rest

/-- A table of shapes in JSON. -/
def tableToJson : List (String × Shape) → List (String × Json)
  | [] => []
  | (name, a) :: rest => (name, a.toJson) :: tableToJson rest

end

end Shape

end TypeCatalog
