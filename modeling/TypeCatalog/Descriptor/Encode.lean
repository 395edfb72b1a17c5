import TypeCatalog.Descriptor.Kind

/-!
Descriptors as JSON values: the kind first, then every field, also those that hold what they
would hold if they were left out.
-/

namespace TypeCatalog.Descriptor

mutual

/-- A descriptor in JSON.  The annotations of a function are a hash map, whose order is arbitrary;
they are written by name here, as one order that they can be in. -/
def toJson : Descriptor → Json
  | empty => .obj [("kind", .str "empty")]
  | none => .obj [("kind", .str "none")]
  | any => .obj [("kind", .str "any")]
  | ellipsis => .obj [("kind", .str "ellipsis")]
  | unclassified repr => .obj [("kind", .str "opaque"), ("repr", .str repr)]
  | builtin name => .obj [("kind", .str "builtin"), ("name", .str name)]
  | generic origin args =>
    .obj [("kind", .str "generic"), ("origin", .str origin), ("args", .arr (listToJson args))]
  | union members => .obj [("kind", .str "union"), ("members", .arr (listToJson members))]
  | literal values =>
    .obj [("kind", .str "literal"), ("values", .arr (values.map Scalar.toJson))]
  | enum name members =>
    .obj [("kind", .str "enum"), ("name", .str name),
      ("members", .obj (Assoc.mapValues Scalar.toJson members))]
  | typeVar name bound constraints =>
    .obj [("kind", .str "type_var"), ("name", .str name), ("bound", optionToJson bound),
      ("constraints", .arr (listToJson constraints))]
  | classDecl name fields typeParams =>
    .obj [("kind", .str "class"), ("name", .str name), ("fields", .obj (tableToJson fields)),
      ("type_params", .arr (typeParams.map .str))]
  | typedDict name fields total =>
    .obj [("kind", .str "typed_dict"), ("name", .str name), ("fields", .obj (tableToJson fields)),
      ("total", .bool total)]
  | newType name supertype =>
    .obj [("kind", .str "new_type"), ("name", .str name), ("supertype", supertype.toJson)]
  | parameterized base args =>
    .obj [("kind", .str "parameterized"), ("base", base.toJson), ("args", .arr (listToJson args))]
  | function name annotations paramNames =>
    .obj [("kind", .str "function"), ("name", .str name),
      ("annotations", .obj (Assoc.sortKeys (tableToJson annotations))),
      ("param_names", .arr (paramNames.map .str))]
  | ref name => .obj [("kind", .str "ref"), ("name", .str name)]

/-- An optional descriptor in JSON. -/
def optionToJson : Option Descriptor → Json
  | .none => .null
  | some d => d.toJson

/-- A list of descriptors in JSON. -/
def listToJson : List Descriptor → List Json
  | [] => []
  | d :: rest => d.toJson :: listToJson rest

/-- A table of descriptors in JSON. -/
def tableToJson : List (String × Descriptor) → List (String × Json)
  | [] => []
  | (name, d) :: rest => (name, d.toJson) :: tableToJson rest

end

end TypeCatalog.Descriptor
