import TypeCatalog.Descriptor

/-!
The kinds of descriptors and the fields of each.

A kind's fields are a table (`Kind.fields`): the name of each field, the type of its value, and
the value it takes when it is left out.  `Record` is one value for every field of a table, and
`Kind.build` makes a descriptor of a record.  Descriptors are read by the tables, whichever of the
seventeen kinds is at hand.
-/

namespace TypeCatalog

/-- The kinds of descriptors. -/
inductive Kind where
  | empty
  | none
  | any
  | ellipsis
  | unclassified
  | builtin
  | generic
  | union
  | literal
  | enum
  | typeVar
  | classDecl
  | typedDict
  | newType
  | parameterized
  | function
  | ref
deriving DecidableEq

/-- The types of the values of fields. -/
inductive FieldType where
  | text
  | flag
  | texts
  | scalars
  | scalarTable
  | descriptor
  | optional
  | descriptors
  | descriptorTable
deriving DecidableEq

/-- The values of a field. -/
def FieldType.Value : FieldType → Type
  | text => String
  | flag => Bool
  | texts => List String
  | scalars => List Scalar
  | scalarTable => List (String × Scalar)
  | descriptor => Descriptor
  | optional => Option Descriptor
  | descriptors => List Descriptor
  | descriptorTable => List (String × Descriptor)

/-- A field of a kind of descriptors. -/
structure Field where
  name : String
  type : FieldType
  /-- The value of a field that is left out, if it may be. -/
  default? : Option type.Value

/-- A value for every field of a table. -/
def Record : List Field → Type
  | [] => Unit
  | f :: fs => f.type.Value × Record fs

namespace Kind

/-- All kinds, in the order of their indexes. -/
def all : List Kind :=
  [empty, none, any, ellipsis, unclassified, builtin, generic, union, literal, enum, typeVar,
    classDecl, typedDict, newType, parameterized, function, ref]

/-- The word for a kind. -/
def name : Kind → String
  | empty => "empty"
  | none => "none"
  | any => "any"
  | ellipsis => "ellipsis"
  | unclassified => "opaque"
  | builtin => "builtin"
  | generic => "generic"
  | union => "union"
  | literal => "literal"
  | enum => "enum"
  | typeVar => "type_var"
  | classDecl => "class"
  | typedDict => "typed_dict"
  | newType => "new_type"
  | parameterized => "parameterized"
  | function => "function"
  | ref => "ref"

/-- The kind of a word. -/
def ofName? (word : String) : Option Kind :=
  all.find? fun k => k.name == word

/-- The kind of an index. -/
def ofIndex? (i : Nat) : Option Kind :=
  all[i]?

/-- A field that must be given. -/
def required (name : String) (type : FieldType) : Field :=
  ⟨name, type, .none⟩

/-- The fields of a kind, in their order. -/
def fields : Kind → List Field
  | empty => []
  | none => []
  | any => []
  | ellipsis => []
  | unclassified => [required "repr" .text]
  | builtin => [required "name" .text]
  | generic => [required "origin" .text, ⟨"args", .descriptors, some []⟩]
  | union => [required "members" .descriptors]
  | literal => [required "values" .scalars]
  | enum => [required "name" .text, required "members" .scalarTable]
  | typeVar =>
    [required "name" .text, ⟨"bound", .optional, some .none⟩,
      ⟨"constraints", .descriptors, some []⟩]
  | classDecl =>
    [required "name" .text, ⟨"fields", .descriptorTable, some []⟩,
      ⟨"type_params", .texts, some []⟩]
  | typedDict =>
    [required "name" .text, ⟨"fields", .descriptorTable, some []⟩, ⟨"total", .flag, some true⟩]
  | newType => [required "name" .text, required "supertype" .descriptor]
  | parameterized => [required "base" .descriptor, required "args" .descriptors]
  | function =>
    [required "name" .text, ⟨"annotations", .descriptorTable, some []⟩,
      ⟨"param_names", .texts, some []⟩]
  | ref => [required "name" .text]

/-- The descriptor of a record. -/
def build : (k : Kind) → Record k.fields → Descriptor
  | empty, _ => .empty
  | none, _ => .none
  | any, _ => .any
  | ellipsis, _ => .ellipsis
  | unclassified, (repr, _) => .unclassified repr
  | builtin, (name, _) => .builtin name
  | generic, (origin, args, _) => .generic origin args
  | union, (members, _) => .union members
  | literal, (values, _) => .literal values
  | enum, (name, members, _) => .enum name members
  | typeVar, (name, bound, constraints, _) => .typeVar name bound constraints
  | classDecl, (name, fields, typeParams, _) => .classDecl name fields typeParams
  | typedDict, (name, fields, total, _) => .typedDict name fields total
  | newType, (name, supertype, _) => .newType name supertype
  | parameterized, (base, args, _) => .parameterized base args
  | function, (name, annotations, paramNames, _) => .function name annotations paramNames
  | ref, (name, _) => .ref name

end Kind

namespace Descriptor

/-- The kind of a descriptor. -/
def kind : Descriptor → Kind
  | empty => .empty
  | none => .none
  | any => .any
  | ellipsis => .ellipsis
  | unclassified _ => .unclassified
  | builtin _ => .builtin
  | generic _ _ => .generic
  | union _ => .union
  | literal _ => .literal
  | enum _ _ => .enum
  | typeVar _ _ _ => .typeVar
  | classDecl _ _ _ => .classDecl
  | typedDict _ _ _ => .typedDict
  | newType _ _ => .newType
  | parameterized _ _ => .parameterized
  | function _ _ _ => .function
  | ref _ => .ref

end Descriptor

end TypeCatalog
