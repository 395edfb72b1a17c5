import TypeCatalog.Recognizer.Container
import TypeCatalog.Recognizer.Leaf
import TypeCatalog.Recognizer.Named
import TypeCatalog.Recognizer.Union

/-!
The stock recognizers, their names and their usual order.
-/

namespace TypeCatalog

/-- The stock recognizers. -/
inductive Stock where
  | enumeration
  | listLike
  | union
  | typedDict
  | literal
  | dictionary
  | tuple
  | mapping
  | typeVariable
  | fixedGeneric
  | reference
  | classDecl
  | newType
  | function
  | absent
  | builtin
deriving DecidableEq

namespace Stock

/-- All of them in their usual order. -/
def all : List Stock :=
  [enumeration, listLike, union, typedDict, literal, dictionary, tuple, mapping, typeVariable,
    fixedGeneric, reference, classDecl, newType, function, absent, builtin]

/-- The families of names. -/
def family : Stock → String
  | enumeration | literal | typeVariable | absent | builtin => "shape_ir::recognizers::scalar::"
  | listLike | dictionary | tuple | mapping => "shape_ir::recognizers::generic::"
  | typedDict | fixedGeneric | reference | classDecl | newType => "shape_ir::recognizers::class::"
  | union => "shape_ir::recognizers::union::"
  | function => "shape_ir::recognizers::function::"

/-- The names that pipelines show. -/
def name : Stock → String
  | enumeration => "enum_found"
  | listLike => "list_found"
  | union => "union_found"
  | typedDict => "typed_dict_found"
  | literal => "literal_found"
  | dictionary => "dict_found"
  | tuple => "tuple_found"
  | mapping => "mapping_found"
  | typeVariable => "type_var_found"
  | fixedGeneric => "fixed_generic_found"
  | reference => "reference_found"
  | classDecl => "class_found"
  | newType => "new_type_found"
  | function => "function_found"
  | absent => "none_found"
  | builtin => "builtin_found"

/-- The recognizer of a name. -/
def ofName? (word : String) : Option Stock :=
  all.find? fun r => r.name == word

/-- What a stock recognizer claims. -/
def claim? : Stock → Surroundings → Descriptor → OptionSet → Build (Option Shape)
  | enumeration => Recognizer.enumeration
  | listLike => Recognizer.listLike
  | union => Recognizer.union
  | typedDict => Recognizer.typedDict
  | literal => Recognizer.literal
  | dictionary => Recognizer.dictionary
  | tuple => Recognizer.tuple
  | mapping => Recognizer.mapping
  | typeVariable => Recognizer.typeVariable
  | fixedGeneric => Recognizer.fixedGeneric
  | reference => Recognizer.reference
  | classDecl => Recognizer.classDecl
  | newType => Recognizer.newType
  | function => Recognizer.function
  | absent => Recognizer.absent
  | builtin => Recognizer.builtin

/-- A stock recognizer. -/
def recognizer (r : Stock) : Recognizer :=
  ⟨r.family, r.name, r.claim?⟩

end Stock

end TypeCatalog
