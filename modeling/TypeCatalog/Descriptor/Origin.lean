/-!
The built-in generic types, by the names under which hosts reflect them.
-/

namespace TypeCatalog

/-- The families of built-in generic types. -/
inductive Origin where
  | list
  | dict
  | tuple
  | mapping
deriving DecidableEq

namespace Origin

/-- All families. -/
def all : List Origin := [list, dict, tuple, mapping]

/-- The name of a family. -/
def name : Origin → String
  | list => "list"
  | dict => "dict"
  | tuple => "tuple"
  | mapping => "mapping"

/-- The types of a family. -/
def types : Origin → List String
  | list =>
    ["list", "typing.List", "set", "typing.Set", "frozenset", "typing.FrozenSet",
      "typing.Sequence", "collections.abc.Sequence"]
  | dict => ["dict", "typing.Dict"]
  | tuple => ["tuple", "typing.Tuple"]
  | mapping =>
    ["typing.Mapping", "collections.abc.Mapping", "typing.MutableMapping",
      "collections.abc.MutableMapping"]

/-- Whether a family holds a type. -/
def holds (family : Origin) (type : String) : Bool :=
  family.types.contains type

end Origin

end TypeCatalog
