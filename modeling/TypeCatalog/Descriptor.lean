import TypeCatalog.Assoc
import TypeCatalog.Scalar

/-!
Type descriptors: what a reflection layer says about a type of its host language.

Two descriptors are the same when they agree up to the order of fields, members and
annotations; arguments, members of a union and names of parameters keep theirs.
-/

namespace TypeCatalog

/-- A type as its host reflects it. -/
inductive Descriptor where
  /-- No annotation at all. -/
  | empty
  /-- The type of the absent value. -/
  | none
  | any
  /-- The dots of an open tuple. -/
  | ellipsis
  /-- Something that could not be classified. -/
  | unclassified (repr : String)
  | builtin (name : String)
  | generic (origin : String) (args : List Descriptor)
  | union (members : List Descriptor)
  | literal (values : List Scalar)
  | enum (name : String) (members : List (String × Scalar))
  | typeVar (name : String) (bound : Option Descriptor) (constraints : List Descriptor)
  | classDecl (name : String) (fields : List (String × Descriptor)) (typeParams : List String)
  | typedDict (name : String) (fields : List (String × Descriptor)) (total : Bool)
  | newType (name : String) (supertype : Descriptor)
  /-- A generic class with its arguments. -/
  | parameterized (base : Descriptor) (args : List Descriptor)
  /-- A callable.  The annotations are in no order; `paramNames` gives that of the parameters. -/
  | function (name : String) (annotations : List (String × Descriptor)) (paramNames : List String)
  /-- A class, typed dictionary, function or alias by its name. -/
  | ref (name : String)

namespace Descriptor

instance : Inhabited Descriptor := ⟨empty⟩

/-- A few words for a descriptor. -/
def label : Descriptor → String
  | empty => "<empty>"
  | none => "None"
  | any => "Any"
  | ellipsis => "..."
  | unclassified repr => "opaque(" ++ repr ++ ")"
  | builtin name => name
  | generic origin args => origin ++ "[" ++ toString args.length ++ " args]"
  | union members => "Union[" ++ toString members.length ++ " members]"
  | literal values => "Literal[" ++ toString values.length ++ " values]"
  | enum name _ => "enum " ++ name
  | typeVar name _ _ => "~" ++ name
  | classDecl name _ _ => "class " ++ name
  | typedDict name _ _ => "typed_dict " ++ name
  | newType name _ => "new_type " ++ name
  | parameterized base args => base.label ++ "[" ++ toString args.length ++ " args]"
  | function name _ _ => "def " ++ name
  | ref name => "ref " ++ name

/-! ## Sameness -/

mutual

/-- Whether two descriptors are the same. -/
def same : Descriptor → Descriptor → Bool
  | empty, empty => true
  | none, none => true
  | any, any => true
  | ellipsis, ellipsis => true
  | unclassified a, unclassified b => a == b
  | builtin a, builtin b => a == b
  | generic o as, generic o' bs => o == o' && sameList as bs
  | union as, union bs => sameList as bs
  | literal as, literal bs => Scalar.sameList as bs
  | enum n as, enum n' bs => n == n' && Scalar.sameTable as bs
  | typeVar n b cs, typeVar n' b' cs' => n == n' && sameOption b b' && sameList cs cs'
  | classDecl n fs ps, classDecl n' fs' ps' =>
    n == n' && (fs.length == fs'.length && sameWithin fs fs') && ps == ps'
  | typedDict n fs t, typedDict n' fs' t' =>
    n == n' && (fs.length == fs'.length && sameWithin fs fs') && t == t'
  | newType n s, newType n' s' => n == n' && same s s'
  | parameterized b as, parameterized b' as' => same b b' && sameList as as'
  | function n as ps, function n' as' ps' =>
    n == n' && (as.length == as'.length && sameWithin as as') && ps == ps'
  | ref a, ref b => a == b
  | _, _ => false

/-- Whether two optional descriptors are the same. -/
def sameOption : Option Descriptor → Option Descriptor → Bool
  | .none, .none => true
  | some a, some b => same a b
  | _, _ => false

/-- Whether two lists hold the same descriptors in the same order. -/
def sameList : List Descriptor → List Descriptor → Bool
  | [], [] => true
  | a :: as, b :: bs => same a b && sameList as bs
  | _, _ => false

/-- Whether every entry of a table is in another. -/
def sameWithin : List (String × Descriptor) → List (String × Descriptor) → Bool
  | [], _ => true
  | (k, d) :: rest, table =>
    (match Assoc.find? k table with
      | some d' => same d d'
      | .none => false) && sameWithin rest table

end

/-! ## Sizes -/

mutual

/-- The number of descriptors in a descriptor. -/
def size : Descriptor → Nat
  | generic _ args => 1 + sizeList args
  | union members => 1 + sizeList members
  | typeVar _ bound constraints => 1 + sizeOption bound + sizeList constraints
  | classDecl _ fields _ => 1 + sizeTable fields
  | typedDict _ fields _ => 1 + sizeTable fields
  | newType _ supertype => 1 + supertype.size
  | parameterized base args => 1 + base.size + sizeList args
  | function _ annotations _ => 1 + sizeTable annotations
  | _ => 1

/-- The number of descriptors in an optional descriptor. -/
def sizeOption : Option Descriptor → Nat
  | .none => 0
  | some d => d.size

/-- The number of descriptors in a list. -/
def sizeList : List Descriptor → Nat
  | [] => 0
  | d :: rest => d.size + sizeList rest

/-- The number of descriptors in a table. -/
def sizeTable : List (String × Descriptor) → Nat
  | [] => 0
  | (_, d) :: rest => d.size + sizeTable rest

end

end Descriptor

end TypeCatalog
