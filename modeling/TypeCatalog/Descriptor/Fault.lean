import TypeCatalog.Descriptor.Kind
import TypeCatalog.Json.Reader
import TypeCatalog.Text.Quoted

/-!
What can be wrong with a JSON value that is to be a descriptor or a document, and the wording.
-/

namespace TypeCatalog

/-- What a place in a descriptor or document wants. -/
inductive Expected where
  | descriptor
  | document
  | table
  | list
  | text
  | flag
  | kind
deriving DecidableEq

/-- The words for what is wanted. -/
def Expected.words : Expected → String
  | descriptor => "internally tagged enum RawType"
  | document => "struct Document"
  | table => "a map"
  | list => "a sequence"
  | text => "a string"
  | flag => "a boolean"
  | kind => "variant identifier"

/-- The words for a value that is not wanted. -/
def Json.describe : Json → String
  | .null => "null"
  | .bool b => "boolean `" ++ toString b ++ "`"
  | .int i => "integer `" ++ toString i ++ "`"
  | .float x => "floating point `" ++ Json.floatText x ++ "`"
  | .str s => "string " ++ Text.quoted s
  | .arr _ => "sequence"
  | .obj _ => "map"

/-- What can be wrong with a value. -/
inductive Fault where
  /-- A value of a type that is not wanted. -/
  | wrongType (found : Json) (expected : Expected)
  /-- An index that no kind has. -/
  | noSuchIndex (index : Nat)
  /-- A word that no kind has. -/
  | noSuchKind (name : String)
  | missingField (name : String)
  | duplicateField (name : String)
  /-- An array that ends before a field that must be given. -/
  | tooFew (kind : Kind) (given : Nat)
  /-- An array with more values than fields. -/
  | tooMany (given wanted : Nat)
  /-- A value that is no scalar. -/
  | noScalar
  /-- An array with more values than a document has sections. -/
  | tooManySections (given : Nat)

/-- The words for the form of a kind. -/
def Kind.form : Kind → String
  | empty => "struct variant RawType::Empty"
  | none => "struct variant RawType::None"
  | any => "struct variant RawType::Any"
  | ellipsis => "struct variant RawType::Ellipsis"
  | unclassified => "struct variant RawType::Opaque"
  | builtin => "struct variant RawType::Builtin"
  | generic => "struct variant RawType::Generic"
  | union => "struct variant RawType::Union"
  | literal => "struct variant RawType::Literal"
  | enum => "struct variant RawType::Enum"
  | typeVar => "struct TypeVarDecl"
  | classDecl => "struct ClassDecl"
  | typedDict => "struct TypedDictDecl"
  | newType => "struct variant RawType::NewType"
  | parameterized => "struct variant RawType::Parameterized"
  | function => "struct FunctionDecl"
  | ref => "struct variant RawType::Ref"

/-- So many elements. -/
def elementCount (n : Nat) : String :=
  if n = 1 then "1 element" else toString n ++ " elements"

/-- The wording of a fault. -/
def Fault.message : Fault → String
  | wrongType found expected =>
    "invalid type: " ++ found.describe ++ ", expected " ++ expected.words
  | noSuchIndex index =>
    "invalid value: integer `" ++ toString index ++ "`, expected variant index 0 <= i < "
      ++ toString Kind.all.length
  | noSuchKind name =>
    "unknown variant `" ++ name ++ "`, expected one of "
      ++ ", ".intercalate (Kind.all.map fun k => "`" ++ k.name ++ "`")
  | missingField name => "missing field `" ++ name ++ "`"
  | duplicateField name => "duplicate field `" ++ name ++ "`"
  | tooFew kind given =>
    "invalid length " ++ toString given ++ ", expected " ++ kind.form ++ " with "
      ++ elementCount kind.fields.length
  | tooMany given wanted =>
    "invalid length " ++ toString given ++ ", expected " ++ elementCount wanted ++ " in sequence"
  | noScalar => "data did not match any variant of untagged enum Scalar"
  | tooManySections given =>
    "invalid length " ++ toString given ++ ", expected fewer elements in array"

/-- A fault and the way to the part that has it. -/
structure Rejection where
  trail : Json.Trail
  fault : Fault

/-- The wording of a rejection. -/
def Rejection.message (r : Rejection) : String :=
  "at JSON path " ++ r.trail.text ++ " → " ++ r.fault.message

/-- The wording of a failed reading.  A failure that nothing surrounds has no place. -/
def Json.Failure.message (f : Json.Failure Fault) : String :=
  "at JSON path " ++ f.trail.text ++ " → "
    ++ (match f.cause with
      | .malformed error => error.message
      | .rejected fault => fault.message)
    ++ (match f.spot with
      | .fixed p => " at line " ++ toString p.line ++ " column " ++ toString p.column
      | .pending _ => "")

end TypeCatalog
