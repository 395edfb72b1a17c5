import TypeCatalog.Descriptor.Fault

/-!
Descriptors from JSON values.

A descriptor is an object with its kind under `kind` and its fields beside it, or an array with
its kind first and its fields behind it in their order.  `Draft` collects the fields of an
object as they come; `Draft.finish` fills in what was left out.  Keys that are no fields are
passed over.

The kind of the outermost descriptor is a word; a descriptor inside another may give the
index of its kind instead.
-/

namespace TypeCatalog

/-! ## Drafts -/

/-- Values for some fields of a table. -/
def Draft : List Field → Type
  | [] => Unit
  | f :: fs => Option f.type.Value × Draft fs

namespace Draft

/-- No values. -/
def blank : (fs : List Field) → Draft fs
  | [] => ()
  | _ :: fs => (none, blank fs)

/-- Read the value of a field, unless the table has no such field.  A field is given once. -/
def put (name : String) (read : (t : FieldType) → Except Fault t.Value) :
    (fs : List Field) → Draft fs → Except Fault (Draft fs)
  | [], _ => .ok ()
  | f :: fs, (value, rest) =>
    if f.name = name then
      match value with
      | some _ => .error (.duplicateField name)
      | none =>
        match read f.type with
        | .error fault => .error fault
        | .ok v => .ok (some v, rest)
    else
      match put name read fs rest with
      | .error fault => .error fault
      | .ok rest' => .ok (value, rest')

/-- The record of a draft; the first field that is neither given nor may be left out is
missing. -/
def finish : (fs : List Field) → Draft fs → Except Fault (Record fs)
  | [], _ => .ok ()
  | f :: fs, (value, rest) =>
    match value.orElse fun _ => f.default? with
    | none => .error (.missingField f.name)
    | some v =>
      match finish fs rest with
      | .error fault => .error fault
      | .ok record => .ok (v, record)

end Draft

/-- The record of fields that are all left out, behind `given` that are not. -/
def Record.ofDefaults (kind : Kind) : (given : Nat) → (fs : List Field) → Except Fault (Record fs)
  | _, [] => .ok ()
  | given, f :: fs =>
    match f.default? with
    | none => .error (.tooFew kind given)
    | some v =>
      match ofDefaults kind (given + 1) fs with
      | .error fault => .error fault
      | .ok record => .ok (v, record)

/-! ## Values that hold no descriptor -/

/-- A list of values, each read by itself. -/
def readEach {α β : Type} (read : α → Except Fault β) : List α → Except Fault (List β)
  | [] => .ok []
  | v :: rest =>
    match read v with
    | .error fault => .error fault
    | .ok x =>
      match readEach read rest with
      | .error fault => .error fault
      | .ok xs => .ok (x :: xs)

/-- A string. -/
def readText : Json → Except Fault String
  | .str s => .ok s
  | v => .error (.wrongType v .text)

/-- A truth value. -/
def readFlag : Json → Except Fault Bool
  | .bool b => .ok b
  | v => .error (.wrongType v .flag)

/-- A scalar. -/
def readScalar (v : Json) : Except Fault Scalar :=
  match Scalar.ofJson? v with
  | some s => .ok s
  | none => .error .noScalar

/-- A named scalar. -/
def readNamedScalar (entry : String × Json) : Except Fault (String × Scalar) :=
  match readScalar entry.2 with
  | .error fault => .error fault
  | .ok s => .ok (entry.1, s)

/-- A list of strings. -/
def readTexts : Json → Except Fault (List String)
  | .arr items => readEach readText items
  | v => .error (.wrongType v .list)

/-- A list of scalars. -/
def readScalars : Json → Except Fault (List Scalar)
  | .arr items => readEach readScalar items
  | v => .error (.wrongType v .list)

/-- A table of scalars.  A repeated name keeps its first place and its last value. -/
def readScalarTable : Json → Except Fault (List (String × Scalar))
  | .obj entries =>
    match readEach readNamedScalar entries with
    | .error fault => .error fault
    | .ok table => .ok (Assoc.ofPairs table)
  | v => .error (.wrongType v .table)

/-- A field's value.  What it says as a descriptor, a list or a table of them is asked for only
where the field wants it. -/
def FieldType.read (v : Json) (one : Unit → Except Fault Descriptor)
    (many : Unit → Except Fault (List Descriptor))
    (named : Unit → Except Fault (List (String × Descriptor))) :
    (t : FieldType) → Except Fault t.Value
  | .text => readText v
  | .flag => readFlag v
  | .texts => readTexts v
  | .scalars => readScalars v
  | .scalarTable => readScalarTable v
  | .descriptor => one ()
  | .optional =>
    match v with
    | .null => .ok none
    | _ =>
      match one () with
      | .error fault => .error fault
      | .ok d => .ok (some d)
  | .descriptors => many ()
  | .descriptorTable => named ()

/-! ## Kinds -/

/-- The kind of the outermost descriptor: a word. -/
def Kind.ofJson : Json → Except Fault Kind
  | .str word =>
    match Kind.ofName? word with
    | some k => .ok k
    | .none => .error (.noSuchKind word)
  | v => .error (.wrongType v .kind)

/-- The kind of a descriptor inside another: a word or an index. -/
def Kind.ofNestedJson : Json → Except Fault Kind
  | .int i =>
    if i < 0 then .error (.wrongType (.int i) .kind)
    else
      match Kind.ofIndex? i.toNat with
      | some k => .ok k
      | .none => .error (.noSuchIndex i.toNat)
  | v => Kind.ofJson v

/-- The kind among the members of an object. -/
def Kind.ofMembers (read : Json → Except Fault Kind) :
    Option Kind → List (String × Json) → Except Rejection Kind
  | some k, [] => .ok k
  | .none, [] => .error ⟨[], .missingField "kind"⟩
  | seen, (name, v) :: rest =>
    if name = "kind" then
      match seen with
      | some _ => .error ⟨[], .duplicateField "kind"⟩
      | .none =>
        match read v with
        | .error fault => .error ⟨[.key "kind"], fault⟩
        | .ok k => ofMembers read (some k) rest
    else ofMembers read seen rest

/-! ## Descriptors -/

namespace Descriptor

mutual

/-- A descriptor inside another. -/
def ofNestedJson : Json → Except Fault Descriptor
  | .obj members =>
    match Kind.ofMembers Kind.ofNestedJson .none members with
    | .error r => .error r.fault
    | .ok kind =>
      match draftOfMembers kind.fields (Draft.blank kind.fields) members with
      | .error fault => .error fault
      | .ok draft =>
        match draft.finish with
        | .error fault => .error fault
        | .ok record => .ok (kind.build record)
  | .arr [] => .error (.missingField "kind")
  | .arr (first :: values) =>
    match Kind.ofNestedJson first with
    | .error fault => .error fault
    | .ok kind =>
      match recordOfValues kind 0 kind.fields values with
      | .error fault => .error fault
      | .ok record => .ok (kind.build record)
  | v => .error (.wrongType v .descriptor)

/-- The fields among the members of an object. -/
def draftOfMembers (fs : List Field) (draft : Draft fs) :
    List (String × Json) → Except Fault (Draft fs)
  | [] => .ok draft
  | (name, v) :: rest =>
    match draft.put name
      (FieldType.read v (fun _ => ofNestedJson v) (fun _ => listOfJson v)
        (fun _ => tableOfJson v)) with
    | .error fault => .error fault
    | .ok draft' => draftOfMembers fs draft' rest

/-- The fields among the values of an array, behind `given` that are read. -/
def recordOfValues (kind : Kind) (given : Nat) :
    (fs : List Field) → List Json → Except Fault (Record fs)
  | fs, [] => Record.ofDefaults kind given fs
  | [], _ :: rest => .error (.tooMany (given + rest.length + 1) given)
  | f :: fs, v :: rest =>
    match FieldType.read v (fun _ => ofNestedJson v) (fun _ => listOfJson v)
      (fun _ => tableOfJson v) f.type with
    | .error fault => .error fault
    | .ok x =>
      match recordOfValues kind (given + 1) fs rest with
      | .error fault => .error fault
      | .ok record => .ok (x, record)

/-- A list of descriptors. -/
def listOfJson : Json → Except Fault (List Descriptor)
  | .arr items => listOfItems items
  | v => .error (.wrongType v .list)

/-- The descriptors of a list. -/
def listOfItems : List Json → Except Fault (List Descriptor)
  | [] => .ok []
  | v :: rest =>
    match ofNestedJson v with
    | .error fault => .error fault
    | .ok d =>
      match listOfItems rest with
      | .error fault => .error fault
      | .ok ds => .ok (d :: ds)

/-- A table of descriptors.  A repeated name keeps its first place and its last value. -/
def tableOfJson : Json → Except Fault (List (String × Descriptor))
  | .obj entries =>
    match tableOfEntries entries with
    | .error fault => .error fault
    | .ok table => .ok (Assoc.ofPairs table)
  | v => .error (.wrongType v .table)

/-- The descriptors of a table. -/
def tableOfEntries : List (String × Json) → Except Fault (List (String × Descriptor))
  | [] => .ok []
  | (name, v) :: rest =>
    match ofNestedJson v with
    | .error fault => .error fault
    | .ok d =>
      match tableOfEntries rest with
      | .error fault => .error fault
      | .ok table => .ok ((name, d) :: table)

end

/-- A descriptor from its kind and the members of its object. -/
def ofMembers (kind : Kind) (members : List (String × Json)) : Except Fault Descriptor :=
  match draftOfMembers kind.fields (Draft.blank kind.fields) members with
  | .error fault => .error fault
  | .ok draft =>
    match draft.finish with
    | .error fault => .error fault
    | .ok record => .ok (kind.build record)

/-- A descriptor from its kind and the values behind it in its array. -/
def ofValues (kind : Kind) (values : List Json) : Except Fault Descriptor :=
  match recordOfValues kind 0 kind.fields values with
  | .error fault => .error fault
  | .ok record => .ok (kind.build record)

/-- An outermost descriptor. -/
def ofJson : Json → Except Rejection Descriptor
  | .obj members =>
    match Kind.ofMembers Kind.ofJson .none members with
    | .error r => .error r
    | .ok kind =>
      match ofMembers kind members with
      | .error fault => .error ⟨[], fault⟩
      | .ok d => .ok d
  | .arr [] => .error ⟨[], .missingField "kind"⟩
  | .arr (first :: values) =>
    match Kind.ofJson first with
    | .error fault => .error ⟨[.index 0], fault⟩
    | .ok kind =>
      match ofValues kind values with
      | .error fault => .error ⟨[], fault⟩
      | .ok d => .ok d
  | v => .error ⟨[], .wrongType v .descriptor⟩

end Descriptor

end TypeCatalog
