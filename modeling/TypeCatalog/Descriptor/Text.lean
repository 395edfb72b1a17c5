import TypeCatalog.Descriptor.Decode

/-!
Descriptors, tables of them and lists of scalars from JSON text.

The kind of an outermost descriptor is read where it stands in the text; the other members are
read as plain values first and decoded once the descriptor is closed.  So a fault of the kind
has a place of its own, and a fault of any other member is reported where the surroundings of
the descriptor end.
-/

namespace TypeCatalog

open Json (Reader Opening dispatch)

/-- A kind in its place. -/
def Kind.reader : Reader Fault Kind :=
  dispatch Kind.ofJson (.refused (.wrongType (.arr []) .kind))
    (.refused (.wrongType (.obj []) .kind))

namespace Descriptor

/-- What stands between the brackets of a descriptor, apart from its kind. -/
inductive Body where
  | members (members : List (String × Json))
  | values (values : List Json)

/-- The descriptor of a kind and a body. -/
def ofBody (kind : Kind) : Body → Except Fault Descriptor
  | .members members => ofMembers kind members
  | .values values => ofValues kind values

/-- The next member of a descriptor, put to those that are read. -/
def memberReader (depth : Nat) (read : Option Kind × List (String × Json)) (key : String) :
    Except Fault (Reader Fault (Option Kind × List (String × Json))) :=
  if key = "kind" then
    match read.1 with
    | some _ => .error (.duplicateField "kind")
    | .none => .ok (Kind.reader.onto fun kind => (some kind, read.2))
  else .ok ((Json.value depth).onto fun v => (read.1, (key, v) :: read.2))

/-- The next value of a descriptor, put to those that are read. -/
def valueReader (depth : Nat) (read : Option Kind × List Json) (index : Nat) :
    Option (Reader Fault (Option Kind × List Json)) :=
  if index = 0 then some (Kind.reader.onto fun kind => (some kind, read.2))
  else some ((Json.value depth).onto fun v => (read.1, v :: read.2))

/-- A kind that was read, and the rest in its order. -/
def opened {α : Type} (body : List α → Body) (read : Option Kind × List α) :
    Except Fault (Kind × Body) :=
  match read.1 with
  | .none => .error (.missingField "kind")
  | some kind => .ok (kind, body read.2.reverse)

/-- The kind and the body of a descriptor. -/
def bodyReader (depth : Nat) : Reader Fault (Kind × Body) :=
  dispatch (fun v => .error (.wrongType v .descriptor))
    (.atDepth (fun d => Json.array (valueReader d) (.none, []) (opened .values)) depth)
    (.atDepth (fun d => Json.object (memberReader d) (.none, []) (opened .members)) depth)

/-- A descriptor that opens at most so many brackets at once. -/
def reader (depth : Nat) : Reader Fault Descriptor := fun c =>
  match bodyReader depth c with
  | .error f => .error f
  | .ok ((kind, body), c') =>
    match ofBody kind body with
    | .error fault => .error ⟨.rejected fault, [], .pending c'⟩
    | .ok d => .ok (d, c')

/-- A table of descriptors.  A repeated name keeps its first place and its last value. -/
def tableReader (depth : Nat) : Reader Fault (List (String × Descriptor)) :=
  dispatch (fun v => .error (.wrongType v .table))
    (.refused (.wrongType (.arr []) .table))
    (.atDepth (fun d => Json.objectOf (reader d) fun table => .ok (Assoc.ofPairs table)) depth)

/-- The descriptor at the front of a text. -/
def ofText (text : String) : Except (Json.Failure Fault) Descriptor :=
  (reader Json.depthLimit (.ofText text)).map Prod.fst

/-- The table of descriptors at the front of a text. -/
def tableOfText (text : String) : Except (Json.Failure Fault) (List (String × Descriptor)) :=
  (tableReader Json.depthLimit (.ofText text)).map Prod.fst

/-- The descriptors of a table, each an outermost one. -/
def tableOfOuterEntries :
    List (String × Json) → Except Rejection (List (String × Descriptor))
  | [] => .ok []
  | (name, v) :: rest =>
    match ofJson v with
    | .error r => .error ⟨.key name :: r.trail, r.fault⟩
    | .ok d =>
      match tableOfOuterEntries rest with
      | .error r => .error r
      | .ok table => .ok ((name, d) :: table)

/-- A table of outermost descriptors. -/
def tableOfOuterJson : Json → Except Rejection (List (String × Descriptor))
  | .obj entries =>
    match tableOfOuterEntries entries with
    | .error r => .error r
    | .ok table => .ok (Assoc.ofPairs table)
  | v => .error ⟨[], .wrongType v .table⟩

end Descriptor

namespace Scalar

/-- A scalar that opens at most so many brackets at once, though none will do. -/
def reader (depth : Nat) : Reader Fault Scalar := fun c =>
  match (Json.value depth : Reader Fault Json) c with
  | .error f => .error f
  | .ok (v, c') =>
    match readScalar v with
    | .error fault => .error ⟨.rejected fault, [], .pending c'⟩
    | .ok s => .ok (s, c')

/-- The list of scalars at the front of a text. -/
def listOfText (text : String) : Except (Json.Failure Fault) (List Scalar) :=
  (dispatch (fun v => .error (.wrongType v .list))
    (.atDepth (fun d => Json.arrayOf (reader d) .ok) Json.depthLimit)
    (.refused (.wrongType (.obj []) .list)) (.ofText text)).map Prod.fst

/-- The scalars of a list; `index` elements stand before them. -/
def listOfItems (index : Nat) : List Json → Except Rejection (List Scalar)
  | [] => .ok []
  | v :: rest =>
    match readScalar v with
    | .error fault => .error ⟨[.index index], fault⟩
    | .ok s =>
      match listOfItems (index + 1) rest with
      | .error r => .error r
      | .ok ss => .ok (s :: ss)

/-- A list of scalars. -/
def listOfJson : Json → Except Rejection (List Scalar)
  | .arr items => listOfItems 0 items
  | v => .error ⟨[], .wrongType v .list⟩

end Scalar

end TypeCatalog
