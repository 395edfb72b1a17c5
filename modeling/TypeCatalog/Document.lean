import TypeCatalog.Descriptor.Text

/-!
Documents: what a reflection layer hands over in one piece.

A document has definitions, the descriptors behind the names that others refer to, and roots,
the descriptors to be extracted.  Either section may be left out.  A document is an object with
its sections by name, among other members that are passed over, or an array of the two.
-/

namespace TypeCatalog

open Json (Reader dispatch)

/-- A batch of descriptors. -/
structure Document where
  definitions : List (String × Descriptor)
  roots : List (String × Descriptor)

namespace Document

/-- The sections that are read. -/
structure Sections where
  definitions : Option (List (String × Descriptor))
  roots : Option (List (String × Descriptor))

/-- No section. -/
def Sections.none : Sections := ⟨.none, .none⟩

/-- A section that is not read is empty. -/
def Sections.document (s : Sections) : Document :=
  ⟨s.definitions.getD [], s.roots.getD []⟩

/-! ## From values -/

/-- A failed section seen from its document. -/
def inSection {α : Type} (s : Json.Segment) : Except Rejection α → Except Rejection α
  | .error r => .error ⟨s :: r.trail, r.fault⟩
  | .ok a => .ok a

/-- The sections among the members of an object. -/
def sectionsOfMembers : Sections → List (String × Json) → Except Rejection Sections
  | s, [] => .ok s
  | s, (name, v) :: rest =>
    if name = "definitions" then
      match s.definitions with
      | some _ => .error ⟨[], .duplicateField name⟩
      | .none =>
        match inSection (.key name) (Descriptor.tableOfOuterJson v) with
        | .error r => .error r
        | .ok table => sectionsOfMembers ⟨some table, s.roots⟩ rest
    else if name = "roots" then
      match s.roots with
      | some _ => .error ⟨[], .duplicateField name⟩
      | .none =>
        match inSection (.key name) (Descriptor.tableOfOuterJson v) with
        | .error r => .error r
        | .ok table => sectionsOfMembers ⟨s.definitions, some table⟩ rest
    else sectionsOfMembers s rest

/-- The document of an array: definitions, roots, and nothing else. -/
def ofValues (values : List Json) : Except Rejection Document :=
  match values with
  | [] => .ok ⟨[], []⟩
  | first :: rest =>
    match inSection (.index 0) (Descriptor.tableOfOuterJson first) with
    | .error r => .error r
    | .ok definitions =>
      match rest with
      | [] => .ok ⟨definitions, []⟩
      | second :: surplus =>
        match inSection (.index 1) (Descriptor.tableOfOuterJson second) with
        | .error r => .error r
        | .ok roots =>
          if surplus.isEmpty then .ok ⟨definitions, roots⟩
          else .error ⟨[], .tooManySections values.length⟩

/-- The document of a JSON value. -/
def ofJson : Json → Except Rejection Document
  | .obj members => (sectionsOfMembers .none members).map Sections.document
  | .arr values => ofValues values
  | v => .error ⟨[], .wrongType v .document⟩

/-! ## From text -/

/-- The next member of a document, put to the sections that are read. -/
def memberReader (depth : Nat) (s : Sections) (key : String) :
    Except Fault (Reader Fault Sections) :=
  if key = "definitions" then
    match s.definitions with
    | some _ => .error (.duplicateField key)
    | .none => .ok ((Descriptor.tableReader depth).onto fun table => ⟨some table, s.roots⟩)
  else if key = "roots" then
    match s.roots with
    | some _ => .error (.duplicateField key)
    | .none => .ok ((Descriptor.tableReader depth).onto fun table => ⟨s.definitions, some table⟩)
  else .ok (Json.skipValue.onto fun _ => s)

/-- The next element of a document, put to the sections that are read. -/
def elementReader (depth : Nat) (s : Sections) (index : Nat) : Option (Reader Fault Sections) :=
  if index = 0 then
    some ((Descriptor.tableReader depth).onto fun table => ⟨some table, s.roots⟩)
  else if index = 1 then
    some ((Descriptor.tableReader depth).onto fun table => ⟨s.definitions, some table⟩)
  else .none

/-- A document that opens at most so many brackets at once. -/
def reader (depth : Nat) : Reader Fault Document :=
  dispatch (fun v => .error (.wrongType v .document))
    (.atDepth (fun d => Json.array (elementReader d) .none fun s => .ok s.document) depth)
    (.atDepth (fun d => Json.object (memberReader d) .none fun s => .ok s.document) depth)

/-- The document at the front of a text. -/
def parse (text : String) : Except (Json.Failure Fault) Document :=
  (reader Json.depthLimit (.ofText text)).map Prod.fst

end Document

end TypeCatalog
