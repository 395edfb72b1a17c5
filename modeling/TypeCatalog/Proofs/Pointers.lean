import TypeCatalog.Json.Pointer
import TypeCatalog.Proofs.Copies
import TypeCatalog.Proofs.Positions

/-!
Pointers to definitions.

A schema writes the name of a collected type as one token of a pointer, and reading the token gives
the name back (`unescape_pointerToken`), so that the pointer selects whatever the schema of a root
defines under the name (`select?_pointer`).  Something is, wherever there is a pointer: a
class or a record that occurs in a root or in a collected type is in the catalog, and so is what is
referred to (`collects_targets`), and a schema shows nothing that does not occur there
(`Stands.throughout`).  Therefore no pointer in a schema of an extraction is left dangling
(`pointers_resolve`).
-/

namespace TypeCatalog

/-! ## Names as tokens -/

namespace Schema

open Json.Pointer (unescape unescapeSlash unescapeTilde)

/-- A character of a token whose slashes are put back. -/
def halfEscapedChar (c : Char) : List Char :=
  if c = '~' then ['~', '0'] else [c]

theorem unescapeSlash_cons {c : Char} (other : c ≠ '~') (rest : List Char) :
    unescapeSlash (c :: rest) = c :: unescapeSlash rest := by
  conv_lhs => unfold unescapeSlash
  split <;> simp_all

theorem unescapeTilde_cons {c : Char} (other : c ≠ '~') (rest : List Char) :
    unescapeTilde (c :: rest) = c :: unescapeTilde rest := by
  conv_lhs => unfold unescapeTilde
  split <;> simp_all

/-- Reading the slashes back leaves the tildes escaped. -/
theorem unescapeSlash_escaped (name : List Char) :
    unescapeSlash (name.flatMap escapedChar) = name.flatMap halfEscapedChar := by
  induction name with
  | nil => rfl
  | cons c rest ih =>
    by_cases tilde : c = '~'
    · subst tilde
      simp [escapedChar, halfEscapedChar, unescapeSlash, ih]
    · by_cases slash : c = '/'
      · subst slash
        simp [escapedChar, halfEscapedChar, unescapeSlash, ih]
      · simp [escapedChar, halfEscapedChar, tilde, slash, unescapeSlash_cons, ih]

/-- Reading the tildes back leaves the name. -/
theorem unescapeTilde_halfEscaped (name : List Char) :
    unescapeTilde (name.flatMap halfEscapedChar) = name := by
  induction name with
  | nil => rfl
  | cons c rest ih =>
    by_cases tilde : c = '~'
    · subst tilde
      simp [halfEscapedChar, unescapeTilde, ih]
    · simp [halfEscapedChar, tilde, unescapeTilde_cons, ih]

/-- A name is what its token spells. -/
theorem unescape_pointerToken (name : String) : unescape (pointerToken name) = name := by
  unfold unescape pointerToken
  rw [String.toList_ofList, unescapeSlash_escaped, unescapeTilde_halfEscaped, String.ofList_toList]

/-- A token has no slash in it, so that it is not cut in two. -/
theorem slash_not_mem_pointerToken (name : String) : '/' ∉ (pointerToken name).toList := by
  intro mem
  unfold pointerToken at mem
  rw [String.toList_ofList] at mem
  obtain ⟨c, -, written⟩ := List.mem_flatMap.1 mem
  unfold escapedChar at written
  split at written
  · simp at written
  · split at written
    · simp at written
    · rename_i other
      exact other (List.mem_singleton.1 written).symm

end Schema

/-! ## Pointers to what a schema defines -/

namespace Text

variable {separator : Char} {front rest : List Char}

/-- Without a separator there is one piece. -/
theorem pieces_of_not_mem (free : separator ∉ front) : pieces separator front = (front, []) := by
  induction front with
  | nil => rfl
  | cons c rest ih =>
    rw [List.mem_cons, not_or] at free
    rw [pieces, ih free.2]
    exact if_neg (Ne.symm free.1)

/-- The first piece ends at the first separator. -/
theorem pieces_append (free : separator ∉ front) :
    pieces separator (front ++ separator :: rest) =
      (front, (pieces separator rest).1 :: (pieces separator rest).2) := by
  induction front with
  | nil => exact if_pos rfl
  | cons c front ih =>
    rw [List.mem_cons, not_or] at free
    rw [List.cons_append, pieces, ih free.2]
    exact if_neg (Ne.symm free.1)

end Text

namespace Schema

open Json.Pointer (child? follow? names? unescape)

/-- The pointer of a token leads through `$defs` to the name that the token stands for. -/
theorem names?_pointer {token : String} (free : '/' ∉ token.toList) :
    names? ("/$defs/" ++ token) = some ["$defs", unescape token] := by
  have text : ("/$defs/" ++ token).toList =
      [] ++ '/' :: ("$defs".toList ++ '/' :: token.toList) := by simp
  have pieces : Text.split '/' ("/$defs/" ++ token) = ["", "$defs", token] := by
    unfold Text.split
    rw [text, Text.pieces_append (by simp), Text.pieces_append (by simp),
      Text.pieces_of_not_mem free]
    simp
  have word : unescape "$defs" = "$defs" := by decide
  unfold names?
  rw [pieces]
  simp [word]

/-- The pointer to a name selects what is defined under it. -/
theorem select?_pointer (name : String) (v : Json) :
    v.select? ("/$defs/" ++ pointerToken name) = follow? ["$defs", name] v := by
  unfold Json.select?
  rw [names?_pointer (slash_not_mem_pointerToken name), unescape_pointerToken]
  rfl

/-- The schema of a shape defines nothing: only that of a document does. -/
theorem defs_not_mem_schema {x : Shape} {table : List (String × Schema)} :
    .defs table ∉ x.schema := by
  intro mem
  rcases Shape.allows_of_mem_schema mem with plain | ⟨kind, name, -, eq⟩
  · cases plain
  · cases eq

theorem find?_defs {s : Schema} (none : ∀ table, .defs table ∉ s) (rest : Schema) :
    Assoc.find? "$defs" (toMembers (s ++ rest)) = Assoc.find? "$defs" (toMembers rest) := by
  induction s with
  | nil => rfl
  | cons keyword s ih =>
    have other : keyword.toMember.1 ≠ "$defs" := by
      cases keyword with
      | defs table => exact absurd List.mem_cons_self (none table)
      | _ => simp [Keyword.toMember]
    rw [List.cons_append, toMembers, Assoc.find?, if_neg other]
    exact ih fun table mem => none table (List.mem_cons_of_mem _ mem)

/-- Under `$defs` a document has what it defines, if that is anything. -/
theorem child?_document (root : Shape) (catalog : Catalog) :
    child? "$defs" (document root catalog).toJson =
      if (definitions catalog).isEmpty then none
      else some (.obj (tableToJson (definitions catalog))) := by
  have beside (rest : Schema) : child? "$defs" (toJson (root.schema ++ rest)) =
      Assoc.find? "$defs" (toMembers rest) := find?_defs (fun _ => defs_not_mem_schema) rest
  unfold document
  split
  · rename_i empty
    rw [← List.append_nil root.schema, beside, empty]
    rfl
  · rename_i filled
    rw [beside, if_neg (by simpa using filled)]
    rfl

/-- What the schema of a root defines under a name. -/
theorem follow?_document (root : Shape) (catalog : Catalog) (name : String) :
    follow? ["$defs", name] (document root catalog).toJson =
      (Assoc.find? name (definitions catalog)).map toJson := by
  have entry : Assoc.find? name (tableToJson (definitions catalog)) =
      (Assoc.find? name (definitions catalog)).map toJson := by
    rw [tableToJson_eq, Assoc.find?_mapValues]
  rw [follow?, child?_document]
  split
  · rename_i empty
    rw [List.isEmpty_iff.1 empty]
    rfl
  · rw [Option.bind_some, follow?, ← entry]
    exact Option.bind_fun_some _

end Schema

/-! ## Shapes in the schema of a root -/

open Shape (Occurs Throughout DrawnFrom)

namespace Shape

theorem occurs_bearer (x : Shape) : Occurs x.bearer x := by
  induction x using bearer.induct with
  | case1 name bound constraints ih => exact .within List.mem_cons_self ih
  | case2 name base ih => exact .within List.mem_cons_self ih
  | case3 base bindings options ih => exact .within List.mem_cons_self ih
  | case4 other notBound notNew notGeneric =>
    rw [bearer.eq_4] <;> first | exact .self | assumption

theorem drawnFrom_child {x part : Shape} (h : part ∈ x.children) : DrawnFrom [x] part :=
  .inr (.inr ⟨x, List.mem_singleton.2 rfl, .within h .self⟩)

/-- What stands inside the surface schema of a shape is a part of it. -/
theorem drawnFrom_of_mem_faceInner {x : Shape} {entry : Schema.Step × Shape}
    (h : entry ∈ x.faceInner) : DrawnFrom [x] entry.2 := by
  cases x with
  | list element options =>
    cases List.mem_singleton.1 h
    exact drawnFrom_child List.mem_cons_self
  | tuple elements variadic options =>
    cases variadic with
    | true =>
      cases List.mem_singleton.1 h
      rcases elements with _ | ⟨first, rest⟩
      · exact drawnFrom_unknown
      · exact drawnFrom_child List.mem_cons_self
    | false => exact drawnFrom_child (Schema.mem_of_mem_numbered h)
  | dict key value options =>
    cases List.mem_singleton.1 h
    exact drawnFrom_child (List.mem_cons_of_mem _ List.mem_cons_self)
  | mapping key value options =>
    cases List.mem_singleton.1 h
    exact drawnFrom_child (List.mem_cons_of_mem _ List.mem_cons_self)
  | union members options => exact drawnFrom_child (Schema.mem_of_mem_numbered h)
  | optional inner options =>
    rcases List.mem_pair.1 h with rfl | rfl
    · exact drawnFrom_child List.mem_cons_self
    · exact drawnFrom_none
  | typeVar name bound constraints =>
    exact drawnFrom_child (List.mem_append_right _ (Schema.mem_of_mem_numbered h))
  | function name params returns options =>
    exact drawnFrom_child (List.mem_append_left _ (Schema.mem_of_mem_named h))
  | _ => cases h

/-- What a shape shows in its schema occurs in it. -/
theorem drawnFrom_of_mem_inner {x : Shape} {entry : Schema.Step × Shape} (h : entry ∈ x.inner) :
    DrawnFrom [x] entry.2 := by
  refine (drawnFrom_of_mem_faceInner h).of_occurs fun y hy => ?_
  rw [List.mem_singleton.1 hy]
  exact ⟨x, List.mem_cons_self, x.occurs_bearer⟩

/-- So is what stands inside the schema that it is defined by. -/
theorem drawnFrom_of_mem_bodyInner {x : Shape} {entry : Schema.Step × Shape}
    (h : entry ∈ x.bodyInner) : DrawnFrom [x] entry.2 := by
  cases x with
  | classType name fields options => exact drawnFrom_child (Schema.mem_of_mem_named h)
  | record name fields total options => exact drawnFrom_child (Schema.mem_of_mem_named h)
  | _ => exact drawnFrom_of_mem_inner h

end Shape

namespace Schema

/-- The shapes that a subject has. -/
def Subject.shapes : Subject → List Shape
  | document root catalog => root :: catalog.defined.map Prod.snd
  | value x => [x]
  | definition x => [x]

theorem Subject.shape_mem_shapes (p : Subject) : p.shape ∈ p.shapes := by
  cases p <;> exact List.mem_cons_self

/-- A step inside a schema leads to parts of the shapes that it is the schema of. -/
theorem Subject.shapes_drawnFrom {p q : Subject} {step : Step} (h : (step, q) ∈ p.inner) :
    ∀ x ∈ q.shapes, DrawnFrom p.shapes x := by
  have values : ∀ {x : Shape} {parts : List (Step × Shape)},
      (∀ entry ∈ parts, DrawnFrom [x] entry.2) → (step, q) ∈ mapParts value parts →
      ∀ y ∈ q.shapes, DrawnFrom [x] y := by
    intro x parts drawn mem y hy
    obtain ⟨entry, listed, eq⟩ := List.mem_map.1 mem
    cases eq
    cases List.mem_singleton.1 hy
    exact drawn entry listed
  cases p with
  | value x => exact values (fun _ => Shape.drawnFrom_of_mem_inner) h
  | definition x => exact values (fun _ => Shape.drawnFrom_of_mem_bodyInner) h
  | document root catalog =>
    intro x hx
    rcases List.mem_append.1 h with ofRoot | defined
    · have drawn := values (fun _ => Shape.drawnFrom_of_mem_inner) ofRoot x hx
      refine drawn.of_occurs fun y hy => ?_
      rw [List.mem_singleton.1 hy]
      exact ⟨root, List.mem_cons_self, .self⟩
    · obtain ⟨entry, listed, eq⟩ := List.mem_map.1 defined
      cases eq
      cases List.mem_singleton.1 hx
      exact .of_mem (List.mem_cons_of_mem _ (mem_of_mem_named listed))

/-- What a root and the collected types have throughout, every shape has that their schema was
written for. -/
theorem Stands.throughout {P : Shape → Prop} (unknown : P .unknown) (none : P .none) {p q : Subject}
    {path : List Step} (h : ∀ x ∈ p.shapes, Throughout P x)
    (stands : Stands Subject.inner p path q) : Throughout P q.shape := by
  suffices ∀ x ∈ q.shapes, Throughout P x from this _ q.shape_mem_shapes
  induction stands with
  | here => exact h
  | inside _ listed ih =>
    exact fun x hx => (Subject.shapes_drawnFrom listed x hx).throughout unknown none ih

end Schema

/-! ## Extractions -/

/-- Where a shape leads to, there is a type of the catalog, and it is the shape itself unless that
is a reference. -/
def Catalog.Collects (catalog : Catalog) (x : Shape) : Prop :=
  ∀ kind name, x.target? = some (kind, name) →
    ∃ y, catalog.get? kind name = some y ∧ (x.ownKey? = some (kind, name) → y = x)

/-- What is filed and grounded in a registry at rest leads into its catalog throughout. -/
theorem Registry.collects_of_filed {r : Registry} {x : Shape} (rest : r.AtRest)
    (filed : r.Filed x) (grounded : Shape.Grounded r.keys x) :
    Throughout r.catalog.Collects x := by
  intro part occurs kind name target
  rw [catalog_get?]
  have copy : part.ownKey? = some (kind, name) → r.get? kind name = some part :=
    filed part occurs kind name
  cases part with
  | classType name' fields options => exact ⟨_, copy target, fun _ => rfl⟩
  | record name' fields total options => exact ⟨_, copy target, fun _ => rfl⟩
  | reference name' kind' =>
    have key : (kind', name') = (kind, name) := by
      cases kind' <;> first | exact Option.some.inj target | cases target
    cases key
    obtain ⟨y, found⟩ := rest.exists_get? (grounded name kind occurs)
    exact ⟨y, found, fun own => by cases own⟩
  | _ => cases target

/-- What is defined is in one of the tables of the catalog. -/
theorem Catalog.exists_table_of_mem_defined {catalog : Catalog} {entry : String × Shape}
    (h : entry ∈ catalog.defined) : ∃ kind, entry ∈ catalog.table kind := by
  rcases List.mem_append.1 (Assoc.mem_of_mem_ofPairs h) with nominal | ofAlias
  · rcases List.mem_append.1 nominal with ofClass | ofRecord
    · exact ⟨.classType, ofClass⟩
    · exact ⟨.record, ofRecord⟩
  · exact ⟨.typeAlias, ofAlias⟩

namespace Document

variable {doc : Document} {options : OptionSet} {x : Extraction}

/-- The roots of an extraction and its collected types lead into the catalog throughout. -/
theorem collects_targets (extracted : doc.extract options = .ok x) :
    (∀ root ∈ x.roots.map Prod.snd, Throughout x.catalog.Collects root) ∧
      ∀ entry ∈ x.catalog.defined, Throughout x.catalog.Collects entry.2 := by
  obtain ⟨shapes, s, outcome, rfl⟩ := shapesOf_of_extract_eq_ok extracted
  have filing := ((Pipeline.filed_invariant doc.definitions options).law Stock.all).shapes
    (doc.roots.map Prod.snd) .start Registry.coherent_empty
  have grounding := ((Pipeline.grounded_invariant doc.definitions options).law Stock.all).shapes
    (doc.roots.map Prod.snd) .start Registry.sound_empty
  have growing := Pipeline.growing_shapes Stock.all doc.definitions options
    (doc.roots.map Prod.snd) .start
  rw [outcome] at filing grounding growing
  obtain ⟨coherent, filed⟩ := filing
  obtain ⟨sound, grounded⟩ := grounding
  have rest : s.registry.AtRest := Registry.atRest_empty.of_grows growing
  constructor
  · intro root hroot
    obtain ⟨⟨name, root⟩, listed, rfl⟩ := List.mem_map.1 hroot
    have mem : root ∈ shapes := (List.of_mem_zip listed).2
    exact Registry.collects_of_filed rest (filed shapes rfl root mem) (grounded shapes rfl root mem)
  · intro entry hentry
    obtain ⟨kind, listed⟩ := Catalog.exists_table_of_mem_defined hentry
    rw [Registry.catalog_table] at listed
    obtain ⟨e, he, -, finished⟩ := Registry.mem_table.1 listed
    exact Registry.collects_of_filed rest (coherent e he entry.2 finished).1
      (sound e he entry.2 finished)

end Document

namespace Schema

open Json.Pointer (child? follow? unescape)

/-- A pointer in the schema of a subject names the collected type that the subject stands for. -/
theorem pointer_of_child? {p : Subject} {v : Json} (h : child? "$ref" p.schema.toJson = some v) :
    ∃ kind name, p.shape.bearer.target? = some (kind, name) ∧
      v = .str ("#/$defs/" ++ pointerToken name) := by
  have member : ("$ref", v) ∈ p.schema.map Keyword.toMember := by
    rw [← toMembers_eq]
    exact Assoc.mem_of_find? h
  obtain ⟨keyword, mem, written⟩ := List.mem_map.1 member
  have pointer : ∃ target, keyword = .ref target ∧ v = .str target := by
    cases keyword with
    | ref target => exact ⟨target, rfl, (Prod.mk.inj written).2.symm⟩
    | _ => simp [Keyword.toMember] at written
  obtain ⟨target, rfl, rfl⟩ := pointer
  obtain ⟨kind, name, found, rfl⟩ := target_of_ref_mem mem
  exact ⟨kind, name, found, rfl⟩

end Schema

/-- No shape is written as a pointer to a function. -/
theorem Shape.ne_function_of_target? {x : Shape} {kind : CollectedKind} {name : String}
    (h : x.target? = some (kind, name)) : kind ≠ .function := by
  rintro rfl
  cases x with
  | reference name' kind' => cases kind' <;> cases h
  | _ => cases h

/-- Every type of the catalog that is not a function is defined under its name. -/
theorem Catalog.exists_find?_defined {catalog : Catalog} {kind : CollectedKind} {name : String}
    {y : Shape} (pointed : kind ≠ .function) (found : catalog.get? kind name = some y) :
    ∃ z, Assoc.find? name catalog.defined = some z := by
  have mem : (name, y) ∈ catalog.table kind := Assoc.mem_of_find? found
  have listed : (name, y) ∈ catalog.classes ++ catalog.records ++ catalog.aliases := by
    cases kind with
    | function => exact absurd rfl pointed
    | classType => exact List.mem_append_left _ (List.mem_append_left _ mem)
    | record => exact List.mem_append_left _ (List.mem_append_right _ mem)
    | typeAlias => exact List.mem_append_right _ mem
  apply Assoc.exists_find?_of_mem_keys
  rw [Catalog.defined, Assoc.mem_keys_ofPairs]
  exact List.mem_map_of_mem (f := Prod.fst) listed

namespace Document

open Schema (Step Stands Subject)
open Json.Pointer (child? follow? unescape)

variable {doc : Document} {options : OptionSet} {x : Extraction}

/-- What a schema in the schema of a root was written for leads into the catalog. -/
theorem collects_of_stands (extracted : doc.extract options = .ok x) {root : Shape}
    (isRoot : root ∈ x.roots.map Prod.snd) {path : List Step} {p : Subject}
    (stands : Stands Subject.inner (.document root x.catalog) path p) :
    x.catalog.Collects p.shape.bearer := by
  obtain ⟨ofRoots, ofCatalog⟩ := collects_targets extracted
  have shown : ∀ y ∈ (Subject.document root x.catalog).shapes, Throughout x.catalog.Collects y := by
    intro y hy
    rcases List.mem_cons.1 hy with rfl | defined
    · exact ofRoots _ isRoot
    · obtain ⟨entry, listed, rfl⟩ := List.mem_map.1 defined
      exact ofCatalog entry listed
  have collects : Throughout x.catalog.Collects p.shape :=
    stands.throughout (fun _ _ eq => by cases eq) (fun _ _ eq => by cases eq) shown
  exact collects _ p.shape.occurs_bearer

/-- **Pointers resolve.**  In the schema of a root of an extraction, wherever a schema has a `$ref`,
it was written for a class, a record or a reference, by the same steps from the root or from a
definition; it consists of `#/$defs/` and a token that spells the name of that; and the name is
defined in the very schema, so that the pointer selects what is defined. -/
theorem pointers_resolve (extracted : doc.extract options = .ok x) {root : Shape}
    (isRoot : root ∈ x.roots.map Prod.snd) {path : List Step} {part v : Json}
    (stands : Stands Json.subschemas (Schema.document root x.catalog).toJson path part)
    (points : child? "$ref" part = some v) :
    ∃ (p : Subject) (kind : CollectedKind) (name token : String) (body : Json),
      Stands Subject.inner (.document root x.catalog) path p ∧ part = p.schema.toJson ∧
      p.shape.bearer.target? = some (kind, name) ∧
      v = .str ("#/$defs/" ++ token) ∧ unescape token = name ∧
      follow? ["$defs", name] (Schema.document root x.catalog).toJson = some body ∧
      (Schema.document root x.catalog).toJson.select? ("/$defs/" ++ token) = some body := by
  obtain ⟨p, standsThere, rfl⟩ := Schema.exists_subject (p := .document root x.catalog) stands
  obtain ⟨kind, name, target, rfl⟩ := Schema.pointer_of_child? points
  -- what the subject stands for is in the catalog, so that something is defined under its name
  obtain ⟨y, collected, -⟩ := collects_of_stands extracted isRoot standsThere kind name target
  obtain ⟨z, defined⟩ :=
    Catalog.exists_find?_defined (Shape.ne_function_of_target? target) collected
  have selected : follow? ["$defs", name] (Schema.document root x.catalog).toJson =
      some z.definitionSchema.toJson := by
    rw [Schema.follow?_document, Schema.definitions_eq, Assoc.find?_mapValues, defined]
    rfl
  refine ⟨p, kind, name, Schema.pointerToken name, _, standsThere, rfl, target, rfl,
    Schema.unescape_pointerToken name, selected, ?_⟩
  rw [Schema.select?_pointer, selected]

/-- A list of links that refer to themselves, under a name that has a tilde and a slash in it: the
pointer in the definition of a link. -/
theorem pointers_resolve_of_escaped :
    let link : Descriptor := .classDecl "a~b/c" [("next", .ref "a~b/c")] []
    let doc : Document := ⟨[("a~b/c", link)], [("links", .generic "list" [link])]⟩
    let linkShape : Shape := .classType "a~b/c" [("next", .reference "a~b/c" .classType)] .empty
    let root : Shape := .list linkShape .empty
    let catalog : Catalog := ⟨[], [("a~b/c", linkShape)], [], []⟩
    let schema : Json := (Schema.document root catalog).toJson
    let path : List Step := [.definition "a~b/c", .property "next"]
    let part : Json := .obj [("$ref", .str "#/$defs/a~0b~1c")]
    let definition : Json := .obj [("type", .str "object"), ("title", .str "a~b/c"),
      ("properties", .obj [("next", part)]), ("required", .arr [.str "next"])]
    schema = .obj [("type", .str "array"), ("items", part),
        ("$defs", .obj [("a~b/c", definition)])] ∧
      doc.extract .empty = .ok ⟨[("links", root)], catalog⟩ ∧
      Stands Json.subschemas schema path part ∧
      ∃ (p : Subject) (kind : CollectedKind) (name token : String) (body : Json),
        Stands Subject.inner (.document root catalog) path p ∧ part = p.schema.toJson ∧
        p.shape.bearer.target? = some (kind, name) ∧
        Json.str "#/$defs/a~0b~1c" = .str ("#/$defs/" ++ token) ∧ unescape token = name ∧
        follow? ["$defs", name] schema = some body ∧
        schema.select? ("/$defs/" ++ token) = some body := by
  intro link doc linkShape root catalog schema path part definition
  have written : schema = .obj [("type", .str "array"), ("items", part),
      ("$defs", .obj [("a~b/c", definition)])] := by
    simp only [schema, root, catalog, linkShape, part, definition]
    cbv
  have extracted : doc.extract .empty = .ok ⟨[("links", root)], catalog⟩ := by
    simp only [doc, link, root, catalog, linkShape]
    cbv
  have stands : Stands Json.subschemas schema path part := by
    have inDefinitions : Stands Json.subschemas schema [.definition "a~b/c"] definition := by
      have whole : Stands Json.subschemas schema [] schema := .here
      refine .inside whole ?_
      rw [written]
      simp [Json.subschemas, Json.memberSubschemas, Schema.named]
    refine .inside inDefinitions ?_
    simp [definition, Json.subschemas, Json.memberSubschemas, Schema.named]
  exact ⟨written, extracted, stands, pointers_resolve extracted List.mem_cons_self stands rfl⟩

end Document

end TypeCatalog
