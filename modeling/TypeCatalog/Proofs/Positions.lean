import TypeCatalog.Proofs.Occurrence
import TypeCatalog.Schema.OfShape

/-!
Positions in a schema.

A schema has schemas in it, each behind a `Step`: the keyword that it stands under and its number or
its name there.  `Json.subschemas` finds them in a schema as it is written, and `Stands` goes down
to any depth.  Whatever stands in the schema of a root with its definitions was written for a
`Subject`, for some shape as a value or for a collected shape as a definition, and it stands there
by the same steps (`exists_subject`).  A schema points to a definition only where the shape, behind
the new types, the bounds and the generic classes that leave no trace in a schema, is a collected
type or a reference to one (`target_of_ref_mem`).
-/

namespace TypeCatalog

namespace Schema

variable {α β : Type}

/-! ## Steps -/

/-- The place of a schema in the schema around it. -/
inductive Step where
  | items
  | prefixItem (i : Nat)
  | additionalProperties
  | arm (i : Nat)
  | property (name : String)
  | definition (name : String)

/-- Parts in a row, each behind the step of its number. -/
def numbered (step : Nat → Step) (parts : List α) : List (Step × α) :=
  parts.zipIdx.map fun (part, i) => (step i, part)

/-- Parts by name, each behind the step of its name. -/
def named (step : String → Step) (table : List (String × α)) : List (Step × α) :=
  table.map fun (name, part) => (step name, part)

/-- Change every part and no step. -/
def mapParts (f : α → β) (parts : List (Step × α)) : List (Step × β) :=
  parts.map fun (step, part) => (step, f part)

theorem numbered_map (f : α → β) (step : Nat → Step) (parts : List α) :
    numbered step (parts.map f) = mapParts f (numbered step parts) := by
  unfold numbered mapParts
  rw [List.zipIdx_map, List.map_map, List.map_map]
  rfl

theorem named_mapValues (f : α → β) (step : String → Step) (table : List (String × α)) :
    named step (Assoc.mapValues f table) = mapParts f (named step table) := by
  unfold named mapParts Assoc.mapValues
  rw [List.map_map, List.map_map]
  rfl

theorem mapParts_mapParts {γ : Type} (g : β → γ) (f : α → β) (parts : List (Step × α)) :
    mapParts g (mapParts f parts) = mapParts (fun part => g (f part)) parts := by
  unfold mapParts
  rw [List.map_map]
  rfl

theorem mem_of_mem_numbered {step : Nat → Step} {parts : List α} {entry : Step × α}
    (h : entry ∈ numbered step parts) : entry.2 ∈ parts := by
  obtain ⟨⟨part, i⟩, listed, rfl⟩ := List.mem_map.1 h
  exact List.fst_mem_of_mem_zipIdx listed

theorem mem_of_mem_named {step : String → Step} {table : List (String × α)} {entry : Step × α}
    (h : entry ∈ named step table) : entry.2 ∈ table.map Prod.snd := by
  obtain ⟨⟨name, part⟩, listed, rfl⟩ := List.mem_map.1 h
  exact List.mem_map_of_mem (f := Prod.snd) listed

/-! ## Paths -/

/-- Steps lead to a part of a whole, through parts as `inner` lists them. -/
inductive Stands (inner : α → List (Step × α)) (whole : α) : List Step → α → Prop
  | here : Stands inner whole [] whole
  | inside {path : List Step} {part : α} {step : Step} {next : α} :
      Stands inner whole path part → (step, next) ∈ inner part →
      Stands inner whole (path ++ [step]) next

/-- If the parts of an image are the images of the parts, so is all that stands in it. -/
theorem Stands.of_image {inner : α → List (Step × α)} {inner' : β → List (Step × β)} {f : α → β}
    (image : ∀ a, inner' (f a) = mapParts f (inner a)) {whole : α} {path : List Step} {part' : β}
    (stands : Stands inner' (f whole) path part') :
    ∃ part, Stands inner whole path part ∧ part' = f part := by
  induction stands with
  | here => exact ⟨whole, .here, rfl⟩
  | inside _ listed ih =>
    obtain ⟨part, stands, rfl⟩ := ih
    rw [image] at listed
    obtain ⟨⟨step, next⟩, mem, eq⟩ := List.mem_map.1 listed
    cases eq
    exact ⟨next, .inside stands mem, rfl⟩

end Schema

open Schema (Step Stands numbered named mapParts numbered_map named_mapValues)

/-! ## Schemas in a schema -/

/-- The schemas in a member of a schema as it is written. -/
def Json.memberSubschemas : String × Json → List (Step × Json)
  | ("items", v) => [(.items, v)]
  | ("prefixItems", .arr vs) => numbered .prefixItem vs
  | ("additionalProperties", v) => [(.additionalProperties, v)]
  | ("oneOf", .arr vs) => numbered .arm vs
  | ("properties", .obj members) => named .property members
  | ("$defs", .obj members) => named .definition members
  | _ => []

/-- The schemas in a schema as it is written. -/
def Json.subschemas : Json → List (Step × Json)
  | .obj members => members.flatMap memberSubschemas
  | _ => []

/-- The schemas in the value of a keyword. -/
def Keyword.inner : Keyword → List (Step × Schema)
  | .items schema => [(.items, schema)]
  | .prefixItems schemas => numbered .prefixItem schemas
  | .additionalProperties schema => [(.additionalProperties, schema)]
  | .oneOf schemas => numbered .arm schemas
  | .properties schemas => named .property schemas
  | .defs schemas => named .definition schemas
  | _ => []

namespace Schema

/-- The schemas in a schema. -/
def inner (schema : Schema) : List (Step × Schema) :=
  schema.flatMap Keyword.inner

theorem toMembers_eq (schema : Schema) : toMembers schema = schema.map Keyword.toMember := by
  induction schema with
  | nil => rfl
  | cons keyword rest ih => rw [toMembers, ih, List.map_cons]

theorem listToJson_eq (schemas : List Schema) : listToJson schemas = schemas.map toJson := by
  induction schemas with
  | nil => rfl
  | cons schema rest ih => rw [listToJson, ih, List.map_cons, toJson]

theorem tableToJson_eq (table : List (String × Schema)) :
    tableToJson table = Assoc.mapValues toJson table := by
  induction table with
  | nil => rfl
  | cons entry rest ih =>
    obtain ⟨name, schema⟩ := entry
    rw [tableToJson, ih]
    rfl

theorem memberSubschemas_toMember (keyword : Keyword) :
    Json.memberSubschemas keyword.toMember = mapParts toJson keyword.inner := by
  cases keyword with
  | prefixItems schemas =>
    rw [Keyword.toMember, listToJson_eq]
    exact numbered_map toJson _ schemas
  | oneOf schemas =>
    rw [Keyword.toMember, listToJson_eq]
    exact numbered_map toJson _ schemas
  | properties schemas =>
    rw [Keyword.toMember, tableToJson_eq]
    exact named_mapValues toJson _ schemas
  | defs schemas =>
    rw [Keyword.toMember, tableToJson_eq]
    exact named_mapValues toJson _ schemas
  | _ => rfl

/-- In a schema as it is written there are the schemas that are in it, as they are written. -/
theorem subschemas_toJson (schema : Schema) :
    schema.toJson.subschemas = mapParts toJson schema.inner := by
  have members : schema.toJson.subschemas =
      (schema.map Keyword.toMember).flatMap Json.memberSubschemas := by
    rw [← toMembers_eq]
    rfl
  have images : mapParts toJson schema.inner =
      schema.flatMap fun keyword => mapParts toJson keyword.inner := List.map_flatMap
  rw [members, images, List.flatMap_map]
  exact List.flatMap_congr fun keyword _ => memberSubschemas_toMember keyword

end Schema

/-! ## Titles -/

/-- A keyword is a title. -/
def Keyword.isTitle : Keyword → Bool
  | .title _ => true
  | _ => false

namespace Schema

/-- A schema without its title. -/
def untitled (schema : Schema) : Schema :=
  schema.filter fun keyword => !keyword.isTitle

theorem mem_untitled {schema : Schema} {keyword : Keyword} :
    keyword ∈ schema.untitled ↔ keyword ∈ schema ∧ keyword.isTitle = false := by
  unfold untitled
  rw [List.mem_filter, Bool.not_eq_true']

theorem untitled_setTitle (text : String) (schema : Schema) :
    (setTitle text schema).untitled = schema.untitled := by
  fun_induction setTitle text schema with
  | case1 => rfl
  | case2 => rfl
  | case3 keyword rest _ ih =>
    have first (rest : Schema) : untitled (keyword :: rest) = untitled [keyword] ++ untitled rest :=
      List.filter_append [keyword] rest
    rw [first, ih, ← first]

/-- There is no schema in a title. -/
theorem inner_untitled (schema : Schema) : schema.untitled.inner = schema.inner := by
  induction schema with
  | nil => rfl
  | cons keyword rest ih =>
    cases keyword with
    | title text => exact ih
    | _ => exact congrArg (_ ++ ·) ih

end Schema

/-! ## Shapes in a shape -/

namespace Shape

/-- The shape whose schema a shape has, but for the title. -/
def bearer : Shape → Shape
  | typeVar _ (some bound) _ => bound.bearer
  | newType _ base => base.bearer
  | fixedGeneric base _ _ => base.bearer
  | other => other

/-- A shape has a schema of its own. -/
def IsBare : Shape → Prop
  | typeVar _ (some _) _ => False
  | newType _ _ => False
  | fixedGeneric _ _ _ => False
  | _ => True

theorem isBare_bearer (x : Shape) : x.bearer.IsBare := by
  induction x using bearer.induct with
  | case1 name bound constraints ih => exact ih
  | case2 name base ih => exact ih
  | case3 base bindings options ih => exact ih
  | case4 other notBound notNew notGeneric =>
    rw [bearer.eq_4 other notBound notNew notGeneric]
    cases other with
    | typeVar name bound constraints =>
      cases bound with
      | none => trivial
      | some bound => exact notBound name bound constraints rfl
    | newType name base => exact notNew name base rfl
    | fixedGeneric base bindings options => exact notGeneric base bindings options rfl
    | _ => trivial

theorem untitled_schema (x : Shape) : x.schema.untitled = x.bearer.schema.untitled := by
  induction x using bearer.induct with
  | case1 name bound constraints ih => exact ih
  | case2 name base ih =>
    rw [schema, Schema.untitled_setTitle]
    exact ih
  | case3 base bindings options ih => exact ih
  | case4 other notBound notNew notGeneric =>
    rw [bearer.eq_4 other notBound notNew notGeneric]

/-- The shapes in a shape whose schemas are in its own schema. -/
def faceInner : Shape → List (Step × Shape)
  | list element _ => [(.items, element)]
  | tuple elements true _ => [(.items, elements.headD unknown)]
  | tuple elements false _ => numbered .prefixItem elements
  | dict _ value _ => [(.additionalProperties, value)]
  | mapping _ value _ => [(.additionalProperties, value)]
  | union members _ => numbered .arm members
  | optional inner _ => [(.arm 0, inner), (.arm 1, none)]
  | typeVar _ _ constraints => numbered .arm constraints
  | function _ params _ _ => named .property params
  | _ => []

/-- The shapes in a shape whose schemas are in its schema. -/
def inner (x : Shape) : List (Step × Shape) :=
  x.bearer.faceInner

theorem schemas_eq (shapes : List Shape) : schemas shapes = shapes.map schema := by
  induction shapes with
  | nil => rfl
  | cons x rest ih => rw [schemas, ih, List.map_cons]

theorem schemaTable_eq (table : List (String × Shape)) :
    schemaTable table = Assoc.mapValues schema table := by
  induction table with
  | nil => rfl
  | cons entry rest ih =>
    obtain ⟨name, x⟩ := entry
    rw [schemaTable, ih]
    rfl

theorem schemaOfFirst_eq (shapes : List Shape) :
    schemaOfFirst shapes = (shapes.headD unknown).schema := by
  cases shapes <;> rfl

theorem numbered_schemas (step : Nat → Step) (shapes : List Shape) :
    numbered step (schemas shapes) = mapParts schema (numbered step shapes) := by
  rw [schemas_eq, numbered_map]

theorem inner_ofBuiltin (name : String) : (Schema.ofBuiltin name).inner = [] := by
  unfold Schema.ofBuiltin
  split_ifs <;> rfl

theorem inner_object (title : String) (table : List (String × Shape)) (required : List String) :
    (Schema.object title (schemaTable table) required).inner =
      mapParts schema (named .property table) := by
  have properties : (Schema.object title (schemaTable table) required).inner =
      named .property (schemaTable table) := by
    unfold Schema.object
    split <;> simp [Schema.inner, Keyword.inner]
  rw [properties, schemaTable_eq, named_mapValues]

theorem inner_schema_of_isBare {x : Shape} (bare : x.IsBare) :
    x.schema.inner = mapParts schema x.faceInner := by
  cases x with
  | builtin name => exact inner_ofBuiltin name
  | tuple elements variadic options =>
    cases variadic with
    | true => simp [schema, schemaOfFirst_eq, Schema.inner, Keyword.inner, faceInner, mapParts]
    | false => simp [schema, Schema.inner, Keyword.inner, faceInner, numbered_schemas]
  | union members options => simp [schema, Schema.inner, Keyword.inner, faceInner, numbered_schemas]
  | typeVar name bound constraints =>
    cases bound with
    | some bound => exact bare.elim
    | none =>
      cases constraints with
      | nil => rfl
      | cons first rest => simp [schema, Schema.inner, Keyword.inner, faceInner, numbered_schemas]
  | reference name kind => cases kind <;> rfl
  | function name params returns options =>
    rw [schema]
    exact inner_object name params _
  | newType name base => exact bare.elim
  | fixedGeneric base bindings options => exact bare.elim
  | _ => rfl

/-- The schemas in the schema of a shape are those of the shapes in it. -/
theorem inner_schema (x : Shape) : x.schema.inner = mapParts schema x.inner := by
  rw [← Schema.inner_untitled, untitled_schema, Schema.inner_untitled]
  exact inner_schema_of_isBare x.isBare_bearer

end Shape

/-! ## Subjects -/

/-- What a schema is written for. -/
inductive Schema.Subject where
  /-- A root with the definitions. -/
  | document (root : Shape) (catalog : Catalog)
  /-- A shape in the place of a value. -/
  | value (x : Shape)
  /-- A collected shape under its name. -/
  | definition (x : Shape)

/-- All that is collected, functions apart, under the names that schemas point to. -/
def Catalog.defined (catalog : Catalog) : List (String × Shape) :=
  Assoc.ofPairs (catalog.classes ++ catalog.records ++ catalog.aliases)

theorem Schema.definitions_eq (catalog : Catalog) :
    definitions catalog = Assoc.mapValues Shape.definitionSchema catalog.defined :=
  (Assoc.mapValues_ofPairs Shape.definitionSchema _).symm

/-- The shapes in a collected shape whose schemas are in its definition. -/
def Shape.bodyInner : Shape → List (Step × Shape)
  | classType _ fields _ => named .property fields
  | record _ fields _ _ => named .property fields
  | other => other.inner

theorem Shape.inner_definitionSchema (x : Shape) :
    x.definitionSchema.inner = mapParts schema x.bodyInner := by
  cases x with
  | classType name fields options => exact inner_object name fields _
  | record name fields total options => exact inner_object name fields _
  | _ => exact inner_schema _

namespace Schema

/-- The schema of a subject. -/
def Subject.schema : Subject → Schema
  | document root catalog => Schema.document root catalog
  | value x => x.schema
  | definition x => x.definitionSchema

/-- The shape of a subject. -/
def Subject.shape : Subject → Shape
  | document root _ => root
  | value x => x
  | definition x => x

/-- The subjects in a subject. -/
def Subject.inner : Subject → List (Step × Subject)
  | document root catalog =>
    mapParts value root.inner ++ mapParts definition (named .definition catalog.defined)
  | value x => mapParts value x.inner
  | definition x => mapParts value x.bodyInner

theorem inner_document (root : Shape) (catalog : Catalog) :
    (document root catalog).inner =
      root.schema.inner ++ named .definition (definitions catalog) := by
  unfold document
  split
  · rename_i none
    rw [none]
    exact (List.append_nil _).symm
  · unfold inner
    rw [List.flatMap_append]
    exact congrArg _ (List.append_nil _)

/-- The schemas in the schema of a subject are those of the subjects in it. -/
theorem Subject.inner_schema (p : Subject) : p.schema.inner = mapParts Subject.schema p.inner := by
  have values : ∀ parts : List (Step × Shape),
      mapParts Subject.schema (mapParts value parts) = mapParts Shape.schema parts :=
    mapParts_mapParts Subject.schema value
  cases p with
  | value x =>
    unfold Subject.inner
    rw [values]
    exact Shape.inner_schema x
  | definition x =>
    unfold Subject.inner
    rw [values]
    exact Shape.inner_definitionSchema x
  | document root catalog =>
    have defined :
        mapParts Subject.schema (mapParts definition (named .definition catalog.defined)) =
          named .definition (definitions catalog) := by
      rw [mapParts_mapParts, definitions_eq, named_mapValues]
      rfl
    have parts : mapParts Subject.schema (document root catalog).inner =
        mapParts Subject.schema (mapParts value root.inner) ++
          mapParts Subject.schema (mapParts definition (named .definition catalog.defined)) :=
      List.map_append
    rw [parts, values, defined, ← Shape.inner_schema]
    exact inner_document root catalog

/-- Whatever stands in the schema of a subject, as it is written, was written for a subject that
stands there by the same steps. -/
theorem exists_subject {p : Subject} {path : List Step} {part : Json}
    (stands : Stands Json.subschemas p.schema.toJson path part) :
    ∃ q, Stands Subject.inner p path q ∧ part = q.schema.toJson := by
  refine stands.of_image (f := fun q : Subject => q.schema.toJson) fun q => ?_
  rw [subschemas_toJson, Subject.inner_schema, mapParts_mapParts]

end Schema

/-! ## Pointers in a schema -/

/-- A keyword neither points to a definition nor has any. -/
def Keyword.isPlain : Keyword → Bool
  | .ref _ => false
  | .defs _ => false
  | _ => true

namespace Shape

/-- The type that the schema of a shape points to.  Functions are not pointed to. -/
def target? : Shape → Option (CollectedKind × String)
  | classType name _ _ => some (.classType, name)
  | record name _ _ _ => some (.record, name)
  | reference _ .function => Option.none
  | reference name kind => some (kind, name)
  | _ => Option.none

/-- A keyword is plain, or it points to the type that a shape stands for. -/
def Allows (x : Shape) (keyword : Keyword) : Prop :=
  keyword.isPlain = true ∨ ∃ kind name, x.target? = some (kind, name) ∧
    keyword = .ref (Schema.pointerTo name)

theorem all_isPlain_ofBuiltin (name : String) :
    (Schema.ofBuiltin name).all Keyword.isPlain = true := by
  unfold Schema.ofBuiltin
  split_ifs <;> rfl

theorem all_isPlain_object (title : String) (properties : List (String × Schema))
    (required : List String) :
    (Schema.object title properties required).all Keyword.isPlain = true := by
  unfold Schema.object
  split_ifs <;> rfl

theorem allows_of_isBare {x : Shape} (bare : x.IsBare) {keyword : Keyword}
    (h : keyword ∈ x.schema) : x.Allows keyword := by
  have plain (all : x.schema.all Keyword.isPlain = true) : x.Allows keyword :=
    .inl (List.all_eq_true.1 all keyword h)
  cases x with
  | builtin name => exact plain (all_isPlain_ofBuiltin name)
  | tuple elements variadic options => cases variadic <;> exact plain rfl
  | typeVar name bound constraints =>
    cases bound with
    | some bound => exact bare.elim
    | none => cases constraints <;> exact plain rfl
  | classType name fields options => exact .inr ⟨.classType, name, rfl, List.mem_singleton.1 h⟩
  | record name fields total options => exact .inr ⟨.record, name, rfl, List.mem_singleton.1 h⟩
  | reference name kind =>
    cases kind with
    | function => exact plain rfl
    | _ => exact .inr ⟨_, name, rfl, List.mem_singleton.1 h⟩
  | function name params returns options =>
    refine plain ?_
    rw [schema]
    exact all_isPlain_object name _ _
  | newType name base => exact bare.elim
  | fixedGeneric base bindings options => exact bare.elim
  | _ => exact plain rfl

/-- The schema of a shape has no definitions, and it points to one only if its bearer is a collected
type or a reference to one. -/
theorem allows_of_mem_schema {x : Shape} {keyword : Keyword} (h : keyword ∈ x.schema) :
    x.bearer.Allows keyword := by
  cases title : keyword.isTitle with
  | true =>
    cases keyword with
    | title text => exact .inl rfl
    | _ => cases title
  | false =>
    have mem : keyword ∈ x.bearer.schema.untitled := by
      rw [← untitled_schema]
      exact Schema.mem_untitled.2 ⟨h, title⟩
    exact allows_of_isBare x.isBare_bearer (Schema.mem_untitled.1 mem).1

theorem allows_of_mem_definitionSchema {x : Shape} {keyword : Keyword}
    (h : keyword ∈ x.definitionSchema) : x.bearer.Allows keyword := by
  cases x with
  | classType name fields options =>
    exact .inl (List.all_eq_true.1 (all_isPlain_object name _ _) keyword h)
  | record name fields total options =>
    exact .inl (List.all_eq_true.1 (all_isPlain_object name _ _) keyword h)
  | _ => exact allows_of_mem_schema h

end Shape

namespace Schema

theorem mem_document {root : Shape} {catalog : Catalog} {keyword : Keyword}
    (h : keyword ∈ document root catalog) :
    keyword ∈ root.schema ∨ keyword = .defs (definitions catalog) := by
  unfold document at h
  split at h
  · exact .inl h
  · exact (List.mem_append.1 h).imp_right List.mem_singleton.1

/-- Wherever a schema points to a definition, it was written for a collected type or a reference to
one, and it points to the name of that. -/
theorem target_of_ref_mem {p : Subject} {target : String} (h : .ref target ∈ p.schema) :
    ∃ kind name, p.shape.bearer.target? = some (kind, name) ∧ target = pointerTo name := by
  have allowed : p.shape.bearer.Allows (.ref target) := by
    cases p with
    | value x => exact Shape.allows_of_mem_schema h
    | definition x => exact Shape.allows_of_mem_definitionSchema h
    | document root catalog =>
      rcases mem_document h with own | defs
      · exact Shape.allows_of_mem_schema own
      · cases defs
  rcases allowed with plain | ⟨kind, name, found, eq⟩
  · cases plain
  · exact ⟨kind, name, found, Keyword.ref.inj eq⟩

end Schema

end TypeCatalog
