import TypeCatalog.Proofs.Definitions
import TypeCatalog.Proofs.WellMade

/-!
Which fields of a class are required.

A field is required when it cannot hold the absent value, and whether it can is read off the face of
its shape.  A reference has nothing on its face.  So a field that refers to an alias is required
though the alias is nullable, and a field of the same type is not if the alias happened to be
finished before the class was built.  For all other fields it is as the catalog has it
(`required_is_on_the_face`, `required_by_reference`).
-/

namespace TypeCatalog

open Json.Pointer (child?)

/-! ## Bodies -/

/-- A schema requires a property. -/
def Schema.Requires (body : Json) (field : String) : Prop :=
  ∃ names, child? "required" body = some (.arr names) ∧ Json.str field ∈ names

/-- Whether a shape can hold the absent value, a reference by what the catalog has under its name.
References are followed for one step only: where the catalog has another reference, or a union with
one in it, the face of that is taken as it is. -/
def Catalog.holdsNone (catalog : Catalog) : Shape → Bool
  | .reference name kind => (catalog.get? kind name).any Shape.isNullable
  | x => x.isNullable

namespace Schema

theorem requires_object_iff {title : String} {properties : List (String × Schema)}
    {required : List String} {field : String} :
    Requires (object title properties required).toJson field ↔ field ∈ required := by
  cases required with
  | nil =>
    have absent : child? "required" (object title properties []).toJson = none := by
      simp [object, toJson, toMembers, Keyword.toMember, child?, Assoc.find?]
    simp [Requires, absent]
  | cons first rest =>
    have listed : child? "required" (object title properties (first :: rest)).toJson =
        some (.arr ((first :: rest).map .str)) := by
      simp [object, toJson, toMembers, Keyword.toMember, child?, Assoc.find?]
    simp [Requires, listed]

/-- In a table whose keys are distinct, a name is among those that are not nullable just in case its
shape is not. -/
theorem mem_notNullable_iff {table : List (String × Shape)} (distinct : Assoc.Distinct table)
    {field : String} {z : Shape} (listed : (field, z) ∈ table) :
    field ∈ notNullable table ↔ z.isNullable = false := by
  unfold notNullable
  constructor
  · intro mem
    obtain ⟨⟨_, y⟩, entry, rfl⟩ := List.mem_map.1 mem
    obtain ⟨listed', present⟩ := List.mem_filter.1 entry
    cases List.inj_on_of_nodup_map distinct listed listed' rfl
    simpa using present
  · intro present
    exact List.mem_map.2 ⟨(field, z), List.mem_filter.2 ⟨listed, by simpa using present⟩, rfl⟩

end Schema

/-! ## Classes of an extraction -/

namespace Document

variable {doc : Document} {options : OptionSet} {x : Extraction}

/-- A type of the catalog that is no alias has its kind and name on its face. -/
theorem ownKey?_of_get? (extracted : doc.extract options = .ok x) {kind : CollectedKind}
    {name : String} {y : Shape} (found : x.catalog.get? kind name = some y)
    (notAlias : kind ≠ .typeAlias) : y.ownKey? = some (kind, name) := by
  obtain ⟨shapes, s, outcome, rfl⟩ := shapesOf_of_extract_eq_ok extracted
  have filing := ((Pipeline.filed_invariant doc.definitions options).law Stock.all).shapes
    (doc.roots.map Prod.snd) .start Registry.coherent_empty
  rw [outcome] at filing
  rw [Registry.catalog_get?] at found
  exact (filing.1.get? found).2 notAlias

/-- All types of the catalog are orderly. -/
theorem orderly_of_get? (extracted : doc.extract options = .ok x) (tables : doc.Distinct)
    {kind : CollectedKind} {name : String} {y : Shape}
    (found : x.catalog.get? kind name = some y) : y.Orderly := by
  obtain ⟨shapes, s, outcome, rfl⟩ := shapesOf_of_extract_eq_ok extracted
  have roots : ∀ d ∈ doc.roots.map Prod.snd, d.Distinct :=
    List.forall_mem_map.2 tables.roots
  have after := (Pipeline.orderlyLaw Stock.all options tables.definitions).shapes
    (doc.roots.map Prod.snd) .start roots fun e he => absurd he List.not_mem_nil
  rw [outcome] at after
  rw [Registry.catalog_get?] at found
  obtain ⟨e, he, -, finished⟩ := Registry.get?_eq_some_iff.1 found
  exact after.1 e he y finished

/-- Only an alias can be nullable. -/
theorem eq_alias_of_isNullable (extracted : doc.extract options = .ok x) {kind : CollectedKind}
    {name : String} {y : Shape} (found : x.catalog.get? kind name = some y)
    (nullable : y.isNullable = true) : kind = .typeAlias := by
  by_contra notAlias
  have own := ownKey?_of_get? extracted found notAlias
  cases y with
  | none | optional | union => cases own
  | _ => cases nullable

/-- What is on the face of a shape is what the catalog has, but for references to nullable
aliases. -/
theorem isNullable_eq_holdsNone_iff (extracted : doc.extract options = .ok x) (z : Shape) :
    z.isNullable = x.catalog.holdsNone z ↔
      ¬∃ target y, z = .reference target .typeAlias ∧
        x.catalog.get? .typeAlias target = some y ∧ y.isNullable = true := by
  cases z with
  | reference name kind =>
    have face : (Shape.reference name kind).isNullable = false := rfl
    rw [face, eq_comm, Catalog.holdsNone, ← Bool.not_eq_true, not_iff_not, Option.any_eq_true]
    constructor
    · rintro ⟨y, found, nullable⟩
      obtain rfl := eq_alias_of_isNullable extracted found nullable
      exact ⟨name, y, rfl, found, nullable⟩
    · rintro ⟨target, y, eq, found, nullable⟩
      cases eq
      exact ⟨y, found, nullable⟩
  | _ =>
    refine iff_of_true rfl ?_
    rintro ⟨target, y, eq, -⟩
    cases eq

/-- **What is required is on the face.**  In the schema of a root of an extraction, the body of a
class whose name no record and no alias has requires just the fields that are not nullable on their
faces.  That is what the catalog says of a field, a reference judged by the type that it refers to,
unless the field is a reference to an alias that is nullable. -/
theorem required_is_on_the_face (extracted : doc.extract options = .ok x) (tables : doc.Distinct)
    (root : Shape) {name : String} {y : Shape} (listed : (name, y) ∈ x.catalog.classes)
    (alone : x.catalog.Alone .classType name) :
    ∃ fields o body, y = .classType name fields o ∧
      (Schema.document root x.catalog).toJson.select? ("/$defs/" ++ Schema.pointerToken name) =
        some body ∧
      ∀ field z, (field, z) ∈ fields →
        (Schema.Requires body field ↔ z.isNullable = false) ∧
        ((Schema.Requires body field ↔ x.catalog.holdsNone z = false) ↔
          ¬∃ target y', z = .reference target .typeAlias ∧
            x.catalog.get? .typeAlias target = some y' ∧ y'.isNullable = true) := by
  have distinct := distinct_tables extracted
  have found : x.catalog.get? .classType name = some y :=
    (Assoc.find?_eq_some_iff (distinct .classType)).2 listed
  have own := ownKey?_of_get? extracted found (by decide)
  have orderly := orderly_of_get? extracted tables found
  cases y with
  | classType name' fields o =>
    cases own
    have fieldsDistinct : Assoc.Distinct fields := orderly.self.1.distinct.table
    have defined : Assoc.find? name x.catalog.defined = some (.classType name fields o) :=
      Catalog.find?_defined_of_alone distinct (by decide) found alone
    refine ⟨fields, o, (Shape.classType name fields o).definitionSchema.toJson, rfl, ?_,
      fun field z entry => ?_⟩
    · rw [Schema.select?_pointer, Schema.follow?_document, Schema.definitions_eq,
        Assoc.find?_mapValues, defined]
      rfl
    · have face : Schema.Requires (Shape.classType name fields o).definitionSchema.toJson field ↔
          z.isNullable = false :=
        Schema.requires_object_iff.trans (Schema.mem_notNullable_iff fieldsDistinct entry)
      refine ⟨face, Iff.trans ?_ (isNullable_eq_holdsNone_iff extracted z)⟩
      rw [face]
      cases z.isNullable <;> cases x.catalog.holdsNone z <;> simp
  | _ => cases own

/-- A class with a field that holds the absent value by itself and one that does not, next to an
alias that is not nullable. -/
theorem required_is_on_the_face_of_three :
    let doc : Document := ⟨[("Names", .generic "list" [.builtin "str"])],
      [("box", .classDecl "Box" [("all", .ref "Names"), ("one", .union [.none, .builtin "int"])]
        [])]⟩
    let names : Shape := .list (.builtin "str") .empty
    let one : Shape := .union [.none, .builtin "int"] .empty
    let box : Shape := .classType "Box" [("all", names), ("one", one)] .empty
    let catalog : Catalog := ⟨[], [("Box", box)], [], [("Names", names)]⟩
    doc.extract .empty = .ok ⟨[("box", box)], catalog⟩ ∧
      ∃ body, (Schema.document box catalog).toJson.select? "/$defs/Box" = some body ∧
        Schema.Requires body "all" ∧ ¬Schema.Requires body "one" := by
  intro doc names one box catalog
  have extracted : doc.extract .empty = .ok ⟨[("box", box)], catalog⟩ := by
    simp only [doc, box, catalog, names, one]
    cbv
  have leaf : Descriptor.none.Distinct ∧ (Descriptor.builtin "int").Distinct ∧
      (Descriptor.builtin "str").Distinct ∧ (Descriptor.ref "Names").Distinct :=
    ⟨.of_leaf trivial rfl, .of_leaf trivial rfl, .of_leaf trivial rfl, .of_leaf trivial rfl⟩
  obtain ⟨absent, number, text, named⟩ := leaf
  have tables : doc.Distinct := by
    refine ⟨List.forall_mem_singleton.2 (.intro ?_ (List.forall_mem_cons.2 ⟨named, ?_⟩)),
      List.forall_mem_singleton.2 (.intro trivial (List.forall_mem_singleton.2 text))⟩
    · simp [Descriptor.TableDistinct, Assoc.Distinct, Assoc.keys]
    · exact List.forall_mem_singleton.2 (.intro trivial
        (List.forall_mem_cons.2 ⟨absent, List.forall_mem_singleton.2 number⟩))
  have alone : catalog.Alone .classType "Box" := by
    intro other z pointed found
    have listed : ("Box", z) ∈ catalog.table other := Assoc.mem_of_find? found
    cases other <;> simp_all [catalog, Catalog.table]
  obtain ⟨fields, o, body, eq, selected, each⟩ :=
    required_is_on_the_face extracted tables box List.mem_cons_self alone
  cases (show Shape.classType "Box" [("all", names), ("one", one)] .empty =
    .classType "Box" fields o from eq)
  refine ⟨extracted, body, selected, ?_, ?_⟩
  · exact (each "all" names (by simp)).1.2 rfl
  · exact fun required => absurd ((each "one" one (by simp)).1.1 required) (by decide)

/-- Of two documents with the same definitions one has the alias for its root, and the class is
built while the alias is; the other has the class itself.  The alias is nullable in both, and the
body of the class requires the field that refers to it in the first and does not in the second. -/
theorem required_by_reference :
    let box : Descriptor := .classDecl "Box" [("next", .ref "Maybe")] []
    let definitions := [("Maybe", Descriptor.union [box, .none])]
    let ofAlias : Document := ⟨definitions, [("a", .ref "Maybe")]⟩
    let ofClass : Document := ⟨definitions, [("a", box)]⟩
    let next : Shape := .reference "Maybe" .typeAlias
    let boxShape : Shape := .classType "Box" [("next", next)] .empty
    let maybe : Shape := .union [boxShape, .none] .empty
    let inside : Shape := .union [.reference "Box" .classType, .none] .empty
    let boxShape' : Shape := .classType "Box" [("next", inside)] .empty
    let catalog : Catalog := ⟨[], [("Box", boxShape)], [], [("Maybe", maybe)]⟩
    let catalog' : Catalog := ⟨[], [("Box", boxShape')], [], [("Maybe", inside)]⟩
    let body := (Schema.document maybe catalog).toJson.select? "/$defs/Box"
    let body' := (Schema.document boxShape' catalog').toJson.select? "/$defs/Box"
    ofAlias.extract .empty = .ok ⟨[("a", maybe)], catalog⟩ ∧
      ofClass.extract .empty = .ok ⟨[("a", boxShape')], catalog'⟩ ∧
      catalog.holdsNone next = true ∧ catalog'.holdsNone inside = true ∧
      (∃ b, body = some b ∧ Schema.Requires b "next") ∧
      ∃ b, body' = some b ∧ ¬Schema.Requires b "next" := by
  intro box definitions ofAlias ofClass next boxShape maybe inside boxShape' catalog catalog' body
    body'
  refine ⟨?_, ?_, by decide, by decide, ⟨boxShape.definitionSchema.toJson, ?_, ?_⟩,
    boxShape'.definitionSchema.toJson, ?_, ?_⟩
  · simp only [ofAlias, definitions, box, maybe, boxShape, next, catalog]
    cbv
  · simp only [ofClass, definitions, box, boxShape', inside, catalog']
    cbv
  · simp only [body, maybe, boxShape, next, catalog]
    cbv
  · exact Schema.requires_object_iff.2 (by simp [Schema.notNullable, next, Shape.isNullable])
  · simp only [body', boxShape', inside, catalog']
    cbv
  · exact fun required => absurd (Schema.requires_object_iff.1 required) (by
      simp [Schema.notNullable, inside, Shape.isNullable, Shape.isNone])

end Document

end TypeCatalog
