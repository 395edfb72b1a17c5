import TypeCatalog.Proofs.Pointers
import Mathlib.Data.List.Pairwise

/-!
What the definitions of a schema keep.

A catalog has classes, records and aliases in tables of their own, and the schema of a root writes
them under `$defs` by their names alone, table by table.  So an alias comes before a record, and a
record before a class, if they have a name in common (`find?_defined`), and there are as many
definitions as collected types just in case no two kinds have a name in common
(`length_defined_eq_iff`).  A pointer leads to the body of the very type that it was written for if
no other kind has the name (`definitions_are_kept`); otherwise it may lead elsewhere
(`definitions_are_lost`).
-/

namespace TypeCatalog

open Schema (Step Stands Subject)
open Json.Pointer (child?)

/-! ## The definitions of a catalog -/

namespace Catalog

variable {catalog : Catalog} {kind : CollectedKind} {name : String}

/-- No other kind has a type of this name, functions apart. -/
def Alone (catalog : Catalog) (kind : CollectedKind) (name : String) : Prop :=
  ∀ other y, other ≠ .function → catalog.get? other name = some y → other = kind

/-- What is defined under a name: tables that are written later take precedence. -/
theorem find?_defined (distinct : ∀ kind, Assoc.Distinct (catalog.table kind)) (name : String) :
    Assoc.find? name catalog.defined =
      ((catalog.get? .typeAlias name).or (catalog.get? .record name)).or
        (catalog.get? .classType name) := by
  have classes : Assoc.ofPairs catalog.classes = catalog.classes :=
    Assoc.ofPairs_of_distinct (distinct .classType)
  have records : Assoc.ofPairs catalog.records = catalog.records :=
    Assoc.ofPairs_of_distinct (distinct .record)
  have aliases : Assoc.ofPairs catalog.aliases = catalog.aliases :=
    Assoc.ofPairs_of_distinct (distinct .typeAlias)
  have written : catalog.defined =
      Assoc.putAll (Assoc.putAll (Assoc.ofPairs catalog.classes) catalog.records)
        catalog.aliases := by
    unfold defined Assoc.ofPairs
    rw [Assoc.putAll_append, Assoc.putAll_append]
  rw [written, Assoc.find?_putAll, Assoc.find?_putAll, classes, records, aliases, Option.or_assoc]
  rfl

/-- A type whose name no other kind has is defined under its name. -/
theorem find?_defined_of_alone (distinct : ∀ kind, Assoc.Distinct (catalog.table kind))
    {y : Shape} (pointed : kind ≠ .function) (found : catalog.get? kind name = some y)
    (alone : catalog.Alone kind name) : Assoc.find? name catalog.defined = some y := by
  have absent (other : CollectedKind) (pointed : other ≠ .function) (ne : other ≠ kind) :
      catalog.get? other name = none := by
    cases h : catalog.get? other name with
    | none => rfl
    | some z => exact absurd (alone other z pointed h) ne
  rw [find?_defined distinct]
  cases kind with
  | function => exact absurd rfl pointed
  | classType =>
    rw [absent .typeAlias (by decide) (by decide), absent .record (by decide) (by decide), found]
    rfl
  | record =>
    rw [absent .typeAlias (by decide) (by decide), found]
    rfl
  | typeAlias =>
    rw [found]
    rfl

/-- The kinds of types that are defined, in the order of their tables. -/
def definedKinds : List CollectedKind := [.classType, .record, .typeAlias]

theorem mem_definedKinds : kind ∈ definedKinds ↔ kind ≠ .function := by
  cases kind <;> decide

/-- The tables have no key in common. -/
theorem distinct_append_iff (distinct : ∀ kind, Assoc.Distinct (catalog.table kind)) :
    Assoc.Distinct (catalog.classes ++ catalog.records ++ catalog.aliases) ↔
      definedKinds.Pairwise fun kind other =>
        (Assoc.keys (catalog.table kind)).Disjoint (Assoc.keys (catalog.table other)) := by
  have keys : Assoc.keys (catalog.classes ++ catalog.records ++ catalog.aliases) =
      (definedKinds.map fun kind => Assoc.keys (catalog.table kind)).flatten := by
    simp [Assoc.keys, definedKinds, table]
  unfold Assoc.Distinct
  rw [keys, List.nodup_flatten, List.pairwise_map]
  refine and_iff_right fun names listed => ?_
  obtain ⟨kind, -, rfl⟩ := List.mem_map.1 listed
  exact distinct kind

/-- All collected types have definitions just in case no two kinds have a name in common. -/
theorem length_defined_eq_iff (distinct : ∀ kind, Assoc.Distinct (catalog.table kind)) :
    catalog.defined.length =
        catalog.classes.length + catalog.records.length + catalog.aliases.length ↔
      ∀ kind name y, kind ≠ .function → catalog.get? kind name = some y →
        catalog.Alone kind name := by
  have lengths : (catalog.classes ++ catalog.records ++ catalog.aliases).length =
      catalog.classes.length + catalog.records.length + catalog.aliases.length := by
    simp only [List.length_append]
  rw [← lengths]
  refine (Assoc.length_ofPairs_eq_iff.trans (distinct_append_iff distinct)).trans ?_
  constructor
  · intro apart kind name y pointed found other z pointed' found'
    by_contra ne
    have symmetric : Std.Symm fun kind other : CollectedKind =>
        (Assoc.keys (catalog.table kind)).Disjoint (Assoc.keys (catalog.table other)) :=
      ⟨fun _ _ => List.Disjoint.symm⟩
    have disjoint := apart.forall (mem_definedKinds.2 pointed) (mem_definedKinds.2 pointed')
      (Ne.symm ne)
    exact disjoint (Assoc.mem_keys_of_find? found) (Assoc.mem_keys_of_find? found')
  · intro alone
    have nodup : definedKinds.Nodup := by decide
    refine nodup.pairwise_of_forall_ne fun kind hkind other hother ne name mem mem' => ?_
    obtain ⟨y, found⟩ := Assoc.exists_find?_of_mem_keys mem
    obtain ⟨z, found'⟩ := Assoc.exists_find?_of_mem_keys mem'
    exact ne (alone kind name y (mem_definedKinds.1 hkind) found other z
      (mem_definedKinds.1 hother) found').symm

end Catalog

/-! ## The definitions of a schema -/

namespace Schema

/-- The definitions in a schema as it is written. -/
def definitionTable (schema : Json) : List (String × Json) :=
  match child? "$defs" schema with
  | some (.obj members) => members
  | _ => []

theorem definitionTable_document (root : Shape) (catalog : Catalog) :
    definitionTable (document root catalog).toJson =
      Assoc.mapValues (fun y => y.definitionSchema.toJson) catalog.defined := by
  have written : definitionTable (document root catalog).toJson =
      tableToJson (definitions catalog) := by
    unfold definitionTable
    rw [child?_document]
    cases definitions catalog <;> rfl
  rw [written, tableToJson_eq, definitions_eq]
  unfold Assoc.mapValues
  rw [List.map_map]
  rfl

end Schema

namespace Document

variable {doc : Document} {options : OptionSet} {x : Extraction}

theorem distinct_tables (extracted : doc.extract options = .ok x) (kind : CollectedKind) :
    Assoc.Distinct (x.catalog.table kind) := by
  obtain ⟨shapes, s, -, rfl⟩ := shapesOf_of_extract_eq_ok extracted
  rw [Registry.catalog_table]
  exact s.registry.distinct_table kind

/-- **What the definitions keep.**  Under each name the schema of a root of an extraction defines
the alias of that name, or else the record, or else the class; all classes, records and aliases of
the catalog have definitions if and only if no two kinds have a name in common; and a pointer,
wherever it stands, was written for a type of the catalog, and selects the body of that very type if
no other kind has its name. -/
theorem definitions_are_kept (extracted : doc.extract options = .ok x) {root : Shape}
    (isRoot : root ∈ x.roots.map Prod.snd) :
    let schema := (Schema.document root x.catalog).toJson
    (∀ name, Assoc.find? name (Schema.definitionTable schema) =
      (((x.catalog.get? .typeAlias name).or (x.catalog.get? .record name)).or
        (x.catalog.get? .classType name)).map fun y => y.definitionSchema.toJson) ∧
    ((Schema.definitionTable schema).length =
        x.catalog.classes.length + x.catalog.records.length + x.catalog.aliases.length ↔
      ∀ kind name y, kind ≠ .function → x.catalog.get? kind name = some y →
        x.catalog.Alone kind name) ∧
    ∀ path part v, Stands Json.subschemas schema path part → child? "$ref" part = some v →
      ∃ (p : Subject) (kind : CollectedKind) (name : String) (y : Shape),
        Stands Subject.inner (.document root x.catalog) path p ∧ part = p.schema.toJson ∧
        p.shape.bearer.target? = some (kind, name) ∧ v = .str (Schema.pointerTo name) ∧
        x.catalog.get? kind name = some y ∧
        (p.shape.bearer.ownKey? = some (kind, name) → y = p.shape.bearer) ∧
        (x.catalog.Alone kind name →
          schema.select? ("/$defs/" ++ Schema.pointerToken name) =
            some y.definitionSchema.toJson) := by
  intro schema
  have distinct := distinct_tables extracted
  have table : Schema.definitionTable schema =
      Assoc.mapValues (fun y => y.definitionSchema.toJson) x.catalog.defined :=
    Schema.definitionTable_document root x.catalog
  refine ⟨fun name => ?_, ?_, fun path part v stands points => ?_⟩
  · rw [table, Assoc.find?_mapValues, Catalog.find?_defined distinct]
  · have lengths : (Schema.definitionTable schema).length = x.catalog.defined.length := by
      rw [table]
      exact List.length_map _
    rw [lengths]
    exact Catalog.length_defined_eq_iff distinct
  · obtain ⟨p, standsThere, rfl⟩ := Schema.exists_subject (p := .document root x.catalog) stands
    obtain ⟨kind, name, target, rfl⟩ := Schema.pointer_of_child? points
    obtain ⟨y, collected, own⟩ := collects_of_stands extracted isRoot standsThere kind name target
    refine ⟨p, kind, name, y, standsThere, rfl, target, rfl, collected, own, fun alone => ?_⟩
    have defined : Assoc.find? name x.catalog.defined = some y :=
      Catalog.find?_defined_of_alone distinct (Shape.ne_function_of_target? target) collected alone
    rw [Schema.select?_pointer, Schema.follow?_document, Schema.definitions_eq,
      Assoc.find?_mapValues, defined]
    rfl

/-- A class that holds a record and refers to an alias: all three have definitions, the record under
its name. -/
theorem definitions_are_kept_of_three :
    let pair : Descriptor := .typedDict "Pair" [("left", .builtin "int")] true
    let doc : Document := ⟨[("Names", .generic "list" [.builtin "str"])],
      [("box", .classDecl "Box" [("pair", pair), ("names", .ref "Names")] [])]⟩
    let pairShape : Shape := .record "Pair" [("left", .builtin "int")] true .empty
    let names : Shape := .list (.builtin "str") .empty
    let box : Shape := .classType "Box" [("pair", pairShape), ("names", names)] .empty
    let catalog : Catalog := ⟨[], [("Box", box)], [("Pair", pairShape)], [("Names", names)]⟩
    let table := Schema.definitionTable (Schema.document box catalog).toJson
    doc.extract .empty = .ok ⟨[("box", box)], catalog⟩ ∧ table.length = 3 ∧
      Assoc.find? "Pair" table = some pairShape.definitionSchema.toJson := by
  intro pair doc pairShape names box catalog table
  have extracted : doc.extract .empty = .ok ⟨[("box", box)], catalog⟩ := by
    simp only [doc, pair, box, catalog, pairShape, names]
    cbv
  have isRoot : box ∈ [("box", box)].map Prod.snd := List.mem_cons_self
  obtain ⟨found, lengths, -⟩ := definitions_are_kept extracted isRoot
  refine ⟨extracted, lengths.2 ?_, (found "Pair").trans rfl⟩
  intro kind name y pointed found other z pointed' found'
  have listed : (name, y) ∈ catalog.table kind := Assoc.mem_of_find? found
  have listed' : (name, z) ∈ catalog.table other := Assoc.mem_of_find? found'
  cases kind <;> cases other <;> simp_all [catalog, Catalog.table]

/-- A class and a record have one name: there is one definition for the two of them, and what the
class points to is the body of the record. -/
theorem definitions_are_lost :
    let doc : Document := ⟨[], [("a", .classDecl "Dup" [("x", .builtin "int")] []),
      ("b", .typedDict "Dup" [("y", .builtin "str")] true)]⟩
    let ofClass : Shape := .classType "Dup" [("x", .builtin "int")] .empty
    let ofRecord : Shape := .record "Dup" [("y", .builtin "str")] true .empty
    let catalog : Catalog := ⟨[], [("Dup", ofClass)], [("Dup", ofRecord)], []⟩
    let schema : Json := (Schema.document ofClass catalog).toJson
    doc.extract .empty = .ok ⟨[("a", ofClass), ("b", ofRecord)], catalog⟩ ∧
      child? "$ref" schema = some (.str "#/$defs/Dup") ∧
      Schema.definitionTable schema = [("Dup", ofRecord.definitionSchema.toJson)] ∧
      ofRecord.definitionSchema.toJson ≠ ofClass.definitionSchema.toJson := by
  intro doc ofClass ofRecord catalog schema
  refine ⟨?_, ?_, ?_, ?_⟩
  · simp only [doc, ofClass, ofRecord, catalog]
    cbv
  · simp only [schema, ofClass, ofRecord, catalog]
    cbv
  · simp only [schema, ofClass, ofRecord, catalog]
    cbv
  · simp [ofClass, ofRecord, Shape.definitionSchema, Schema.object, Schema.toJson,
      Schema.toMembers, Keyword.toMember, Shape.schemaTable, Schema.tableToJson]

end Document

end TypeCatalog
