import TypeCatalog.Proofs.Failure
import TypeCatalog.Proofs.Walk

/-!
What an extraction discovers.

The catalog of an extraction lists what can be reached from the roots of the document, each name
once, in the order of the walk through the roots.

* `Registry.keys_table`: in a registry at rest the table of a kind has the names of the claims of
  that kind, in the order of the claims.
* `Document.mem_keys_iff`: the names that are claimed are those under which something that can be
  reached is collected.  A name that is met while its claim is provisional is not missed, for
  `Document.settled_of_shapesOf` settles everything that can be reached.
* `Document.catalog_lists_reachable` puts the two together.

Neither the walk nor what can be reached depends on options.  So fields are met in the order of
their declaration, also where the shapes that hold them order them by name.
-/

namespace TypeCatalog

/-- The names of a kind among some claims, in the order of the claims. -/
def Claim.namesOf (kind : CollectedKind) (claims : List Claim) : List String :=
  (claims.filter fun c => c.kind = kind).map Claim.name

theorem Claim.mem_namesOf {kind : CollectedKind} {name : String} {claims : List Claim} :
    name ∈ Claim.namesOf kind claims ↔ (kind, name) ∈ claims.map Claim.key := by
  unfold Claim.namesOf
  constructor
  · intro listed
    obtain ⟨c, hc, rfl⟩ := List.mem_map.1 listed
    obtain ⟨mem, isKind⟩ := List.mem_filter.1 hc
    have key : c.key = (kind, c.name) := by rw [Claim.key, of_decide_eq_true isKind]
    exact key ▸ List.mem_map_of_mem mem
  · intro claimed
    obtain ⟨c, mem, key⟩ := List.mem_map.1 claimed
    obtain ⟨rfl, rfl⟩ := Prod.mk.inj key
    exact List.mem_map_of_mem (List.mem_filter.2 ⟨mem, decide_eq_true rfl⟩)

/-- At rest, a table has the names of the claims of its kind. -/
theorem Registry.keys_table {r : Registry} (rest : r.AtRest) (kind : CollectedKind) :
    Assoc.keys (r.table kind) = Claim.namesOf kind r.claims := by
  have finished : r.Finished fun _ _ => True := fun _ _ _ _ => trivial
  have rows := forall₂_table rest finished kind
  have names : List.Forall₂ (· = ·) (Claim.namesOf kind r.claims) (Assoc.keys (r.table kind)) :=
    List.forall₂_map_left_iff.2 (List.forall₂_map_right_iff.2 (rows.imp fun _ _ row => row.1.symm))
  rw [List.forall₂_eq_eq_eq] at names
  exact names.symm

namespace Document

open Descriptor (Settled)

variable {doc : Document} {kind : CollectedKind} {name : String}

/-- Something that can be reached is collected under a kind and a name. -/
def Collects (doc : Document) (kind : CollectedKind) (name : String) : Prop :=
  ∃ d source, doc.Reaches d ∧ d.reading doc.definitions = .collected kind name source

/-- What an extraction that succeeds has claimed is what can be reached. -/
theorem mem_keys_iff (tables : doc.Distinct) {options : OptionSet} {shapes : List Shape}
    {s : Session}
    (outcome : (Pipeline.unbounded Stock.all doc.definitions).shapesOf options
      (doc.roots.map Prod.snd) .start = (.ok shapes, s)) :
    (kind, name) ∈ s.registry.claims.map Claim.key ↔ doc.Collects kind name := by
  -- what is claimed has been met, and what can be reached has been settled in a claim
  obtain ⟨meets, settled⟩ := settled_of_shapesOf tables outcome
  constructor
  · intro claimed
    obtain ⟨c, hc, key⟩ := List.mem_map.1 claimed
    obtain ⟨rfl, rfl⟩ := Prod.mk.inj key
    obtain ⟨d, reached, reading⟩ := meets c hc
    exact ⟨d, c.source, reached, reading⟩
  · rintro ⟨d, source, reached, reading⟩
    obtain ⟨c, mem, key, -⟩ := (settled d reached).exists_claim reading
    exact key ▸ List.mem_map_of_mem mem

/-- Classes, typed dictionaries and functions are collected under their own names. -/
theorem collects_iff_of_ne_alias (ne : kind ≠ .typeAlias) :
    doc.Collects kind name ↔ ∃ d, doc.Reaches d ∧ d.ownKey? = some (kind, name) := by
  constructor
  · rintro ⟨d, source, reached, reading⟩
    rcases Descriptor.collected_cases reading with ⟨own, -⟩ | ⟨-, isAlias, -⟩
    · exact ⟨d, reached, own⟩
    · exact absurd isAlias ne
  · rintro ⟨d, reached, own⟩
    exact ⟨d, d, reached, Descriptor.reading_of_ownKey own⟩

/-- An alias is collected under the name of a definition that is not collected by itself. -/
theorem collects_alias_iff :
    doc.Collects .typeAlias name ↔
      doc.Reaches (.ref name) ∧ ∃ definition,
        Assoc.find? name doc.definitions = some definition ∧ definition.ownKey? = none := by
  constructor
  · rintro ⟨d, source, reached, reading⟩
    rcases Descriptor.collected_cases reading with ⟨own, -⟩ | ⟨rfl, -, found, own⟩
    · exact absurd rfl (Descriptor.kind_ne_alias_of_ownKey own)
    · exact ⟨reached, source, found, own⟩
  · rintro ⟨reached, definition, found, own⟩
    refine ⟨.ref name, definition, reached, ?_⟩
    rw [Descriptor.reading_ref found, own]
    rfl

/-- **The catalog lists what can be reached.**  If a document is extracted, each table of the
catalog has the names of its kind in the order in which the walk through the roots first meets them,
each name once.  The names of classes, typed dictionaries and functions are those of all that can
be reached from the roots, and the names of aliases are those of all references that can be reached
to definitions of any other sort. -/
theorem catalog_lists_reachable (doc : Document) (tables : doc.Distinct) (options : OptionSet)
    {x : Extraction} (extracted : doc.extract options = .ok x) :
    (∃ claims, Walk doc.definitions (doc.roots.map Prod.snd) [] claims ∧
      ∀ kind, Assoc.keys (x.catalog.table kind) = Claim.namesOf kind claims) ∧
    (∀ kind, (Assoc.keys (x.catalog.table kind)).Nodup) ∧
    (∀ kind name, kind ≠ .typeAlias →
      (name ∈ Assoc.keys (x.catalog.table kind) ↔
        ∃ d, doc.Reaches d ∧ d.ownKey? = some (kind, name))) ∧
    ∀ name, name ∈ Assoc.keys (x.catalog.table .typeAlias) ↔
      doc.Reaches (.ref name) ∧ ∃ definition,
        Assoc.find? name doc.definitions = some definition ∧ definition.ownKey? = none := by
  obtain ⟨shapes, s, outcome, rfl⟩ := shapesOf_of_extract_eq_ok extracted
  have walked := (Pipeline.walkLaw doc.definitions options).shapes (doc.roots.map Prod.snd) .start
  have grown := Pipeline.growing_shapes Stock.all doc.definitions options
    (doc.roots.map Prod.snd) .start
  rw [outcome] at walked grown
  have keys : ∀ kind, Assoc.keys (s.registry.catalog.table kind) =
      Claim.namesOf kind s.registry.claims := by
    intro kind
    rw [Registry.catalog_table]
    exact Registry.keys_table (Registry.atRest_empty.of_grows grown) kind
  have listed : ∀ kind name, name ∈ Assoc.keys (s.registry.catalog.table kind) ↔
      doc.Collects kind name := by
    intro kind name
    rw [keys, Claim.mem_namesOf]
    exact mem_keys_iff tables outcome
  refine ⟨⟨s.registry.claims, walked shapes rfl, keys⟩, fun kind => ?_, fun kind name ne => ?_,
    fun name => ?_⟩
  · rw [Registry.catalog_table]
    exact Registry.distinct_table s.registry kind
  · exact (listed kind name).trans (collects_iff_of_ne_alias ne)
  · exact (listed .typeAlias name).trans collects_alias_iff

/-- Classes are met as the fields that hold them are declared, an alias that names itself is met
once, and a definition that nothing refers to is not met. -/
theorem catalog_lists_reachable_of_nested_classes :
    let tree : Descriptor := .union [.builtin "int", .generic "list" [.ref "Tree"]]
    let zed : Descriptor := .classDecl "Zed" [("back", .ref "Tree")] []
    let abel : Descriptor := .classDecl "Abel" [] []
    let doc : Document :=
      ⟨[("Tree", tree), ("Unused", .classDecl "Unused" [] [])],
        [("main", .classDecl "Main" [("second", zed), ("first", abel)] [])]⟩
    let treeShape : Shape :=
      .union [.builtin "int", .list (.reference "Tree" .typeAlias) .empty] .empty
    let zedShape : Shape := .classType "Zed" [("back", treeShape)] .empty
    let abelShape : Shape := .classType "Abel" [] .empty
    let mainShape : Shape :=
      .classType "Main" [("second", zedShape), ("first", abelShape)] .empty
    let x : Extraction :=
      ⟨[("main", mainShape)],
        ⟨[], [("Main", mainShape), ("Zed", zedShape), ("Abel", abelShape)], [],
          [("Tree", treeShape)]⟩⟩
    doc.Distinct ∧ doc.extract .empty = .ok x ∧
      (∃ claims, Walk doc.definitions (doc.roots.map Prod.snd) [] claims ∧
        ∀ kind, Assoc.keys (x.catalog.table kind) = Claim.namesOf kind claims) ∧
      (∀ kind, (Assoc.keys (x.catalog.table kind)).Nodup) ∧
      (∀ kind name, kind ≠ .typeAlias →
        (name ∈ Assoc.keys (x.catalog.table kind) ↔
          ∃ d, doc.Reaches d ∧ d.ownKey? = some (kind, name))) ∧
      ∀ name, name ∈ Assoc.keys (x.catalog.table .typeAlias) ↔
        doc.Reaches (.ref name) ∧ ∃ definition,
          Assoc.find? name doc.definitions = some definition ∧ definition.ownKey? = none := by
  intro tree zed abel doc treeShape zedShape abelShape mainShape x
  have link : (Descriptor.ref "Tree").Distinct := .of_leaf trivial rfl
  have int : (Descriptor.builtin "int").Distinct := .of_leaf trivial rfl
  have links : (Descriptor.generic "list" [.ref "Tree"]).Distinct :=
    .intro trivial (List.forall_mem_singleton.2 link)
  have trees : tree.Distinct :=
    .intro trivial (List.forall_mem_cons.2 ⟨int, List.forall_mem_singleton.2 links⟩)
  have zeds : zed.Distinct :=
    .intro (List.nodup_singleton "back") (List.forall_mem_singleton.2 link)
  have leaf : ∀ name, (Descriptor.classDecl name [] []).Distinct := fun name =>
    .of_leaf List.nodup_nil rfl
  have main : (Descriptor.classDecl "Main" [("second", zed), ("first", abel)] []).Distinct :=
    .intro (by simp [Descriptor.TableDistinct, Assoc.Distinct, Assoc.keys])
      (List.forall_mem_cons.2 ⟨zeds, List.forall_mem_singleton.2 (leaf "Abel")⟩)
  have tables : doc.Distinct :=
    ⟨List.forall_mem_singleton.2 main,
      List.forall_mem_cons.2 ⟨trees, List.forall_mem_singleton.2 (leaf "Unused")⟩⟩
  have extracted : doc.extract .empty = .ok x := by
    simp only [doc, x, mainShape, abelShape, zedShape, treeShape, abel, zed, tree]
    cbv
  exact ⟨tables, extracted, catalog_lists_reachable doc tables .empty extracted⟩

end Document

end TypeCatalog
