import TypeCatalog.Proofs.Catalog
import TypeCatalog.Proofs.Walk

/-!
Shapes fit their descriptors.

`Fits` says which shapes are shapes of a descriptor, kind by kind, and `Body` says which are
shapes of a collected type; neither knows of registries or of the order in which things are met.
A type that is collected has two shapes, the one of the catalog and a reference to it, and an
extraction gives now the one and now the other.  It fits all the same, because an entry that is
finished keeps its shape and its source until the end (`Registry.Leads`, `fitsLaw`).  So the roots
of an extraction fit their descriptors, and the types of its catalog fit the descriptors for
which their names were met first (`extract_fits`).
-/

namespace TypeCatalog

open Recognizer

/-- What shapes are judged by: the definitions and options that an extraction was given, the
names that were collected, and the catalog that came of it. -/
structure Setting where
  definitions : List (String × Descriptor)
  options : OptionSet
  claims : List Claim
  catalog : Catalog

namespace Setting

variable (t : Setting)

/-- A shape stands for a collected name: it is the type of the catalog, or a reference to it. -/
def Recalls (kind : CollectedKind) (name : String) (x : Shape) : Prop :=
  (kind, name) ∈ t.claims.map Claim.key ∧
    (t.catalog.get? kind name = some x ∨ x = .reference name kind)

/-- A name is collected for a descriptor, or for one that is the same. -/
def Describes (kind : CollectedKind) (name : String) (d : Descriptor) : Prop :=
  ∃ c ∈ t.claims, c.key = (kind, name) ∧ (c.source = d ∨ c.source.same d = true)

end Setting

/-- A shape is a shape of a descriptor. -/
inductive Fits (t : Setting) : Descriptor → Shape → Prop
  | empty : Fits t .empty .unknown
  | any : Fits t .any .unknown
  | ellipsis : Fits t .ellipsis .unknown
  | unclassified {repr} : Fits t (.unclassified repr) .unknown
  | none : Fits t .none .none
  | builtin {name} : Fits t (.builtin name) (.builtin name)
  | enum {name members} : Fits t (.enum name members) (.enum name members)
  | literal {values} : values ≠ [] → Fits t (.literal values) (.literal values)
  /-- A generic type that is not built in. -/
  | foreign {origin args} : Origin.of? origin = Option.none → Fits t (.generic origin args) .unknown
  | bareList {origin} : Origin.of? origin = some .list →
    Fits t (.generic origin []) (.list .unknown t.options)
  | list {origin element x} : Origin.of? origin = some .list → Fits t element x →
    Fits t (.generic origin [element]) (.list x t.options)
  | bareDict {origin} : Origin.of? origin = some .dict →
    Fits t (.generic origin []) (.dict .unknown .unknown t.options)
  | dict {origin key value x y} : Origin.of? origin = some .dict → Fits t key x →
    Fits t value y → Fits t (.generic origin [key, value]) (.dict x y t.options)
  | bareMapping {origin} : Origin.of? origin = some .mapping →
    Fits t (.generic origin []) (.mapping .unknown .unknown t.options)
  | mapping {origin key value x y} : Origin.of? origin = some .mapping → Fits t key x →
    Fits t value y → Fits t (.generic origin [key, value]) (.mapping x y t.options)
  | tuple {origin args xs} : Origin.of? origin = some .tuple → .ellipsis ∉ args →
    List.Forall₂ (Fits t) args xs → Fits t (.generic origin args) (.tuple xs false t.options)
  | openTuple {origin element x} : Origin.of? origin = some .tuple → element ≠ .ellipsis →
    Fits t element x → Fits t (.generic origin [element, .ellipsis]) (.tuple [x] true t.options)
  | union {members xs x} : members ≠ [] → List.Forall₂ (Fits t) members xs →
    Shape.Combines t.options xs x → Fits t (.union members) x
  | typeVar {name constraints ys} : List.Forall₂ (Fits t) constraints ys →
    Fits t (.typeVar name Option.none constraints) (.typeVar name Option.none ys)
  | boundTypeVar {name bound x constraints ys} : Fits t bound x →
    List.Forall₂ (Fits t) constraints ys →
    Fits t (.typeVar name (some bound) constraints) (.typeVar name (some x) ys)
  | newType {name supertype x} : Fits t supertype x →
    Fits t (.newType name supertype) (.newType name x)
  /-- Arguments are bound to the parameters that the class declares, or to their places. -/
  | parameterized {base args x ys} : Fits t base x → List.Forall₂ (Fits t) args ys →
    Fits t (.parameterized base args)
      (.fixedGeneric x
        (Assoc.ofPairs ((Descriptor.bindingNames (base.declared t.definitions) args.length).zip ys))
        t.options)
  /-- A class, a typed dictionary or a function. -/
  | collected {d kind name x} : d.ownKey? = some (kind, name) → t.Describes kind name d →
    t.Recalls kind name x → Fits t d x
  /-- A reference to one of these. -/
  | definition {name definition x} : Assoc.find? name t.definitions = some definition →
    definition.ownKey?.isSome → Fits t definition x → Fits t (.ref name) x
  /-- A reference to any other definition. -/
  | typeAlias {name definition x} : Assoc.find? name t.definitions = some definition →
    definition.ownKey? = Option.none → t.Describes .typeAlias name definition →
    t.Recalls .typeAlias name x → Fits t (.ref name) x
  | unresolved {name} : Assoc.find? name t.definitions = Option.none →
    Fits t (.ref name) .unknown
  /-- A reference without a definition to a name that was collected otherwise. -/
  | resolved {name kind x} : Assoc.find? name t.definitions = Option.none →
    t.Recalls kind name x → Fits t (.ref name) x

/-- A shape is the shape under which a descriptor is collected by kind and name. -/
inductive Body (t : Setting) : CollectedKind → String → Descriptor → Shape → Prop
  | classDecl {name fields typeParams xs} : List.Forall₂ (Fits t) (fields.map Prod.snd) xs →
    Body t .classType name (.classDecl name fields typeParams)
      (.classType name (Descriptor.arranged t.options ((Assoc.keys fields).zip xs)) t.options)
  | typedDict {name fields total xs} : List.Forall₂ (Fits t) (fields.map Prod.snd) xs →
    Body t .record name (.typedDict name fields total)
      (.record name (Descriptor.arranged t.options ((Assoc.keys fields).zip xs)) total t.options)
  | function {name annotations paramNames xs y} :
    List.Forall₂ (Fits t)
      ((Descriptor.parameterNames paramNames).map (annotated annotations)) xs →
    Fits t (annotated annotations returnName) y →
    Body t .function name (.function name annotations paramNames)
      (.function name (Assoc.ofPairs ((Descriptor.parameterNames paramNames).zip xs)) y t.options)
  | typeAlias {name definition x} : Fits t definition x → Body t .typeAlias name definition x

/-- The same for a claim. -/
def BodyOf (t : Setting) (c : Claim) : Shape → Prop :=
  Body t c.kind c.name c.source

/-! ## Shapes put together from fitting ones -/

section Assembled

variable {t : Setting} {shapes : List Shape}

theorem fits_singleton {d : Descriptor} (h : List.Forall₂ (Fits t) [d] shapes) :
    ∃ x, shapes = [x] ∧ Fits t d x := by
  obtain ⟨x, rest, hx, none, rfl⟩ := List.forall₂_cons_left_iff.1 h
  cases none
  exact ⟨x, rfl, hx⟩

theorem fits_pair {d e : Descriptor} (h : List.Forall₂ (Fits t) [d, e] shapes) :
    ∃ x y, shapes = [x, y] ∧ Fits t d x ∧ Fits t e y := by
  obtain ⟨x, rest, hx, hrest, rfl⟩ := List.forall₂_cons_left_iff.1 h
  obtain ⟨y, rfl, hy⟩ := fits_singleton hrest
  exact ⟨x, y, rfl, hx, hy⟩

theorem fits_append_singleton {ds : List Descriptor} {d : Descriptor}
    (h : List.Forall₂ (Fits t) (ds ++ [d]) shapes) :
    ∃ xs x, shapes = xs ++ [x] ∧ List.Forall₂ (Fits t) ds xs ∧ Fits t d x := by
  induction ds generalizing shapes with
  | nil =>
    obtain ⟨x, rfl, hx⟩ := fits_singleton h
    exact ⟨[], x, rfl, .nil, hx⟩
  | cons first rest ih =>
    obtain ⟨y, later, hy, hlater, rfl⟩ := List.forall₂_cons_left_iff.1 h
    obtain ⟨xs, x, rfl, hxs, hx⟩ := ih hlater
    exact ⟨y :: xs, x, rfl, .cons hy hxs, hx⟩

/-- Arguments that are not at fault make a generic type that fits. -/
theorem fits_generic {origin : String} {args : List Descriptor} {family : Origin}
    (held : Origin.of? origin = some family) (valid : family.fault? origin args = none)
    (h : List.Forall₂ (Fits t) (family.positions args) shapes) :
    Fits t (.generic origin args) (family.shape t.options args shapes) := by
  have keyAndValue : family.fault? origin args = none → (family = .dict ∨ family = .mapping) →
      args = [] ∨ ∃ key value, args = [key, value] := by
    rintro valid (rfl | rfl) <;>
    · rcases args with _ | ⟨key, _ | ⟨value, _ | ⟨_, _⟩⟩⟩ <;> simp [Origin.fault?] at valid ⊢
  cases family with
  | list =>
    rcases args with _ | ⟨element, _ | ⟨_, _⟩⟩
    · cases h
      exact .bareList held
    · obtain ⟨x, rfl, hx⟩ := fits_singleton h
      exact .list held hx
    · simp [Origin.fault?] at valid
  | dict =>
    rcases keyAndValue valid (.inl rfl) with rfl | ⟨key, value, rfl⟩
    · cases h
      exact .bareDict held
    · obtain ⟨x, y, rfl, hx, hy⟩ := fits_pair h
      exact .dict held hx hy
  | mapping =>
    rcases keyAndValue valid (.inr rfl) with rfl | ⟨key, value, rfl⟩
    · cases h
      exact .bareMapping held
    · obtain ⟨x, y, rfl, hx, hy⟩ := fits_pair h
      exact .mapping held hx hy
  | tuple =>
    have solid : .ellipsis ∉ positional args := by
      intro dots
      have misplaced : (positional args).any isEllipsis = true :=
        List.any_eq_true.2 ⟨_, dots, isEllipsis_iff.2 rfl⟩
      simp [Origin.fault?, misplaced] at valid
    cases opened : isOpen args with
    | true =>
      obtain ⟨element, rfl⟩ := isOpen_iff.1 opened
      obtain ⟨x, rfl, hx⟩ := fits_singleton h
      refine .openTuple held (fun eq => solid ?_) hx
      subst eq
      exact List.mem_cons_self
    | false =>
      have all : positional args = args := by simp [positional, opened]
      rw [all] at solid
      simp only [Origin.shape, opened]
      refine .tuple held solid ?_
      simpa only [Origin.positions, all] using h

/-- A type that is made of fitting parts fits. -/
theorem fits_assembled {d : Descriptor} (composed : d.reading t.definitions = .composed)
    (h : List.Forall₂ (Fits t) (d.parts t.definitions) shapes) :
    Fits t d (d.assembled t.definitions t.options shapes) := by
  cases d with
  | empty => exact .empty
  | any => exact .any
  | ellipsis => exact .ellipsis
  | unclassified repr => exact .unclassified
  | none => exact .none
  | builtin name => exact .builtin
  | enum name members => exact .enum
  | literal values =>
    cases values with
    | nil => cases composed
    | cons value rest => exact .literal (List.cons_ne_nil _ _)
  | generic origin args =>
    cases held : Origin.of? origin with
    | none =>
      simp only [Descriptor.assembled, held]
      exact .foreign held
    | some family =>
      simp only [Descriptor.parts, held] at h
      simp only [Descriptor.assembled, held]
      refine fits_generic held ?_ h
      simp only [Descriptor.reading, held, Option.bind_some] at composed
      split at composed
      · cases composed
      · assumption
  | union members =>
    cases members with
    | nil => cases composed
    | cons first rest =>
      obtain ⟨x, combined, combines⟩ := Shape.combine_eq_some t.options shapes
      simp only [Descriptor.assembled, combined, Option.getD_some]
      exact .union (List.cons_ne_nil _ _) h combines
  | typeVar name bound constraints =>
    cases bound with
    | none => exact .typeVar h
    | some bound =>
      obtain ⟨x, ys, hx, hys, rfl⟩ := List.forall₂_cons_left_iff.1 h
      exact .boundTypeVar hx hys
  | newType name supertype =>
    obtain ⟨x, rfl, hx⟩ := fits_singleton h
    exact .newType hx
  | parameterized base args =>
    obtain ⟨x, ys, hx, hys, rfl⟩ := List.forall₂_cons_left_iff.1 h
    exact .parameterized hx hys
  | classDecl name fields typeParams => cases composed
  | typedDict name fields total => cases composed
  | function name annotations paramNames => cases composed
  | ref name =>
    cases found : Assoc.find? name t.definitions with
    | none =>
      rw [Descriptor.reading_ref_undefined found] at composed
      cases composed
    | some definition =>
      simp only [Descriptor.parts, found] at h
      obtain ⟨x, rfl, hx⟩ := fits_singleton h
      have own := (Descriptor.composed_cases composed).2 name definition rfl found
      exact .definition found own hx

/-- A collected type that is made of fitting parts is one under which it may be collected. -/
theorem body_assembled {d source : Descriptor} {kind : CollectedKind} {name : String}
    (reading : d.reading t.definitions = .collected kind name source)
    (h : List.Forall₂ (Fits t) (d.parts t.definitions) shapes) :
    Body t kind name source (d.assembled t.definitions t.options shapes) := by
  rcases Descriptor.collected_cases reading with ⟨own, rfl⟩ | ⟨rfl, rfl, found, -⟩
  · cases source with
    | classDecl => cases own; exact .classDecl h
    | typedDict => cases own; exact .typedDict h
    | function name annotations paramNames =>
      cases own
      obtain ⟨xs, y, rfl, hxs, hy⟩ := fits_append_singleton h
      simp only [Descriptor.assembled, List.dropLast_concat, List.getLastD_concat]
      exact .function hxs hy
    | _ => cases own
  · simp only [Descriptor.parts, found] at h
    obtain ⟨x, rfl, hx⟩ := fits_singleton h
    exact .typeAlias hx

end Assembled

/-! ## Registries on the way to another -/

namespace Registry

variable {r r' final : Registry} {kind : CollectedKind} {name : String}

/-- How shapes are judged by the registry that an extraction ends in. -/
def setting (final : Registry) (definitions : List (String × Descriptor)) (options : OptionSet) :
    Setting :=
  ⟨definitions, options, final.claims, final.catalog⟩

variable {definitions : List (String × Descriptor)} {options : OptionSet}

/-- What a name is known by on the way stands for it in the end. -/
theorem Leads.recalls {e : Entry} (leads : r.Leads final) (he : e ∈ r.entries) :
    (final.setting definitions options).Recalls e.kind e.name e.known := by
  refine ⟨List.mem_map_of_mem (f := Claim.key) (leads.mem_claims he), ?_⟩
  unfold Entry.known
  cases finished : e.shape? with
  | none => exact .inr rfl
  | some x =>
    obtain ⟨e', he', claim, shape⟩ := leads e he
    have key : e'.key = (e.kind, e.name) := congrArg Claim.key claim
    refine .inl ?_
    exact catalog_get?.trans (get?_eq_some_iff.2 ⟨e', he', key, shape x finished⟩)

theorem Leads.describes {e : Entry} {d : Descriptor} (leads : r.Leads final)
    (he : e ∈ r.entries) (same : e.source = d ∨ e.source.same d = true) :
    (final.setting definitions options).Describes e.kind e.name d :=
  ⟨e.claim, leads.mem_claims he, rfl, same⟩

end Registry

/-! ## What a run keeps -/

/-- A descriptor that is collected fits what stands for its name. -/
theorem fits_collected {t : Setting} {d source : Descriptor} {kind : CollectedKind}
    {name : String} {x : Shape} (reading : d.reading t.definitions = .collected kind name source)
    (describes : t.Describes kind name source) (recalls : t.Recalls kind name x) : Fits t d x := by
  rcases Descriptor.collected_cases reading with ⟨own, rfl⟩ | ⟨rfl, rfl, found, own⟩
  · exact .collected own describes recalls
  · exact .typeAlias found own describes recalls

namespace Pipeline

/-- Whatever leads to a registry fits by what that registry holds. -/
theorem fitsLaw (definitions : List (String × Descriptor)) (options : OptionSet)
    (final : Registry) :
    Law Stock.all definitions options
      (fun d r outcome r' => ∀ x, outcome = .ok x → r'.Leads final →
        r.Finished (BodyOf (final.setting definitions options)) →
        r'.Finished (BodyOf (final.setting definitions options)) ∧
          Fits (final.setting definitions options) d x)
      (fun ds r outcome r' => ∀ xs, outcome = .ok xs → r'.Leads final →
        r.Finished (BodyOf (final.setting definitions options)) →
        r'.Finished (BodyOf (final.setting definitions options)) ∧
          List.Forall₂ (Fits (final.setting definitions options)) ds xs) where
  unclaimed {d r} uncovered := by
    rw [Stock.covers_all] at uncovered
    cases uncovered
  malformed _ _ x eq := by cases eq
  unresolved {d r name} _ reading x eq leads fit := by
    cases eq
    refine ⟨fit, ?_⟩
    obtain ⟨rfl, undefined⟩ := Descriptor.unresolved_cases reading
    cases found : r.search CollectedKind.searchOrder name with
    | none => exact .unresolved undefined
    | some x =>
      obtain ⟨e, he, rfl, -, rfl⟩ := Registry.exists_of_search_eq_some found
      exact .resolved undefined (leads.recalls he)
  composed {d r outcome r'} _ reading parts x eq leads fit := by
    cases outcome with
    | error fault => cases eq
    | ok shapes =>
      cases eq
      obtain ⟨fit', fits⟩ := parts shapes rfl leads fit
      exact ⟨fit', fits_assembled reading fits⟩
  conflict _ _ _ _ x eq := by cases eq
  known {d r kind name source e} _ reading found same x eq leads fit := by
    cases eq
    obtain ⟨he, key⟩ := Registry.find?_eq_some_iff.1 found
    obtain ⟨rfl, rfl⟩ := Prod.mk.inj key
    exact ⟨fit, fits_collected reading (leads.describes he (.inr same)) (leads.recalls he)⟩
  built {d r kind name source shapes r'} _ reading free grown parts x eq leads fit := by
    cases eq
    obtain ⟨fit', fits⟩ := parts shapes rfl (leads.of_fill grown) (fit.push free)
    refine ⟨fit'.fill grown (body_assembled reading fits), ?_⟩
    obtain ⟨e, he, rfl, rfl, rfl, finished⟩ := Registry.exists_filled free grown
      (d.assembled definitions options shapes)
    have recalls : (final.setting definitions options).Recalls e.kind e.name e.known :=
      leads.recalls he
    rw [Registry.Entry.known_eq finished] at recalls
    exact fits_collected reading (leads.describes he (.inl rfl)) recalls
  undone _ _ _ _ x eq := by cases eq
  nil xs eq _ fit := by
    cases eq
    exact ⟨fit, .nil⟩
  cons {d rest r shape r' outcome r''} first grown later xs eq leads fit := by
    cases outcome with
    | error fault => cases eq
    | ok shapes =>
      cases eq
      obtain ⟨fit', fits⟩ := first shape rfl (leads.of_grows grown) fit
      obtain ⟨fit'', fitsRest⟩ := later shapes rfl leads fit'
      exact ⟨fit'', .cons fits fitsRest⟩
  stop _ xs eq := by cases eq

end Pipeline

/-! ## Whole extractions -/

theorem forall₂_fits_zip {t : Setting} {roots : List (String × Descriptor)} {shapes : List Shape}
    (h : List.Forall₂ (Fits t) (roots.map Prod.snd) shapes) :
    List.Forall₂ (fun (root : String × Descriptor) (named : String × Shape) =>
        named.1 = root.1 ∧ Fits t root.2 named.2) roots ((Assoc.keys roots).zip shapes) := by
  induction roots generalizing shapes with
  | nil => exact .nil
  | cons root rest ih =>
    obtain ⟨x, later, hx, hlater, rfl⟩ := List.forall₂_cons_left_iff.1 h
    exact .cons ⟨rfl, hx⟩ (ih hlater)

namespace Document

/-- **Extraction is faithful.**  If a document is extracted, the shapes of its roots fit the
descriptors of the roots, name by name, and each table of the catalog has the types of the names
of its kind that are met in a walk through the roots, in the order of the walk, each fitting the
descriptor for which its name was met first. -/
theorem extract_fits (doc : Document) (options : OptionSet) {x : Extraction}
    (extracted : doc.extract options = .ok x) :
    ∃ claims, Walk doc.definitions (doc.roots.map Prod.snd) [] claims ∧
      List.Forall₂ (fun (root : String × Descriptor) (named : String × Shape) =>
          named.1 = root.1 ∧ Fits ⟨doc.definitions, options, claims, x.catalog⟩ root.2 named.2)
        doc.roots x.roots ∧
      ∀ kind, List.Forall₂ (fun (c : Claim) (named : String × Shape) =>
          named.1 = c.name ∧
            Body ⟨doc.definitions, options, claims, x.catalog⟩ kind c.name c.source named.2)
        (claims.filter fun c => c.kind = kind) (x.catalog.table kind) := by
  obtain ⟨shapes, s, outcome, rfl⟩ := shapesOf_of_extract_eq_ok extracted
  have walked := (Pipeline.walkLaw doc.definitions options).shapes (doc.roots.map Prod.snd) .start
  have fits := fun final =>
    (Pipeline.fitsLaw doc.definitions options final).shapes (doc.roots.map Prod.snd) .start
  have grown := Pipeline.growing_shapes Stock.all doc.definitions options
    (doc.roots.map Prod.snd) .start
  rw [outcome] at walked fits grown
  obtain ⟨fit, fitting⟩ := fits s.registry shapes rfl (.refl _) fun e he => by cases he
  refine ⟨s.registry.claims, walked shapes rfl, forall₂_fits_zip fitting, fun kind => ?_⟩
  have table : s.registry.catalog.table kind = s.registry.table kind := Registry.catalog_table
  rw [table]
  refine (Registry.forall₂_table (Registry.atRest_empty.of_grows grown) fit kind).imp ?_
  rintro c named ⟨name, rfl, body⟩
  exact ⟨name, body⟩

/-- A class that names itself is the type of the catalog at the root, and a reference inside. -/
theorem fits_of_enclosing_class :
    let doc : Document := ⟨[], [("link", .classDecl "Link" [("next", .ref "Link")] [])]⟩
    let link : Shape := .classType "Link" [("next", .reference "Link" .classType)] .empty
    let x : Extraction := ⟨[("link", link)], ⟨[], [("Link", link)], [], []⟩⟩
    doc.extract .empty = .ok x ∧
      ∃ claims, Walk doc.definitions (doc.roots.map Prod.snd) [] claims ∧
        List.Forall₂ (fun (root : String × Descriptor) (named : String × Shape) =>
            named.1 = root.1 ∧ Fits ⟨doc.definitions, .empty, claims, x.catalog⟩ root.2 named.2)
          doc.roots x.roots ∧
        ∀ kind, List.Forall₂ (fun (c : Claim) (named : String × Shape) =>
            named.1 = c.name ∧
              Body ⟨doc.definitions, .empty, claims, x.catalog⟩ kind c.name c.source named.2)
          (claims.filter fun c => c.kind = kind) (x.catalog.table kind) := by
  intro doc link x
  have extracted : doc.extract .empty = .ok x := rfl
  exact ⟨extracted, extract_fits doc .empty extracted⟩

end Document

end TypeCatalog
