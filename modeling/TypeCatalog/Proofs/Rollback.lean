import TypeCatalog.Proofs.Run

/-!
What a failed build leaves behind.

A collected build claims its name first, and what is built on its behalf may claim, finish and take
back any number of names before it fails.  All that stands behind the claim in the registry, and
nothing that stands before it has changed, for every build of the stock recognizers is `Growing`
(`Build.Disciplined.growing`); so cutting the registry at the claim gives it back as it was.

* `Build.Growing.collect_error`: collecting a growing build leaves the registry as it was, if it
  fails.
* `Stock.Collects` lists the builds that the stock recognizers collect; all of them are
  disciplined, and so growing.
* `Pipeline.failed_build_leaves_no_trace`: in whatever session they run, also one in which other
  builds are under way, they leave the registry as it was, and so does every descriptor that is
  collected.
-/

namespace TypeCatalog

open Recognizer

/-- Collecting a build leaves the registry as it was, if it fails: for the name is taken for another
descriptor, or the claim is taken back with all that was built on its behalf. -/
theorem Build.Growing.collect_error {b : Build Shape} (growing : b.Growing) {kind : CollectedKind}
    {name : String} {source : Descriptor} {s s' : Session} {fault : ExtractError}
    (failed : Build.collect kind name source b s = (.error fault, s')) :
    s'.registry = s.registry := by
  cases found : s.registry.find? kind name with
  | some e =>
    cases same : e.source.same source with
    | false =>
      rw [collect_of_conflict found same] at failed
      cases failed
      rfl
    | true =>
      rw [collect_of_known found same] at failed
      cases failed
  | none =>
    -- what `b` leaves stands behind the claim, so that undoing the claim takes back just that
    rcases outcome : b ⟨s.registry.push kind name source found, s.journal⟩ with ⟨e | shape, s''⟩
    · rw [collect_of_error growing found outcome] at failed
      cases failed
      rfl
    · rw [collect_of_ok growing found outcome] at failed
      cases failed

/-! ## The builds of the stock recognizers -/

/-- The builds that stock recognizers collect, each with the kind, the name and the descriptor that
it is collected under. -/
inductive Stock.Collects (w : Surroundings) (options : OptionSet) :
    CollectedKind → String → Descriptor → Build Shape → Prop
  | classDecl (name : String) (fields : List (String × Descriptor)) (typeParams : List String) :
    Collects w options .classType name (.classDecl name fields typeParams) do
      let table ← fieldsOf w options fields
      return .classType name table options
  | typedDict (name : String) (fields : List (String × Descriptor)) (total : Bool) :
    Collects w options .record name (.typedDict name fields total) do
      let table ← fieldsOf w options fields
      return .record name table total options
  | function (name : String) (annotations : List (String × Descriptor))
    (paramNames : List String) :
    Collects w options .function name (.function name annotations paramNames) do
      let params ← paramsOf w options annotations paramNames
      let returns ← w.shapeOf (annotated annotations returnName) options
      return .function name params returns options
  /-- A definition that is not collected under its own name. -/
  | typeAlias (name : String) (definition : Descriptor) :
    w.definition? name = some definition → isSelfCollected definition = false →
    Collects w options .typeAlias name definition (w.shapeOf definition options)

namespace Surroundings

variable {w : Surroundings} {options : OptionSet}

theorem disciplined_fieldsOf (h : ∀ d, (w.shapeOf d options).Disciplined)
    (fields : List (String × Descriptor)) : (fieldsOf w options fields).Disciplined := by
  unfold fieldsOf
  rw [tableOf_eq]
  have table := disciplined_shapesOf h (fields.map Prod.snd)
  exact (table.bind fun _ => .pure _).bind fun _ => .pure _

theorem disciplined_paramsOf (h : ∀ d, (w.shapeOf d options).Disciplined)
    (annotations : List (String × Descriptor)) (names : List String) :
    (paramsOf w options annotations names).Disciplined := by
  unfold paramsOf
  rw [paramsOnto_eq]
  exact (disciplined_shapesOf h _).bind fun _ => .pure _

/-- What stock recognizers collect is disciplined if the shapes that are asked for are. -/
theorem disciplined_of_collects (h : ∀ d, (w.shapeOf d options).Disciplined)
    {kind : CollectedKind} {name : String} {source : Descriptor} {b : Build Shape}
    (collects : Stock.Collects w options kind name source b) : b.Disciplined := by
  cases collects with
  | classDecl name fields => exact (disciplined_fieldsOf h fields).bind fun _ => .pure _
  | typedDict name fields => exact (disciplined_fieldsOf h fields).bind fun _ => .pure _
  | function name annotations paramNames =>
    exact (disciplined_paramsOf h annotations paramNames).bind fun _ =>
      (h _).bind fun _ => .pure _
  | typeAlias => exact h _

end Surroundings

/-! ## Descriptors that are collected -/

namespace Pipeline

variable {stock : List Stock} {definitions : List (String × Descriptor)} {options : OptionSet}
  {s s' : Session} {fault : ExtractError}

/-- A descriptor that fails is covered, and it fails for what is read off it. -/
theorem read_of_shape_eq_error {d : Descriptor}
    (failed : (ofStock stock definitions).shape d options s = (.error fault, s')) :
    (unbounded stock definitions).read options d s = (.error fault, s') := by
  cases covered : Stock.covers stock d with
  | false =>
    rw [shape_of_uncovered covered] at failed
    cases failed
  | true =>
    rw [shape_of_covered covered] at failed
    exact failed

/-- A type that is collected under its own name leaves the registry as it was, if it fails. -/
theorem registry_eq_of_ownKey {d : Descriptor} (own : d.ownKey?.isSome)
    (failed : (ofStock stock definitions).shape d options s = (.error fault, s')) :
    s'.registry = s.registry := by
  obtain ⟨⟨kind, name⟩, own⟩ := Option.isSome_iff_exists.1 own
  have reading : d.reading definitions = .collected kind name d := Descriptor.reading_of_ownKey own
  have composing : ((unbounded stock definitions).compose options d).Growing :=
    (Surroundings.disciplined_compose (disciplined_shape stock definitions options) d).growing
  have failed := read_of_shape_eq_error failed
  rw [Surroundings.read_collected options reading] at failed
  exact composing.collect_error failed

/-- So does a name that has a definition: it stands for a type of that sort, or for an alias. -/
theorem registry_eq_of_ref {name : String} {definition : Descriptor}
    (found : Assoc.find? name definitions = some definition)
    (failed : (ofStock stock definitions).shape (.ref name) options s = (.error fault, s')) :
    s'.registry = s.registry := by
  have reading := Descriptor.reading_ref found
  have failed := read_of_shape_eq_error failed
  cases own : definition.ownKey?.isSome with
  | false =>
    rw [own] at reading
    have composing : ((unbounded stock definitions).compose options (.ref name)).Growing :=
      (Surroundings.disciplined_compose (disciplined_shape stock definitions options) _).growing
    rw [Surroundings.read_collected options reading] at failed
    exact composing.collect_error failed
  | true =>
    rw [own] at reading
    -- nothing is claimed for the name itself: it has the shape of its definition
    have parts : (Descriptor.ref name).parts (unbounded stock definitions).definitions =
        [definition] := by
      rw [Descriptor.parts, unbounded, found]
      rfl
    rw [Surroundings.read_composed options reading, Surroundings.compose, parts,
      Surroundings.shapesOf_cons, bind_assoc] at failed
    rcases outcome : (unbounded stock definitions).shapeOf definition options s with
      ⟨e | x, s''⟩
    · rw [Build.bind_error outcome] at failed
      cases failed
      exact registry_eq_of_ownKey own outcome
    · rw [Build.bind_ok outcome] at failed
      cases failed

/-- **A failed build leaves no trace.**  Whatever a stock recognizer collects, within any bound and
in any session, leaves the registry as it was if it fails, also where other builds are under way.
Hence so does a class, a typed dictionary, a function or a name that has a definition. -/
theorem failed_build_leaves_no_trace (stock : List Stock) (definitions : List (String × Descriptor))
    (options : OptionSet) :
    (∀ bound kind name source build,
      Stock.Collects (within stock definitions bound) options kind name source build →
      ∀ s fault, (Build.collect kind name source build s).1 = .error fault →
        (Build.collect kind name source build s).2.registry = s.registry) ∧
    ∀ d, (d.ownKey?.isSome ∨
        ∃ name definition, d = .ref name ∧ Assoc.find? name definitions = some definition) →
      ∀ s fault, ((ofStock stock definitions).shape d options s).1 = .error fault →
        ((ofStock stock definitions).shape d options s).2.registry = s.registry := by
  constructor
  · intro bound kind name source build collects s fault failed
    have disciplined := disciplined_shapeWithin stock definitions options bound
    have collecting := Surroundings.disciplined_of_collects disciplined collects
    exact collecting.growing.collect_error (Prod.ext failed rfl)
  · rintro d (own | ⟨name, definition, rfl, found⟩) s fault failed
    · exact registry_eq_of_ownKey own (Prod.ext failed rfl)
    · exact registry_eq_of_ref found (Prod.ext failed rfl)

/-- A class fails after another one was built for it that refers back to it.  What was finished
before and what is under way around it stays. -/
theorem failed_build_leaves_no_trace_of_inner :
    let stock : List Stock := [.reference, .classDecl, .listLike]
    let fields : List (String × Descriptor) :=
      [("inner", .ref "Inner"), ("bad", .generic "list" [.builtin "int", .builtin "int"])]
    let outer : Descriptor := .classDecl "Outer" fields []
    let definitions := [("Outer", outer), ("Inner", .classDecl "Inner" [("back", .ref "Outer")] [])]
    let kept : Registry.Entry :=
      ⟨.classType, "Kept", .classDecl "Kept" [] [], some (.classType "Kept" [] .empty)⟩
    let around : Registry.Entry :=
      ⟨.record, "Around", .typedDict "Around" [("outer", .ref "Outer")] true, none⟩
    let s : Session := ⟨⟨[kept, around], by decide⟩, []⟩
    let build : Build Shape := do
      let table ← fieldsOf (within stock definitions 9) .empty fields
      return .classType "Outer" table .empty
    ((Build.collect .classType "Outer" outer build s).1 = .error (.arity "list" (.exactly 1) 2) ∧
      (Build.collect .classType "Outer" outer build s).2.registry = s.registry) ∧
    ((ofStock stock definitions).shape (.ref "Outer") .empty s).1 =
        .error (.arity "list" (.exactly 1) 2) ∧
      ((ofStock stock definitions).shape (.ref "Outer") .empty s).2.registry = s.registry := by
  intro stock fields outer definitions kept around s build
  have collects :
      Stock.Collects (within stock definitions 9) .empty .classType "Outer" outer build :=
    .classDecl "Outer" fields []
  have fails : (Build.collect .classType "Outer" outer build s).1 =
      .error (.arity "list" (.exactly 1) 2) := by
    simp only [build, s, around, kept, outer, definitions, fields, stock]
    cbv
  have fails' : ((ofStock stock definitions).shape (.ref "Outer") .empty s).1 =
      .error (.arity "list" (.exactly 1) 2) := by
    simp only [s, around, kept, outer, definitions, fields, stock]
    cbv
  have found : Assoc.find? "Outer" definitions = some outer := by simp [definitions, Assoc.find?]
  have traceless := failed_build_leaves_no_trace stock definitions .empty
  exact ⟨⟨fails, traceless.1 9 .classType "Outer" outer build collects s _ fails⟩,
    fails', traceless.2 (.ref "Outer") (.inr ⟨"Outer", outer, rfl, found⟩) s _ fails'⟩

end Pipeline

end TypeCatalog
