import TypeCatalog.Pipeline

/-!
How the stock recognizers read a descriptor.

At most one stock recognizer claims a descriptor (`Descriptor.claimant?`), and what it does with
it is one of four things (`Descriptor.Reading`): it reports a fault, it looks a name up that has
no definition, it takes the shapes of the descriptor's parts and puts them together, or it does
so for a type that is collected under a name.  `Descriptor.parts` are the descriptors that are
looked at for it, in order, and `Descriptor.assembled` is what their shapes are put together to.
`Surroundings.read` is the build that carries a reading out.
-/

namespace TypeCatalog

open Recognizer

/-! ## Families of built-in generic types -/

namespace Origin

/-- The family that holds a type. -/
def of? (type : String) : Option Origin :=
  all.find? fun family => family.holds type

/-- The arguments of a generic type that are looked at. -/
def positions : Origin → List Descriptor → List Descriptor
  | list, [element] => [element]
  | dict, [key, value] => [key, value]
  | mapping, [key, value] => [key, value]
  | tuple, args => positional args
  | _, _ => []

/-- What is wrong with the arguments of a generic type. -/
def fault? (family : Origin) (origin : String) (args : List Descriptor) :
    Option ExtractError :=
  match family with
  | list =>
    if args.length ≤ 1 then none else some (.arity origin (.exactly 1) args.length)
  | dict | mapping =>
    if args.length = 0 ∨ args.length = 2 then none
    else some (.arity origin (.exactly 2) args.length)
  | tuple =>
    if (positional args).any isEllipsis then some (.misplacedEllipsis origin) else none

/-- The generic type of some arguments; arguments that are left out are unknown. -/
def shape (family : Origin) (options : OptionSet) (args : List Descriptor)
    (shapes : List Shape) : Shape :=
  match family with
  | list => .list (shapes.headD .unknown) options
  | dict => .dict (shapes.headD .unknown) (shapes[1]?.getD .unknown) options
  | mapping => .mapping (shapes.headD .unknown) (shapes[1]?.getD .unknown) options
  | tuple => .tuple shapes (isOpen args) options

/-- No type is in two families. -/
theorem of?_eq_some_iff {family : Origin} {type : String} :
    of? type = some family ↔ family.holds type = true := by
  constructor
  · intro h
    exact List.find?_some (p := fun family : Origin => family.holds type) h
  · intro h
    have apart : ∀ t ∈ family.types, of? t = some family := by cases family <;> decide
    exact apart type (List.contains_iff_mem.1 h)

end Origin

/-! ## Arguments of tuples -/

namespace Recognizer

theorem isOpen_iff {args : List Descriptor} :
    isOpen args = true ↔ ∃ element, args = [element, .ellipsis] := by
  constructor
  · intro h
    unfold isOpen at h
    split at h
    · exact ⟨_, rfl⟩
    · cases h
  · rintro ⟨element, rfl⟩
    rfl

theorem isEllipsis_iff {d : Descriptor} : isEllipsis d = true ↔ d = .ellipsis := by
  cases d <;> simp [isEllipsis]

end Recognizer

/-- The recognizer of a family of built-in generic types. -/
def Stock.ofFamily : Origin → Stock
  | .list => .listLike
  | .dict => .dictionary
  | .tuple => .tuple
  | .mapping => .mapping

/-! ## Readings -/

/-- Whether an error tells of a single descriptor, and not of what is collected. -/
def ExtractError.isOfDescriptor : ExtractError → Bool
  | arity _ _ _ => true
  | typeParams _ _ _ => true
  | misplacedEllipsis _ => true
  | _ => false

namespace Descriptor

/-- What there is to do for the shape of a descriptor. -/
inductive Reading where
  | malformed (fault : ExtractError)
  /-- A name that has no definition. -/
  | unresolved (name : String)
  /-- A type made of the shapes of its parts. -/
  | composed
  /-- The same for a type that is collected, with the descriptor it is collected from. -/
  | collected (kind : CollectedKind) (name : String) (source : Descriptor)

/-- The type parameters that a generic class declares. -/
def declared (definitions : List (String × Descriptor)) : Descriptor → List String
  | classDecl _ _ typeParams => typeParams
  | ref name =>
    match Assoc.find? name definitions with
    | some (classDecl _ _ typeParams) => typeParams
    | _ => []
  | _ => []

/-- What there is to do for the shape of a descriptor among some definitions. -/
def reading (definitions : List (String × Descriptor)) (d : Descriptor) : Reading :=
  match d with
  | generic origin args =>
    match (Origin.of? origin).bind fun family => family.fault? origin args with
    | some fault => .malformed fault
    | Option.none => .composed
  | union [] => .malformed (.arity "typing.Union" (.atLeast 1) 0)
  | literal [] => .malformed (.arity "typing.Literal" (.atLeast 1) 0)
  | parameterized base args =>
    if (base.declared definitions).length ≠ 0 ∧
        (base.declared definitions).length ≠ args.length then
      .malformed (.typeParams base.label (base.declared definitions).length args.length)
    else .composed
  | classDecl name _ _ => .collected .classType name d
  | typedDict name _ _ => .collected .record name d
  | function name _ _ => .collected .function name d
  | ref name =>
    match Assoc.find? name definitions with
    | Option.none => .unresolved name
    | some definition =>
      if isSelfCollected definition then .composed
      else .collected .typeAlias name definition
  | _ => .composed

/-- The kind and the name under which a descriptor is collected by itself. -/
def ownKey? : Descriptor → Option (CollectedKind × String)
  | classDecl name _ _ => some (.classType, name)
  | typedDict name _ _ => some (.record, name)
  | function name _ _ => some (.function, name)
  | _ => Option.none

/-- The names of a function's parameters, each where it is listed. -/
def parameterNames (paramNames : List String) : List String :=
  paramNames.filter fun name => !reservedNames.contains name

theorem parameterNames_cons_of_reserved {name : String} {rest : List String}
    (h : reservedNames.contains name = true) :
    parameterNames (name :: rest) = parameterNames rest :=
  List.filter_cons_of_neg (by rw [h]; decide)

theorem parameterNames_cons {name : String} {rest : List String}
    (h : ¬reservedNames.contains name = true) :
    parameterNames (name :: rest) = name :: parameterNames rest :=
  List.filter_cons_of_pos (by rw [Bool.eq_false_iff.2 h]; decide)

/-- The descriptors whose shapes the shape of a descriptor is made of, in order. -/
def parts (definitions : List (String × Descriptor)) : Descriptor → List Descriptor
  | generic origin args =>
    match Origin.of? origin with
    | some family => family.positions args
    | Option.none => []
  | union members => members
  | typeVar _ bound constraints => bound.toList ++ constraints
  | classDecl _ fields _ => fields.map Prod.snd
  | typedDict _ fields _ => fields.map Prod.snd
  | newType _ supertype => [supertype]
  | parameterized base args => base :: args
  | function _ annotations paramNames =>
    (parameterNames paramNames).map (annotated annotations) ++
      [annotated annotations returnName]
  | ref name => (Assoc.find? name definitions).toList
  | _ => []

/-- The names of the arguments of a generic class. -/
def bindingNames (params : List String) (count : Nat) : List String :=
  (List.range count).map (bindingName params)

/-- A table of fields, ordered by name if the options say so. -/
def arranged (options : OptionSet) (table : List (String × Shape)) : List (String × Shape) :=
  if options.sortFields then Assoc.sortKeys table else table

/-- The shape of a descriptor from the shapes of its parts. -/
def assembled (definitions : List (String × Descriptor)) (options : OptionSet) :
    Descriptor → List Shape → Shape
  | none, _ => .none
  | builtin name, _ => .builtin name
  | enum name members, _ => .enum name members
  | literal values, _ => .literal values
  | generic origin args, shapes =>
    match Origin.of? origin with
    | some family => family.shape options args shapes
    | Option.none => .unknown
  | union _, shapes => (Shape.combine options shapes).getD .unknown
  | typeVar name (some _) _, bound :: constraints => .typeVar name (some bound) constraints
  | typeVar name _ _, constraints => .typeVar name Option.none constraints
  | classDecl name fields _, shapes =>
    .classType name (arranged options ((Assoc.keys fields).zip shapes)) options
  | typedDict name fields total, shapes =>
    .record name (arranged options ((Assoc.keys fields).zip shapes)) total options
  | newType name _, shapes => .newType name (shapes.headD .unknown)
  | parameterized base args, shapes =>
    .fixedGeneric (shapes.headD .unknown)
      (Assoc.ofPairs ((bindingNames (base.declared definitions) args.length).zip shapes.tail))
      options
  | function name _ paramNames, shapes =>
    .function name (Assoc.ofPairs ((parameterNames paramNames).zip shapes.dropLast))
      (shapes.getLastD .unknown) options
  | ref _, shapes => shapes.headD .unknown
  | _, _ => .unknown

/-- The stock recognizer that claims a descriptor. -/
def claimant? : Descriptor → Option Stock
  | none => some .absent
  | builtin _ => some .builtin
  | enum _ _ => some .enumeration
  | literal _ => some .literal
  | generic origin _ => (Origin.of? origin).map Stock.ofFamily
  | union _ => some .union
  | typeVar _ _ _ => some .typeVariable
  | classDecl _ _ _ => some .classDecl
  | typedDict _ _ _ => some .typedDict
  | newType _ _ => some .newType
  | parameterized _ _ => some .fixedGeneric
  | function _ _ _ => some .function
  | ref _ => some .reference
  | _ => Option.none

end Descriptor

/-- Whether a list of stock recognizers has the one that claims a descriptor, if there is one. -/
def Stock.covers (stock : List Stock) (d : Descriptor) : Bool :=
  d.claimant?.all fun r => stock.contains r

namespace Descriptor

variable {definitions : List (String × Descriptor)}

theorem isSelfCollected_eq (d : Descriptor) : isSelfCollected d = d.ownKey?.isSome := by
  cases d <;> rfl

theorem reading_of_ownKey {d : Descriptor} {kind : CollectedKind} {name : String}
    (h : d.ownKey? = some (kind, name)) : d.reading definitions = .collected kind name d := by
  cases d with
  | classDecl own fields typeParams => cases h; rfl
  | typedDict own fields total => cases h; rfl
  | function own annotations paramNames => cases h; rfl
  | _ => cases h

theorem reading_ref_undefined {name : String} (h : Assoc.find? name definitions = Option.none) :
    (ref name).reading definitions = .unresolved name := by
  simp only [reading, h]

theorem reading_ref {name : String} {definition : Descriptor}
    (h : Assoc.find? name definitions = some definition) :
    (ref name).reading definitions =
      if definition.ownKey?.isSome then .composed
      else .collected .typeAlias name definition := by
  simp only [reading, h, isSelfCollected_eq]

/-- A descriptor that is no name is at fault, made of its parts, or collected under its own name. -/
theorem reading_cases (definitions : List (String × Descriptor)) (d : Descriptor) :
    (∃ fault, d.reading definitions = .malformed fault) ∨
      (d.ownKey? = Option.none ∧ d.reading definitions = .composed) ∨
      (∃ kind name, d.ownKey? = some (kind, name) ∧
        d.reading definitions = .collected kind name d) ∨
      ∃ name, d = ref name := by
  cases d with
  | generic origin args =>
    simp only [reading]
    split
    · exact .inl ⟨_, rfl⟩
    · exact .inr (.inl ⟨rfl, rfl⟩)
  | union members =>
    cases members with
    | nil => exact .inl ⟨_, rfl⟩
    | cons => exact .inr (.inl ⟨rfl, rfl⟩)
  | literal values =>
    cases values with
    | nil => exact .inl ⟨_, rfl⟩
    | cons => exact .inr (.inl ⟨rfl, rfl⟩)
  | parameterized base args =>
    simp only [reading]
    split
    · exact .inl ⟨_, rfl⟩
    · exact .inr (.inl ⟨rfl, rfl⟩)
  | classDecl name fields typeParams => exact .inr (.inr (.inl ⟨_, _, rfl, rfl⟩))
  | typedDict name fields total => exact .inr (.inr (.inl ⟨_, _, rfl, rfl⟩))
  | function name annotations paramNames => exact .inr (.inr (.inl ⟨_, _, rfl, rfl⟩))
  | ref name => exact .inr (.inr (.inr ⟨name, rfl⟩))
  | _ => exact .inr (.inl ⟨rfl, rfl⟩)

/-- Only a name without a definition is looked up. -/
theorem unresolved_cases {d : Descriptor} {name : String}
    (h : d.reading definitions = .unresolved name) :
    d = ref name ∧ Assoc.find? name definitions = Option.none := by
  rcases reading_cases definitions d with
    ⟨fault, eq⟩ | ⟨-, eq⟩ | ⟨kind, own, -, eq⟩ | ⟨other, rfl⟩
  · rw [eq] at h
    cases h
  · rw [eq] at h
    cases h
  · rw [eq] at h
    cases h
  · cases found : Assoc.find? other definitions with
    | none =>
      rw [reading_ref_undefined found] at h
      cases h
      exact ⟨rfl, found⟩
    | some definition =>
      rw [reading_ref found] at h
      split at h <;> cases h

/-- A type is collected under its own name, or as the alias of a definition that is not. -/
theorem collected_cases {d source : Descriptor} {kind : CollectedKind} {name : String}
    (h : d.reading definitions = .collected kind name source) :
    (d.ownKey? = some (kind, name) ∧ source = d) ∨
      (d = ref name ∧ kind = .typeAlias ∧ Assoc.find? name definitions = some source ∧
        source.ownKey? = Option.none) := by
  rcases reading_cases definitions d with
    ⟨fault, eq⟩ | ⟨-, eq⟩ | ⟨kind', name', own, eq⟩ | ⟨other, rfl⟩
  · rw [eq] at h
    cases h
  · rw [eq] at h
    cases h
  · rw [eq] at h
    cases h
    exact .inl ⟨own, rfl⟩
  · cases found : Assoc.find? other definitions with
    | none => simp [reading_ref_undefined found] at h
    | some definition =>
      rw [reading_ref found] at h
      split at h
      · cases h
      · rename_i own
        cases h
        exact .inr ⟨rfl, rfl, found, Option.not_isSome_iff_eq_none.1 own⟩

theorem kind_ne_alias_of_ownKey {d : Descriptor} {kind : CollectedKind} {name : String}
    (h : d.ownKey? = some (kind, name)) : kind ≠ .typeAlias := by
  rintro rfl
  cases d <;> cases h

/-- What is collected under one kind and name has that name of its own, or is a reference to one
and the same definition. -/
theorem collected_pair {a b source source' : Descriptor} {kind : CollectedKind} {name : String}
    (h : a.reading definitions = .collected kind name source)
    (h' : b.reading definitions = .collected kind name source') :
    (a.ownKey? = some (kind, name) ∧ b.ownKey? = some (kind, name) ∧ source = a ∧ source' = b) ∨
      (a = b ∧ source = source' ∧ Assoc.find? name definitions = some source) := by
  rcases collected_cases h with ⟨own, rfl⟩ | ⟨rfl, rfl, found, -⟩ <;>
    rcases collected_cases h' with ⟨own', rfl⟩ | ⟨rfl, isAlias, found', -⟩
  · exact .inl ⟨own, own', rfl, rfl⟩
  · exact absurd isAlias (kind_ne_alias_of_ownKey own)
  · exact absurd rfl (kind_ne_alias_of_ownKey own')
  · exact .inr ⟨rfl, Option.some.inj (found.symm.trans found'), found⟩

/-- Descriptors are at fault for what they say. -/
theorem isOfDescriptor_of_malformed {d : Descriptor} {fault : ExtractError}
    (h : d.reading definitions = .malformed fault) : fault.isOfDescriptor = true := by
  cases d with
  | generic origin args =>
    simp only [reading] at h
    split at h
    · rename_i fault eq
      cases h
      obtain ⟨family, -, faulty⟩ := Option.bind_eq_some_iff.1 eq
      cases family <;> simp only [Origin.fault?] at faulty <;> split at faulty <;>
        cases faulty <;> rfl
    · cases h
  | union members => cases members <;> cases h; rfl
  | literal values => cases values <;> cases h; rfl
  | parameterized base args => simp only [reading] at h; split at h <;> cases h; rfl
  | ref name =>
    simp only [reading] at h
    split at h
    · cases h
    · split at h <;> cases h
  | _ => cases h

/-- They are not at fault for the bound they are read within. -/
theorem ne_endless_of_malformed {d : Descriptor} {fault : ExtractError}
    (h : d.reading definitions = .malformed fault) : fault ≠ .endless := by
  rintro rfl
  cases isOfDescriptor_of_malformed h

/-- A type made of its parts is not collected, though a name may stand for one that is. -/
theorem composed_cases {d : Descriptor} (h : d.reading definitions = .composed) :
    d.ownKey? = Option.none ∧ ∀ name definition, d = ref name →
      Assoc.find? name definitions = some definition → definition.ownKey?.isSome := by
  cases d with
  | ref other =>
    refine ⟨rfl, ?_⟩
    intro name definition eq found
    cases eq
    rw [reading_ref found] at h
    split at h
    · assumption
    · cases h
  | classDecl own fields typeParams => cases h
  | typedDict own fields total => cases h
  | function own annotations paramNames => cases h
  | _ => exact ⟨rfl, fun name definition eq => by cases eq⟩

end Descriptor

namespace Surroundings

/-- The shape of a descriptor that is made of parts. -/
def compose (w : Surroundings) (options : OptionSet) (d : Descriptor) : Build Shape := do
  let shapes ← w.shapesOf options (d.parts w.definitions)
  return d.assembled w.definitions options shapes

/-- The shape of a descriptor by its reading. -/
def read (w : Surroundings) (options : OptionSet) (d : Descriptor) : Build Shape :=
  match d.reading w.definitions with
  | .malformed fault => Build.fail fault
  | .unresolved name => do
    let registry ← Build.registry
    return (registry.search CollectedKind.searchOrder name).getD .unknown
  | .composed => w.compose options d
  | .collected kind name source => Build.collect kind name source (w.compose options d)

section Read

variable {w : Surroundings} {d : Descriptor} (options : OptionSet)

theorem read_malformed {fault : ExtractError}
    (h : d.reading w.definitions = .malformed fault) :
    w.read options d = Build.fail fault := by
  simp only [read, h]

theorem read_unresolved {name : String} (h : d.reading w.definitions = .unresolved name) :
    w.read options d = (do
      let registry ← Build.registry
      return (registry.search CollectedKind.searchOrder name).getD .unknown) := by
  simp only [read, h]

theorem read_composed (h : d.reading w.definitions = .composed) :
    w.read options d = w.compose options d := by
  simp only [read, h]

theorem read_collected {kind : CollectedKind} {name : String} {source : Descriptor}
    (h : d.reading w.definitions = .collected kind name source) :
    w.read options d = Build.collect kind name source (w.compose options d) := by
  simp only [read, h]

end Read

end Surroundings

end TypeCatalog
