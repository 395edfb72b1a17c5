import TypeCatalog.Proofs.Build
import TypeCatalog.Proofs.Reading
import TypeCatalog.Proofs.Union

/-!
The stock recognizers together.

Each stock recognizer reads the descriptors that it is the claimant of (`claim?_claimant`) and
declines all others without a trace (`claim?_of_not_claimant`).  Hence a list of stock
recognizers, whatever its order and repetitions, reads every descriptor that it covers and leaves
the others unknown (`firstClaim_stock`).
-/

namespace TypeCatalog

open Recognizer

namespace Surroundings

@[simp] theorem shapesOf_nil (w : Surroundings) (options : OptionSet) :
    w.shapesOf options [] = pure [] := rfl

theorem shapesOf_cons (w : Surroundings) (options : OptionSet) (d : Descriptor)
    (rest : List Descriptor) :
    w.shapesOf options (d :: rest) = (do
      let shape ← w.shapeOf d options
      let shapes ← w.shapesOf options rest
      return shape :: shapes) := rfl

/-- The shapes of two lists are taken one list after the other. -/
theorem shapesOf_append (w : Surroundings) (options : OptionSet) (ds es : List Descriptor) :
    w.shapesOf options (ds ++ es) = (do
      let shapes ← w.shapesOf options ds
      let others ← w.shapesOf options es
      return shapes ++ others) := by
  induction ds with
  | nil => simp
  | cons d rest ih => simp [shapesOf_cons, ih]

/-- A table of shapes is the list of its shapes under the names of the descriptors. -/
theorem tableOf_eq (w : Surroundings) (options : OptionSet)
    (table : List (String × Descriptor)) :
    w.tableOf options table = (do
      let shapes ← w.shapesOf options (table.map Prod.snd)
      return (Assoc.keys table).zip shapes) := by
  induction table with
  | nil => rfl
  | cons entry rest ih =>
    obtain ⟨name, d⟩ := entry
    simp [tableOf, shapesOf_cons, ih, Assoc.keys]

/-- Parameters are written one after another, which is to write their shapes in one go. -/
theorem paramsOnto_eq (w : Surroundings) (options : OptionSet)
    (annotations : List (String × Descriptor)) (params : List (String × Shape))
    (names : List String) :
    paramsOnto w options annotations params names = (do
      let shapes ← w.shapesOf options
        ((Descriptor.parameterNames names).map (annotated annotations))
      return Assoc.putAll params ((Descriptor.parameterNames names).zip shapes)) := by
  induction names generalizing params with
  | nil => rfl
  | cons name rest ih =>
    unfold paramsOnto
    by_cases reserved : reservedNames.contains name = true
    · rw [if_pos reserved, ih]
      rw [Descriptor.parameterNames_cons_of_reserved reserved]
    · rw [if_neg reserved, Descriptor.parameterNames_cons reserved]
      simp [shapesOf_cons, ih, Assoc.putAll]

/-- The same for the arguments of a generic class. -/
theorem bindingsOnto_eq (w : Surroundings) (options : OptionSet) (params : List String)
    (index : Nat) (bindings : List (String × Shape)) (args : List Descriptor) :
    bindingsOnto w options params index bindings args = (do
      let shapes ← w.shapesOf options args
      return Assoc.putAll bindings
        (((List.range' index args.length).map (bindingName params)).zip shapes)) := by
  induction args generalizing index bindings with
  | nil => rfl
  | cons arg rest ih =>
    unfold bindingsOnto
    simp [shapesOf_cons, ih, List.range'_succ, Assoc.putAll]

end Surroundings

/-! ## What a recognizer does with a descriptor that it claims -/

namespace Recognizer

variable (w : Surroundings) (options : OptionSet)

/-- A built-in generic type is read by its family: a fault in the arguments, or their shapes. -/
theorem read_generic {origin : String} {family : Origin} (h : Origin.of? origin = some family)
    (args : List Descriptor) :
    w.read options (.generic origin args) =
      match family.fault? origin args with
      | some fault => Build.fail fault
      | none => do
        let shapes ← w.shapesOf options (family.positions args)
        return family.shape options args shapes := by
  simp only [Surroundings.read, Descriptor.reading, h, Option.bind_some]
  cases family.fault? origin args with
  | some fault => rfl
  | none => simp [Surroundings.compose, Descriptor.parts, Descriptor.assembled, h]

theorem map_fail {α β : Type} (f : α → β) (e : ExtractError) :
    f <$> (Build.fail e : Build α) = Build.fail e := rfl

theorem listLike_generic {origin : String} (h : Origin.of? origin = some .list)
    (args : List Descriptor) :
    listLike w (.generic origin args) options = some <$> w.read options (.generic origin args) := by
  have holds := Origin.of?_eq_some_iff.1 h
  rw [read_generic w options h]
  rcases args with _ | ⟨element, _ | ⟨other, rest⟩⟩
  · simp [listLike, holds, Origin.fault?, Origin.positions, Origin.shape]
  · simp [listLike, holds, Origin.fault?, Origin.positions, Origin.shape,
      Surroundings.shapesOf_cons]
  · simp [listLike, holds, Origin.fault?, map_fail]

/-- The arguments of a dictionary or a mapping are a key and a value, which are unknown where there
are no arguments. -/
theorem keyAndValue_eq {family : Origin} (isPair : family = .dict ∨ family = .mapping)
    (origin : String) (args : List Descriptor) :
    keyAndValue w origin options args =
      match family.fault? origin args with
      | some fault => Build.fail fault
      | none => do
        let shapes ← w.shapesOf options (family.positions args)
        return (shapes.headD .unknown, shapes[1]?.getD .unknown) := by
  rcases args with _ | ⟨key, _ | ⟨value, _ | ⟨other, rest⟩⟩⟩ <;>
    rcases isPair with rfl | rfl <;>
    simp [keyAndValue, Origin.fault?, Origin.positions, Surroundings.shapesOf_cons]

theorem dictionary_generic {origin : String} (h : Origin.of? origin = some .dict)
    (args : List Descriptor) :
    dictionary w (.generic origin args) options =
      some <$> w.read options (.generic origin args) := by
  have holds := Origin.of?_eq_some_iff.1 h
  rw [read_generic w options h]
  simp only [dictionary, holds, if_true, keyAndValue_eq w options (Or.inl rfl) origin args]
  cases Origin.dict.fault? origin args with
  | some fault => rfl
  | none => simp [Origin.shape]

theorem mapping_generic {origin : String} (h : Origin.of? origin = some .mapping)
    (args : List Descriptor) :
    mapping w (.generic origin args) options =
      some <$> w.read options (.generic origin args) := by
  have holds := Origin.of?_eq_some_iff.1 h
  rw [read_generic w options h]
  simp only [mapping, holds, if_true, keyAndValue_eq w options (Or.inr rfl) origin args]
  cases Origin.mapping.fault? origin args with
  | some fault => rfl
  | none => simp [Origin.shape]

theorem tuple_generic {origin : String} (h : Origin.of? origin = some .tuple)
    (args : List Descriptor) :
    tuple w (.generic origin args) options = some <$> w.read options (.generic origin args) := by
  have holds := Origin.of?_eq_some_iff.1 h
  rw [read_generic w options h]
  simp only [tuple, holds, if_true, Origin.fault?]
  split
  · rfl
  · simp [Origin.positions, Origin.shape]

/-- A union is read by combining the shapes of its members, of which there is one at least. -/
theorem union_members (members : List Descriptor) :
    union w (.union members) options = some <$> w.read options (.union members) := by
  cases members with
  | nil => rfl
  | cons first rest =>
    have combined : ∀ shapes : List Shape,
        Shape.combine options shapes = some ((Shape.combine options shapes).getD .unknown) := by
      intro shapes
      obtain ⟨x, eq, -⟩ := Shape.combine_eq_some options shapes
      rw [eq, Option.getD_some]
    show (do
      let shapes ← w.shapesOf options (first :: rest)
      return Shape.combine options shapes) = some <$> (do
      let shapes ← w.shapesOf options (first :: rest)
      return (Shape.combine options shapes).getD .unknown)
    rw [map_bind]
    congr 1
    funext shapes
    rw [map_pure, ← combined shapes]

/-- A class is read by collecting the shapes of its fields under their names. -/
theorem classDecl_fields (name : String) (fields : List (String × Descriptor))
    (typeParams : List String) :
    classDecl w (.classDecl name fields typeParams) options =
      some <$> w.read options (.classDecl name fields typeParams) := by
  simp [classDecl, fieldsOf, Surroundings.tableOf_eq, Surroundings.read, Descriptor.reading,
    Surroundings.compose, Descriptor.parts, Descriptor.assembled, Descriptor.arranged]

theorem typedDict_fields (name : String) (fields : List (String × Descriptor)) (total : Bool) :
    typedDict w (.typedDict name fields total) options =
      some <$> w.read options (.typedDict name fields total) := by
  simp [typedDict, fieldsOf, Surroundings.tableOf_eq, Surroundings.read, Descriptor.reading,
    Surroundings.compose, Descriptor.parts, Descriptor.assembled, Descriptor.arranged]

/-- A function is read by collecting the shapes of its parameters and, behind them, of what it
returns. -/
theorem function_params (name : String) (annotations : List (String × Descriptor))
    (paramNames : List String) :
    function w (.function name annotations paramNames) options =
      some <$> w.read options (.function name annotations paramNames) := by
  simp [function, paramsOf, Surroundings.paramsOnto_eq, Surroundings.read, Descriptor.reading,
    Surroundings.compose, Descriptor.parts, Descriptor.assembled, Assoc.ofPairs,
    Surroundings.shapesOf_append, Surroundings.shapesOf_cons]

/-- The type parameters that the recognizer finds are those that a reading looks at. -/
theorem declaredParams_eq (base : Descriptor) :
    declaredParams w base = base.declared w.definitions := by
  cases base <;> rfl

/-- A generic class with arguments is read base first, and then argument by argument. -/
theorem fixedGeneric_args (base : Descriptor) (args : List Descriptor) :
    fixedGeneric w (.parameterized base args) options =
      some <$> w.read options (.parameterized base args) := by
  simp only [fixedGeneric, declaredParams_eq, Surroundings.read, Descriptor.reading]
  split
  · rfl
  · simp [Surroundings.compose, Descriptor.parts, Descriptor.assembled,
      Surroundings.shapesOf_cons, Surroundings.bindingsOnto_eq, Descriptor.bindingNames,
      List.range_eq_range', Assoc.ofPairs]

theorem newType_supertype (name : String) (supertype : Descriptor) :
    newType w (.newType name supertype) options =
      some <$> w.read options (.newType name supertype) := by
  simp [newType, Surroundings.read, Descriptor.reading, Surroundings.compose,
    Descriptor.parts, Descriptor.assembled, Surroundings.shapesOf_cons]

theorem typeVariable_bound (name : String) (bound : Option Descriptor)
    (constraints : List Descriptor) :
    typeVariable w (.typeVar name bound constraints) options =
      some <$> w.read options (.typeVar name bound constraints) := by
  cases bound <;>
    simp [typeVariable, Surroundings.shapeOf?, Surroundings.read, Descriptor.reading,
      Surroundings.compose, Descriptor.parts, Descriptor.assembled, Surroundings.shapesOf_cons]

theorem literal_values (values : List Scalar) :
    literal w (.literal values) options = some <$> w.read options (.literal values) := by
  cases values <;> rfl

/-- A name that has a definition. -/
theorem reference_defined {name : String} {definition : Descriptor}
    (h : Assoc.find? name w.definitions = some definition) :
    reference w (.ref name) options = some <$> w.read options (.ref name) := by
  simp only [reference, Surroundings.definition?, h, Surroundings.read, Descriptor.reading]
  split <;>
    simp [Surroundings.compose, Descriptor.parts, Descriptor.assembled, h,
      Surroundings.shapesOf_cons]

/-- A name that has no definition is claimed only where it is collected already. -/
theorem reference_undefined {name : String} (h : Assoc.find? name w.definitions = none) :
    reference w (.ref name) options = (do
      let registry ← Build.registry
      return registry.search CollectedKind.searchOrder name) := by
  simp only [reference, Surroundings.definition?, h]

end Recognizer

/-! ## All stock recognizers together -/

namespace Stock

variable (w : Surroundings) (options : OptionSet)

/-- A recognizer of built-in generic types of a family declines those of others. -/
theorem claim?_generic_of_ne {origin : String} {args : List Descriptor} {family : Origin}
    (h : Origin.of? origin ≠ some family) :
    (ofFamily family).claim? w (.generic origin args) options = pure none := by
  have outside : family.holds origin = false :=
    Bool.eq_false_iff.2 fun holds => h (Origin.of?_eq_some_iff.2 holds)
  cases family <;>
    simp [ofFamily, claim?, Recognizer.listLike, Recognizer.dictionary, Recognizer.tuple,
      Recognizer.mapping, outside]

/-- The recognizer of a family reads the built-in generic types of that family. -/
theorem claim?_generic {origin : String} {args : List Descriptor} {family : Origin}
    (h : Origin.of? origin = some family) :
    (ofFamily family).claim? w (.generic origin args) options =
      some <$> w.read options (.generic origin args) := by
  cases family with
  | list => exact listLike_generic w options h args
  | dict => exact dictionary_generic w options h args
  | tuple => exact tuple_generic w options h args
  | mapping => exact mapping_generic w options h args

/-- A stock recognizer declines what it is not the claimant of. -/
theorem claim?_of_not_claimant {r : Stock} {d : Descriptor} (h : d.claimant? ≠ some r) :
    r.claim? w d options = pure none := by
  cases d with
  | generic origin args =>
    have other : ∀ family, r = ofFamily family → Origin.of? origin ≠ some family := by
      intro family eq held
      exact h (by simp [Descriptor.claimant?, held, eq])
    cases r with
    | listLike => exact claim?_generic_of_ne w options (other .list rfl)
    | dictionary => exact claim?_generic_of_ne w options (other .dict rfl)
    | tuple => exact claim?_generic_of_ne w options (other .tuple rfl)
    | mapping => exact claim?_generic_of_ne w options (other .mapping rfl)
    | _ => rfl
  -- any other recognizer looks for descriptors of one kind
  | _ => cases r <;> first | rfl | exact absurd rfl h

/-- What a stock recognizer makes of a descriptor that it is the claimant of.  A name without a
definition is left out, since it may be declined after all. -/
theorem claim?_claimant {r : Stock} {d : Descriptor} (h : d.claimant? = some r)
    (resolved : ∀ name, d.reading w.definitions ≠ .unresolved name) :
    r.claim? w d options = some <$> w.read options d := by
  cases d with
  | generic origin args =>
    obtain ⟨family, held, rfl⟩ := Option.map_eq_some_iff.1 h
    exact claim?_generic w options held
  | union members => cases h; exact union_members w options members
  | literal values => cases h; exact literal_values w options values
  | typeVar name bound constraints =>
    cases h; exact typeVariable_bound w options name bound constraints
  | classDecl name fields typeParams =>
    cases h; exact classDecl_fields w options name fields typeParams
  | typedDict name fields total => cases h; exact typedDict_fields w options name fields total
  | newType name supertype => cases h; exact newType_supertype w options name supertype
  | parameterized base args => cases h; exact fixedGeneric_args w options base args
  | function name annotations paramNames =>
    cases h; exact function_params w options name annotations paramNames
  | ref name =>
    cases h
    cases defined : Assoc.find? name w.definitions with
    | none => exact absurd (by simp [Descriptor.reading, defined]) (resolved name)
    | some definition => exact reference_defined w options defined
  | none => cases h; rfl
  | builtin name => cases h; rfl
  | enum name members => cases h; rfl
  | empty => cases h
  | any => cases h
  | ellipsis => cases h
  | unclassified repr => cases h

/-- A name without a definition is read off the registry by the recognizer of references. -/
theorem claim?_unresolved {d : Descriptor} {name : String}
    (h : d.reading w.definitions = .unresolved name) :
    d.claimant? = some .reference ∧
      Recognizer.reference w d options = (do
        let registry ← Build.registry
        return registry.search CollectedKind.searchOrder name) := by
  obtain ⟨rfl, undefined⟩ := Descriptor.unresolved_cases h
  exact ⟨rfl, reference_undefined w options undefined⟩

/-- A stock recognizer reads a descriptor, or looks a name up, or declines without doing anything. -/
theorem claim?_cases (r : Stock) (d : Descriptor) :
    r.claim? w d options = some <$> w.read options d ∨
      (∃ name, r.claim? w d options = (do
        let registry ← Build.registry
        return registry.search CollectedKind.searchOrder name)) ∨
      r.claim? w d options = pure none := by
  by_cases claimed : d.claimant? = some r
  · cases reading : d.reading w.definitions with
    | unresolved name =>
      obtain ⟨isReference, searched⟩ := claim?_unresolved w options reading
      obtain rfl : r = .reference := Option.some.inj (claimed.symm.trans isReference)
      exact .inr (.inl ⟨name, searched⟩)
    | _ => exact .inl (claim?_claimant w options claimed (by simp [reading]))
  · exact .inr (.inr (claim?_of_not_claimant w options claimed))

/-- What no stock recognizer claims is unknown, and has nothing inside. -/
theorem read_of_no_claimant {d : Descriptor} (h : d.claimant? = none) :
    w.read options d = pure .unknown := by
  cases d with
  | generic origin args =>
    have outside : Origin.of? origin = none := Option.map_eq_none_iff.1 h
    simp [Surroundings.read, Surroundings.compose, Descriptor.reading, Descriptor.parts,
      Descriptor.assembled, outside]
  | empty => rfl
  | any => rfl
  | ellipsis => rfl
  | unclassified repr => rfl
  | _ => cases h

/-- The first recognizer is asked first, and the others only if it declines. -/
theorem firstClaim_cons (r : Recognizer) (rest : List Recognizer) (d : Descriptor) :
    firstClaim w d options (r :: rest) = (do
      match ← r.claim? w d options with
      | some shape => return shape
      | none => firstClaim w d options rest) := rfl

/-- A list of stock recognizers reads the descriptors that it covers and leaves others unknown. -/
theorem firstClaim_stock (stock : List Stock) (d : Descriptor) :
    firstClaim w d options (stock.map recognizer) =
      if covers stock d then w.read options d else pure .unknown := by
  induction stock with
  | nil =>
    cases claimed : d.claimant? with
    | none => simp [covers, claimed, read_of_no_claimant w options claimed, firstClaim]
    | some r => simp [covers, claimed, firstClaim]
  | cons r rest ih =>
    have asked : (recognizer r).claim? w d options = r.claim? w d options := rfl
    rw [List.map_cons, firstClaim_cons, asked]
    by_cases claimed : d.claimant? = some r
    · have covered : covers (r :: rest) d = true := by simp [covers, claimed]
      rw [if_pos covered]
      cases read : d.reading w.definitions with
      | unresolved name =>
        obtain ⟨isReference, searched⟩ := claim?_unresolved w options read
        obtain rfl : r = .reference := Option.some.inj (claimed.symm.trans isReference)
        have looked : w.read options d = (do
            let registry ← Build.registry
            return (registry.search CollectedKind.searchOrder name).getD .unknown) := by
          simp only [Surroundings.read, read]
        show Recognizer.reference w d options >>= _ = _
        funext s
        rw [searched, looked, bind_assoc, Build.bind_ok (Build.registry_apply s),
          Build.bind_ok (Build.registry_apply s), pure_bind]
        -- a name that is not collected either is asked for again by a repeated recognizer
        cases found : s.registry.search CollectedKind.searchOrder name with
        | some shape => rfl
        | none =>
          show firstClaim w d options (rest.map recognizer) s = (.ok .unknown, s)
          rw [ih, looked]
          split
          · rw [Build.bind_ok (Build.registry_apply s), found]
            rfl
          · rfl
      | _ =>
        rw [claim?_claimant w options claimed (by simp [read]), bind_map_left]
        exact bind_pure _
    · have covered : covers (r :: rest) d = covers rest d := by
        cases other : d.claimant? with
        | none => simp [covers, other]
        | some r' =>
          have ne : r' ≠ r := fun eq => claimed (by rw [other, eq])
          simp [covers, other, ne]
      rw [covered, ← ih, claim?_of_not_claimant w options claimed]
      rfl

/-- All stock recognizers together cover every descriptor. -/
theorem covers_all (d : Descriptor) : covers all d = true := by
  unfold covers
  cases d.claimant? with
  | none => rfl
  | some r => cases r <;> rfl

end Stock

end TypeCatalog
