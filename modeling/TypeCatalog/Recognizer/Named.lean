import TypeCatalog.Recognizer

/-!
Recognizers of types with a name: classes, typed dictionaries and functions, which are
collected, references to them, generic classes with their arguments, and new types.
-/

namespace TypeCatalog.Recognizer

/-- The shapes of fields, ordered by name if the options say so. -/
def fieldsOf (w : Surroundings) (options : OptionSet) (fields : List (String × Descriptor)) :
    Build (List (String × Shape)) := do
  let table ← w.tableOf options fields
  return if options.sortFields then Assoc.sortKeys table else table

/-- Claims classes. -/
def classDecl (w : Surroundings) (d : Descriptor) (options : OptionSet) : Build (Option Shape) :=
  match d with
  | .classDecl name fields _ => do
    let shape ← Build.collect .classType name d do
      let table ← fieldsOf w options fields
      return .classType name table options
    return some shape
  | _ => return none

/-- Claims typed dictionaries. -/
def typedDict (w : Surroundings) (d : Descriptor) (options : OptionSet) : Build (Option Shape) :=
  match d with
  | .typedDict name fields total => do
    let shape ← Build.collect .record name d do
      let table ← fieldsOf w options fields
      return .record name table total options
    return some shape
  | _ => return none

/-! ## Functions -/

/-- The names that stand for no parameter. -/
def reservedNames : List String := ["self", "return", "_cls"]

/-- The name under which annotations hold what a function returns. -/
def returnName : String := "return"

/-- The annotation of a name. -/
def annotated (annotations : List (String × Descriptor)) (name : String) : Descriptor :=
  (Assoc.find? name annotations).getD .empty

/-- Put the shapes of parameters, in the order of their names, to those that are there. -/
def paramsOnto (w : Surroundings) (options : OptionSet)
    (annotations : List (String × Descriptor)) :
    List (String × Shape) → List String → Build (List (String × Shape))
  | params, [] => return params
  | params, name :: rest =>
    if reservedNames.contains name then paramsOnto w options annotations params rest
    else do
      let shape ← w.shapeOf (annotated annotations name) options
      paramsOnto w options annotations (Assoc.put name shape params) rest

/-- The shapes of parameters in the order of their names. -/
def paramsOf (w : Surroundings) (options : OptionSet) (annotations : List (String × Descriptor))
    (names : List String) : Build (List (String × Shape)) :=
  paramsOnto w options annotations [] names

/-- Claims functions. -/
def function (w : Surroundings) (d : Descriptor) (options : OptionSet) : Build (Option Shape) :=
  match d with
  | .function name annotations paramNames => do
    let shape ← Build.collect .function name d do
      let params ← paramsOf w options annotations paramNames
      let returns ← w.shapeOf (annotated annotations returnName) options
      return .function name params returns options
    return some shape
  | _ => return none

/-! ## References -/

/-- Whether a definition is collected under its own name. -/
def isSelfCollected : Descriptor → Bool
  | .classDecl _ _ _ => true
  | .typedDict _ _ _ => true
  | .function _ _ _ => true
  | _ => false

/-- Claims references to definitions and to names that are collected already.  A definition
that is not collected under its own name is collected as an alias. -/
def reference (w : Surroundings) (d : Descriptor) (options : OptionSet) : Build (Option Shape) :=
  match d with
  | .ref name =>
    match w.definition? name with
    | some definition => do
      let shape ←
        if isSelfCollected definition then w.shapeOf definition options
        else Build.collect .typeAlias name definition (w.shapeOf definition options)
      return some shape
    | none => do
      let registry ← Build.registry
      return registry.search CollectedKind.searchOrder name
  | _ => return none

/-! ## Generic classes and new types -/

/-- The type parameters that a class declares, given in place or by a reference. -/
def declaredParams (w : Surroundings) : Descriptor → List String
  | .classDecl _ _ typeParams => typeParams
  | .ref name =>
    match w.definition? name with
    | some (.classDecl _ _ typeParams) => typeParams
    | _ => []
  | _ => []

/-- The name that the argument at an index is bound to. -/
def bindingName (params : List String) (index : Nat) : String :=
  params[index]?.getD (toString index)

/-- Put the shapes of arguments to the bindings that are there; `index` arguments stand before
them. -/
def bindingsOnto (w : Surroundings) (options : OptionSet) (params : List String) :
    Nat → List (String × Shape) → List Descriptor → Build (List (String × Shape))
  | _, bindings, [] => return bindings
  | index, bindings, arg :: rest => do
    let shape ← w.shapeOf arg options
    bindingsOnto w options params (index + 1) (Assoc.put (bindingName params index) shape bindings)
      rest

/-- Claims generic classes with arguments. -/
def fixedGeneric (w : Surroundings) (d : Descriptor) (options : OptionSet) :
    Build (Option Shape) :=
  match d with
  | .parameterized base args =>
    let params := declaredParams w base
    if params.length ≠ 0 ∧ params.length ≠ args.length then
      Build.fail (.typeParams base.label params.length args.length)
    else do
      let baseShape ← w.shapeOf base options
      let bindings ← bindingsOnto w options params 0 [] args
      return some (.fixedGeneric baseShape bindings options)
  | _ => return none

/-- Claims new types. -/
def newType (w : Surroundings) (d : Descriptor) (options : OptionSet) : Build (Option Shape) :=
  match d with
  | .newType name supertype => do
    let base ← w.shapeOf supertype options
    return some (.newType name base)
  | _ => return none

end TypeCatalog.Recognizer
