import TypeCatalog.Recognizer

/-!
Recognizers of descriptors that are complete in themselves, or nearly: enumerations, literal
types, type variables, the absent value and built-in types.
-/

namespace TypeCatalog.Recognizer

/-- Claims enumerations. -/
def enumeration (_ : Surroundings) (d : Descriptor) (_ : OptionSet) : Build (Option Shape) :=
  match d with
  | .enum name members => return some (.enum name members)
  | _ => return none

/-- Claims literal types, which list one value at least. -/
def literal (_ : Surroundings) (d : Descriptor) (_ : OptionSet) : Build (Option Shape) :=
  match d with
  | .literal [] => Build.fail (.arity "typing.Literal" (.atLeast 1) 0)
  | .literal values => return some (.literal values)
  | _ => return none

/-- Claims type variables. -/
def typeVariable (w : Surroundings) (d : Descriptor) (options : OptionSet) :
    Build (Option Shape) :=
  match d with
  | .typeVar name bound constraints => do
    let bound ← w.shapeOf? options bound
    let constraints ← w.shapesOf options constraints
    return some (.typeVar name bound constraints)
  | _ => return none

/-- Claims the type of the absent value. -/
def absent (_ : Surroundings) (d : Descriptor) (_ : OptionSet) : Build (Option Shape) :=
  match d with
  | .none => return some .none
  | _ => return none

/-- Claims built-in types. -/
def builtin (_ : Surroundings) (d : Descriptor) (_ : OptionSet) : Build (Option Shape) :=
  match d with
  | .builtin name => return some (.builtin name)
  | _ => return none

end TypeCatalog.Recognizer
