import TypeCatalog.Recognizer

/-!
Recognizers to be put beside the stock ones.
-/

namespace TypeCatalog.Recognizer

/-- Claims the built-in type of one name as that of another. -/
def renamed (name oldName newName : String) : Recognizer where
  family := ""
  name := name
  claim? _ d _ :=
    match d with
    | .builtin n => return if n = oldName then some (.builtin newName) else none
    | _ => return none

/-- Notes the label of every descriptor it is asked about, and declines. -/
def noting (name : String) : Recognizer where
  family := ""
  name := name
  claim? _ d _ := do
    Build.note d.label
    return none

/-- The single argument of a generic type of an origin. -/
def soleArgument? (origin : String) : Descriptor → Option Descriptor
  | .generic o [arg] => if o = origin then some arg else none
  | _ => none

/-- Claims generic types of one argument as that argument, unknown where it has no shape. -/
def attempting (name origin : String) : Recognizer where
  family := ""
  name := name
  claim? w d options :=
    match soleArgument? origin d with
    | some arg => do
      let shape ← (w.shapeOf arg options).orElse .unknown
      return some shape
    | none => return none

/-- Claims generic types of one argument as that argument taken without options. -/
def plainly (name origin : String) : Recognizer where
  family := ""
  name := name
  claim? w d _ :=
    match soleArgument? origin d with
    | some arg => do
      let shape ← w.shapeOf arg .empty
      return some shape
    | none => return none

/-- Collects what could not be classified as built-in types of its own text. -/
def collecting (name : String) (kind : CollectedKind) : Recognizer where
  family := ""
  name := name
  claim? _ d _ :=
    match d with
    | .unclassified repr => do
      let shape ← Build.collect kind repr d (return .builtin repr)
      return some shape
    | _ => return none

end TypeCatalog.Recognizer
