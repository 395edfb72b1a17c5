import TypeCatalog.Session

/-!
Recognizers: each claims the descriptors of its domain and declines all others.

A recognizer gets the surroundings in which it works (`Surroundings`): how to take the shape of
another descriptor, and the definitions that names refer to.  `firstClaim` asks a list of
recognizers in order; where none claims a descriptor its shape is unknown.
-/

namespace TypeCatalog

/-- What a recognizer works with. -/
structure Surroundings where
  /-- The shape of a descriptor. -/
  shapeOf : Descriptor → OptionSet → Build Shape
  /-- The descriptors behind names. -/
  definitions : List (String × Descriptor)

namespace Surroundings

/-- The descriptor behind a name. -/
def definition? (w : Surroundings) (name : String) : Option Descriptor :=
  Assoc.find? name w.definitions

/-- The shapes of a list of descriptors, first to last. -/
def shapesOf (w : Surroundings) (options : OptionSet) : List Descriptor → Build (List Shape)
  | [] => return []
  | d :: rest => do
    let shape ← w.shapeOf d options
    let shapes ← w.shapesOf options rest
    return shape :: shapes

/-- The shape of an optional descriptor. -/
def shapeOf? (w : Surroundings) (options : OptionSet) : Option Descriptor → Build (Option Shape)
  | none => return none
  | some d => do
    let shape ← w.shapeOf d options
    return some shape

/-- The shapes of a table of descriptors, first to last. -/
def tableOf (w : Surroundings) (options : OptionSet) :
    List (String × Descriptor) → Build (List (String × Shape))
  | [] => return []
  | (name, d) :: rest => do
    let shape ← w.shapeOf d options
    let table ← w.tableOf options rest
    return (name, shape) :: table

end Surroundings

/-- A recognizer. -/
structure Recognizer where
  /-- Where the recognizer belongs; its name in full begins with it. -/
  family : String
  name : String
  /-- The shape of a descriptor that the recognizer claims. -/
  claim? : Surroundings → Descriptor → OptionSet → Build (Option Shape)

/-- A recognizer's name in full. -/
def Recognizer.fullName (r : Recognizer) : String :=
  r.family ++ r.name

/-- The shape that the first recognizer gives to claim a descriptor. -/
def firstClaim (w : Surroundings) (d : Descriptor) (options : OptionSet) :
    List Recognizer → Build Shape
  | [] => return .unknown
  | r :: rest => do
    match ← r.claim? w d options with
    | some shape => return shape
    | none => firstClaim w d options rest

end TypeCatalog
