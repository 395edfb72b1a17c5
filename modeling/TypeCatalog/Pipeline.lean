import TypeCatalog.Recognizer.Stock
import TypeCatalog.Text.Quoted

/-!
Pipelines: an ordered list of recognizers and the definitions that names refer to.

Recognizers ask for the shapes of further descriptors, and a reference may lead anywhere, also
back.  `shapeWithin` gives each answer a bounded depth; `shape` takes the bound from the
sizes of the descriptor and the definitions.  Each definition is entered once before its name
is claimed, so the stock recognizers never reach the bound.
-/

namespace TypeCatalog

/-- An ordered list of recognizers with definitions. -/
structure Pipeline where
  recognizers : List Recognizer
  definitions : List (String × Descriptor)

namespace Pipeline

/-- A pipeline of some stock recognizers. -/
def ofStock (stock : List Stock) (definitions : List (String × Descriptor)) : Pipeline :=
  ⟨stock.map Stock.recognizer, definitions⟩

/-- The pipeline of all stock recognizers in their usual order. -/
def standard (definitions : List (String × Descriptor)) : Pipeline :=
  ofStock Stock.all definitions

/-- Put a recognizer behind the others. -/
def push (p : Pipeline) (r : Recognizer) : Pipeline :=
  ⟨p.recognizers ++ [r], p.definitions⟩

/-- Put a recognizer before that of an index, or behind the others. -/
def insert (p : Pipeline) (index : Nat) (r : Recognizer) : Pipeline :=
  ⟨p.recognizers.take index ++ r :: p.recognizers.drop index, p.definitions⟩

/-- The descriptor behind a name. -/
def definition? (p : Pipeline) (name : String) : Option Descriptor :=
  Assoc.find? name p.definitions

/-- The names of the recognizers. -/
def names (p : Pipeline) : List String :=
  p.recognizers.map Recognizer.name

/-- Quoted texts between brackets. -/
def quotedList (texts : List String) : String :=
  "[" ++ ", ".intercalate (texts.map Text.quoted) ++ "]"

/-- A pipeline in a few words. -/
def describe (p : Pipeline) : String :=
  "Pipeline \x7b recognizers: " ++ quotedList (p.recognizers.map Recognizer.fullName)
    ++ ", definitions: " ++ quotedList (Assoc.keys p.definitions) ++ " \x7d"

/-- The shape of a descriptor, asking no deeper than so far. -/
def shapeWithin (p : Pipeline) : Nat → Descriptor → OptionSet → Build Shape
  | 0 => fun _ _ => Build.fail .endless
  | depth + 1 => fun d options =>
    firstClaim ⟨p.shapeWithin depth, p.definitions⟩ d options p.recognizers

/-- A depth that the stock recognizers do not exceed in a descriptor of some size. -/
def depthFor (p : Pipeline) (size : Nat) : Nat :=
  size + Descriptor.sizeTable p.definitions + 2

/-- The shape of a descriptor. -/
def shape (p : Pipeline) (d : Descriptor) (options : OptionSet) : Build Shape :=
  p.shapeWithin (p.depthFor d.size) d options

/-- The shapes of parameters in the order of their names. -/
def params (p : Pipeline) (annotations : List (String × Descriptor)) (names : List String)
    (options : OptionSet) : Build (List (String × Shape)) :=
  Recognizer.paramsOf
    ⟨p.shapeWithin (p.depthFor (Descriptor.sizeTable annotations + 1)), p.definitions⟩ options
    annotations names

end Pipeline

end TypeCatalog
