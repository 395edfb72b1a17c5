import TypeCatalog.Descriptor.Origin
import TypeCatalog.Recognizer

/-!
Recognizers of built-in generic types.  A type without arguments is one of unknown arguments,
except for a tuple, which then is empty.
-/

namespace TypeCatalog.Recognizer

/-- Claims list-like types. -/
def listLike (w : Surroundings) (d : Descriptor) (options : OptionSet) : Build (Option Shape) :=
  match d with
  | .generic origin args =>
    if Origin.list.holds origin then
      match args with
      | [] => return some (.list .unknown options)
      | [element] => do
        let element ← w.shapeOf element options
        return some (.list element options)
      | _ => Build.fail (.arity origin (.exactly 1) args.length)
    else return none
  | _ => return none

/-- The shapes of a key and a value. -/
def keyAndValue (w : Surroundings) (origin : String) (options : OptionSet) :
    List Descriptor → Build (Shape × Shape)
  | [] => return (.unknown, .unknown)
  | [key, value] => do
    let key ← w.shapeOf key options
    let value ← w.shapeOf value options
    return (key, value)
  | args => Build.fail (.arity origin (.exactly 2) args.length)

/-- Claims dictionaries. -/
def dictionary (w : Surroundings) (d : Descriptor) (options : OptionSet) : Build (Option Shape) :=
  match d with
  | .generic origin args =>
    if Origin.dict.holds origin then do
      let (key, value) ← keyAndValue w origin options args
      return some (.dict key value options)
    else return none
  | _ => return none

/-- Claims mappings. -/
def mapping (w : Surroundings) (d : Descriptor) (options : OptionSet) : Build (Option Shape) :=
  match d with
  | .generic origin args =>
    if Origin.mapping.holds origin then do
      let (key, value) ← keyAndValue w origin options args
      return some (.mapping key value options)
    else return none
  | _ => return none

/-- Whether a descriptor is the dots of an open tuple. -/
def isEllipsis : Descriptor → Bool
  | .ellipsis => true
  | _ => false

/-- Whether the arguments of a tuple are one type and dots. -/
def isOpen : List Descriptor → Bool
  | [_, .ellipsis] => true
  | _ => false

/-- The arguments of a tuple that stand for elements. -/
def positional (args : List Descriptor) : List Descriptor :=
  if isOpen args then args.take 1 else args

/-- Claims tuples.  Dots stand behind a single type only. -/
def tuple (w : Surroundings) (d : Descriptor) (options : OptionSet) : Build (Option Shape) :=
  match d with
  | .generic origin args =>
    if Origin.tuple.holds origin then
      if (positional args).any isEllipsis then Build.fail (.misplacedEllipsis origin)
      else do
        let elements ← w.shapesOf options (positional args)
        return some (.tuple elements (isOpen args) options)
    else return none
  | _ => return none

end TypeCatalog.Recognizer
