import TypeCatalog.Recognizer

/-!
The recognizer of unions.

Members are taken one after another; an optional type among them is opened again, so that a
union inside a union reads as if it were written out.  A union of one member is that member.
With `collapseOptional`, a union of one member and the absent value is an optional type.
-/

namespace TypeCatalog

/-- The shapes that a member brings into a union, an optional type opened again. -/
def Shape.reopened : Shape → List Shape
  | .optional inner _ => [inner, .none]
  | other => [other]

/-- The shape of the union of some shapes, which are to be one at least. -/
def Shape.combine (options : OptionSet) (shapes : List Shape) : Option Shape :=
  let members := Shape.firsts (Shape.splice (shapes.flatMap Shape.reopened))
  match members with
  | [only] => some only
  | [a, b] =>
    if options.collapseOptional && [a, b].any Shape.isNone then
      (members.find? fun m => !m.isNone).map (.optional · options)
    else some (.union members options)
  | _ => some (.union members options)

/-- Claims unions, which have one member at least. -/
def Recognizer.union (w : Surroundings) (d : Descriptor) (options : OptionSet) :
    Build (Option Shape) :=
  match d with
  | .union [] => Build.fail (.arity "typing.Union" (.atLeast 1) 0)
  | .union members => do
    let shapes ← w.shapesOf options members
    return Shape.combine options shapes
  | _ => return none

end TypeCatalog
