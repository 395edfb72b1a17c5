import TypeCatalog.CollectedKind
import TypeCatalog.ExtractOption
import TypeCatalog.Scalar

/-!
Shapes: what an extraction makes of type descriptors.

A composite shape records the options it was made under, and they take part in sameness.
Unions are sets: `unionOf` splices the unions among its members and drops repetitions, and two
unions are the same when they have the same number of members and each member of the one is
among those of the other.  Fields, parameters and bindings are in an order that sameness does
not look at.
-/

namespace TypeCatalog

/-- The shape of a type. -/
inductive Shape where
  /-- No recognizer claimed the descriptor. -/
  | unknown
  /-- The type of the absent value. -/
  | none
  | builtin (name : String)
  | list (element : Shape) (options : OptionSet)
  /-- A tuple of so many elements, or, when variadic, any number of the one element. -/
  | tuple (elements : List Shape) (variadic : Bool) (options : OptionSet)
  | dict (key value : Shape) (options : OptionSet)
  | mapping (key value : Shape) (options : OptionSet)
  | union (members : List Shape) (options : OptionSet)
  | optional (inner : Shape) (options : OptionSet)
  | literal (values : List Scalar)
  | enum (name : String) (members : List (String × Scalar))
  | typeVar (name : String) (bound : Option Shape) (constraints : List Shape)
  | classType (name : String) (fields : List (String × Shape)) (options : OptionSet)
  | record (name : String) (fields : List (String × Shape)) (total : Bool) (options : OptionSet)
  | function (name : String) (params : List (String × Shape)) (returns : Shape)
      (options : OptionSet)
  | newType (name : String) (base : Shape)
  /-- A generic class with a type for each of its parameters. -/
  | fixedGeneric (base : Shape) (bindings : List (String × Shape)) (options : OptionSet)
  /-- A collected type by its name. -/
  | reference (name : String) (target : CollectedKind)

namespace Shape

instance : Inhabited Shape := ⟨unknown⟩

/-! ## Sameness -/

mutual

/-- Whether two shapes are the same.  The members of one union are looked for in the other, where
each is compared with those that are there, so that the two change sides. -/
def same : Shape → Shape → Bool
  | unknown, unknown => true
  | none, none => true
  | builtin a, builtin b => a == b
  | list a o, list b o' => same a b && o == o'
  | tuple as v o, tuple bs v' o' => sameList as bs && v == v' && o == o'
  | dict k a o, dict k' b o' => same k k' && same a b && o == o'
  | mapping k a o, mapping k' b o' => same k k' && same a b && o == o'
  | union as o, union bs o' => o == o' && (as.length == bs.length && sameEachIn as bs)
  | optional a o, optional b o' => same a b && o == o'
  | literal as, literal bs => Scalar.sameList as bs
  | enum n as, enum n' bs => n == n' && Scalar.sameTable as bs
  | typeVar n b cs, typeVar n' b' cs' => n == n' && sameOption b b' && sameList cs cs'
  | classType n fs o, classType n' fs' o' =>
    n == n' && (fs.length == fs'.length && sameWithin fs fs') && o == o'
  | record n fs t o, record n' fs' t' o' =>
    n == n' && (fs.length == fs'.length && sameWithin fs fs') && t == t' && o == o'
  | function n ps r o, function n' ps' r' o' =>
    n == n' && (ps.length == ps'.length && sameWithin ps ps') && same r r' && o == o'
  | newType n a, newType n' b => n == n' && same a b
  | fixedGeneric a bs o, fixedGeneric a' bs' o' =>
    same a a' && (bs.length == bs'.length && sameWithin bs bs') && o == o'
  | reference n t, reference n' t' => n == n' && t == t'
  | _, _ => false
termination_by a b => sizeOf a + sizeOf b

/-- Whether two optional shapes are the same. -/
def sameOption : Option Shape → Option Shape → Bool
  | .none, .none => true
  | some a, some b => same a b
  | _, _ => false
termination_by a b => sizeOf a + sizeOf b

/-- Whether two lists hold the same shapes in the same order. -/
def sameList : List Shape → List Shape → Bool
  | [], [] => true
  | a :: as, b :: bs => same a b && sameList as bs
  | _, _ => false
termination_by as bs => sizeOf as + sizeOf bs

/-- Whether a shape is among those of a list: one of them is the same. -/
def among (a : Shape) : List Shape → Bool
  | [] => false
  | b :: bs => same b a || among a bs
termination_by bs => sizeOf bs + sizeOf a

/-- Whether every shape of a list is among those of another. -/
def sameEachIn : List Shape → List Shape → Bool
  | [], _ => true
  | a :: as, bs => among a bs && sameEachIn as bs
termination_by as bs => sizeOf as + sizeOf bs

/-- Whether every entry of a table is in another. -/
def sameWithin : List (String × Shape) → List (String × Shape) → Bool
  | [], _ => true
  | (k, a) :: rest, table =>
    (match _found : Assoc.find? k table with
      | some b => same a b
      | .none => false) && sameWithin rest table
termination_by table other => sizeOf table + sizeOf other
decreasing_by
  · have smaller := Assoc.sizeOf_lt_of_find? _found
    simp only [List.cons.sizeOf_spec, Prod.mk.sizeOf_spec]
    omega
  · simp only [List.cons.sizeOf_spec]
    omega

end

/-! ## Unions -/

/-- The shapes that a member brings into a union. -/
def spliced : Shape → List Shape
  | union members _ => members
  | other => [other]

/-- The members of a union with those of the unions among them in their place. -/
def splice (members : List Shape) : List Shape :=
  members.flatMap spliced

/-- Put a shape behind others unless it is among them. -/
def pushNew (shapes : List Shape) (a : Shape) : List Shape :=
  if a.among shapes then shapes else shapes ++ [a]

/-- The first of each group of shapes that are the same, in order. -/
def firsts (shapes : List Shape) : List Shape :=
  shapes.foldl pushNew []

/-- The union of some shapes. -/
def unionOf (members : List Shape) (options : OptionSet) : Shape :=
  union (firsts (splice members)) options

/-! ## Views -/

/-- Whether nothing is known. -/
def isUnknown : Shape → Bool
  | unknown => true
  | _ => false

/-- Whether a shape is the type of the absent value. -/
def isNone : Shape → Bool
  | none => true
  | _ => false

/-- Whether a shape holds the absent value on its face. -/
def isNullable : Shape → Bool
  | none => true
  | optional _ _ => true
  | union members _ => members.any isNone
  | _ => false

/-- The name under which a shape is collected. -/
def collectedName? : Shape → Option String
  | classType name _ _ => some name
  | record name _ _ _ => some name
  | function name _ _ _ => some name
  | reference name _ => some name
  | _ => .none

/-! ## Type expressions -/

mutual

/-- A shape as a type expression. -/
def render : Shape → String
  | unknown => "Unknown"
  | none => "None"
  | builtin name => name
  | list element _ => "List[" ++ element.render ++ "]"
  | tuple elements true _ => "Tuple[" ++ ", ".intercalate (renderList elements) ++ ", ...]"
  | tuple [] false _ => "Tuple[()]"
  | tuple elements false _ => "Tuple[" ++ ", ".intercalate (renderList elements) ++ "]"
  | dict key value _ => "Dict[" ++ key.render ++ ", " ++ value.render ++ "]"
  | mapping key value _ => "Mapping[" ++ key.render ++ ", " ++ value.render ++ "]"
  | union members _ => "Union[" ++ ", ".intercalate (renderList members) ++ "]"
  | optional inner _ => "Optional[" ++ inner.render ++ "]"
  | literal values => "Literal[" ++ ", ".intercalate (values.map Scalar.render) ++ "]"
  | enum name _ => name
  | typeVar name _ _ => "~" ++ name
  | classType name _ _ => name
  | record name _ _ _ => name
  | function name params returns _ =>
    name ++ "(" ++ ", ".intercalate (renderParams params) ++ ") -> " ++ returns.render
  | newType name _ => name
  | fixedGeneric base bindings _ =>
    base.render ++ "[" ++ ", ".intercalate (renderValues bindings) ++ "]"
  | reference name _ => name

/-- Shapes as type expressions. -/
def renderList : List Shape → List String
  | [] => []
  | a :: rest => a.render :: renderList rest

/-- Parameters with their types. -/
def renderParams : List (String × Shape) → List String
  | [] => []
  | (name, a) :: rest => (name ++ ": " ++ a.render) :: renderParams rest

/-- The shapes of a table as type expressions. -/
def renderValues : List (String × Shape) → List String
  | [] => []
  | (_, a) :: rest => a.render :: renderValues rest

end

end Shape

end TypeCatalog
