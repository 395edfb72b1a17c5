import TypeCatalog.CollectedKind

/-!
What can go wrong in an extraction.  A descriptor that nothing recognizes is no error.
-/

namespace TypeCatalog

/-- A number of type arguments that is wanted. -/
inductive Arity where
  | exactly (n : Nat)
  | atLeast (n : Nat)
deriving DecidableEq

/-- The words for a number of type arguments. -/
def Arity.words : Arity → String
  | exactly n => toString n
  | atLeast n => "at least " ++ toString n

/-- Why an extraction stopped. -/
inductive ExtractError where
  | arity (origin : String) (expected : Arity) (found : Nat)
  | typeParams (base : String) (declared found : Nat)
  | misplacedEllipsis (origin : String)
  /-- A name is collected from two descriptors. -/
  | conflict (kind : CollectedKind) (name : String)
  | unclaimed (kind : CollectedKind) (name : String)
  /-- Recognizers ask for more and more descriptors.  The stock ones never do. -/
  | endless
deriving DecidableEq

/-- The wording of an error. -/
def ExtractError.message : ExtractError → String
  | arity origin expected found =>
    "`" ++ origin ++ "` expects " ++ expected.words ++ " type argument(s), found "
      ++ toString found
  | typeParams base declared found =>
    "`" ++ base ++ "` declares " ++ toString declared
      ++ " type parameter(s) but was given " ++ toString found
  | misplacedEllipsis origin =>
    "`...` is only valid as the second argument of `" ++ origin ++ "[X, ...]`"
  | conflict kind name =>
    kind.name ++ " `" ++ name ++ "` was already collected from a different definition"
  | unclaimed kind name =>
    kind.name ++ " `" ++ name ++ "` was finalized without being claimed"
  | endless => "the descriptors do not come to an end"

end TypeCatalog
