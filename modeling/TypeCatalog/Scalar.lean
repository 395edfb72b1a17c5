import TypeCatalog.Json
import TypeCatalog.Json.Printer
import TypeCatalog.Text.Quoted

/-!
The values that literal types and enumerations list.

Whole numbers and binary64 numbers are different values even where they are equal as numbers,
while the two zeros of binary64 are the same.  Whole numbers have 64 bits; those that are too large
to be signed are a variant of their own, above the signed ones.  Values are ordered by variant
first, and that is also the order in which the variants are tried on a JSON value (`trials`).
-/

namespace TypeCatalog

/-- The whole numbers that signed 64 bits hold. -/
def Signed64 : Type :=
  {i : Int // -9223372036854775808 ≤ i ∧ i < 9223372036854775808}
deriving DecidableEq

/-- The whole numbers that 64 bits hold, though not with a sign. -/
def Unsigned64 : Type :=
  {n : Nat // 9223372036854775808 ≤ n ∧ n < 18446744073709551616}
deriving DecidableEq

/-- A value that a literal type or an enumeration lists. -/
inductive Scalar where
  | null
  | bool (b : Bool)
  | int (i : Signed64)
  | uint (n : Unsigned64)
  | float (x : Binary64)
  | str (s : String)
deriving DecidableEq

namespace Scalar

/-- The variants in their order. -/
def rank : Scalar → Nat
  | null => 0
  | bool _ => 1
  | int _ => 2
  | uint _ => 3
  | float _ => 4
  | str _ => 5

/-- The name of a value's variant. -/
def variant : Scalar → String
  | null => "null"
  | bool _ => "bool"
  | int _ => "int"
  | uint _ => "uint"
  | float _ => "float"
  | str _ => "str"

/-- Whether two values are the same. -/
def same : Scalar → Scalar → Bool
  | null, null => true
  | bool a, bool b => a == b
  | int a, int b => a.val == b.val
  | uint a, uint b => a.val == b.val
  | float a, float b => a.same b
  | str a, str b => a == b
  | _, _ => false

/-- The order of values. -/
def cmp : Scalar → Scalar → Ordering
  | bool a, bool b => compare a b
  | int a, int b => compare a.val b.val
  | uint a, uint b => compare a.val b.val
  | float a, float b => a.cmp b
  | str a, str b => compare a b
  | a, b => compare a.rank b.rank

/-- Values in order; those that are the same keep theirs. -/
def sorted (values : List Scalar) : List Scalar :=
  values.mergeSort fun a b => a.cmp b != .gt

/-- The first of each group of values that are the same. -/
def distinct : List Scalar → List Scalar
  | [] => []
  | v :: rest => v :: (distinct rest).filter fun w => !v.same w

/-- Numbers in type expressions have no exponent, and whole ones no point; of two shortest
decimals they are the larger one. -/
def floatLayout : Binary64.Layout := ⟨-400, 400, false, .away⟩

/-- A value as a type expression shows it. -/
def render : Scalar → String
  | null => "None"
  | bool true => "True"
  | bool false => "False"
  | int i => toString i.val
  | uint n => toString n.val
  | float x => x.render floatLayout
  | str s => Text.quoted s

/-- A value in JSON. -/
def toJson : Scalar → Json
  | null => .null
  | bool b => .bool b
  | int i => .int i.val
  | uint n => .int n.val
  | float x => .float x
  | str s => .str s

/-! ## Values in JSON -/

/-- The absent value. -/
def null? : Json → Option Scalar
  | .null => some null
  | _ => none

/-- A truth value. -/
def bool? : Json → Option Scalar
  | .bool b => some (bool b)
  | _ => none

/-- A whole number that is held with a sign. -/
def int? : Json → Option Scalar
  | .int i =>
    if h : -9223372036854775808 ≤ i ∧ i < 9223372036854775808 then some (int ⟨i, h⟩) else none
  | _ => none

/-- A whole number that is held without a sign only. -/
def uint? : Json → Option Scalar
  | .int (.ofNat n) =>
    if h : 9223372036854775808 ≤ n ∧ n < 18446744073709551616 then some (uint ⟨n, h⟩) else none
  | _ => none

/-- A binary64 number; a whole number is rounded to one.  No whole number of a text comes here, as
64 bits hold all of them. -/
def float? : Json → Option Scalar
  | .float x => some (float x)
  | .int i => (Binary64.ofInt? i).map float
  | _ => none

/-- A text. -/
def str? : Json → Option Scalar
  | .str s => some (str s)
  | _ => none

/-- The variants that are tried on a JSON value, one after another. -/
def trials : List (Json → Option Scalar) :=
  [null?, bool?, int?, uint?, float?, str?]

/-- The value that a JSON value stands for, of the first variant that takes it.  Arrays and objects
stand for none. -/
def ofJson? (v : Json) : Option Scalar :=
  trials.findSome? fun trial => trial v

theorem int?_val (i : Signed64) : int? (.int i.val) = some (int i) := by
  obtain ⟨i, held⟩ := i
  simp [int?, held]

theorem uint?_val (n : Unsigned64) : uint? (.int n.val) = some (uint n) := by
  obtain ⟨n, held⟩ := n
  simp [uint?, held]

/-- A number that is not held with a sign is left to the next variant. -/
theorem int?_unsigned (n : Unsigned64) : int? (.int n.val) = none := by
  obtain ⟨n, past, -⟩ := n
  have unsigned : ¬(n : Int) < 9223372036854775808 := by omega
  simp [int?, unsigned]

/-- The first variant that takes a value decides what it stands for. -/
theorem ofJson?_of_trial {v : Json} {w : Scalar} {trial : Json → Option Scalar}
    {earlier later : List (Json → Option Scalar)} (split : trials = earlier ++ trial :: later)
    (declined : ∀ trial' ∈ earlier, trial' v = none) (taken : trial v = some w) :
    ofJson? v = some w := by
  rw [ofJson?, split, List.findSome?_append, List.findSome?_eq_none_iff.2 declined,
    Option.none_or, List.findSome?_cons, taken]

/-- A value is read again as itself, for no variant before its own takes what it is in JSON. -/
theorem ofJson?_toJson (v : Scalar) : ofJson? v.toJson = some v := by
  cases v with
  | int i =>
    have split : trials = [null?, bool?] ++ int? :: [uint?, float?, str?] := rfl
    exact ofJson?_of_trial split (by simp [toJson, null?, bool?]) (int?_val i)
  | uint n =>
    have split : trials = [null?, bool?, int?] ++ uint? :: [float?, str?] := rfl
    exact ofJson?_of_trial split (by simp [toJson, null?, bool?, int?_unsigned]) (uint?_val n)
  | _ => rfl

/-- Whether two lists hold the same values in the same order. -/
def sameList : List Scalar → List Scalar → Bool
  | [], [] => true
  | v :: vs, w :: ws => v.same w && sameList vs ws
  | _, _ => false

/-- Whether two tables hold the same values under the same names, in any order. -/
def sameTable (table other : List (String × Scalar)) : Bool :=
  table.length == other.length &&
    table.all fun (k, v) =>
      match Assoc.find? k other with
      | some w => v.same w
      | none => false

end Scalar

end TypeCatalog
