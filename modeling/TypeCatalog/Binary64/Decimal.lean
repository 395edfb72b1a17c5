import TypeCatalog.Binary64

/-!
The shortest decimal of a binary64 number, and how its digits are laid out.

The reals that round to a number form an interval between the midpoints to its two
neighbours, ends included when its last bit is 0.  `shortest` looks at the decimal grids
`10 ^ p` from coarse to fine and takes the first that has a point in the interval; of two
points it takes the nearer, and of two that are equally near the one that a `Tie` says.
`Layout` says where the point and the exponent are written.
-/

namespace TypeCatalog.Binary64

/-- A positive decimal: `digits * 10 ^ exponent`. -/
structure Decimal where
  digits : Nat
  exponent : Int
deriving DecidableEq

/-- `c * 10 ^ p` in steps of `2 ^ -1075`, as a ratio. -/
def gridPoint (c : Nat) (p : Int) : Nat × Nat :=
  (c * Nat.pow 10 p.toNat * Nat.pow 2 1075, Nat.pow 10 (-p).toNat)

/-- Whether a ratio of steps of `2 ^ -1075` rounds to a magnitude. -/
def roundsTo (magnitude : Nat) (point : Nat × Nat) : Bool :=
  let low := (units (magnitude - 1) + units magnitude) * point.2
  let high := (units magnitude + units (magnitude + 1)) * point.2
  if magnitude % 2 = 0 then decide (low ≤ point.1 ∧ point.1 ≤ high)
  else decide (low < point.1 ∧ point.1 < high)

/-- How far a ratio of steps of `2 ^ -1075` is from a magnitude, times its denominator. -/
def distance (magnitude : Nat) (point : Nat × Nat) : Nat :=
  let exact := 2 * units magnitude * point.2
  (point.1 - exact) + (exact - point.1)

/-- Which of two decimals that are equally near is taken. -/
inductive Tie where
  /-- The one whose last digit is even. -/
  | even
  /-- The one that is farther from 0. -/
  | away

/-- Whether the point after `below` is taken when both are equally near. -/
def Tie.takesNext (below : Nat) : Tie → Bool
  | even => below % 2 = 1
  | away => true

/-- The grid point of `10 ^ p` that rounds to a magnitude, the nearer of two. -/
def gridHit? (tie : Tie) (magnitude : Nat) (p : Int) : Option Nat :=
  let below :=
    2 * units magnitude * Nat.pow 10 (-p).toNat / (Nat.pow 10 p.toNat * Nat.pow 2 1075)
  let low := gridPoint below p
  let high := gridPoint (below + 1) p
  match roundsTo magnitude low, roundsTo magnitude high with
  | true, true =>
    match compare (distance magnitude low) (distance magnitude high) with
    | .lt => some below
    | .gt => some (below + 1)
    | .eq => some (if tie.takesNext below then below + 1 else below)
  | true, false => some below
  | false, true => some (below + 1)
  | false, false => none

/-- Try the grids from `10 ^ p` downwards. -/
def searchGrid (tie : Tie) (magnitude : Nat) : Nat → Int → Decimal
  | 0, p => ⟨0, p⟩
  | fuel + 1, p =>
    match gridHit? tie magnitude p with
    | some c => ⟨c, p⟩
    | none => searchGrid tie magnitude fuel (p - 1)

/-- Drop the zeros at the end of the digits. -/
def Decimal.trim : Nat → Decimal → Decimal
  | 0, d => d
  | fuel + 1, d =>
    if d.digits ≠ 0 ∧ d.digits % 10 = 0 then trim fuel ⟨d.digits / 10, d.exponent + 1⟩ else d

/-- The shortest decimal that rounds to a magnitude above 0.  No grid coarser than the
whole part can hit, and no magnitude needs one finer than `10 ^ -324` by more than 17. -/
def shortest (tie : Tie) (magnitude : Nat) : Decimal :=
  let whole := (toString (units magnitude / Nat.pow 2 1074)).length
  (searchGrid tie magnitude (whole + 345) whole).trim 20

/-- Where decimals are written without an exponent, whether a whole one keeps its point, and
which of two shortest ones is written. -/
structure Layout where
  /-- Positional when the point stands after this many digits or more. -/
  least : Int
  /-- Positional when the point stands after this many digits or fewer. -/
  most : Int
  /-- Write `.0` after a whole number. -/
  keepPoint : Bool
  tie : Tie

/-- `n` zeros. -/
def zeros (n : Nat) : String :=
  String.ofList (List.replicate n '0')

/-- The digits of a decimal with the point set. -/
def Decimal.positional (keepPoint : Bool) (d : Decimal) : String :=
  let ds := toString d.digits
  let point : Int := ds.length + d.exponent
  if point ≤ 0 then "0." ++ zeros (-point).toNat ++ ds
  else if 0 ≤ d.exponent then
    ds ++ zeros d.exponent.toNat ++ (if keepPoint then ".0" else "")
  else
    let cs := ds.toList
    String.ofList (cs.take point.toNat) ++ "." ++ String.ofList (cs.drop point.toNat)

/-- One digit before the point, the rest after it, and a signed exponent. -/
def Decimal.scientific (d : Decimal) : String :=
  let cs := (toString d.digits).toList
  let exponent : Int := cs.length + d.exponent - 1
  let tail := cs.drop 1
  String.ofList (cs.take 1) ++ (if tail.isEmpty then "" else "." ++ String.ofList tail)
    ++ "e" ++ (if exponent < 0 then "-" else "+") ++ toString exponent.natAbs

/-- A number laid out. -/
def render (layout : Layout) (x : Binary64) : String :=
  let sign := if x.negative then "-" else ""
  if x.magnitude = 0 then sign ++ (if layout.keepPoint then "0.0" else "0")
  else
    let d := shortest layout.tie x.magnitude
    let point : Int := (toString d.digits).length + d.exponent
    sign ++ (if layout.least ≤ point ∧ point ≤ layout.most then d.positional layout.keepPoint
      else d.scientific)

end TypeCatalog.Binary64
