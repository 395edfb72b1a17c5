/-!
Finite binary64 numbers, without the machine's floating point.

A number is a sign and a magnitude, the 63 bits below the sign, so that magnitudes compare as
natural numbers do.  `units` is the magnitude as an exact multiple of `2 ^ -1074`, the
smallest step; every operation is an exact ratio of natural numbers followed by one rounding
(`nearest`, a half going to the even neighbour).
-/

namespace TypeCatalog

/-- A finite binary64 number. -/
structure Binary64 where
  negative : Bool
  magnitude : Nat
  finite : magnitude < 0x7FF0000000000000
deriving DecidableEq

namespace Binary64

/-- The first magnitude that stands for no finite number. -/
def limit : Nat := 0x7FF0000000000000

/-- The significand of a magnitude; the leading bit is written unless the exponent is least. -/
def significand (magnitude : Nat) : Nat :=
  let leading := Nat.pow 2 52
  if magnitude / leading = 0 then magnitude % leading else leading + magnitude % leading

/-- A magnitude as a multiple of `2 ^ -1074`. -/
def units (magnitude : Nat) : Nat :=
  significand magnitude * Nat.pow 2 (magnitude / Nat.pow 2 52 - 1)

/-- A quotient rounded to the nearest whole number, a half going to the even one. -/
def roundDiv (n d : Nat) : Nat :=
  let q := n / d
  let r := n % d
  if 2 * r < d then q
  else if d < 2 * r then q + 1
  else if q % 2 = 0 then q else q + 1

/-- The magnitude nearest to `n / d`.  Counted in steps of `2 ^ -1074`, a number below
`2 ^ 53` is its own significand; a larger one drops the bits that exceed 53.  A significand
that rounds up to `2 ^ 53` carries into the exponent, and the sum below says just that.  The
result is `limit` or more when no finite number is that large. -/
def nearest (n d : Nat) : Nat :=
  let scaled := n * Nat.pow 2 1074
  let shift := (scaled / d).log2 - 52
  shift * Nat.pow 2 52 + roundDiv scaled (d * Nat.pow 2 shift)

/-- A number of a given magnitude, if that is finite. -/
def ofMagnitude? (negative : Bool) (magnitude : Nat) : Option Binary64 :=
  if h : magnitude < 0x7FF0000000000000 then some ⟨negative, magnitude, h⟩ else none

/-- The number nearest to a whole number, if that is finite. -/
def ofInt? (i : Int) : Option Binary64 :=
  ofMagnitude? (decide (i < 0)) (nearest i.natAbs 1)

/-- The magnitude of a rounded product. -/
def mulMagnitude (a b : Nat) : Nat :=
  nearest (units a * units b) (Nat.pow 2 2148)

/-- The magnitude of a rounded quotient. -/
def divMagnitude (a b : Nat) : Nat :=
  nearest (units a) (units b)

/-- The place of a number on the line.  Both zeros stand at 0. -/
def place (x : Binary64) : Int :=
  if x.negative then -(x.magnitude : Int) else x.magnitude

/-- Numbers are the same when they stand at the same place. -/
def same (x y : Binary64) : Bool :=
  x.place == y.place

/-- The order of numbers. -/
def cmp (x y : Binary64) : Ordering :=
  compare x.place y.place

end Binary64

end TypeCatalog
