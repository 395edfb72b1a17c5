import TypeCatalog.Json
import TypeCatalog.Json.Cursor

/-!
Numbers in JSON text.

`scan` reads the digits and signs of a numeral; `Numeral.value` says which number they stand
for.  A numeral without fraction and exponent that fits 64 bits, signed or unsigned, is a whole
number.  Any other is a binary64 number found in two roundings: the first digits, as many as
fit 64 bits unsigned, are rounded to a number, and that is multiplied or divided by the number
nearest to a power of ten.  So it may differ in its last place from the number nearest to the
numeral.
-/

namespace TypeCatalog.Json

/-- The value of a decimal digit. -/
def digit? (c : Char) : Option Nat :=
  if '0' ≤ c ∧ c ≤ '9' then some (c.toNat - '0'.toNat) else none

/-- The digits at the front of a text, and the text behind them. -/
def takeDigits : List Char → List Nat × List Char
  | [] => ([], [])
  | c :: rest =>
    match digit? c with
    | some d => let (ds, rest') := takeDigits rest; (d :: ds, rest')
    | none => ([], c :: rest)

/-- The digits at a cursor. -/
def digits (c : Cursor) : List Nat × Cursor :=
  let (ds, rest) := takeDigits c.rest
  (ds, ⟨c.position.skip ds.length, rest⟩)

/-- The parts of a numeral. -/
structure Numeral where
  negative : Bool
  whole : List Nat
  /-- The digits behind the point, if there is one. -/
  fraction : Option (List Nat)
  /-- Whether the exponent is negative, and its digits. -/
  exponent : Option (Bool × List Nat)
deriving DecidableEq

/-! ## Scanning -/

/-- At least one digit, else a fault: `atEnd` at the end of the text. -/
def someDigits (atEnd : SyntaxError) : Lexer (List Nat) := fun c =>
  match digits c with
  | ([], _) =>
    match c.rest with
    | [] => .error ⟨atEnd, c.position⟩
    | _ :: _ => .error ⟨.invalidNumber, c.peeked⟩
  | (ds, c') => .ok (ds, c')

/-- The whole part: one zero, or digits that do not begin with a zero. -/
def wholePart (atEnd : SyntaxError) : Lexer (List Nat) := fun c =>
  match someDigits atEnd c with
  | .error e => .error e
  | .ok (0 :: _ :: _, _) => .error ⟨.invalidNumber, c.position.skip 2⟩
  | .ok read => .ok read

/-- The part behind a point, if there is a point. -/
def fractionPart (atEnd : SyntaxError) : Lexer (Option (List Nat)) := fun c =>
  match c.rest with
  | '.' :: rest =>
    match someDigits atEnd ⟨c.position.skip 1, rest⟩ with
    | .error e => .error e
    | .ok (ds, c') => .ok (some ds, c')
  | _ => .ok (none, c)

/-- The sign of an exponent. -/
def exponentSign (c : Cursor) : Bool × Cursor :=
  match c.rest with
  | '+' :: rest => (false, ⟨c.position.skip 1, rest⟩)
  | '-' :: rest => (true, ⟨c.position.skip 1, rest⟩)
  | _ => (false, c)

/-- The exponent, if there is one. -/
def exponentPart (atEnd : SyntaxError) : Lexer (Option (Bool × List Nat)) := fun c =>
  match c.rest with
  | letter :: rest =>
    if letter = 'e' ∨ letter = 'E' then
      let (negative, c') := exponentSign ⟨c.position.skip 1, rest⟩
      match someDigits atEnd c' with
      | .error e => .error e
      | .ok (ds, c'') => .ok (some (negative, ds), c'')
    else .ok (none, c)
  | [] => .ok (none, c)

/-- The parts of a numeral behind its sign. -/
def unsigned (atEnd : SyntaxError) (negative : Bool) : Lexer Numeral := fun c =>
  match wholePart atEnd c with
  | .error e => .error e
  | .ok (whole, c₁) =>
    match fractionPart atEnd c₁ with
    | .error e => .error e
    | .ok (fraction, c₂) =>
      match exponentPart atEnd c₂ with
      | .error e => .error e
      | .ok (exponent, c₃) => .ok (⟨negative, whole, fraction, exponent⟩, c₃)

/-- The parts of a numeral.  A text that ends where a digit is due gives `atEnd`. -/
def scan (atEnd : SyntaxError) : Lexer Numeral := fun c =>
  match c.rest with
  | '-' :: rest => unsigned atEnd true ⟨c.position.skip 1, rest⟩
  | _ => unsigned atEnd false c

/-! ## Values -/

namespace Numeral

/-- Gather whole digits while 64 bits hold them; the count of those that are left over. -/
def gatherWhole : Nat → List Nat → Nat × Nat
  | n, [] => (n, 0)
  | n, d :: ds =>
    if n * 10 + d < Nat.pow 2 64 then gatherWhole (n * 10 + d) ds else (n, ds.length + 1)

/-- Gather digits behind the point while 64 bits hold them; the count of those gathered. -/
def gatherFraction : Nat → List Nat → Nat × Nat
  | n, [] => (n, 0)
  | n, d :: ds =>
    if n * 10 + d < Nat.pow 2 64 then
      let (n', k) := gatherFraction (n * 10 + d) ds
      (n', k + 1)
    else (n, 0)

/-- The size of an exponent below `2 ^ 31`; of a larger one the count of its digits that are
not looked at any more. -/
def exponentSize : Nat → List Nat → Except Nat Nat
  | n, [] => .ok n
  | n, d :: ds =>
    if n * 10 + d < Nat.pow 2 31 then exponentSize (n * 10 + d) ds else .error ds.length

/-- The magnitude nearest to a power of ten. -/
def powerOfTen (k : Nat) : Nat :=
  Binary64.nearest (Nat.pow 10 k) 1

/-- A magnitude times a power of ten, at most `10 ^ 308` unless it is 0. -/
def scaleUp (magnitude k : Nat) : Nat :=
  if magnitude = 0 then 0
  else if k ≤ 308 then Binary64.mulMagnitude magnitude (powerOfTen k)
  else Binary64.limit

/-- A magnitude divided by a power of ten, `10 ^ 308` at a time. -/
def scaleDown (magnitude k : Nat) : Nat :=
  if k ≤ 308 then Binary64.divMagnitude magnitude (powerOfTen k)
  else if magnitude = 0 then 0
  else scaleDown (Binary64.divMagnitude magnitude (powerOfTen 308)) (k - 308)
termination_by k

/-- The magnitude of digits times a power of ten. -/
def scaled (significand : Nat) (exponent : Int) : Nat :=
  let magnitude := Binary64.nearest significand 1
  if 0 ≤ exponent then scaleUp magnitude exponent.toNat
  else scaleDown magnitude (-exponent).toNat

/-- A binary64 number, if the magnitude is finite. -/
def float? (negative : Bool) (magnitude : Nat) : Except Nat Json :=
  match Binary64.ofMagnitude? negative magnitude with
  | some x => .ok (.float x)
  | none => .error 0

/-- The number that a numeral stands for.  Out of range, the count of its last characters that
need not be looked at to see it. -/
def value (n : Numeral) : Except Nat Json :=
  let (whole, dropped) := gatherWhole 0 n.whole
  let (significand, kept) := gatherFraction whole (n.fraction.getD [])
  let shift : Int := (dropped : Int) - kept
  match n.exponent with
  | some (down, ds) =>
    match exponentSize 0 ds with
    | .ok size =>
      float? n.negative (scaled significand (if down then shift - size else shift + size))
    | .error unread =>
      if significand ≠ 0 ∧ down = false then .error unread else float? n.negative 0
  | none =>
    if n.fraction.isSome ∨ dropped ≠ 0 then float? n.negative (scaled significand shift)
    else if n.negative = false then .ok (.int significand)
    else if significand ≠ 0 ∧ significand ≤ Nat.pow 2 63 then .ok (.int (-(significand : Int)))
    else float? true (Binary64.nearest significand 1)

end Numeral

/-- Read a number. -/
def number : Lexer Json := fun c =>
  match scan .eofValue c with
  | .error e => .error e
  | .ok (numeral, c') =>
    match numeral.value with
    | .ok v => .ok (v, c')
    | .error unread =>
      .error ⟨.numberOutOfRange, ⟨c'.position.line, c'.position.column - unread⟩⟩

/-- Pass over a number, which may be out of range. -/
def skipNumber (c : Cursor) : Except Malformed Cursor :=
  match scan .invalidNumber c with
  | .error e => .error e
  | .ok (_, c') => .ok c'

end TypeCatalog.Json
