import TypeCatalog.Json.Numeral
import TypeCatalog.Json.StringLiteral

/-!
Reading JSON text from front to back.

A `Reader` takes a value off the front of a text, or fails with a cause, the trail of keys and
indexes down to where it stood, and a spot in the text.  `object` and `array` read what stands
between two brackets, member by member, and hand each member to a step of the caller's, which
may reject it: so one pass serves plain values (`value`) and readers that know what they want.

A rejection carries no spot of its own.  It takes the reader's place once the object or array
around it has been closed, if it can be closed there (`Failure.settle`).

`skipValue` passes over a value whose content does not matter.  It nests without limit and
does not ask whether numbers are in range.
-/

namespace TypeCatalog.Json

/-! ## Trails and failures -/

/-- One step from a value to a part of it. -/
inductive Segment where
  | key (name : String)
  | index (i : Nat)
  /-- A key that was not read. -/
  | unread
deriving DecidableEq

/-- The steps from a value to a part of it, outermost first. -/
abbrev Trail := List Segment

/-- One step as text. -/
def Segment.text : Segment → String
  | .key name => name
  | .index i => "[" ++ toString i ++ "]"
  | .unread => "?"

/-- Whether a point stands before a step that is not the first. -/
def Segment.isPointed : Segment → Bool
  | .index _ => false
  | _ => true

/-- The steps behind the first. -/
def Trail.tailText : Trail → String
  | [] => ""
  | s :: rest => (if s.isPointed then "." ++ s.text else s.text) ++ tailText rest

/-- Keys behind points, indexes in brackets; a lone point for the value itself. -/
def Trail.text : Trail → String
  | [] => "."
  | s :: rest => s.text ++ Trail.tailText rest

/-- Why a reader stopped: the text is no JSON, or a reader rejects what it says. -/
inductive Cause (φ : Type) where
  | malformed (error : SyntaxError)
  | rejected (fault : φ)

/-- Where a reader stopped: at a place of its own, or wherever its surroundings end. -/
inductive Spot where
  | fixed (position : Position)
  | pending (cursor : Cursor)

/-- A failed reading. -/
structure Failure (φ : Type) where
  cause : Cause φ
  trail : Trail
  spot : Spot

/-- Take a value off the front of a text. -/
abbrev Reader (φ α : Type) := Cursor → Except (Failure φ) (α × Cursor)

variable {φ α β σ : Type}

/-- A fault of the text as a failure. -/
def Malformed.failure (m : Malformed) : Failure φ :=
  ⟨.malformed m.error, [], .fixed m.position⟩

/-- A failure seen from one step further out. -/
def Failure.within (s : Segment) (f : Failure φ) : Failure φ :=
  ⟨f.cause, s :: f.trail, f.spot⟩

/-- Give a failure without a place of its own one. -/
def Failure.settle (place : Cursor → Position) (f : Failure φ) : Failure φ :=
  match f.spot with
  | .fixed _ => f
  | .pending c => ⟨f.cause, f.trail, .fixed (place c)⟩

/-! ## Brackets -/

/-- Pass over a colon. -/
def colon (c : Cursor) : Except Malformed Cursor :=
  let c := c.skipBlanks
  match c.rest with
  | [] => .error ⟨.eofObject, c.position⟩
  | ':' :: rest => .ok ⟨c.position.skip 1, rest⟩
  | _ :: _ => .error ⟨.expectedColon, c.peeked⟩

/-- The next key of an object, or none before its closing bracket. -/
def nextKey (first : Bool) : Lexer (Option String) := fun c =>
  let c := c.skipBlanks
  match c.rest with
  | [] => .error ⟨.eofObject, c.position⟩
  | '\x7d' :: _ => .ok (none, c)
  | ch :: rest =>
    if first then
      if ch = '"' then
        match string ⟨c.position.skip 1, rest⟩ with
        | .error m => .error m
        | .ok (key, c') => .ok (some key, c')
      else .error ⟨.keyMustBeString, c.peeked⟩
    else if ch = ',' then
      let c := (Cursor.mk (c.position.skip 1) rest).skipBlanks
      match c.rest with
      | [] => .error ⟨.eofValue, c.position⟩
      | '"' :: rest =>
        match string ⟨c.position.skip 1, rest⟩ with
        | .error m => .error m
        | .ok (key, c') => .ok (some key, c')
      | '\x7d' :: _ => .error ⟨.trailingComma, c.peeked⟩
      | _ :: _ => .error ⟨.keyMustBeString, c.peeked⟩
    else .error ⟨.expectedObjectEnd, c.peeked⟩

/-- Whether another element follows; if so the cursor stands before it. -/
def nextElement (first : Bool) : Lexer Bool := fun c =>
  let c := c.skipBlanks
  match c.rest with
  | [] => .error ⟨.eofList, c.position⟩
  | ']' :: _ => .ok (false, c)
  | ch :: rest =>
    if first then .ok (true, c)
    else if ch = ',' then
      let c := (Cursor.mk (c.position.skip 1) rest).skipBlanks
      match c.rest with
      | [] => .error ⟨.eofValue, c.position⟩
      | ']' :: _ => .error ⟨.trailingComma, c.peeked⟩
      | _ :: _ => .ok (true, c)
    else .error ⟨.expectedListEnd, c.peeked⟩

/-- Pass over the bracket that closes an object. -/
def closeObject (c : Cursor) : Except Malformed Cursor :=
  let c := c.skipBlanks
  match c.rest with
  | [] => .error ⟨.eofObject, c.position⟩
  | '\x7d' :: rest => .ok ⟨c.position.skip 1, rest⟩
  | ',' :: _ => .error ⟨.trailingComma, c.peeked⟩
  | _ :: _ => .error ⟨.trailingCharacters, c.peeked⟩

/-- Pass over the bracket that closes an array. -/
def closeArray (c : Cursor) : Except Malformed Cursor :=
  let c := c.skipBlanks
  match c.rest with
  | [] => .error ⟨.eofList, c.position⟩
  | ']' :: rest => .ok ⟨c.position.skip 1, rest⟩
  | ',' :: rest =>
    let c := (Cursor.mk (c.position.skip 1) rest).skipBlanks
    match c.rest with
    | ']' :: _ => .error ⟨.trailingComma, c.peeked⟩
    | _ => .error ⟨.trailingCharacters, c.peeked⟩
  | _ :: _ => .error ⟨.trailingCharacters, c.peeked⟩

/-- Where a reader stands that has tried to close an object. -/
def objectEnd (c : Cursor) : Position :=
  let c := c.skipBlanks
  match c.rest with
  | '\x7d' :: _ => c.position.skip 1
  | _ => c.position

/-- Where a reader stands that has tried to close an array. -/
def arrayEnd (c : Cursor) : Position :=
  let c := c.skipBlanks
  match c.rest with
  | ']' :: _ => c.position.skip 1
  | ',' :: rest => (Cursor.mk (c.position.skip 1) rest).skipBlanks.position
  | _ => c.position

/-! ## Objects and arrays -/

/-- Read members up to the closing bracket.  A key is put to `step`, which rejects it or reads
its value.  There are no more members than characters, so the fuel outlasts the text. -/
def members (step : σ → String → Except φ (Reader φ σ)) : Nat → Bool → σ → Reader φ σ
  | 0, _, _ => fun c => .error ⟨.malformed .eofObject, [], .fixed c.position⟩
  | fuel + 1, first, s => fun c =>
    match nextKey first c with
    | .error m => .error (m.failure.within .unread)
    | .ok (none, c₁) => .ok (s, c₁)
    | .ok (some key, c₁) =>
      match step s key with
      | .error fault => .error ⟨.rejected fault, [], .pending c₁⟩
      | .ok read =>
        match colon c₁ with
        | .error m => .error m.failure
        | .ok c₂ =>
          match read c₂ with
          | .error f => .error (f.within (.key key))
          | .ok (s', c₃) => members step fuel false s' c₃

/-- Read an object from behind its opening bracket; `finish` has the last word on it. -/
def object (step : σ → String → Except φ (Reader φ σ)) (start : σ) (finish : σ → Except φ β) :
    Reader φ β := fun c =>
  match members step (c.rest.length + 1) true start c with
  | .error f => .error (f.settle objectEnd)
  | .ok (s, c₁) =>
    match finish s with
    | .error fault => .error ⟨.rejected fault, [], .fixed (objectEnd c₁)⟩
    | .ok b =>
      match closeObject c₁ with
      | .error m => .error m.failure
      | .ok c₂ => .ok (b, c₂)

/-- Read elements up to the closing bracket, or until `step` wants no more. -/
def elements (step : σ → Nat → Option (Reader φ σ)) : Nat → Nat → σ → Reader φ σ
  | 0, _, _ => fun c => .error ⟨.malformed .eofList, [], .fixed c.position⟩
  | fuel + 1, i, s => fun c =>
    match step s i with
    | none => .ok (s, c)
    | some read =>
      match nextElement (i == 0) c with
      | .error m => .error m.failure
      | .ok (false, c₁) => .ok (s, c₁)
      | .ok (true, c₁) =>
        match read c₁ with
        | .error f => .error (f.within (.index i))
        | .ok (s', c₂) => elements step fuel (i + 1) s' c₂

/-- Read an array from behind its opening bracket; `finish` has the last word on it. -/
def array (step : σ → Nat → Option (Reader φ σ)) (start : σ) (finish : σ → Except φ β) :
    Reader φ β := fun c =>
  match elements step (c.rest.length + 1) 0 start c with
  | .error f => .error (f.settle arrayEnd)
  | .ok (s, c₁) =>
    match finish s with
    | .error fault => .error ⟨.rejected fault, [], .fixed (arrayEnd c₁)⟩
    | .ok b =>
      match closeArray c₁ with
      | .error m => .error m.failure
      | .ok c₂ => .ok (b, c₂)

/-! ## Values -/

/-- Read a word, a number or a string. -/
def scalar : Lexer Json := fun c =>
  match c.rest with
  | [] => .error ⟨.eofValue, c.position⟩
  | 'n' :: rest => (word ['u', 'l', 'l'] ⟨c.position.skip 1, rest⟩).map (Json.null, ·)
  | 't' :: rest => (word ['r', 'u', 'e'] ⟨c.position.skip 1, rest⟩).map (Json.bool true, ·)
  | 'f' :: rest => (word ['a', 'l', 's', 'e'] ⟨c.position.skip 1, rest⟩).map (Json.bool false, ·)
  | '"' :: rest => (string ⟨c.position.skip 1, rest⟩).map fun (s, c') => (Json.str s, c')
  | ch :: _ =>
    if ch = '-' ∨ (digit? ch).isSome then number c else .error ⟨.expectedValue, c.peeked⟩

/-- What a reader makes of an opening bracket. -/
inductive Opening (φ α : Type) where
  /-- It does not want one. -/
  | refused (fault : φ)
  /-- It stands too deep for one. -/
  | tooDeep
  | enter (read : Reader φ α)

/-- An opening bracket that is wanted, unless it stands too deep. -/
def Opening.atDepth (read : Nat → Reader φ α) : Nat → Opening φ α
  | 0 => .tooDeep
  | depth + 1 => .enter (read depth)

/-- Go through an opening bracket. -/
def Opening.read (o : Opening φ α) (behind : Cursor) : Reader φ α := fun c =>
  match o with
  | .refused fault => .error ⟨.rejected fault, [], .fixed c.position⟩
  | .tooDeep => .error ⟨.malformed .tooDeep, [], .fixed c.peeked⟩
  | .enter read => read behind

/-- Read a value by its first character.  A word, number or string that is not wanted is
rejected behind it, an array or object before it. -/
def dispatch (onScalar : Json → Except φ α) (onArray onObject : Opening φ α) : Reader φ α :=
  fun c =>
  let c := c.skipBlanks
  match c.rest with
  | '[' :: rest => onArray.read ⟨c.position.skip 1, rest⟩ c
  | '\x7b' :: rest => onObject.read ⟨c.position.skip 1, rest⟩ c
  | _ =>
    match scalar c with
    | .error m => .error m.failure
    | .ok (v, c') =>
      match onScalar v with
      | .error fault => .error ⟨.rejected fault, [], .fixed c'.position⟩
      | .ok a => .ok (a, c')

/-- Put what a reader reads to what was read before it. -/
def Reader.onto (f : α → σ) (read : Reader φ α) : Reader φ σ := fun c =>
  match read c with
  | .error e => .error e
  | .ok (a, c') => .ok (f a, c')

/-- Elements read by `read`, all of them. -/
def arrayOf (read : Reader φ α) (finish : List α → Except φ β) : Reader φ β :=
  array (fun items _ => some (read.onto (· :: items))) [] (fun items => finish items.reverse)

/-- Members whose values are read by `read`, all of them. -/
def objectOf (read : Reader φ α) (finish : List (String × α) → Except φ β) : Reader φ β :=
  object (fun entries key => .ok (read.onto fun v => (key, v) :: entries)) []
    (fun entries => finish entries.reverse)

/-- Read any value, with repeated keys, that opens at most so many brackets at once. -/
def value : Nat → Reader φ Json
  | 0 => dispatch .ok .tooDeep .tooDeep
  | depth + 1 =>
    dispatch .ok
      (.enter (arrayOf (value depth) fun items => .ok (.arr items)))
      (.enter (objectOf (value depth) fun entries => .ok (.obj entries)))

/-- The number of brackets that may be open at once. -/
def depthLimit : Nat := 127

/-- The value that a whole text holds, every key counted once, if it opens at most so many
brackets at once. -/
def parseWithin (depth : Nat) (text : String) : Except Malformed Json :=
  match (value depth : Reader Empty Json) (.ofText text) with
  | .error ⟨.malformed e, _, .fixed p⟩ => .error ⟨e, p⟩
  | .error ⟨.malformed e, _, .pending c⟩ => .error ⟨e, c.position⟩
  | .ok (v, c) =>
    let c := c.skipBlanks
    match c.rest with
    | [] => .ok v.merged
    | _ :: _ => .error ⟨.trailingCharacters, c.peeked⟩

/-- The value that a whole text holds, every key counted once. -/
def parse (text : String) : Except Malformed Json :=
  parseWithin depthLimit text

/-! ## Passing over values -/

/-- Pass over a key and its colon. -/
def skipKey (c : Cursor) : Except Malformed Cursor :=
  let c := c.skipBlanks
  match c.rest with
  | [] => .error ⟨.eofObject, c.position⟩
  | '"' :: rest =>
    match skipString ⟨c.position.skip 1, rest⟩ with
    | .error m => .error m
    | .ok c' => colon c'
  | _ :: _ => .error ⟨.keyMustBeString, c.peeked⟩

/-- Pass over a word, a number or a string. -/
def skipScalar (c : Cursor) : Except Malformed Cursor :=
  match c.rest with
  | [] => .error ⟨.eofValue, c.position⟩
  | 'n' :: rest => word ['u', 'l', 'l'] ⟨c.position.skip 1, rest⟩
  | 't' :: rest => word ['r', 'u', 'e'] ⟨c.position.skip 1, rest⟩
  | 'f' :: rest => word ['a', 'l', 's', 'e'] ⟨c.position.skip 1, rest⟩
  | '"' :: rest => skipString ⟨c.position.skip 1, rest⟩
  | ch :: _ =>
    if ch = '-' ∨ (digit? ch).isSome then skipNumber c else .error ⟨.expectedValue, c.peeked⟩

/-- A bracket that is open. -/
inductive Bracket where
  | square
  | curly
deriving DecidableEq

mutual

/-- Pass over a value and then to the end of the brackets around it, innermost first. -/
def skipWithin : Nat → List Bracket → Cursor → Except Malformed Cursor
  | 0, _, c => .error ⟨.eofValue, c.position⟩
  | fuel + 1, around, c =>
    let c := c.skipBlanks
    match c.rest with
    | '[' :: rest =>
      let c := (Cursor.mk (c.position.skip 1) rest).skipBlanks
      match c.rest with
      | [] => .error ⟨.eofList, c.position⟩
      | ']' :: rest => skipOut fuel around ⟨c.position.skip 1, rest⟩
      | _ :: _ => skipWithin fuel (.square :: around) c
    | '\x7b' :: rest =>
      let c := (Cursor.mk (c.position.skip 1) rest).skipBlanks
      match c.rest with
      | [] => .error ⟨.eofObject, c.position⟩
      | '\x7d' :: rest => skipOut fuel around ⟨c.position.skip 1, rest⟩
      | _ :: _ =>
        match skipKey c with
        | .error m => .error m
        | .ok c => skipWithin fuel (.curly :: around) c
    | _ =>
      match skipScalar c with
      | .error m => .error m
      | .ok c => skipOut fuel around c

/-- Pass from behind a value to the end of the brackets around it, innermost first. -/
def skipOut : Nat → List Bracket → Cursor → Except Malformed Cursor
  | _, [], c => .ok c
  | 0, _, c => .error ⟨.eofValue, c.position⟩
  | fuel + 1, .square :: around, c =>
    let c := c.skipBlanks
    match c.rest with
    | [] => .error ⟨.eofList, c.position⟩
    | ',' :: rest => skipWithin fuel (.square :: around) ⟨c.position.skip 1, rest⟩
    | ']' :: rest => skipOut fuel around ⟨c.position.skip 1, rest⟩
    | _ :: _ => .error ⟨.expectedListEnd, c.peeked⟩
  | fuel + 1, .curly :: around, c =>
    let c := c.skipBlanks
    match c.rest with
    | [] => .error ⟨.eofObject, c.position⟩
    | ',' :: rest =>
      match skipKey ⟨c.position.skip 1, rest⟩ with
      | .error m => .error m
      | .ok c => skipWithin fuel (.curly :: around) c
    | '\x7d' :: rest => skipOut fuel around ⟨c.position.skip 1, rest⟩
    | _ :: _ => .error ⟨.expectedObjectEnd, c.peeked⟩

end

/-- Pass over a value. -/
def skipValue : Reader φ Unit := fun c =>
  match skipWithin (2 * c.rest.length + 2) [] c with
  | .error m => .error m.failure
  | .ok c' => .ok ((), c')

end TypeCatalog.Json
