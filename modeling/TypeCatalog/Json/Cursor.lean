/-!
A reader's place in a text.

A `Position` counts lines from 1 and, within a line, the bytes read so far.  A fault on a byte
that was only looked at is reported one byte further on (`Cursor.peeked`), so a fault at the
first byte of a text stands at line 1 column 1, and one at its end where the text ends.
-/

namespace TypeCatalog.Json

/-- A place in a text: a line, and the bytes of it that are read. -/
structure Position where
  line : Nat
  column : Nat
deriving DecidableEq

namespace Position

/-- The start of a text. -/
def start : Position := ⟨1, 0⟩

/-- After a character. -/
def after (p : Position) (c : Char) : Position :=
  if c = '\n' then ⟨p.line + 1, 0⟩ else ⟨p.line, p.column + c.utf8Size⟩

/-- After the first byte of a character. -/
def afterByte (p : Position) (c : Char) : Position :=
  if c = '\n' then ⟨p.line + 1, 0⟩ else ⟨p.line, p.column + 1⟩

/-- After so many bytes of a text, or at its end. -/
def afterBytes (p : Position) : Nat → List Char → Position
  | _, [] => p
  | n, c :: rest =>
    if c.utf8Size ≤ n then (p.after c).afterBytes (n - c.utf8Size) rest
    else ⟨p.line, p.column + n⟩

/-- So many bytes further on the same line. -/
def skip (p : Position) (n : Nat) : Position :=
  ⟨p.line, p.column + n⟩

end Position

/-- A place in a text and what is left to read. -/
structure Cursor where
  position : Position
  rest : List Char
deriving DecidableEq

namespace Cursor

/-- The start of a text. -/
def ofText (text : String) : Cursor :=
  ⟨.start, text.toList⟩

/-- Where a fault on the next byte is reported. -/
def peeked (c : Cursor) : Position :=
  match c.rest with
  | [] => c.position
  | next :: _ => c.position.afterByte next

end Cursor

/-- Blanks between the tokens of a text. -/
def isBlank (c : Char) : Bool :=
  c = ' ' || c = '\n' || c = '\t' || c = '\r'

/-- Pass over blanks. -/
def skipBlanksFrom (p : Position) : List Char → Cursor
  | [] => ⟨p, []⟩
  | c :: rest => if isBlank c then skipBlanksFrom (p.after c) rest else ⟨p, c :: rest⟩

/-- Pass over blanks. -/
def Cursor.skipBlanks (c : Cursor) : Cursor :=
  skipBlanksFrom c.position c.rest

/-- What can be wrong with a text. -/
inductive SyntaxError where
  | eofValue
  | eofList
  | eofObject
  | eofString
  | expectedColon
  | expectedListEnd
  | expectedObjectEnd
  | expectedWord
  | expectedValue
  | invalidEscape
  | invalidNumber
  | numberOutOfRange
  | loneSurrogate
  | unfinishedSurrogate
  | controlCharacter
  | keyMustBeString
  | trailingComma
  | trailingCharacters
  | tooDeep
deriving DecidableEq

/-- The wording of a fault. -/
def SyntaxError.message : SyntaxError → String
  | eofValue => "EOF while parsing a value"
  | eofList => "EOF while parsing a list"
  | eofObject => "EOF while parsing an object"
  | eofString => "EOF while parsing a string"
  | expectedColon => "expected `:`"
  | expectedListEnd => "expected `,` or `]`"
  | expectedObjectEnd => "expected `,` or `\x7d`"
  | expectedWord => "expected ident"
  | expectedValue => "expected value"
  | invalidEscape => "invalid escape"
  | invalidNumber => "invalid number"
  | numberOutOfRange => "number out of range"
  | loneSurrogate => "lone leading surrogate in hex escape"
  | unfinishedSurrogate => "unexpected end of hex escape"
  | controlCharacter => "control character (\\u0000-\\u001F) found while parsing a string"
  | keyMustBeString => "key must be a string"
  | trailingComma => "trailing comma"
  | trailingCharacters => "trailing characters"
  | tooDeep => "recursion limit exceeded"

/-- A fault and where it stands. -/
structure Malformed where
  error : SyntaxError
  position : Position
deriving DecidableEq

/-- Read one token off the front of a text. -/
abbrev Lexer (α : Type) := Cursor → Except Malformed (α × Cursor)

/-- The rest of a word whose first letter is read. -/
def word : List Char → Cursor → Except Malformed Cursor
  | [], c => .ok c
  | expected :: more, c =>
    match c.rest with
    | [] => .error ⟨.eofValue, c.position⟩
    | next :: rest =>
      if next = expected then word more ⟨c.position.after next, rest⟩
      else .error ⟨.expectedWord, c.peeked⟩

end TypeCatalog.Json
