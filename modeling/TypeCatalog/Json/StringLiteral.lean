import TypeCatalog.Json.Cursor

/-!
Strings in JSON text, from behind the opening quote to behind the closing one.

A character outside the basic plane may be written as two escapes, a leading and a trailing
surrogate; neither stands alone.  `skipString` passes over a string without asking that.
-/

namespace TypeCatalog.Json

/-- The value of a hexadecimal digit. -/
def hexDigit? (c : Char) : Option Nat :=
  if '0' ≤ c ∧ c ≤ '9' then some (c.toNat - '0'.toNat)
  else if 'a' ≤ c ∧ c ≤ 'f' then some (c.toNat - 'a'.toNat + 10)
  else if 'A' ≤ c ∧ c ≤ 'F' then some (c.toNat - 'A'.toNat + 10)
  else none

/-- The value of four hexadecimal digits. -/
def hexValue? (a b c d : Char) : Option Nat := do
  return (((← hexDigit? a) * 16 + (← hexDigit? b)) * 16 + (← hexDigit? c)) * 16 + (← hexDigit? d)

/-- What is wrong where four hexadecimal digits are due: the text has fewer than four bytes,
or they are not digits. -/
def hexFault (p : Position) (text : List Char) : Malformed :=
  if text.foldl (fun n c => n + c.utf8Size) 0 < 4 then
    ⟨.eofString, text.foldl Position.after p⟩
  else ⟨.invalidEscape, p.afterBytes 4 text⟩

/-- A leading surrogate. -/
def isLeading (n : Nat) : Bool := 0xD800 ≤ n && n ≤ 0xDBFF

/-- A trailing surrogate. -/
def isTrailing (n : Nat) : Bool := 0xDC00 ≤ n && n ≤ 0xDFFF

/-- The character of a surrogate pair. -/
def pairChar (leading trailing : Nat) : Char :=
  Char.ofNat ((leading - 0xD800) * 0x400 + (trailing - 0xDC00) + 0x10000)

/-- The character of an escape of one letter. -/
def letterEscape? (c : Char) : Option Char :=
  if c = '"' then some '"'
  else if c = '\\' then some '\\'
  else if c = '/' then some '/'
  else if c = 'b' then some '\x08'
  else if c = 'f' then some '\x0c'
  else if c = 'n' then some '\n'
  else if c = 'r' then some '\r'
  else if c = 't' then some '\t'
  else none

/-- The text of a string up to its closing quote; `read` holds what is read, last first. -/
def stringFrom (p : Position) (read : List Char) :
    List Char → Except Malformed (String × Cursor)
  | [] => .error ⟨.eofString, p⟩
  | '"' :: rest => .ok (String.ofList read.reverse, ⟨p.skip 1, rest⟩)
  | '\\' :: [] => .error ⟨.eofString, p.skip 1⟩
  | '\\' :: 'u' :: a :: b :: c :: d :: rest =>
    match hexValue? a b c d with
    | none => .error (hexFault (p.skip 2) (a :: b :: c :: d :: rest))
    | some n =>
      if isTrailing n then .error ⟨.loneSurrogate, p.skip 6⟩
      else if isLeading n then
        match rest with
        | [] => .error ⟨.eofString, p.skip 6⟩
        | '\\' :: [] => .error ⟨.eofString, p.skip 7⟩
        | '\\' :: 'u' :: a' :: b' :: c' :: d' :: rest' =>
          match hexValue? a' b' c' d' with
          | none => .error (hexFault (p.skip 8) (a' :: b' :: c' :: d' :: rest'))
          | some m =>
            if isTrailing m then stringFrom (p.skip 12) (pairChar n m :: read) rest'
            else .error ⟨.loneSurrogate, p.skip 12⟩
        | '\\' :: 'u' :: short => .error (hexFault (p.skip 8) short)
        | '\\' :: other :: _ => .error ⟨.unfinishedSurrogate, (p.skip 7).afterByte other⟩
        | other :: _ => .error ⟨.unfinishedSurrogate, (p.skip 6).afterByte other⟩
      else stringFrom (p.skip 6) (Char.ofNat n :: read) rest
  | '\\' :: 'u' :: short => .error (hexFault (p.skip 2) short)
  | '\\' :: letter :: rest =>
    match letterEscape? letter with
    | some ch => stringFrom (p.skip 2) (ch :: read) rest
    | none => .error ⟨.invalidEscape, (p.skip 1).afterByte letter⟩
  | ch :: rest =>
    if ch.toNat < 0x20 then .error ⟨.controlCharacter, p.afterByte ch⟩
    else stringFrom (p.after ch) (ch :: read) rest

/-- Read a string from behind its opening quote. -/
def string : Lexer String := fun c =>
  stringFrom c.position [] c.rest

/-- Pass over the text of a string up to its closing quote. -/
def skipStringFrom (p : Position) : List Char → Except Malformed Cursor
  | [] => .error ⟨.eofString, p⟩
  | '"' :: rest => .ok ⟨p.skip 1, rest⟩
  | '\\' :: [] => .error ⟨.eofString, p.skip 1⟩
  | '\\' :: 'u' :: a :: b :: c :: d :: rest =>
    match hexValue? a b c d with
    | none => .error (hexFault (p.skip 2) (a :: b :: c :: d :: rest))
    | some _ => skipStringFrom (p.skip 6) rest
  | '\\' :: 'u' :: short => .error (hexFault (p.skip 2) short)
  | '\\' :: letter :: rest =>
    match letterEscape? letter with
    | some _ => skipStringFrom (p.skip 2) rest
    | none => .error ⟨.invalidEscape, (p.skip 1).afterByte letter⟩
  | ch :: rest =>
    if ch.toNat < 0x20 then .error ⟨.controlCharacter, p⟩ else skipStringFrom (p.after ch) rest

/-- Pass over a string from behind its opening quote. -/
def skipString (c : Cursor) : Except Malformed Cursor :=
  skipStringFrom c.position c.rest

end TypeCatalog.Json
