import TypeCatalog.Json
import TypeCatalog.Binary64.Decimal

/-!
JSON values as text: `compact` without blanks, `pretty` with one member or element a line.
-/

namespace TypeCatalog.Json

/-- Numbers are positional from `0.00001` to below `10 ^ 16` and always show that they are not
whole numbers of the integer kind; of two shortest decimals they are the even one. -/
def floatLayout : Binary64.Layout := ⟨-4, 16, true, .even⟩

/-- The text of a binary64 number. -/
def floatText (x : Binary64) : String :=
  x.render floatLayout

/-- A character inside a JSON string.  Only quotes, backslashes and the controls below the
space are escaped. -/
def escapedChar (c : Char) : String :=
  if c = '"' then "\\\""
  else if c = '\\' then "\\\\"
  else if c = '\x08' then "\\b"
  else if c = '\x0c' then "\\f"
  else if c = '\n' then "\\n"
  else if c = '\r' then "\\r"
  else if c = '\t' then "\\t"
  else if c.toNat < 0x20 then
    "\\u00" ++ (if c.toNat < 0x10 then "0" else "1") ++
      String.ofList (Nat.toDigits 16 (c.toNat % 16))
  else c.toString

/-- A JSON string. -/
def stringText (s : String) : String :=
  "\"" ++ String.join (s.toList.map escapedChar) ++ "\""

/-- The words and numbers. -/
def scalarText : Json → String
  | .null => "null"
  | .bool true => "true"
  | .bool false => "false"
  | .int i => toString i
  | .float x => floatText x
  | .str s => stringText s
  | .arr _ => "[]"
  | .obj _ => "\x7b\x7d"

mutual

/-- A value without blanks. -/
def compact : Json → String
  | .arr items => "[" ++ ",".intercalate (compactItems items) ++ "]"
  | .obj members => "\x7b" ++ ",".intercalate (compactMembers members) ++ "\x7d"
  | other => scalarText other

/-- The elements of an array. -/
def compactItems : List Json → List String
  | [] => []
  | v :: rest => v.compact :: compactItems rest

/-- The members of an object. -/
def compactMembers : List (String × Json) → List String
  | [] => []
  | (k, v) :: rest => (stringText k ++ ":" ++ v.compact) :: compactMembers rest

end

/-- Lines between two brackets; nothing between them when there is none. -/
def bracketed (opening closing indent : String) : List String → String
  | [] => opening ++ closing
  | lines =>
    opening ++ "\n" ++ ",\n".intercalate (lines.map (indent ++ "  " ++ ·)) ++ "\n" ++ indent
      ++ closing

mutual

/-- A value with one member or element a line, two blanks for each level. -/
def prettyFrom (indent : String) : Json → String
  | .arr items => bracketed "[" "]" indent (prettyItems (indent ++ "  ") items)
  | .obj members =>
    bracketed "\x7b" "\x7d" indent (prettyMembers (indent ++ "  ") members)
  | other => scalarText other

/-- The elements of an array. -/
def prettyItems (indent : String) : List Json → List String
  | [] => []
  | v :: rest => prettyFrom indent v :: prettyItems indent rest

/-- The members of an object. -/
def prettyMembers (indent : String) : List (String × Json) → List String
  | [] => []
  | (k, v) :: rest =>
    (stringText k ++ ": " ++ prettyFrom indent v) :: prettyMembers indent rest

end

/-- A value with one member or element a line. -/
def pretty (v : Json) : String :=
  prettyFrom "" v

end TypeCatalog.Json
