import TypeCatalog.Text.Glyphless

/-!
Text between double quotes, as messages and type expressions show it: quotes, backslashes and
the common controls by a letter, every other character without a glyph by its code point.
-/

namespace TypeCatalog.Text

/-- One character between quotes. -/
def quotedChar (c : Char) : String :=
  if c = '\x00' then "\\0"
  else if c = '\t' then "\\t"
  else if c = '\r' then "\\r"
  else if c = '\n' then "\\n"
  else if c = '"' then "\\\""
  else if c = '\\' then "\\\\"
  else if isGlyphless c then
    "\\u\x7b" ++ String.ofList (Nat.toDigits 16 c.toNat) ++ "\x7d"
  else c.toString

/-- Text in double quotes. -/
def quoted (s : String) : String :=
  "\"" ++ String.join (s.toList.map quotedChar) ++ "\""

end TypeCatalog.Text
