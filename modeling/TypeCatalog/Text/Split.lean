/-!
Text cut at every separator.  A text has one piece more than it has separators, so the empty
text has one piece, and joining the pieces gives the text back.
-/

namespace TypeCatalog.Text

/-- The characters before the first separator, and the pieces after it. -/
def pieces (separator : Char) : List Char → List Char × List (List Char)
  | [] => ([], [])
  | c :: rest =>
    let (first, others) := pieces separator rest
    if c = separator then ([], first :: others) else (c :: first, others)

/-- The pieces of a text. -/
def split (separator : Char) (text : String) : List String :=
  let (first, others) := pieces separator text.toList
  (first :: others).map String.ofList

end TypeCatalog.Text
