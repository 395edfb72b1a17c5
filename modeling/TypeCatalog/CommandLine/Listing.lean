import TypeCatalog.Extraction

/-!
Listings: extractions to be read.

A listing gives the path of a file, its roots with their type expressions and, when it is asked
for, the tables of the catalog that hold something.  On a terminal the path is bold, names and
titles have a colour, and a type expression is green unless nothing is known of the type.
-/

namespace TypeCatalog.CommandLine

/-- How text looks on a terminal. -/
inductive Style where
  | bold
  | red
  | green
  | yellow
  | cyan

namespace Style

/-- The number of a style. -/
def code : Style → Nat
  | bold => 1
  | red => 31
  | green => 32
  | yellow => 33
  | cyan => 36

/-- The mark that ends every style. -/
def reset : String := "\x1b[0m"

/-- The mark that begins a style. -/
def start (s : Style) : String :=
  "\x1b[" ++ toString s.code ++ "m"

/-- Text in a style, if styles are shown; the style begins again where the text itself ends
it. -/
def apply (s : Style) (shown : Bool) (text : String) : String :=
  if shown then s.start ++ text.replace reset (reset ++ s.start) ++ reset else text

end Style

/-- The fields of a collected shape, a line each. -/
def fieldLines (fields : List (String × Shape)) : List String :=
  fields.map fun (name, shape) => "      " ++ name ++ ": " ++ shape.render

/-- An entry of the catalog. -/
def entryLines (name : String) : Shape → List String
  | .classType _ fields _ => ("    " ++ name) :: fieldLines fields
  | .record _ fields total _ =>
    ("    " ++ name ++ " (total=" ++ (if total then "true" else "false") ++ ")")
      :: fieldLines fields
  | other => ["    " ++ name ++ " = " ++ other.render]

/-- A table of the catalog under its title, if it holds something. -/
def sectionLines (styled : Bool) (title : String) (table : List (String × Shape)) :
    List String :=
  if table.isEmpty then []
  else ("  " ++ Style.yellow.apply styled title)
    :: table.flatMap fun (name, shape) => entryLines name shape

/-- All tables of a catalog. -/
def catalogLines (styled : Bool) (c : Catalog) : List String :=
  sectionLines styled "classes" c.classes ++ sectionLines styled "records" c.records
    ++ sectionLines styled "functions" c.functions ++ sectionLines styled "aliases" c.aliases

/-- A root and its type expression. -/
def rootLine (styled : Bool) (name : String) (shape : Shape) : String :=
  let style := if shape.isUnknown then Style.red else Style.green
  "  " ++ Style.cyan.apply styled name ++ ": " ++ style.apply styled shape.render

/-- What there is to read of one file. -/
def extractionLines (styled catalog : Bool) (path : String) (x : Extraction) : List String :=
  Style.bold.apply styled path :: x.roots.map (fun (name, shape) => rootLine styled name shape)
    ++ (if catalog then catalogLines styled x.catalog else [])

end TypeCatalog.CommandLine
