import TypeCatalog.ExtractOption
import TypeCatalog.Text.Quoted

/-!
Commands: what a call of the program asks for.

A command names its inputs and either writes what was extracted as JSON, in one of two formats,
or lists it to be read.  `Command.outline` shows a command with all its settings, for a call
that is to do nothing.
-/

namespace TypeCatalog.CommandLine

/-- Which documents to extract, and how. -/
structure Inputs where
  /-- Where in each file the document is; the whole of it when there is no pointer. -/
  pointer : Option String
  options : List ExtractOption
  /-- Paths of files and patterns of such paths. -/
  paths : List String

/-- What to write of an extraction. -/
inductive Format where
  /-- The shapes of the roots and the catalog. -/
  | ir
  /-- A schema for every root. -/
  | schema

/-- A writing of JSON. -/
structure Conversion where
  format : Format
  inputs : Inputs
  /-- The file to write; the standard output when there is none. -/
  out : Option String
  /-- Show the settings and do nothing. -/
  noOp : Bool

/-- What a call asks for. -/
inductive Command where
  | convert (c : Conversion)
  /-- Type expressions, and those of the catalog when it is asked for. -/
  | listing (inputs : Inputs) (catalog : Bool)

/-! ## Outlines -/

/-- Lines between an opening and a closing one.  Every item is indented and ends in a comma;
with no item the two ends stand in one line. -/
def block (opening closing : String) (items : List (List String)) : List String :=
  if items.isEmpty then [opening ++ closing]
  else
    let indented := items.flatMap fun lines =>
      (lines.dropLast ++ (lines.getLast?.toList.map (· ++ ","))).map ("    " ++ ·)
    opening :: indented ++ [closing]

/-- Lines under a label. -/
def labelled (label : String) : List String → List String
  | [] => []
  | first :: rest => (label ++ ": " ++ first) :: rest

/-- A record of fields. -/
def recordOutline (name : String) (fields : List (String × List String)) : List String :=
  block (name ++ " \x7b") "\x7d" (fields.map fun (label, lines) => labelled label lines)

/-- A value under a name. -/
def wrapped (name : String) (lines : List String) : List String :=
  block (name ++ "(") ")" [lines]

/-- A value that may be absent. -/
def optionalOutline : Option String → List String
  | none => ["None"]
  | some text => wrapped "Some" [text]

/-- The outline of an option. -/
def optionOutline : ExtractOption → List String
  | .collapseOptional => ["CollapseOptional"]
  | .sortFields => ["SortFields"]
  | .custom name => wrapped "Custom" [Text.quoted name]

/-- The outline of inputs. -/
def Inputs.outline (i : Inputs) : List String :=
  recordOutline "InputSettings"
    [("json_pointer", optionalOutline (i.pointer.map Text.quoted)),
      ("options", block "[" "]" (i.options.map optionOutline)),
      ("input", block "[" "]" (i.paths.map fun path => [Text.quoted path]))]

/-- The name of a format in an outline. -/
def Format.title : Format → String
  | ir => "Ir"
  | schema => "Schema"

/-- The outline of a conversion. -/
def Conversion.outline (c : Conversion) : List String :=
  recordOutline "CommandLineInterface"
    [("cmd", wrapped c.format.title
      (recordOutline "JsonOut"
        [("input_settings", c.inputs.outline),
          ("out", optionalOutline (c.out.map Text.quoted)),
          ("no_op", [if c.noOp then "true" else "false"])]))]

end TypeCatalog.CommandLine
