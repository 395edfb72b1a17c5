import TypeCatalog.CommandLine.Command
import TypeCatalog.CommandLine.Listing
import TypeCatalog.Glob.Search
import TypeCatalog.Json.Pointer
import TypeCatalog.Json.Printer
import TypeCatalog.Schema.OfShape

/-!
Runs of a command on a disk.

Every input is extracted by itself before anything is written, so what one file yields does not
depend on the others, and a run that cannot extract one of them writes nothing.  One input is
written bare, several are written under their paths, a path that is given twice once.
-/

namespace TypeCatalog.CommandLine

/-! ## Errors -/

/-- Why an input cannot be extracted. -/
inductive InputError where
  | unreadable (e : FileError)
  | malformed (m : Json.Malformed)
  | nothingAt (pointer : String)
  | rejected (r : Rejection)
  | failed (e : ExtractError)

/-- The wording of an input's error. -/
def InputError.message : InputError → String
  | unreadable e => "failed to read source file: " ++ e.message
  | malformed m =>
    "failed to parse JSON: " ++ m.error.message ++ " at line " ++ toString m.position.line
      ++ " column " ++ toString m.position.column
  | nothingAt pointer => "JSON pointer " ++ pointer ++ " selects nothing"
  | rejected r => r.message
  | failed e => e.message

/-- Why a run ends early. -/
inductive RunError where
  | badPattern (m : Glob.Malformed)
  | noMatch (pattern : String)
  | input (path : String) (e : InputError)
  /-- The directory of the output cannot be made. -/
  | noDirectory (e : FileError)
  | unwritable (path : String) (e : FileError)

/-- The wording of a run's error. -/
def RunError.message : RunError → String
  | badPattern m => m.message
  | noMatch pattern => "glob pattern matched no files: " ++ pattern
  | input path e => "failed to extract " ++ path ++ ": " ++ e.message
  | noDirectory e => e.message
  | unwritable path e => "failed to write " ++ path ++ ": " ++ e.message

/-! ## Inputs -/

namespace Inputs

/-- The paths that a path stands for: those that it takes, if it is a pattern, or itself. -/
def expand (d : Disk) (path : String) : Except RunError (List String) :=
  if Glob.isPattern path then
    match Glob.ofText path with
    | .error m => .error (.badPattern m)
    | .ok glob =>
      match glob.search d with
      | [] => .error (.noMatch path)
      | found => .ok found
  else .ok [path]

/-- The paths that paths stand for, first to last. -/
def expandAll (d : Disk) : List String → Except RunError (List String)
  | [] => .ok []
  | path :: rest =>
    match expand d path with
    | .error e => .error e
    | .ok found =>
      match expandAll d rest with
      | .error e => .error e
      | .ok others => .ok (found ++ others)

/-- The part of a value that is the document. -/
def selected (i : Inputs) (v : Json) : Except InputError Json :=
  match i.pointer with
  | none => .ok v
  | some pointer =>
    match v.select? pointer with
    | none => .error (.nothingAt pointer)
    | some part => .ok part

/-- Extract the document in a text. -/
def extractText (i : Inputs) (text : String) : Except InputError Extraction :=
  match Json.parse text with
  | .error m => .error (.malformed m)
  | .ok v =>
    match i.selected v with
    | .error e => .error e
    | .ok part =>
      match Document.ofJson part with
      | .error r => .error (.rejected r)
      | .ok doc => (doc.extract (.ofList i.options)).mapError .failed

/-- Extract the document in a file. -/
def extractFile (i : Inputs) (d : Disk) (path : String) : Except InputError Extraction :=
  match d.read path with
  | .error e => .error (.unreadable e)
  | .ok text => i.extractText text

/-- Extract the documents in files, first to last, each by itself. -/
def extractFiles (i : Inputs) (d : Disk) :
    List String → Except RunError (List (String × Extraction))
  | [] => .ok []
  | path :: rest =>
    match i.extractFile d path with
    | .error e => .error (.input path e)
    | .ok x =>
      match extractFiles i d rest with
      | .error e => .error e
      | .ok others => .ok ((path, x) :: others)

/-- Extract all inputs. -/
def extractAll (i : Inputs) (d : Disk) : Except RunError (List (String × Extraction)) :=
  match expandAll d i.paths with
  | .error e => .error e
  | .ok paths => i.extractFiles d paths

end Inputs

/-! ## Outputs -/

/-- The schemas of all roots. -/
def rootSchemas (x : Extraction) : List (String × Json) :=
  Assoc.mapValues (fun root => (Schema.document root x.catalog).toJson) x.roots

/-- An extraction in a format. -/
def Format.json : Format → Extraction → Json
  | ir, x => x.toJson
  | schema, x => .obj (rootSchemas x)

/-- The values of several files under their paths, the value of one file bare. -/
def gathered : List (String × Json) → Json
  | [(_, v)] => v
  | values => .obj (Assoc.ofPairs values)

/-- What a conversion writes. -/
def Conversion.value (c : Conversion) (d : Disk) : Except RunError Json :=
  match c.inputs.extractAll d with
  | .error e => .error e
  | .ok extractions => .ok (gathered (Assoc.mapValues c.format.json extractions))

/-- Lines of text, each of them ended. -/
def ended (lines : List String) : String :=
  String.join (lines.map (· ++ "\n"))

/-- What a run leaves behind. -/
structure Outcome where
  stdout : String
  stderr : String
  disk : Disk
  error : Option RunError

namespace Outcome

/-- A run that ends early and has printed nothing. -/
def failed (d : Disk) (e : RunError) : Outcome := ⟨"", "", d, some e⟩

/-- A run that prints. -/
def printed (d : Disk) (text : String) : Outcome := ⟨text, "", d, none⟩

end Outcome

/-- Write a file, in a directory that is made if it is not there. -/
def save (path text : String) (d : Disk) : Except RunError Disk :=
  match d.makeDirectories (Disk.around path) with
  | .error e => .error (.noDirectory e)
  | .ok made => (made.write path text).mapError (.unwritable path)

/-- Run a conversion. -/
def Conversion.run (c : Conversion) (d : Disk) : Outcome :=
  if c.noOp then ⟨"", ended c.outline, d, none⟩
  else
    match c.value d with
    | .error e => .failed d e
    | .ok v =>
      match c.out with
      | none => .printed d (v.pretty ++ "\n")
      | some path =>
        match save path v.pretty d with
        | .error e => .failed d e
        | .ok saved => .printed saved ""

/-- Run a command; `styled` when the output is for a terminal with colours. -/
def Command.run (c : Command) (styled : Bool) (d : Disk) : Outcome :=
  match c with
  | .convert c => c.run d
  | .listing inputs catalog =>
    match inputs.extractAll d with
    | .error e => .failed d e
    | .ok extractions =>
      .printed d (ended (extractions.flatMap fun (path, x) =>
        extractionLines styled catalog path x))

end TypeCatalog.CommandLine
