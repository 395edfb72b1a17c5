import TypeCatalog.CommandLine.Arguments
import TypeCatalog.CommandLine.Run

/-!
The program.  It copies onto a `Disk` what a command may look at, runs the command there, and
carries out what the run printed and wrote.
-/

namespace TypeCatalog.Main

open CommandLine

/-- The names in a directory; none when the path is no directory that can be read. -/
def namesIn (path : String) : IO (Option (List String)) := do
  try
    let entries ← ((← IO.currentDir) / path).readDir
    return some (entries.toList.map (·.fileName))
  catch _ => return none

/-- A disk with one more file or directory, as far as there is room for it. -/
def place (path : String) (text : Option String) (d : Disk) : Disk :=
  let made := match text with
    | none => d.makeDirectories (Disk.nested (Text.split '/' path).reverse)
    | some text => d.write path text
  made.toOption.getD d

/-- Copy what a path leads to and the directories on the way. -/
def copy (path : String) (d : Disk) : IO Disk := do
  let mut d := d
  let mut front := ""
  for segment in Text.split '/' path do
    front := front ++ segment
    if !segment.isEmpty then
      if (← namesIn front).isSome then d := place front none d
      else
        try d := place front (some (← IO.FS.readFile front)) d
        catch _ => pure ()
    front := front ++ "/"
  return d

/-- Copy the names of all that is below a directory. -/
partial def copyNames (path : String) (d : Disk) : IO Disk := do
  match ← namesIn path with
  | none => return place path (some "") d
  | some names =>
    let mut d := place path none d
    for name in names do
      d ← copyNames (path ++ "/" ++ name) d
    return d

/-- The path in front of the first segment of a pattern that has a wildcard. -/
def fixedPart (pattern : String) : String :=
  let segments := (Text.split '/' pattern).takeWhile fun s => !Glob.isPattern s
  if segments.isEmpty then "." else "/".intercalate segments

/-- Copy what inputs stand for. -/
def copyInputs (i : Inputs) (d : Disk) : IO Disk := do
  let mut d := d
  for path in i.paths do
    if Glob.isPattern path then d ← copyNames (fixedPart path) (← copy (fixedPart path) d)
  for path in (Inputs.expandAll d i.paths).toOption.getD [] do
    d ← copy path d
  return d

/-- The working directory, with nothing in it. -/
def workingDisk : IO Disk := do
  let path := (← IO.currentDir).toString
  let segments := (Text.split '/' path).filter (!·.isEmpty)
  return place ("/" ++ "/".intercalate segments) none ⟨.empty, segments⟩

/-- Write a file as a run has left it. -/
def carryOut (path : String) (d : Disk) : IO Unit := do
  if let .ok text := d.read path then
    if let directory :: _ := Disk.around path then IO.FS.createDirAll (Disk.pathOf directory)
    IO.FS.writeFile path text

/-- Run a command on the files that there are. -/
def runCommand (c : Command) (styled : Bool) : IO UInt32 := do
  let (inputs, out) := match c with
    | .convert c => (c.inputs, c.out)
    | .listing inputs _ => (inputs, none)
  let d ← copyInputs inputs (← workingDisk)
  let d ← match out with
    | none => pure d
    | some path => copy path d
  let outcome := c.run styled d
  IO.print outcome.stdout
  IO.eprint outcome.stderr
  match outcome.error with
  | some e =>
    IO.eprintln ("Error: " ++ e.message)
    return 1
  | none =>
    if let some path := out then carryOut path outcome.disk
    return 0

/-- How the program is called. -/
def usage : String :=
  "usage: ir|schema -i PATH... [-O OPTION]... [--json-pointer POINTER] [-o FILE] [--no-op]\n"
    ++ "       show -i PATH... [-O OPTION]... [--json-pointer POINTER] [--catalog]"

end TypeCatalog.Main

open TypeCatalog CommandLine in
/-- Do what the arguments ask for. -/
def main (arguments : List String) : IO UInt32 := do
  match Command.ofArguments arguments with
  | .error .help =>
    IO.println Main.usage
    return 0
  | .error _ =>
    IO.eprintln Main.usage
    return 2
  | .ok command =>
    let styled := (← (← IO.getStdout).isTty) && (← IO.getEnv "NO_COLOR").isNone
    Main.runCommand command styled
