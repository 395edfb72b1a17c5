import TypeCatalog.CommandLine.Command

/-!
Arguments of a call.

The first argument names a subcommand, and the others are read one by one by `Reading.word`.  A
switch that takes values opens, and the words up to the next switch are its values, as many as
it takes; a value may also be attached to its switch, which is then complete.  A switch is
checked once the next one begins.  `Command.ofArguments` is the command that arguments ask for
or what is wrong with them.
-/

namespace TypeCatalog.CommandLine

/-- Why arguments ask for no command. -/
inductive UsageError where
  /-- They ask for help. -/
  | help
  /-- There are none. -/
  | nothingGiven
  | unknownSubcommand
  | unknownArgument
  | missingInput
  /-- A switch without a value, or with one that it cannot have. -/
  | invalidValue
  /-- A switch that was given before. -/
  | givenTwice
  /-- A value for a switch that takes none. -/
  | surplusValue
deriving DecidableEq

/-! ## Switches -/

/-- What a word that begins with a dash names. -/
inductive Switch where
  | pointer
  | option
  | input
  | out
  | noOp
  | catalog
  | help
deriving DecidableEq

namespace Switch

/-- The word after two dashes. -/
def long : Switch → String
  | pointer => "json-pointer"
  | option => "option"
  | input => "input"
  | out => "out"
  | noOp => "no-op"
  | catalog => "catalog"
  | help => "help"

/-- The letter after one dash. -/
def short? : Switch → Option Char
  | option => some 'O'
  | input => some 'i'
  | out => some 'o'
  | help => some 'h'
  | _ => none

/-- Whether a switch takes values. -/
def isValued : Switch → Bool
  | pointer | option | input | out => true
  | noOp | catalog | help => false

/-- Whether a switch with this many values may take one more. -/
def takesMore (s : Switch) (given : Nat) : Bool :=
  s = input || given = 0

end Switch

/-- What the first argument names. -/
inductive Subcommand where
  | convert (f : Format)
  | listing

namespace Subcommand

/-- The subcommand of a word. -/
def ofName? (word : String) : Option Subcommand :=
  if word = "ir" then some (convert .ir)
  else if word = "schema" then some (convert .schema)
  else if word = "show" then some listing
  else none

/-- The switches that a subcommand knows. -/
def switches : Subcommand → List Switch
  | convert _ => [.pointer, .option, .input, .out, .noOp, .help]
  | listing => [.pointer, .option, .input, .catalog, .help]

/-- The switch of a word after two dashes. -/
def ofLong? (word : String) (c : Subcommand) : Option Switch :=
  c.switches.find? fun s => s.long = word

/-- The switch of a letter after one dash. -/
def ofShort? (letter : Char) (c : Subcommand) : Option Switch :=
  c.switches.find? fun s => s.short? = some letter

end Subcommand

/-! ## Settings -/

/-- What switches have set. -/
structure Settings where
  pointer : Option String
  options : List String
  inputs : List String
  out : Option String
  noOp : Bool
  catalog : Bool

namespace Settings

/-- Nothing is set. -/
def none : Settings := ⟨.none, [], [], .none, false, false⟩

/-- Set what a switch with its values stands for. -/
def set (s : Switch) (values : List String) (g : Settings) : Except UsageError Settings :=
  match s, values with
  | .pointer, value :: _ =>
    if g.pointer.isSome then .error .givenTwice else .ok { g with pointer := some value }
  | .option, value :: _ => .ok { g with options := g.options ++ [value] }
  | .input, value :: rest => .ok { g with inputs := g.inputs ++ value :: rest }
  | .out, value :: _ =>
    if g.out.isSome then .error .givenTwice
    else if value = "" then .error .invalidValue
    else .ok { g with out := some value }
  | .noOp, _ => if g.noOp then .error .givenTwice else .ok { g with noOp := true }
  | .catalog, _ => if g.catalog then .error .givenTwice else .ok { g with catalog := true }
  | .help, _ => .error .help
  | _, [] => .error .invalidValue

/-- The inputs that are set. -/
def toInputs (g : Settings) : Inputs :=
  ⟨g.pointer, g.options.map .ofName, g.inputs⟩

/-- The command that a subcommand is with its settings. -/
def command (g : Settings) : Subcommand → Command
  | .convert f => .convert ⟨f, g.toInputs, g.out, g.noOp⟩
  | .listing => .listing g.toInputs g.catalog

end Settings

/-! ## Reading words -/

/-- Words read so far: what they have set, the switch that is not set yet with its values, and
whether two dashes alone have ended the switches. -/
structure Reading where
  settings : Settings
  pending : Option (Switch × List String)
  ended : Bool

namespace Reading

/-- Nothing is read. -/
def start : Reading := ⟨.none, none, false⟩

/-- Set the switch that is not set yet. -/
def settle (r : Reading) : Except UsageError Settings :=
  match r.pending with
  | none => .ok r.settings
  | some (s, values) => r.settings.set s values

/-- A switch whose values are complete. -/
def complete (s : Switch) (values : List String) (r : Reading) : Except UsageError Reading := do
  return ⟨← (← r.settle).set s values, none, r.ended⟩

/-- A switch with the value that is attached to it, if there is one. -/
def switch (s : Switch) (attached : Option String) (r : Reading) : Except UsageError Reading := do
  match s.isValued, attached with
  | true, some value => r.complete s [value]
  | true, none => return ⟨← r.settle, some (s, []), r.ended⟩
  | false, some _ => throw .surplusValue
  | false, none => r.complete s []

/-- A word after two dashes, with a value after an equals sign. -/
def longWord (c : Subcommand) (text : List Char) (r : Reading) : Except UsageError Reading :=
  let (name, rest) := text.span (· ≠ '=')
  match c.ofLong? (String.ofList name) with
  | none => .error .unknownArgument
  | some s => r.switch s (if rest.isEmpty then none else some (String.ofList (rest.drop 1)))

/-- Letters after one dash; what follows a switch that takes values is its value. -/
def letters (c : Subcommand) : List Char → Reading → Except UsageError Reading
  | [], r => .ok r
  | letter :: rest, r =>
    match c.ofShort? letter with
    | none => .error .unknownArgument
    | some s =>
      if s.isValued then
        r.switch s (match rest with
          | [] => none
          | '=' :: value => some (String.ofList value)
          | value => some (String.ofList value))
      else
        match r.switch s none with
        | .error e => .error e
        | .ok r' => letters c rest r'

/-- A word that is no switch: a value of the switch that is open, if there is one. -/
def value (text : String) (r : Reading) : Except UsageError Reading :=
  match r.pending with
  | none => .error .unknownArgument
  | some (s, values) =>
    if s.takesMore values.length then .ok { r with pending := some (s, values ++ [text]) }
    else .error .unknownArgument

/-- The next word. -/
def word (c : Subcommand) (text : String) (r : Reading) : Except UsageError Reading :=
  if r.ended then .error .unknownArgument
  else
    match text.toList with
    | ['-', '-'] => .ok { r with ended := true }
    | '-' :: '-' :: rest => r.longWord c rest
    | '-' :: letter :: rest => r.letters c (letter :: rest)
    | _ => r.value text

/-- The words that follow. -/
def words (c : Subcommand) : List String → Reading → Except UsageError Reading
  | [], r => .ok r
  | text :: rest, r =>
    match r.word c text with
    | .error e => .error e
    | .ok r' => words c rest r'

end Reading

/-- The command of a subcommand with the arguments after it. -/
def Subcommand.read (arguments : List String) (c : Subcommand) : Except UsageError Command := do
  let settings ← (← Reading.start.words c arguments).settle
  if settings.inputs.isEmpty then throw .missingInput
  return settings.command c

/-! ## Calls -/

/-- Whether a word may stand where a subcommand does. -/
def isSubcommand (word : String) : Bool :=
  (Subcommand.ofName? word).isSome || word = "help"

/-- Why a first argument that is no subcommand asks for no command; the others follow it. -/
def usageError (first : String) (rest : List String) : UsageError :=
  match first.toList, rest with
  | ['-', '-'], [] => .nothingGiven
  | ['-', '-'], next :: _ => if isSubcommand next then .unknownArgument else .unknownSubcommand
  | '-' :: '-' :: name, _ =>
    if name = "help".toList then .help
    else if "help=".toList.isPrefixOf name then .surplusValue
    else .unknownArgument
  | '-' :: 'h' :: _, _ => .help
  | '-' :: _ :: _, _ => .unknownArgument
  | _, _ => .unknownSubcommand

/-- The command that arguments ask for. -/
def Command.ofArguments : List String → Except UsageError Command
  | [] => .error .nothingGiven
  | first :: rest =>
    match Subcommand.ofName? first with
    | some c => c.read rest
    | none =>
      if first = "help" then
        match rest with
        | [] => .error .help
        | [topic] => .error (if isSubcommand topic then .help else .unknownSubcommand)
        | _ => .error .unknownSubcommand
      else .error (usageError first rest)

end TypeCatalog.CommandLine
