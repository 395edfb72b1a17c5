import TypeCatalog.Registry

/-!
Builds: steps of an extraction that read and change the registry.

A build ends in a value or an error, and in either case with the state of the session.
`Build.collect` wraps the build of a named type: the name is claimed first, so that the type may
refer to itself, and a failed build takes its claim back.
-/

namespace TypeCatalog

/-- The state of a session. -/
structure Session where
  registry : Registry
  /-- Labels that recognizers have noted, first to last. -/
  journal : List String

/-- A session that has seen nothing. -/
def Session.start : Session := ⟨.empty, []⟩

/-- A step of an extraction. -/
def Build (α : Type) : Type :=
  Session → Except ExtractError α × Session

namespace Build

variable {α β : Type}

/-- The build of a value that is known. -/
def pure (a : α) : Build α := fun s => (.ok a, s)

/-- A build that fails. -/
def fail (e : ExtractError) : Build α := fun s => (.error e, s)

/-- One build after another. -/
def bind (first : Build α) (next : α → Build β) : Build β := fun s =>
  match first s with
  | (.ok a, s') => next a s'
  | (.error e, s') => (.error e, s')

instance : Monad Build where
  pure := pure
  bind := bind

/-- A value to put in the place of one that cannot be built. -/
def orElse (first : Build α) (a : α) : Build α := fun s =>
  match first s with
  | (.ok b, s') => (.ok b, s')
  | (.error _, s') => (.ok a, s')

/-- Look at the registry. -/
def registry : Build Registry := fun s => (.ok s.registry, s)

/-- Add a label to the journal. -/
def note (label : String) : Build Unit := fun s =>
  (.ok (), ⟨s.registry, s.journal ++ [label]⟩)

/-- Claim a name. -/
def claim (kind : CollectedKind) (name : String) (source : Descriptor) :
    Build Registry.Status := fun s =>
  let (answer, r) := s.registry.tryClaim kind name source
  (answer, ⟨r, s.journal⟩)

/-- Finish a claim. -/
def finalize (kind : CollectedKind) (name : String) (shape : Shape) : Build Shape := fun s =>
  let (answer, r) := s.registry.tryFinalize kind name shape
  (answer, ⟨r, s.journal⟩)

/-- Build the shape of a name that is claimed; if that fails, take the claim back. -/
def complete (kind : CollectedKind) (name : String) (build : Build Shape) : Build Shape :=
  fun s =>
  match build s with
  | (.ok shape, s') => finalize kind name shape s'
  | (.error e, s') => (.error e, ⟨s'.registry.abandon kind name, s'.journal⟩)

/-- The shape of a collected type: the finished one, a reference while it is being built, and
otherwise what `build` makes of it. -/
def collect (kind : CollectedKind) (name : String) (source : Descriptor) (build : Build Shape) :
    Build Shape := do
  match ← claim kind name source with
  | .done shape => return shape
  | .inProgress => return .reference name kind
  | .vacant => complete kind name build

end Build

end TypeCatalog
