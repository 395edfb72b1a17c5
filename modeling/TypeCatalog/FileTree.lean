import TypeCatalog.Assoc
import TypeCatalog.Text.Split

/-!
Files and directories.

A `FileTree` is a file with its text or a directory of named trees, and a `Place` is a tree
together with the directories around it.  A path is walked segment by segment: an empty segment
and `.` stay in the directory they are met in, `..` leaves it, any other name enters what it
names.  A `Disk` adds the directory that relative paths start from; it is read by `Disk.read`
and changed by `Disk.makeDirectories` and `Disk.write`.
-/

namespace TypeCatalog

/-- A file or a directory. -/
inductive FileTree where
  | file (text : String)
  | directory (entries : List (String × FileTree))

/-- Why a path cannot be used. -/
inductive FileError where
  | notFound
  | alreadyExists
  | notADirectory
  | isADirectory
  | nameTooLong
  /-- A zero character, with which no path is looked for at all. -/
  | zeroInPath
deriving DecidableEq

namespace FileError

/-- The wording of an error. -/
def message : FileError → String
  | notFound => "No such file or directory (os error 2)"
  | alreadyExists => "File exists (os error 17)"
  | notADirectory => "Not a directory (os error 20)"
  | isADirectory => "Is a directory (os error 21)"
  | nameTooLong => "File name too long (os error 36)"
  | zeroInPath => "file name contained an unexpected NUL byte"

end FileError

namespace FileTree

/-- A directory with nothing in it. -/
def empty : FileTree := directory []

instance : Inhabited FileTree := ⟨empty⟩

/-- Whether a tree is a directory. -/
def isDirectory : FileTree → Bool
  | file _ => false
  | directory _ => true

/-- The most bytes that a name has. -/
def nameLimit : Nat := 255

/-- The most bytes that a path has. -/
def pathLimit : Nat := 4095

/-- What a name stands for in a directory. -/
def entry (name : String) : FileTree → Except FileError FileTree
  | file _ => .error .notADirectory
  | directory entries =>
    if nameLimit < name.utf8ByteSize then .error .nameTooLong
    else
      match Assoc.find? name entries with
      | some t => .ok t
      | none => .error .notFound

/-- A directory with an entry written; a file is left as it is. -/
def setEntry (t : FileTree) (name : String) (new : FileTree) : FileTree :=
  match t with
  | file text => file text
  | directory entries => directory (Assoc.put name new entries)

mutual

/-- The texts of all files by their paths, each path after a beginning. -/
def texts (start : String) : FileTree → List (String × String)
  | file text => [(start, text)]
  | directory entries => entryTexts start entries

/-- `texts` of the entries of a directory. -/
def entryTexts (start : String) : List (String × FileTree) → List (String × String)
  | [] => []
  | (name, t) :: rest =>
    texts (if start.isEmpty then name else start ++ "/" ++ name) t ++ entryTexts start rest

end

end FileTree

/-- A tree seen from the root: by which names it is reached, and from which directories, the
nearest first. -/
structure Place where
  here : FileTree
  above : List (String × FileTree)

namespace Place

/-- The root of a tree. -/
def root (t : FileTree) : Place := ⟨t, []⟩

/-- The place of an entry. -/
def enter (name : String) (p : Place) : Except FileError Place :=
  match p.here.entry name with
  | .error e => .error e
  | .ok t => .ok ⟨t, (name, p.here) :: p.above⟩

/-- The directory around a place; the root is its own. -/
def leave (p : Place) : Place :=
  match p.above with
  | [] => p
  | (_, t) :: above => ⟨t, above⟩

/-- The place that one segment of a path leads to. -/
def step (segment : String) (p : Place) : Except FileError Place :=
  if segment = "" ∨ segment = "." then
    if p.here.isDirectory then .ok p else .error .notADirectory
  else if segment = ".." then
    if p.here.isDirectory then .ok p.leave else .error .notADirectory
  else p.enter segment

/-- The place that segments lead to. -/
def walk : List String → Place → Except FileError Place
  | [], p => .ok p
  | segment :: rest, p =>
    match p.step segment with
    | .error e => .error e
    | .ok q => walk rest q

/-- The whole tree, with this place as it is here. -/
def rebuild (here : FileTree) : List (String × FileTree) → FileTree
  | [] => here
  | (name, t) :: above => rebuild (t.setEntry name here) above

/-- The whole tree with an entry written at a place. -/
def write (name : String) (t : FileTree) (p : Place) : FileTree :=
  rebuild (p.here.setEntry name t) p.above

end Place

/-- A tree of files and the names from its root to the working directory. -/
structure Disk where
  tree : FileTree
  working : List String

namespace Disk

/-- The place at the end of segments, the first of which is empty in an absolute path. -/
def locate (segments : List String) (d : Disk) : Except FileError Place :=
  match segments with
  | "" :: _ => (Place.root d.tree).walk segments
  | _ =>
    match (Place.root d.tree).walk d.working with
    | .error e => .error e
    | .ok p => p.walk segments

/-- A path that is nowhere looked for: an empty one, one with a zero character, or one that is
longer than any path is. -/
def fault? (path : String) : Option FileError :=
  if path = "" then some .notFound
  else if path.any (· = '\x00') then some .zeroInPath
  else if FileTree.pathLimit < path.utf8ByteSize then some .nameTooLong
  else none

/-- The text of a file. -/
def read (path : String) (d : Disk) : Except FileError String :=
  match fault? path with
  | some e => .error e
  | none =>
    match d.locate (Text.split '/' path) with
    | .error e => .error e
    | .ok p =>
      match p.here with
      | .file text => .ok text
      | .directory _ => .error .isADirectory

/-! ## Writing

A path on its way to be written is the list of its segments, the last one first, so that what
it is in is a tail of it. -/

/-- The path of segments. -/
def pathOf (segments : List String) : String :=
  if segments = [""] then "/" else "/".intercalate segments.reverse

/-- A path and all that it is in, from the inside out.  Empty segments and `.` lead no further
in, unless they come first. -/
def nested : List String → List (List String)
  | [] => []
  | [first] => [[first]]
  | name :: before =>
    if name = "" ∨ name = "." then nested before else (name :: before) :: nested before

/-- The directories that a path is in, from the inside out. -/
def around (path : String) : List (List String) :=
  (nested (Text.split '/' path).reverse).drop 1

/-- Make one directory, which may be there already. -/
def makeDirectory (name : String) (before : List String) (d : Disk) : Except FileError Disk :=
  match fault? (pathOf (name :: before)) with
  | some e => .error e
  | none =>
    match d.locate before.reverse with
    | .error e => .error e
    | .ok p =>
      match p.step name with
      | .ok q => if q.here.isDirectory then .ok d else .error .alreadyExists
      | .error .notFound => .ok ⟨p.write name .empty, d.working⟩
      | .error e => .error e

/-- Make the first of some directories; if what it is in is missing, make the others before. -/
def makeDirectories : List (List String) → Disk → Except FileError Disk
  | (name :: before) :: others, d =>
    match d.makeDirectory name before with
    | .error .notFound =>
      match makeDirectories others d with
      | .error e => .error e
      | .ok made => made.makeDirectory name before
    | outcome => outcome
  | _, d => .ok d

/-- Write a file in a directory that is there.  A path that ends in a slash or in dots names a
directory. -/
def write (path text : String) (d : Disk) : Except FileError Disk :=
  let segments := (Text.split '/' path).reverse
  match fault? path, segments.dropWhile (· = "") with
  | some e, _ => .error e
  | none, [] => .error .isADirectory
  | none, name :: before =>
    match d.locate before.reverse with
    | .error e => .error e
    | .ok p =>
      if !p.here.isDirectory then .error .notADirectory
      else if segments.head? = some "" ∨ name = "." ∨ name = ".." then .error .isADirectory
      else
        match p.enter name with
        | .ok ⟨.directory _, _⟩ => .error .isADirectory
        | .ok ⟨.file _, _⟩ | .error .notFound => .ok ⟨p.write name (.file text), d.working⟩
        | .error e => .error e

/-- The texts of all files in the working directory and below, by their paths from there. -/
def texts (d : Disk) : List (String × String) :=
  match d.locate [] with
  | .error _ => []
  | .ok p => p.here.texts ""

end Disk

end TypeCatalog
