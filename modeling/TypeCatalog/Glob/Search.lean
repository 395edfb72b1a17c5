import TypeCatalog.FileTree
import TypeCatalog.Glob

/-!
The paths on a disk that a pattern takes.

A `Candidate` is a place with the path that led to it.  `Glob.select` follows the components of
a pattern: a name leads to the place it names, if that is there; a wildcard leads to each entry
of a directory that it takes, in the order of names, after the directories that dots name if it
spells those; any depth leads to all that is below, each directory before what is in it.
-/

namespace TypeCatalog

namespace FileTree

/-- The names of the entries of a tree, in order; a file has none. -/
def entryNames : FileTree → List String
  | file _ => []
  | directory entries => Assoc.keys (Assoc.sortKeys entries)

mutual

/-- The names that lead from a tree to each place below it. -/
def trails : FileTree → List (List String)
  | file _ => []
  | directory entries => entryTrails entries

/-- The names that lead to each of some entries and to each place below them. -/
def entryTrails : List (String × FileTree) → List (List String)
  | [] => []
  | (name, t) :: rest => ([name] :: (trails t).map (name :: ·)) ++ entryTrails rest

end

/-- The names that lead to each place below a tree, in order, and so each directory before what
is in it. -/
def sortedTrails (t : FileTree) : List (List String) :=
  t.trails.mergeSort fun a b => !b.lex a fun x y => decide (x < y)

end FileTree

namespace Glob

/-- A place and the path that led to it. -/
structure Candidate where
  path : String
  place : Place

namespace Candidate

/-- Whether the path is one of those that stand for the working directory. -/
def isWorking (c : Candidate) : Bool :=
  match Text.split '/' c.path with
  | "." :: rest => rest.all fun s => s = "" || s = "."
  | _ => false

/-- The path with one more segment. -/
def joined (segment : String) (c : Candidate) : String :=
  if c.path.endsWith "/" then c.path ++ segment else c.path ++ "/" ++ segment

/-- The candidate that a segment leads to.  In the working directory the segment is the whole
path. -/
def next? (segment : String) (c : Candidate) : Option Candidate :=
  match c.place.step segment with
  | .error _ => none
  | .ok place => some ⟨if c.isWorking then segment else c.joined segment, place⟩

/-- The candidate that a name in a pattern leads to, if its path can be looked for; dots always
can. -/
def named? (name : String) (c : Candidate) : Option Candidate :=
  (c.next? name).filter fun q => name = "." || name = ".." || (Disk.fault? q.path).isNone

/-- The candidate that names lead to. -/
def follow? : List String → Candidate → Option Candidate
  | [], c => some c
  | name :: rest, c => (c.next? name).bind (follow? rest)

/-- The candidate that dots lead to, which keep the path that they follow. -/
def dots? (segment : String) (c : Candidate) : Option Candidate :=
  match c.place.step segment with
  | .error _ => none
  | .ok place => some ⟨c.joined segment, place⟩

/-- The candidates in a directory whose names a test takes. -/
def children (takes : String → Bool) (c : Candidate) : List Candidate :=
  (c.place.here.entryNames.filter takes).filterMap (c.next? ·)

/-- The candidates for dots that a test takes. -/
def dotted (takes : String → Bool) (c : Candidate) : List Candidate :=
  (["..", "."].filter takes).filterMap (c.dots? ·)

/-- The candidates below a directory whose names a test takes. -/
def descendants (takes : String → Bool) (c : Candidate) : List Candidate :=
  (c.place.here.sortedTrails.filter fun names => names.getLast?.any takes).filterMap (c.follow? ·)

end Candidate

/-- Whether a component spells the dot that a name begins with. -/
def Component.spellsDot : Component → Bool
  | wild (.char '.' :: _) => true
  | _ => false

/-- What components lead to. -/
def select : List Component → Candidate → List Candidate
  | [], c => [c]
  | .name name :: rest, c => (c.named? name).toList.flatMap (select rest)
  | .wild tokens :: rest, c =>
    let component := Component.wild tokens
    ((if component.spellsDot then c.dotted component.takes else [])
      ++ c.children component.takes).flatMap (select rest)
  | [.anyDepth], c => (c.descendants fun _ => true).filter (·.place.here.isDirectory)
  | .anyDepth :: component :: rest, c => (c.descendants component.takes).flatMap (select rest)

/-- The paths that a pattern takes. -/
def search (g : Glob) (d : Disk) : List String :=
  match d.locate (if g.absolute then [""] else []) with
  | .error _ => []
  | .ok place =>
    ((select g.components ⟨if g.absolute then "/" else ".", place⟩).filter fun c =>
      !g.directoriesOnly || c.place.here.isDirectory).map Candidate.path

end Glob

end TypeCatalog
