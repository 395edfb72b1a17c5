import TypeCatalog.Document
import TypeCatalog.Pipeline

/-!
Extractions: the shapes of a document's roots, and all that was collected on the way.
-/

namespace TypeCatalog

/-- What an extraction yields. -/
structure Extraction where
  roots : List (String × Shape)
  catalog : Catalog

/-- An extraction in JSON. -/
def Extraction.toJson (x : Extraction) : Json :=
  .obj [("roots", .obj (Shape.tableToJson x.roots)), ("catalog", x.catalog.toJson)]

namespace Document

/-- The shapes of roots, first to last. -/
def rootShapes (p : Pipeline) (options : OptionSet) :
    List (String × Descriptor) → Build (List (String × Shape))
  | [] => return []
  | (name, d) :: rest => do
    let shape ← p.shape d options
    let shapes ← rootShapes p options rest
    return (name, shape) :: shapes

/-- Extract the roots of a document with a pipeline, in a session that may have seen others.
The definitions are those of the pipeline. -/
def extractWith (p : Pipeline) (doc : Document) (options : OptionSet) : Build Extraction := do
  let roots ← rootShapes p options doc.roots
  let registry ← Build.registry
  return ⟨roots, registry.catalog⟩

/-- Extract a document by itself. -/
def extract (doc : Document) (options : OptionSet) : Except ExtractError Extraction :=
  (doc.extractWith (.standard doc.definitions) options .start).1

end Document

end TypeCatalog
