import TypeCatalog.Catalog
import TypeCatalog.Descriptor
import TypeCatalog.ExtractError

/-!
The registry of collected types.

A type is claimed, by kind and name, before its parts are looked at, and finalized once its
shape is known; in between the claim is provisional, and whoever meets the name again gets a
reference.  The registry is the list of all claims in the order in which they were made, so
the table of a kind is a part of it, and `abandon` undoes a claim by cutting the list where the
claim stands: what was claimed later was claimed on its behalf and goes with it.
-/

namespace TypeCatalog

namespace Registry

/-- A claim on a name. -/
structure Entry where
  kind : CollectedKind
  name : String
  /-- The descriptor that the name was claimed for. -/
  source : Descriptor
  /-- The shape, once it is known. -/
  shape? : Option Shape

/-- What no two claims share. -/
def Entry.key (e : Entry) : CollectedKind × String :=
  (e.kind, e.name)

/-- What a name stands for. -/
inductive Status where
  | vacant
  | inProgress
  | done (shape : Shape)

/-- What a claim makes of its name. -/
def Entry.status (e : Entry) : Status :=
  match e.shape? with
  | none => .inProgress
  | some shape => .done shape

end Registry

open Registry (Entry Status)

/-- The claims in the order in which they were made. -/
structure Registry where
  entries : List Entry
  distinct : (entries.map Entry.key).Nodup

namespace Registry

/-- No claims. -/
def empty : Registry := ⟨[], .nil⟩

instance : Inhabited Registry := ⟨empty⟩

/-- The claim on a name. -/
def find? (r : Registry) (kind : CollectedKind) (name : String) : Option Entry :=
  r.entries.find? fun e => e.key == (kind, name)

/-- What a name stands for. -/
def status (r : Registry) (kind : CollectedKind) (name : String) : Status :=
  match r.find? kind name with
  | none => .vacant
  | some e => e.status

theorem not_mem_of_find?_eq_none {r : Registry} {kind : CollectedKind} {name : String}
    (h : r.find? kind name = none) : (kind, name) ∉ r.entries.map Entry.key := by
  intro m
  obtain ⟨e, he, hk⟩ := List.mem_map.1 m
  have := List.find?_eq_none.1 h e he
  simp [hk] at this

/-- Put a claim on a free name behind the others. -/
def push (r : Registry) (kind : CollectedKind) (name : String) (source : Descriptor)
    (free : r.find? kind name = none) : Registry :=
  ⟨r.entries ++ [⟨kind, name, source, none⟩], by
    rw [List.map_append, List.nodup_append]
    refine ⟨r.distinct, by simp, ?_⟩
    intro a ha b hb
    simp only [List.map_cons, List.map_nil, List.mem_singleton] at hb
    intro eq
    rw [eq, hb] at ha
    exact not_mem_of_find?_eq_none free ha⟩

/-- Claim a name for a descriptor.  A free name is the caller's from now on; a name that is
claimed for another descriptor is a conflict.  What is left is told for a refusal as well. -/
def tryClaim (r : Registry) (kind : CollectedKind) (name : String) (source : Descriptor) :
    Except ExtractError Status × Registry :=
  match h : r.find? kind name with
  | none => (.ok .vacant, r.push kind name source h)
  | some e => if e.source.same source then (.ok e.status, r) else (.error (.conflict kind name), r)

/-- Write a shape into the claim on a name. -/
def fill (r : Registry) (kind : CollectedKind) (name : String) (shape : Shape) : Registry :=
  ⟨r.entries.map fun e =>
      if e.key = (kind, name) then ⟨e.kind, e.name, e.source, some shape⟩ else e,
    by
      rw [List.map_map]
      have : (Entry.key ∘ fun e : Entry =>
          if e.key = (kind, name) then ⟨e.kind, e.name, e.source, some shape⟩ else e) =
          Entry.key := by
        funext e
        simp only [Function.comp]
        split <;> rfl
      rw [this]
      exact r.distinct⟩

/-- Finish a claim.  A claim that is finished keeps its shape, and only the same one may be
given again. -/
def tryFinalize (r : Registry) (kind : CollectedKind) (name : String) (shape : Shape) :
    Except ExtractError Shape × Registry :=
  match r.find? kind name with
  | none => (.error (.unclaimed kind name), r)
  | some e =>
    match e.shape? with
    | none => (.ok shape, r.fill kind name shape)
    | some known => if known.same shape then (.ok known, r) else (.error (.conflict kind name), r)

/-- An answer that is no refusal, with what is left. -/
def granted {α : Type} : Except ExtractError α × Registry → Except ExtractError (α × Registry)
  | (.ok a, r) => .ok (a, r)
  | (.error fault, _) => .error fault

/-- Claim a name, where that is granted. -/
def claim (r : Registry) (kind : CollectedKind) (name : String) (source : Descriptor) :
    Except ExtractError (Status × Registry) :=
  granted (r.tryClaim kind name source)

/-- Finish a claim, where that is granted. -/
def finalize (r : Registry) (kind : CollectedKind) (name : String) (shape : Shape) :
    Except ExtractError (Shape × Registry) :=
  granted (r.tryFinalize kind name shape)

/-- The claims made before that on a name. -/
def before (r : Registry) (kind : CollectedKind) (name : String) : Registry :=
  ⟨r.entries.takeWhile fun e => e.key != (kind, name),
    r.distinct.sublist ((List.takeWhile_sublist _).map _)⟩

/-- Undo an unfinished claim and all that were made after it.  Finished claims stay. -/
def abandon (r : Registry) (kind : CollectedKind) (name : String) : Registry :=
  match r.status kind name with
  | .inProgress => r.before kind name
  | _ => r

/-- The finished shape of a name. -/
def get? (r : Registry) (kind : CollectedKind) (name : String) : Option Shape :=
  (r.find? kind name).bind Entry.shape?

/-- The finished entry of a claim of a kind. -/
def Entry.finished? (kind : CollectedKind) (e : Entry) : Option (String × Shape) :=
  if e.kind = kind then e.shape?.map (e.name, ·) else none

/-- The finished types of a kind, in the order of their claims. -/
def table (r : Registry) (kind : CollectedKind) : List (String × Shape) :=
  r.entries.filterMap (Entry.finished? kind)

/-- All finished types. -/
def catalog (r : Registry) : Catalog :=
  ⟨r.table .function, r.table .classType, r.table .record, r.table .typeAlias⟩

/-- The shape by which others know a name: a reference while its claim is provisional. -/
def known? (r : Registry) (kind : CollectedKind) (name : String) : Option Shape :=
  match r.status kind name with
  | .vacant => none
  | .inProgress => some (.reference name kind)
  | .done shape => some shape

/-- The first of some kinds under which a name is known. -/
def search (r : Registry) (kinds : List CollectedKind) (name : String) : Option Shape :=
  kinds.findSome? fun kind => r.known? kind name

end Registry

end TypeCatalog
