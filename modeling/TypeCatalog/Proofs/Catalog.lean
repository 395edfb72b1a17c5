import TypeCatalog.Proofs.Growth
import TypeCatalog.Proofs.Tables

/-!
What the catalog of a registry holds.

A catalog shows the finished claims of a registry and no others (`mem_table`), so looking a type
up in it is looking for a finished claim (`catalog_get?`).  A type that is in the catalog stays in
it while the registry grows (`get?_of_grows`).
-/

namespace TypeCatalog.Registry

variable {r r' : Registry} {kind : CollectedKind} {name : String} {shape : Shape}

/-- The table of a kind holds the claims of the kind that are finished. -/
theorem mem_table :
    (name, shape) ∈ r.table kind ↔
      ∃ e ∈ r.entries, e.key = (kind, name) ∧ e.shape? = some shape := by
  unfold table
  rw [List.mem_filterMap]
  refine exists_congr fun e => and_congr_right fun _ => ?_
  unfold Entry.finished? Entry.key
  split
  · rename_i eq
    simp [eq, and_comm]
  · rename_i ne
    simp [ne]

/-- No name is twice in the table of a kind. -/
theorem distinct_table (r : Registry) (kind : CollectedKind) : Assoc.Distinct (r.table kind) := by
  have apart : r.entries.Pairwise fun a b => a.key ≠ b.key := List.pairwise_map.1 r.distinct
  unfold Assoc.Distinct Assoc.keys table
  rw [List.Nodup, List.pairwise_map, List.pairwise_filterMap]
  refine apart.imp ?_
  rintro a b ne ⟨n, x⟩ hx ⟨n', x'⟩ hx' rfl
  unfold Entry.finished? at hx hx'
  split at hx <;> split at hx'
  · rename_i ka kb
    simp only [Option.map_eq_some_iff, Prod.mk.injEq] at hx hx'
    obtain ⟨_, _, nameA, _⟩ := hx
    obtain ⟨_, _, nameB, _⟩ := hx'
    exact ne (Prod.ext (ka.trans kb.symm) (nameA.trans nameB.symm))
  · cases hx'
  · cases hx
  · cases hx

theorem catalog_table : r.catalog.table kind = r.table kind := by
  cases kind <;> rfl

/-- A catalog is looked into as its registry is. -/
theorem catalog_get? : r.catalog.get? kind name = r.get? kind name := by
  apply Option.ext
  intro x
  unfold Catalog.get?
  rw [catalog_table, Assoc.find?_eq_some_iff (distinct_table r kind), mem_table,
    get?_eq_some_iff]

/-- A shape that is finished stays where the registry grows. -/
theorem get?_of_grows (grown : r.Grows r') (h : r.get? kind name = some shape) :
    r'.get? kind name = some shape := by
  obtain ⟨e, he, key, finished⟩ := get?_eq_some_iff.1 h
  exact get?_eq_some_iff.2 ⟨e, grown.mem he, key, finished⟩

/-! ## Registries at rest -/

/-- Nothing is being built: every claim is finished. -/
def AtRest (r : Registry) : Prop :=
  ∀ e ∈ r.entries, e.shape? ≠ none

theorem atRest_empty : AtRest empty := fun _ h => absurd h List.not_mem_nil

/-- A registry at rest grows into one at rest. -/
theorem AtRest.of_grows (rest : r.AtRest) (grown : r.Grows r') : r'.AtRest := by
  obtain ⟨fresh, eq, finished⟩ := grown
  intro e he
  rw [eq] at he
  rcases List.mem_append.1 he with old | new
  · exact rest e old
  · exact finished e new

/-- Every name that is claimed in a registry at rest is in its catalog. -/
theorem AtRest.exists_get? (rest : r.AtRest) (claimed : (kind, name) ∈ r.keys) :
    ∃ target, r.get? kind name = some target := by
  obtain ⟨e, he, key⟩ := List.mem_map.1 claimed
  obtain ⟨target, finished⟩ := Option.ne_none_iff_exists'.1 (rest e he)
  exact ⟨target, get?_eq_some_iff.2 ⟨e, he, key, finished⟩⟩

end TypeCatalog.Registry
