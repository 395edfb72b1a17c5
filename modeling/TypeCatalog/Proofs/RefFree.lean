import Mathlib.Logic.Relation
import TypeCatalog.Proofs.Growth
import TypeCatalog.Proofs.Sameness

/-!
Descriptors without references.

Only a reference leads out of a descriptor: what is collected from a descriptor without any has a
name of its own, and its parts are in it or left out (`RefFree.part`, `RefFree.collected`).  As
nothing is the same as what it is inside of (`not_same_of_inside`), a type that is being built is
not met again while its parts are (`Ahead.finished_of_same`).
-/

namespace TypeCatalog

namespace Descriptor

variable {definitions : List (String × Descriptor)} {a b c d : Descriptor}

/-! ## No references -/

/-- There is no reference in a descriptor, at any depth. -/
inductive RefFree : Descriptor → Prop
  | intro {d : Descriptor} : (∀ name, d ≠ ref name) → (∀ c ∈ d.components, RefFree c) → RefFree d

theorem RefFree.not_ref (free : d.RefFree) (name : String) : d ≠ ref name := by
  cases free with
  | intro notRef _ => exact notRef name

theorem RefFree.component (free : d.RefFree) (hc : c ∈ d.components) : c.RefFree := by
  cases free with
  | intro _ components => exact components c hc

theorem RefFree.of_leaf (notRef : ∀ name, d ≠ ref name) (leaf : d.components = []) : d.RefFree :=
  .intro notRef fun c hc => by rw [leaf] at hc; cases hc

/-- A part of a descriptor without references is in it, or left out. -/
theorem RefFree.part_cases (free : d.RefFree) (hp : c ∈ d.parts definitions) :
    c ∈ d.components ∨ c = empty := by
  rcases Descriptor.part_cases hp with component | left | ⟨name, eq, -⟩
  · exact .inl component
  · exact .inr left
  · exact absurd eq (free.not_ref name)

theorem RefFree.part (free : d.RefFree) (hp : c ∈ d.parts definitions) : c.RefFree := by
  rcases free.part_cases hp with component | rfl
  · exact free.component component
  · exact .of_leaf (fun _ eq => by cases eq) rfl

theorem RefFree.distinct_part (free : d.RefFree) (distinct : d.Distinct)
    (hp : c ∈ d.parts definitions) : c.Distinct := by
  rcases free.part_cases hp with component | rfl
  · exact distinct.component component
  · exact .of_leaf trivial rfl

theorem RefFree.not_unresolved (free : d.RefFree) (name : String) :
    d.reading definitions ≠ .unresolved name :=
  fun reading => free.not_ref name (unresolved_cases reading).1

/-- What is collected without references is collected under a name of its own. -/
theorem RefFree.collected (free : d.RefFree) {kind : CollectedKind} {name : String}
    {source : Descriptor} (reading : d.reading definitions = .collected kind name source) :
    d.ownKey? = some (kind, name) ∧ source = d := by
  rcases collected_cases reading with own | ⟨eq, -⟩
  · exact own
  · exact absurd eq (free.not_ref name)

/-! ## Inside of a descriptor -/

/-- A descriptor is in another one, at some depth. -/
def Inside : Descriptor → Descriptor → Prop :=
  Relation.TransGen fun c d => c ∈ d.components

/-- A component of a descriptor is the same as some component of each one that is the same. -/
theorem exists_component_of_same (h : Same a b) (hc : c ∈ a.components) :
    ∃ c' ∈ b.components, Same c c' := by
  have ofLists : ∀ {as bs : List Descriptor}, List.Forall₂ Same as bs → c ∈ as →
      ∃ c' ∈ bs, Same c c' := fun related mem => exists_of_forall₂_of_mem related.flip mem
  have ofTables : ∀ {as bs : List (String × Descriptor)}, Assoc.Agree Same as bs →
      c ∈ as.map Prod.snd → ∃ c' ∈ bs.map Prod.snd, Same c c' := by
    intro as bs agree mem
    obtain ⟨⟨key, c⟩, entry, rfl⟩ := List.mem_map.1 mem
    obtain ⟨c', found, same⟩ := agree.within key c entry
    exact ⟨c', List.mem_map_of_mem (f := Prod.snd) (Assoc.mem_of_find? found), same⟩
  cases same_iff.1 h with
  | generic args => exact ofLists args hc
  | union members => exact ofLists members hc
  | typeVar bound constraints => exact ofLists (List.rel_append bound constraints) hc
  | classDecl fields => exact ofTables fields hc
  | typedDict fields => exact ofTables fields hc
  | newType supertype => exact ofLists (.cons supertype .nil) hc
  | parameterized base args => exact ofLists (.cons base args) hc
  | function annotations => exact ofTables annotations hc
  | _ => cases hc

/-- Nothing is the same as what it is inside of. -/
theorem not_same_of_inside (inside : Inside c d) : ¬Same d c := by
  induction d using components_induction generalizing c with
  | step d ih =>
    intro same
    -- the component of `d` that leads to `c` is the same as a component of `c`, and around it
    obtain ⟨e, he, around⟩ : ∃ e ∈ d.components, c = e ∨ Inside c e := by
      cases inside with
      | single component => exact ⟨c, component, .inl rfl⟩
      | tail within component => exact ⟨_, component, .inr within⟩
    obtain ⟨e', he', same'⟩ := exists_component_of_same same he
    have within : Inside e' e := by
      rcases around with rfl | around
      · exact .single he'
      · exact .head he' around
    exact ih e he within same'

end Descriptor

namespace Registry

open Descriptor (Inside Same)

variable {r r' : Registry} {d c : Descriptor} {definitions : List (String × Descriptor)}

/-- The types that are being built are ahead of a descriptor: it is inside of them, or left out. -/
def Ahead (d : Descriptor) (r : Registry) : Prop :=
  ∀ e ∈ r.entries, e.shape? = none → d = .empty ∨ Inside d e.source

theorem Ahead.of_grows (ahead : r.Ahead d) (grown : r.Grows r') : r'.Ahead d := by
  obtain ⟨fresh, eq, finished⟩ := grown
  intro e he unfinished
  rw [eq] at he
  rcases List.mem_append.1 he with old | new
  · exact ahead e old unfinished
  · exact absurd unfinished (finished e new)

/-- What is ahead of a descriptor is ahead of its parts. -/
theorem Ahead.part (ahead : r.Ahead d) (free : d.RefFree) (hp : c ∈ d.parts definitions) :
    r.Ahead c := by
  intro e he unfinished
  rcases free.part_cases hp with component | rfl
  · rcases ahead e he unfinished with rfl | inside
    · cases component
    · exact .inr (.head component inside)
  · exact .inl rfl

/-- So is a type itself once its name is claimed. -/
theorem Ahead.part_push (ahead : r.Ahead d) (free : d.RefFree) {kind : CollectedKind}
    {name : String} (vacant : r.find? kind name = none) (hp : c ∈ d.parts definitions) :
    (r.push kind name d vacant).Ahead c := by
  intro e he unfinished
  rw [push_entries] at he
  rcases List.mem_append.1 he with old | new
  · exact ahead.part free hp e old unfinished
  · cases List.mem_singleton.1 new
    rcases free.part_cases hp with component | rfl
    · exact .inr (.single component)
    · exact .inl rfl

/-- A type that is met again is finished. -/
theorem Ahead.finished_of_same (ahead : r.Ahead d) {e : Entry} (he : e ∈ r.entries)
    (same : Same e.source d) (named : d ≠ .empty) : ∃ x, e.shape? = some x := by
  refine Option.ne_none_iff_exists'.1 fun unfinished => ?_
  rcases ahead e he unfinished with left | inside
  · exact named left
  · exact Descriptor.not_same_of_inside inside same

end Registry

end TypeCatalog
