import TypeCatalog.Proofs.Reading
import TypeCatalog.Proofs.Tables

/-!
The descriptors in a descriptor.

`Descriptor.components` are those directly in it, whether an extraction looks at them or not.
They are smaller (`size_lt_of_mem_components`), which gives an induction over descriptors
(`components_induction`).  The parts that an extraction looks at are components, but for two
cases: an annotation that is left out, and the definition behind a name (`part_cases`).
-/

namespace TypeCatalog.Descriptor

open Recognizer

/-- The descriptors that are directly in a descriptor. -/
def components : Descriptor → List Descriptor
  | generic _ args => args
  | union members => members
  | typeVar _ bound constraints => bound.toList ++ constraints
  | classDecl _ fields _ => fields.map Prod.snd
  | typedDict _ fields _ => fields.map Prod.snd
  | newType _ supertype => [supertype]
  | parameterized base args => base :: args
  | function _ annotations _ => annotations.map Prod.snd
  | _ => []

/-! ## Sizes -/

theorem size_pos (d : Descriptor) : 0 < d.size := by
  cases d <;> simp only [size] <;> omega

theorem size_le_sizeList {d : Descriptor} {ds : List Descriptor} (h : d ∈ ds) :
    d.size ≤ sizeList ds := by
  induction ds with
  | nil => cases h
  | cons first rest ih =>
    simp only [sizeList]
    rcases List.mem_cons.1 h with rfl | later
    · omega
    · have := ih later
      omega

theorem size_le_sizeTable {d : Descriptor} {table : List (String × Descriptor)}
    (h : d ∈ table.map Prod.snd) : d.size ≤ sizeTable table := by
  induction table with
  | nil => cases h
  | cons entry rest ih =>
    obtain ⟨name, first⟩ := entry
    simp only [sizeTable]
    rcases List.mem_cons.1 h with rfl | later
    · omega
    · have := ih later
      omega

/-- What is directly in a descriptor is smaller. -/
theorem size_lt_of_mem_components {c d : Descriptor} (h : c ∈ d.components) : c.size < d.size := by
  cases d with
  | generic origin args =>
    have : c.size ≤ sizeList args := size_le_sizeList h
    simp only [size]
    omega
  | union members =>
    have : c.size ≤ sizeList members := size_le_sizeList h
    simp only [size]
    omega
  | typeVar name bound constraints =>
    rcases List.mem_append.1 h with isBound | isConstraint
    · rw [Option.mem_toList] at isBound
      cases isBound
      simp only [size, sizeOption]
      omega
    · have := size_le_sizeList isConstraint
      simp only [size]
      omega
  | classDecl name fields typeParams =>
    have : c.size ≤ sizeTable fields := size_le_sizeTable h
    simp only [size]
    omega
  | typedDict name fields total =>
    have : c.size ≤ sizeTable fields := size_le_sizeTable h
    simp only [size]
    omega
  | newType name supertype =>
    cases List.mem_singleton.1 h
    simp only [size]
    omega
  | parameterized base args =>
    rcases List.mem_cons.1 h with rfl | isArg
    · simp only [size]
      omega
    · have := size_le_sizeList isArg
      simp only [size]
      omega
  | function name annotations paramNames =>
    have : c.size ≤ sizeTable annotations := size_le_sizeTable h
    simp only [size]
    omega
  | _ => cases h

/-- What holds of a descriptor whenever it holds of its components holds of all. -/
theorem components_induction {motive : Descriptor → Prop}
    (step : ∀ d, (∀ c ∈ d.components, motive c) → motive d) (d : Descriptor) : motive d := by
  induction size : d.size using Nat.strongRecOn generalizing d with
  | ind n ih =>
    subst size
    exact step d fun c hc => ih c.size (size_lt_of_mem_components hc) c rfl

/-! ## Parts -/

/-- The arguments that are looked at are among the arguments. -/
theorem mem_of_mem_positions {family : Origin} {args : List Descriptor} {d : Descriptor}
    (h : d ∈ family.positions args) : d ∈ args := by
  unfold Origin.positions at h
  split at h
  · exact h
  · exact h
  · exact h
  · unfold positional at h
    split at h
    · exact List.mem_of_mem_take h
    · exact h
  · cases h

/-- An annotation is left out or written. -/
theorem annotated_cases (annotations : List (String × Descriptor)) (name : String) :
    annotated annotations name = empty ∨
      annotated annotations name ∈ annotations.map Prod.snd := by
  unfold annotated
  cases found : Assoc.find? name annotations with
  | none => exact .inl rfl
  | some d => exact .inr (List.mem_map_of_mem (f := Prod.snd) (Assoc.mem_of_find? found))

/-- A part is a component, or stands for an annotation that is left out, or is a definition. -/
theorem part_cases {definitions : List (String × Descriptor)} {d part : Descriptor}
    (h : part ∈ d.parts definitions) :
    part ∈ d.components ∨ part = empty ∨
      ∃ name, d = ref name ∧ Assoc.find? name definitions = some part := by
  cases d with
  | generic origin args =>
    simp only [parts] at h
    split at h
    · exact .inl (mem_of_mem_positions h)
    · cases h
  | union members => exact .inl h
  | typeVar name bound constraints => exact .inl h
  | classDecl name fields typeParams => exact .inl h
  | typedDict name fields total => exact .inl h
  | newType name supertype => exact .inl h
  | parameterized base args => exact .inl h
  | function name annotations paramNames =>
    obtain ⟨written, eq⟩ : ∃ written, annotated annotations written = part := by
      rcases List.mem_append.1 h with isParam | isReturn
      · obtain ⟨param, -, eq⟩ := List.mem_map.1 isParam
        exact ⟨param, eq⟩
      · exact ⟨returnName, (List.mem_singleton.1 isReturn).symm⟩
    subst eq
    exact (annotated_cases annotations written).symm.imp_right .inl
  | ref name => exact .inr (.inr ⟨name, rfl, Option.mem_toList.1 h⟩)
  | _ => cases h

theorem ne_empty_of_part {definitions : List (String × Descriptor)} {d part : Descriptor}
    (h : part ∈ d.parts definitions) : d ≠ empty := by
  rintro rfl
  cases h

end TypeCatalog.Descriptor
