import TypeCatalog.Proofs.Reading
import TypeCatalog.Proofs.Tables
import TypeCatalog.Proofs.Union

/-!
What occurs in a shape.

`Shape.children` are the shapes that a shape is directly made of, and `Shape.Occurs` goes down to
any depth.  The shape of a descriptor is put together from the shapes of its parts in one of two
ways: it is drawn from them, that is, it occurs in one of them or stands for what was left out, or
it is a new shape, of the descriptor's own kind and name, whose children are drawn from them
(`Descriptor.assembled_cases`).  Hence a property that shapes have throughout is kept when shapes
are put together, if the new shape has it on its face (`Descriptor.throughout_assembled`).
-/

namespace TypeCatalog

namespace Shape

/-- The shapes that a shape is directly made of. -/
def children : Shape → List Shape
  | list element _ => [element]
  | tuple elements _ _ => elements
  | dict key value _ => [key, value]
  | mapping key value _ => [key, value]
  | union members _ => members
  | optional inner _ => [inner]
  | typeVar _ bound constraints => bound.toList ++ constraints
  | classType _ fields _ => fields.map Prod.snd
  | record _ fields _ _ => fields.map Prod.snd
  | function _ params returns _ => params.map Prod.snd ++ [returns]
  | newType _ base => [base]
  | fixedGeneric base bindings _ => base :: bindings.map Prod.snd
  | _ => []

/-- One shape occurs in another, at whatever depth. -/
inductive Occurs (a : Shape) : Shape → Prop
  | self : Occurs a a
  | within {x part : Shape} : part ∈ x.children → Occurs a part → Occurs a x

/-- What occurs in what occurs in a shape occurs in the shape. -/
theorem Occurs.trans {a b c : Shape} (first : Occurs a b) (second : Occurs b c) : Occurs a c := by
  induction second with
  | self => exact first
  | within hpart _ ih => exact .within hpart ih

/-- The kind and the name under which a shape of its own is collected. -/
def ownKey? : Shape → Option (CollectedKind × String)
  | classType name _ _ => some (.classType, name)
  | record name _ _ _ => some (.record, name)
  | function name _ _ _ => some (.function, name)
  | _ => Option.none

/-! ## Properties of all that occurs -/

/-- All that occurs in a shape has a property. -/
def Throughout (P : Shape → Prop) (x : Shape) : Prop :=
  ∀ part, Occurs part x → P part

section Throughout

variable {P Q : Shape → Prop} {x : Shape}

theorem Throughout.self (h : Throughout P x) : P x :=
  h x .self

/-- A property of all that occurs in a shape is one of all that occurs in a part of it. -/
theorem Throughout.of_occurs {part : Shape} (h : Throughout P x) (occurs : Occurs part x) :
    Throughout P part :=
  fun inner hinner => h inner (hinner.trans occurs)

theorem Throughout.child {part : Shape} (h : Throughout P x) (hpart : part ∈ x.children) :
    Throughout P part :=
  h.of_occurs (.within hpart .self)

theorem Throughout.imp (h : Throughout P x) (each : ∀ part, P part → Q part) : Throughout Q x :=
  fun part occurs => each part (h part occurs)

/-- A property of a shape and of all that occurs in its parts is one of all that occurs in it. -/
theorem throughout_of_children (face : P x) (h : ∀ part ∈ x.children, Throughout P part) :
    Throughout P x := by
  intro part occurs
  cases occurs with
  | self => exact face
  | within hpart inner => exact h _ hpart part inner

theorem throughout_of_leaf (face : P x) (leaf : x.children = []) : Throughout P x := by
  refine throughout_of_children face fun part hpart => ?_
  rw [leaf] at hpart
  cases hpart

end Throughout

/-! ## Shapes drawn from others -/

/-- A shape stands for what was left out, or occurs in one of some shapes. -/
def DrawnFrom (shapes : List Shape) (a : Shape) : Prop :=
  a = .unknown ∨ a = .none ∨ ∃ x ∈ shapes, Occurs a x

/-- A shape is new, has a kind and a name of its own or none, and has children that are drawn from
some shapes. -/
structure MadeOf (key? : Option (CollectedKind × String)) (shapes : List Shape) (a : Shape) :
    Prop where
  new : ∀ name kind, a ≠ reference name kind
  own : a.ownKey? = key?
  parts : ∀ part ∈ a.children, DrawnFrom shapes part

section DrawnFrom

variable {shapes : List Shape} {a : Shape}

theorem DrawnFrom.of_mem (h : a ∈ shapes) : DrawnFrom shapes a :=
  .inr (.inr ⟨a, h, .self⟩)

theorem drawnFrom_unknown : DrawnFrom shapes .unknown := .inl rfl

theorem drawnFrom_none : DrawnFrom shapes .none := .inr (.inl rfl)

/-- The first of some shapes is drawn from them, also where it is missing and left unknown. -/
theorem drawnFrom_headD : DrawnFrom shapes (shapes.headD .unknown) := by
  cases shapes with
  | nil => exact drawnFrom_unknown
  | cons x rest => exact .of_mem List.mem_cons_self

/-- So is that at any place. -/
theorem drawnFrom_getD (i : Nat) : DrawnFrom shapes (shapes[i]?.getD .unknown) := by
  cases found : shapes[i]? with
  | none => exact drawnFrom_unknown
  | some x => exact .of_mem (List.mem_of_getElem? found)

theorem drawnFrom_getLastD : DrawnFrom shapes (shapes.getLastD .unknown) := by
  rcases List.eq_nil_or_concat shapes with rfl | ⟨front, last, rfl⟩
  · exact drawnFrom_unknown
  · exact .of_mem (by simp)

/-- What shapes have throughout, shapes drawn from them have throughout. -/
theorem DrawnFrom.throughout {P : Shape → Prop} (drawn : DrawnFrom shapes a)
    (unknown : P .unknown) (none : P .none) (h : ∀ x ∈ shapes, Throughout P x) :
    Throughout P a := by
  rcases drawn with rfl | rfl | ⟨x, hx, occurs⟩
  · exact throughout_of_leaf unknown rfl
  · exact throughout_of_leaf none rfl
  · exact (h x hx).of_occurs occurs

/-- What is drawn from shapes is drawn from those that they occur in. -/
theorem DrawnFrom.of_occurs {outer : List Shape} (drawn : DrawnFrom shapes a)
    (each : ∀ x ∈ shapes, ∃ y ∈ outer, Occurs x y) : DrawnFrom outer a := by
  rcases drawn with unknown | none | ⟨x, hx, occurs⟩
  · exact .inl unknown
  · exact .inr (.inl none)
  · obtain ⟨y, hy, within⟩ := each x hx
    exact .inr (.inr ⟨y, hy, occurs.trans within⟩)

/-- Members come out of the shapes that they are taken from. -/
theorem occurs_of_mem_brought {x : Shape} (h : a ∈ x.brought) : a = .none ∨ Occurs a x := by
  obtain ⟨y, hy, ha⟩ := List.mem_flatMap.1 h
  have outer : y = .none ∨ Occurs y x := by
    unfold reopened at hy
    split at hy
    · rename_i inner options
      rcases List.mem_cons.1 hy with rfl | hy
      · exact .inr (.within (List.mem_singleton.2 rfl) .self)
      · exact .inl (List.mem_singleton.1 hy)
    · cases List.mem_singleton.1 hy
      exact .inr .self
  have inner : Occurs a y := by
    unfold spliced at ha
    split at ha
    · exact .within ha .self
    · cases List.mem_singleton.1 ha
      exact .self
  rcases outer with rfl | outer
  · cases inner with
    | self => exact .inl rfl
    | within hpart _ => cases hpart
  · exact .inr (inner.trans outer)

/-- The members of a union are drawn from the shapes that are combined. -/
theorem drawnFrom_of_mem_members (h : a ∈ members shapes) : DrawnFrom shapes a := by
  obtain ⟨x, hx, brought⟩ := mem_brought_of_mem_members h
  rcases occurs_of_mem_brought brought with rfl | occurs
  · exact drawnFrom_none
  · exact .inr (.inr ⟨x, hx, occurs⟩)

/-- A union is one of its members, or an optional type or a union of them. -/
theorem Combines.cases_drawn {options : OptionSet} (combines : Combines options shapes a) :
    DrawnFrom shapes a ∨ MadeOf Option.none shapes a := by
  cases combines with
  | single only => exact .inl (drawnFrom_of_mem_members (only ▸ List.mem_singleton.2 rfl))
  | @optional inner _ _ listed =>
    refine .inr ⟨fun _ _ eq => Shape.noConfusion eq, rfl, fun part hpart => ?_⟩
    rw [List.mem_singleton.1 hpart]
    exact drawnFrom_of_mem_members (mem_members_of_pair listed)
  | union =>
    exact .inr ⟨fun _ _ eq => Shape.noConfusion eq, rfl,
      fun part hpart => drawnFrom_of_mem_members hpart⟩

end DrawnFrom

end Shape

/-! ## Shapes that are put together -/

namespace Descriptor

open Shape (DrawnFrom MadeOf Throughout drawnFrom_headD drawnFrom_getD drawnFrom_getLastD
  drawnFrom_unknown)

variable {shapes : List Shape}

theorem mem_of_mem_arranged {options : OptionSet} {table : List (String × Shape)}
    {entry : String × Shape} (h : entry ∈ arranged options table) : entry ∈ table := by
  unfold arranged at h
  split at h
  · exact Assoc.mem_sortKeys.1 h
  · exact h

/-- Fields are drawn from the shapes that are put under their names. -/
theorem drawnFrom_arranged {options : OptionSet} {names : List String} :
    ∀ x ∈ (arranged options (names.zip shapes)).map Prod.snd, DrawnFrom shapes x := by
  intro x hx
  obtain ⟨entry, hentry, rfl⟩ := List.mem_map.1 hx
  exact .of_mem (List.of_mem_zip (mem_of_mem_arranged hentry)).2

/-- So are bindings, of which the last counts where a name is repeated. -/
theorem mem_of_mem_ofPairs_zip {names : List String} {x : Shape}
    (h : x ∈ (Assoc.ofPairs (names.zip shapes)).map Prod.snd) : x ∈ shapes := by
  obtain ⟨entry, hentry, rfl⟩ := List.mem_map.1 h
  exact (List.of_mem_zip (Assoc.mem_of_mem_ofPairs hentry)).2

/-- A shape that is put together from others is drawn from them, or it is new, of the kind and the
name of its descriptor, and made of what is drawn from them. -/
theorem assembled_cases (definitions : List (String × Descriptor)) (options : OptionSet)
    (d : Descriptor) (shapes : List Shape) :
    DrawnFrom shapes (d.assembled definitions options shapes) ∨
      MadeOf d.ownKey? shapes (d.assembled definitions options shapes) := by
  have leaf : ∀ part : Shape, part ∈ ([] : List Shape) → DrawnFrom shapes part :=
    fun _ h => by cases h
  have head : ∀ part, part ∈ [shapes.headD .unknown] → DrawnFrom shapes part :=
    fun part h => List.mem_singleton.1 h ▸ drawnFrom_headD
  have pair : ∀ part, part ∈ [shapes.headD .unknown, shapes[1]?.getD .unknown] →
      DrawnFrom shapes part := by
    intro part h
    rcases List.mem_pair.1 h with rfl | rfl
    · exact drawnFrom_headD
    · exact drawnFrom_getD 1
  have all : ∀ part ∈ shapes, DrawnFrom shapes part := fun part h => .of_mem h
  cases d with
  | generic origin args =>
    simp only [assembled]
    split
    · rename_i family _
      refine .inr ?_
      cases family with
      | list => exact ⟨fun _ _ eq => Shape.noConfusion eq, rfl, head⟩
      | dict => exact ⟨fun _ _ eq => Shape.noConfusion eq, rfl, pair⟩
      | tuple => exact ⟨fun _ _ eq => Shape.noConfusion eq, rfl, all⟩
      | mapping => exact ⟨fun _ _ eq => Shape.noConfusion eq, rfl, pair⟩
    · exact .inl drawnFrom_unknown
  | union members =>
    obtain ⟨x, combined, combines⟩ := Shape.combine_eq_some options shapes
    simp only [assembled, combined, Option.getD_some]
    exact combines.cases_drawn
  | typeVar name bound constraints =>
    rcases bound with _ | bound
    · exact .inr ⟨fun _ _ eq => Shape.noConfusion eq, rfl, all⟩
    · rcases shapes with _ | ⟨x, rest⟩
      · exact .inr ⟨fun _ _ eq => Shape.noConfusion eq, rfl, all⟩
      · exact .inr ⟨fun _ _ eq => Shape.noConfusion eq, rfl, all⟩
  | classDecl name fields typeParams =>
    exact .inr ⟨fun _ _ eq => Shape.noConfusion eq, rfl, drawnFrom_arranged⟩
  | typedDict name fields total =>
    exact .inr ⟨fun _ _ eq => Shape.noConfusion eq, rfl, drawnFrom_arranged⟩
  | newType name supertype => exact .inr ⟨fun _ _ eq => Shape.noConfusion eq, rfl, head⟩
  | parameterized base args =>
    refine .inr ⟨fun _ _ eq => Shape.noConfusion eq, rfl, fun part hpart => ?_⟩
    rcases List.mem_cons.1 hpart with rfl | bound
    · exact drawnFrom_headD
    · exact .of_mem (List.mem_of_mem_tail (mem_of_mem_ofPairs_zip bound))
  | function name annotations paramNames =>
    refine .inr ⟨fun _ _ eq => Shape.noConfusion eq, rfl, fun part hpart => ?_⟩
    rcases List.mem_append.1 hpart with param | returned
    · exact .of_mem (List.dropLast_subset _ (mem_of_mem_ofPairs_zip param))
    · rw [List.mem_singleton.1 returned]
      exact drawnFrom_getLastD
  | ref name => exact .inl drawnFrom_headD
  | none | builtin | enum | literal => exact .inr ⟨fun _ _ eq => Shape.noConfusion eq, rfl, leaf⟩
  | empty | any | ellipsis | unclassified => exact .inl drawnFrom_unknown

/-- A shape that is put together has throughout what the others have throughout and it has on its
face, should it be new. -/
theorem throughout_assembled {P : Shape → Prop} (unknown : P .unknown) (none : P .none)
    (h : ∀ x ∈ shapes, Throughout P x) (definitions : List (String × Descriptor))
    (options : OptionSet) (d : Descriptor)
    (face : MadeOf d.ownKey? shapes (d.assembled definitions options shapes) →
      P (d.assembled definitions options shapes)) :
    Throughout P (d.assembled definitions options shapes) := by
  rcases assembled_cases definitions options d shapes with drawn | made
  · exact drawn.throughout unknown none h
  · exact Shape.throughout_of_children (face made) fun part hpart =>
      (made.parts part hpart).throughout unknown none h

end Descriptor

end TypeCatalog
