import TypeCatalog.Proofs.ShapeSameness

/-!
How shapes are spelled.

Options leave two kinds of traces in shapes that say nothing about the types.  Composite shapes
record the options they were made under, which `Shape.erased` takes out; and under
`collapseOptional` a type and the absent value are an optional type, which `Shape.spelledOut`
writes as the union that it stands for.  A shape without both is `plain`.

The shapes of an extraction from the start are `Normal`: they record the options of the extraction
and no others, and their unions and optional types are made as the recognizer of unions makes them.
Among normal shapes of one extraction, plain shapes tell what shapes tell: two are the same if
their plain shapes are (`same_iff_plain`), although an optional type is a union then.  And from
what is plain, the optional types can be told if it is known whether unions are collapsed
(`same_erased_of_plain`).
-/

namespace TypeCatalog

namespace Shape

/-! ## Changing a shape throughout -/

section Recast

variable (f : OptionSet → OptionSet) (g : Shape → OptionSet → Shape)

mutual

/-- A shape with `f` done to all recorded options, and to each optional type what `g` makes
of it. -/
def recast : Shape → Shape
  | unknown => unknown
  | none => none
  | builtin name => builtin name
  | list element o => list (recast element) (f o)
  | tuple elements variadic o => tuple (recastList elements) variadic (f o)
  | dict key value o => dict (recast key) (recast value) (f o)
  | mapping key value o => mapping (recast key) (recast value) (f o)
  | union members o => union (recastList members) (f o)
  | optional inner o => g (recast inner) (f o)
  | literal values => literal values
  | enum name members => enum name members
  | typeVar name bound constraints =>
    typeVar name (recastOption bound) (recastList constraints)
  | classType name fields o => classType name (recastTable fields) (f o)
  | record name fields total o => record name (recastTable fields) total (f o)
  | function name params returns o =>
    function name (recastTable params) (recast returns) (f o)
  | newType name base => newType name (recast base)
  | fixedGeneric base bindings o => fixedGeneric (recast base) (recastTable bindings) (f o)
  | reference name target => reference name target

/-- Change the shape that may be there. -/
def recastOption : Option Shape → Option Shape
  | .none => .none
  | some x => some (recast x)

/-- Change all shapes of a list. -/
def recastList : List Shape → List Shape
  | [] => []
  | x :: rest => recast x :: recastList rest

/-- Change all shapes of a table. -/
def recastTable : List (String × Shape) → List (String × Shape)
  | [] => []
  | (name, x) :: rest => (name, recast x) :: recastTable rest

end

end Recast

/-- A shape without the options that it records. -/
def erased (x : Shape) : Shape :=
  x.recast (fun _ => .empty) optional

/-- A shape with the union of its inner shape and the absent value for each optional type. -/
def spelledOut (x : Shape) : Shape :=
  x.recast id fun inner o => unionOf [inner, none] o

/-- A shape that is spelled out and records no options. -/
def plain (x : Shape) : Shape :=
  x.spelledOut.erased

/-! ## Layouts of changed shapes -/

namespace Layout

/-- A layout with all its shapes and its options changed. -/
def map (f : Shape → Shape) (g : OptionSet → OptionSet) (l : Layout) : Layout where
  face := l.face
  options? := l.options?.map g
  values := l.values
  members := l.members
  ordered := l.ordered.map f
  table := Assoc.mapValues f l.table
  set := l.set.map f

variable {f f' : Shape → Shape} {g g' : OptionSet → OptionSet} {l l' : Layout}
  {rel inSet : Shape → Shape → Prop} {opt : Option OptionSet → Option OptionSet → Prop}

theorem map_map : (l.map f g).map f' g' = l.map (f' ∘ f) (g' ∘ g) := by
  simp only [map, Assoc.mapValues, Option.map_map, List.map_map]
  rfl

theorem parts_map : (l.map f g).parts = l.parts.map f := by
  simp only [parts, map, Assoc.mapValues, List.map_append, List.map_map]
  rfl

theorem Distinct.map (distinct : l.Distinct) : (l.map f g).Distinct where
  members := distinct.members
  table := by
    have keys : Assoc.keys (Assoc.mapValues f l.table) = Assoc.keys l.table := by
      simp only [Assoc.keys, Assoc.mapValues, List.map_map]
      rfl
    unfold Assoc.Distinct Layout.map
    rw [keys]
    exact distinct.table

/-- Changed layouts agree as the others do, if what is related is changed first. -/
theorem agrees_map_iff : (l.map f g).Agrees rel inSet opt (l'.map f' g') ↔
    l.Agrees (fun a b => rel (f a) (f' b)) (fun a b => inSet (f a) (f' b))
      (fun o o' => opt (o.map g) (o'.map g')) l' := by
  have sets : SetAgree inSet (l.set.map f) (l'.set.map f') ↔
      SetAgree (fun a b => inSet (f a) (f' b)) l.set l'.set := by
    constructor
    · rintro ⟨lengths, among⟩
      exact ⟨by simpa using lengths, by simpa using among⟩
    · rintro ⟨lengths, among⟩
      exact ⟨by simpa using lengths, by simpa using among⟩
  rw [agrees_iff, agrees_iff]
  simp only [map, List.forall₂_map_left_iff, List.forall₂_map_right_iff, sets,
    Assoc.agree_mapValues_iff]

end Layout

section Recast

variable {f : OptionSet → OptionSet} {g : Shape → OptionSet → Shape}

theorem recastList_eq (xs : List Shape) : recastList f g xs = xs.map (recast f g) := by
  induction xs with
  | nil => rfl
  | cons x rest ih => rw [recastList, ih, List.map_cons]

theorem recastTable_eq (table : List (String × Shape)) :
    recastTable f g table = Assoc.mapValues (recast f g) table := by
  induction table with
  | nil => rfl
  | cons entry rest ih =>
    rw [recastTable, ih]
    rfl

/-- A shape that is no optional type is changed by changing what is in its layout. -/
theorem layout_recast {x : Shape} (h : x.layout.face ≠ .optional) :
    (recast f g x).layout = x.layout.map (recast f g) f := by
  cases x with
  | optional inner o => exact absurd rfl h
  | typeVar name bound constraints =>
    cases bound with
    | none => simp [recast, recastOption, recastList_eq, layout, Layout.map, Assoc.mapValues]
    | some bound => simp [recast, recastOption, recastList_eq, layout, Layout.map, Assoc.mapValues]
  | _ => simp [recast, recastList_eq, recastTable_eq, layout, Layout.map, Assoc.mapValues]

end Recast

/-- Without what they are, options show only by being recorded. -/
theorem erased_options_iff {a b : Option OptionSet} :
    a.map (fun _ => OptionSet.empty) = b.map (fun _ => OptionSet.empty) ↔
      a.isSome = b.isSome := by
  cases a <;> cases b <;> simp

/-! ## Faces -/

theorem eq_none_of_face {x : Shape} (h : x.layout.face = .none) : x = none := by
  cases x with
  | none => rfl
  | _ => cases h

theorem exists_of_face_optional {x : Shape} (h : x.layout.face = .optional) :
    ∃ inner o, x = optional inner o := by
  cases x with
  | optional inner o => exact ⟨inner, o, rfl⟩
  | _ => cases h

theorem exists_of_face_union {x : Shape} (h : x.layout.face = .union) :
    ∃ members o, x = union members o := by
  cases x with
  | union members o => exact ⟨members, o, rfl⟩
  | _ => cases h

/-- Whether a shape is neither a union nor an optional type. -/
def isAtom : Shape → Bool
  | union _ _ => false
  | optional _ _ => false
  | _ => true

theorem isAtom_iff {x : Shape} :
    x.isAtom = true ↔ x.layout.face ≠ .union ∧ x.layout.face ≠ .optional := by
  cases x <;> simp [isAtom, layout]

theorem same_none_iff {x : Shape} : Same none x ↔ x = none := by
  cases x <;> simp [Same, same]

theorem eq_none_of_same_none {x : Shape} (h : Same x none) : x = none :=
  eq_none_of_face (same_iff.1 h).face

/-! ## Plain shapes -/

theorem layout_erased (x : Shape) : x.erased.layout = x.layout.map erased fun _ => .empty := by
  by_cases face : x.layout.face = .optional
  · obtain ⟨inner, o, rfl⟩ := exists_of_face_optional face
    rfl
  · exact layout_recast face

theorem layout_plain {x : Shape} (face : x.layout.face ≠ .optional) :
    x.plain.layout = x.layout.map plain fun _ => .empty := by
  have spelled : x.spelledOut.layout = x.layout.map spelledOut id := layout_recast face
  rw [plain, layout_erased, spelled, Layout.map_map]
  rfl

theorem face_plain {x : Shape} (face : x.layout.face ≠ .optional) :
    x.plain.layout.face = x.layout.face := by
  rw [layout_plain face, Layout.map]

theorem plain_union (members : List Shape) (o : OptionSet) :
    (union members o).plain = union (members.map plain) .empty := by
  simp only [plain, spelledOut, erased, recast, recastList_eq, List.map_map]
  rfl

/-- An optional type is plainly the union of what is in it and the absent value. -/
theorem plain_optional {inner : Shape} (o : OptionSet) (atom : inner.isAtom = true)
    (present : inner ≠ none) : (optional inner o).plain = union [inner.plain, none] .empty := by
  obtain ⟨notUnion, notOptional⟩ := isAtom_iff.1 atom
  have face : inner.spelledOut.layout.face = inner.layout.face := by
    rw [spelledOut, layout_recast notOptional, Layout.map]
  have alone : spliced inner.spelledOut = [inner.spelledOut] := by
    unfold spliced
    split
    · rename_i members o' eq
      rw [eq] at face
      exact absurd face.symm notUnion
    · rfl
  have fresh : ¬among none [inner.spelledOut] = true := by
    intro listed
    obtain ⟨x, hx, same⟩ := among_iff.1 listed
    rw [List.mem_singleton.1 hx] at same
    rw [eq_none_of_same_none same] at face
    exact present (eq_none_of_face face.symm)
  have spelled : (optional inner o).spelledOut = union [inner.spelledOut, none] o := by
    show unionOf [inner.spelledOut, none] o = _
    have members : splice [inner.spelledOut, none] = [inner.spelledOut, none] := by
      simp only [splice, List.flatMap_cons, List.flatMap_nil, alone, List.append_nil]
      rfl
    have first : pushNew [] inner.spelledOut = [inner.spelledOut] := by simp [pushNew, among]
    have second : pushNew [inner.spelledOut] none = [inner.spelledOut, none] := if_neg fresh
    rw [unionOf, members, firsts, List.foldl_cons, first, List.foldl_cons, second, List.foldl_nil]
  rw [plain, spelled]
  rfl

theorem eq_none_of_plain_eq_none {x : Shape} (h : x.plain = none) : x = none := by
  by_cases face : x.layout.face = .optional
  · obtain ⟨inner, o, rfl⟩ := exists_of_face_optional face
    cases h
  · have face' := face_plain face
    rw [h] at face'
    exact eq_none_of_face face'.symm

/-! ## Normal shapes -/

/-- What a shape of an extraction is on its face: it records the options of the extraction, its
tables are maps, and it is made as the recognizer of unions makes it should it be a union or an
optional type. -/
structure Regular (o : OptionSet) (x : Shape) : Prop where
  options : ∀ o', x.layout.options? = some o' → o' = o
  distinct : x.layout.Distinct
  apart : x.layout.set.Pairwise fun a b => ¬Same a.plain b.plain
  atoms : ∀ a ∈ x.layout.set, a.isAtom = true
  collapsed : o.collapseOptional = true → x.layout.set.length = 2 → none ∉ x.layout.set
  optional : ∀ inner o', x = optional inner o' →
    o.collapseOptional = true ∧ inner.isAtom = true ∧ inner ≠ none

/-- All that occurs in a shape is regular. -/
abbrev Normal (o : OptionSet) : Shape → Prop := Throughout (Regular o)

section Normal

variable {o o' : OptionSet} {a b x : Shape}

theorem Normal.plain_optional {inner : Shape} (normal : Normal o (optional inner o')) :
    (Shape.optional inner o').plain = union [inner.plain, none] .empty :=
  let ⟨_, atom, present⟩ := normal.self.optional inner o' rfl
  Shape.plain_optional o' atom present

theorem Normal.inner {inner : Shape} (normal : Normal o (optional inner o')) : Normal o inner :=
  normal.child List.mem_cons_self

/-- Plain shapes of normal ones are proper. -/
theorem Normal.proper_plain (normal : Normal o x) : x.plain.Proper := by
  induction x using children_induction with
  | step x ih =>
    have child : ∀ part ∈ x.children, part.plain.Proper := fun part hpart =>
      ih part hpart (normal.child hpart)
    by_cases face : x.layout.face = .optional
    · obtain ⟨inner, o', rfl⟩ := exists_of_face_optional face
      have regular := normal.self.optional inner o' rfl
      rw [normal.plain_optional]
      have sound : Sound (union [inner.plain, none] .empty) := by
        refine ⟨⟨.nil, .nil⟩, List.pairwise_pair.2 fun same => ?_⟩
        exact regular.2.2 (eq_none_of_plain_eq_none (eq_none_of_same_none same))
      refine throughout_of_children sound fun part hpart => ?_
      rcases List.mem_pair.1 hpart with rfl | rfl
      · exact child inner List.mem_cons_self
      · exact throughout_of_leaf ⟨⟨.nil, .nil⟩, .nil⟩ rfl
    · have layout := layout_plain face
      have sound : Sound x.plain := by
        refine ⟨layout ▸ normal.self.distinct.map, ?_⟩
        rw [layout]
        exact List.pairwise_map.2 normal.self.apart
      refine throughout_of_children sound fun part hpart => ?_
      rw [mem_children_iff, layout, Layout.parts_map] at hpart
      obtain ⟨p, hp, rfl⟩ := List.mem_map.1 hpart
      exact child p (mem_children_iff.2 hp)

/-- Shapes that are the same are plainly so. -/
theorem Normal.same_plain (normal : Normal o a) (normal' : Normal o' b) (h : Same a b) :
    Same a.plain b.plain := by
  induction a, b using pair_induction generalizing o o' with
  | step a b ih =>
    have child : ∀ p ∈ a.layout.parts, ∀ q ∈ b.layout.parts,
        (Same p q → Same p.plain q.plain) ∧ (Same q p → Same q.plain p.plain) := by
      intro p hp q hq
      have normalP := normal.child (mem_children_iff.2 hp)
      have normalQ := normal'.child (mem_children_iff.2 hq)
      have both := ih p (mem_children_iff.2 hp) q (mem_children_iff.2 hq)
      exact ⟨both.1 normalP normalQ, both.2 normalQ normalP⟩
    rw [same_iff] at h
    by_cases face : a.layout.face = .optional
    · obtain ⟨inner, _, rfl⟩ := exists_of_face_optional face
      obtain ⟨inner', _, rfl⟩ := exists_of_face_optional (h.face.symm.trans face)
      obtain ⟨first, -⟩ := List.forall₂_cons.1 h.ordered
      have inside : Same inner.plain inner'.plain :=
        (child inner List.mem_cons_self inner' List.mem_cons_self).1 first
      have back : Same inner'.plain inner.plain :=
        same_symm inside normal.inner.proper_plain normal'.inner.proper_plain
      rw [normal.plain_optional, normal'.plain_optional, same_iff]
      refine ⟨rfl, rfl, .nil, agree_nil, .nil, agree_nil, rfl, fun p hp => ?_⟩
      rcases List.mem_pair.1 hp with rfl | rfl
      · exact ⟨inner'.plain, List.mem_cons_self, back⟩
      · exact ⟨none, by simp [layout], same_none_iff.2 rfl⟩
    · have face' : b.layout.face ≠ .optional := h.face ▸ face
      rw [same_iff, layout_plain face, layout_plain face', Layout.agrees_map_iff]
      exact h.imp (congrArg _) (fun p hp q hq => (child p hp q hq).1)
        fun p hp q hq => (child p hp q hq).2

/-- What is plainly a union or an optional type is made of what is plainly in it. -/
theorem not_same_plain_union_optional {members : List Shape} {inner : Shape} {p p' : OptionSet}
    (collapse : o.collapseOptional = true) (normal : Normal o (union members p))
    (normal' : Normal o' (optional inner p')) :
    ¬Same (union members p).plain (optional inner p').plain := by
  intro same
  rw [plain_union, normal'.plain_optional, same_iff] at same
  obtain ⟨lengths, among⟩ := same.set
  have two : members.length = 2 := by simpa [layout] using lengths
  have absent : none ∉ members := normal.self.collapsed collapse two
  -- no member is the absent value, so that both are plainly what the optional type is made of
  have each : ∀ m ∈ members, Same inner.plain m.plain := by
    intro m hm
    obtain ⟨q, hq, same⟩ := among m.plain (List.mem_map_of_mem hm)
    rcases List.mem_pair.1 hq with rfl | rfl
    · exact same
    · rw [eq_none_of_plain_eq_none (same_none_iff.1 same)] at hm
      exact absurd hm absent
  obtain ⟨first, second, rfl⟩ := List.length_eq_two.1 two
  have apart : ¬Same first.plain second.plain := List.pairwise_pair.1 normal.self.apart
  have member : Normal o first := normal.child List.mem_cons_self
  have back : Same first.plain inner.plain :=
    same_symm (each first List.mem_cons_self) normal'.inner.proper_plain member.proper_plain
  exact apart (same_trans back (each second (by simp)))

/-- Where both are collapsed or neither is, what is plainly the same is the same but for the options
that are recorded. -/
theorem Normal.same_erased_of_plain (collapse : o.collapseOptional = o'.collapseOptional)
    (normal : Normal o a) (normal' : Normal o' b) (h : Same a.plain b.plain) :
    Same a.erased b.erased := by
  induction a, b using pair_induction generalizing o o' with
  | step a b ih =>
    have child : ∀ p ∈ a.layout.parts, ∀ q ∈ b.layout.parts,
        (Same p.plain q.plain → Same p.erased q.erased) ∧
          (Same q.plain p.plain → Same q.erased p.erased) := by
      intro p hp q hq
      have normalP := normal.child (mem_children_iff.2 hp)
      have normalQ := normal'.child (mem_children_iff.2 hq)
      have both := ih p (mem_children_iff.2 hp) q (mem_children_iff.2 hq)
      exact ⟨both.1 collapse normalP normalQ, both.2 collapse.symm normalQ normalP⟩
    rw [same_iff, layout_erased, layout_erased, Layout.agrees_map_iff]
    by_cases face : a.layout.face = .optional
    · obtain ⟨inner, p, rfl⟩ := exists_of_face_optional face
      have collapsed := (normal.self.optional inner p rfl).1
      by_cases face' : b.layout.face = .optional
      · obtain ⟨inner', p', rfl⟩ := exists_of_face_optional face'
        have present : inner ≠ none := (normal.self.optional inner p rfl).2.2
        rw [normal.plain_optional, normal'.plain_optional, same_iff] at h
        obtain ⟨q, hq, same⟩ := h.set.among inner.plain List.mem_cons_self
        rcases List.mem_pair.1 hq with rfl | rfl
        · have back : Same inner.plain inner'.plain :=
            same_symm same normal'.inner.proper_plain normal.inner.proper_plain
          have inside := (child inner List.mem_cons_self inner' List.mem_cons_self).1 back
          exact ⟨rfl, rfl, .nil, agree_nil, .cons inside .nil, agree_nil, setAgree_nil⟩
        · exact absurd (eq_none_of_plain_eq_none (same_none_iff.1 same)) present
      · have back := same_symm h normal.proper_plain normal'.proper_plain
        have isUnion : b.layout.face = .union := by
          rw [← face_plain face', (same_iff.1 back).face, normal.plain_optional]
          rfl
        obtain ⟨members, p', rfl⟩ := exists_of_face_union isUnion
        exact absurd back (not_same_plain_union_optional (collapse ▸ collapsed) normal' normal)
    · by_cases face' : b.layout.face = .optional
      · obtain ⟨inner', p', rfl⟩ := exists_of_face_optional face'
        have collapsed := (normal'.self.optional inner' p' rfl).1
        have isUnion : a.layout.face = .union := by
          rw [← face_plain face, (same_iff.1 h).face, normal'.plain_optional]
          rfl
        obtain ⟨members, p, rfl⟩ := exists_of_face_union isUnion
        exact absurd h (not_same_plain_union_optional (collapse ▸ collapsed) normal normal')
      · rw [same_iff, layout_plain face, layout_plain face', Layout.agrees_map_iff] at h
        exact h.imp id (fun p hp q hq => (child p hp q hq).1) fun p hp q hq => (child p hp q hq).2

/-- Shapes that record the same options are the same if they are without them. -/
theorem Normal.same_of_erased (normal : Normal o a) (normal' : Normal o b)
    (h : Same a.erased b.erased) : Same a b := by
  induction a, b using pair_induction with
  | step a b ih =>
    have child : ∀ p ∈ a.layout.parts, ∀ q ∈ b.layout.parts,
        (Same p.erased q.erased → Same p q) ∧ (Same q.erased p.erased → Same q p) := by
      intro p hp q hq
      have normalP := normal.child (mem_children_iff.2 hp)
      have normalQ := normal'.child (mem_children_iff.2 hq)
      have both := ih p (mem_children_iff.2 hp) q (mem_children_iff.2 hq)
      exact ⟨both.1 normalP normalQ, both.2 normalQ normalP⟩
    rw [same_iff, layout_erased, layout_erased, Layout.agrees_map_iff] at h
    rw [same_iff]
    refine h.imp (fun recorded => ?_) (fun p hp q hq => (child p hp q hq).1)
      fun p hp q hq => (child p hp q hq).2
    have recorded := erased_options_iff.1 recorded
    cases left : a.layout.options? with
    | none =>
      rw [left] at recorded
      exact (Option.not_isSome_iff_eq_none.1 (Bool.eq_false_iff.1 recorded.symm)).symm
    | some p =>
      rw [left] at recorded
      obtain ⟨p', right⟩ := Option.isSome_iff_exists.1 recorded.symm
      rw [right, normal.self.options p left, normal'.self.options p' right]

/-- Among the shapes of one extraction, plain shapes tell which ones are the same. -/
theorem Normal.same_iff_plain (normal : Normal o a) (normal' : Normal o b) :
    Same a b ↔ Same a.plain b.plain :=
  ⟨normal.same_plain normal', fun h =>
    normal.same_of_erased normal' (normal.same_erased_of_plain rfl normal' h)⟩

/-- Where unions are not collapsed, shapes are plain once they are erased. -/
theorem Normal.same_erased_plain (uncollapsed : o.collapseOptional = false)
    (normal : Normal o x) : Same x.erased x.plain ∧ Same x.plain x.erased := by
  induction x using children_induction with
  | step x ih =>
    have face : x.layout.face ≠ .optional := by
      intro face
      obtain ⟨inner, p, rfl⟩ := exists_of_face_optional face
      have collapsed := (normal.self.optional inner p rfl).1
      rw [uncollapsed] at collapsed
      cases collapsed
    have parts : ∀ part ∈ x.layout.parts,
        Same part.erased part.plain ∧ Same part.plain part.erased := fun part hpart =>
      ih part (mem_children_iff.2 hpart) (normal.child (mem_children_iff.2 hpart))
    rw [same_iff, same_iff, layout_erased, layout_plain face, Layout.agrees_map_iff,
      Layout.agrees_map_iff]
    exact ⟨.refl normal.self.distinct rfl parts,
      .refl normal.self.distinct rfl fun part hpart => (parts part hpart).symm⟩

end Normal

end Shape

end TypeCatalog
