import TypeCatalog.Proofs.Occurrence
import TypeCatalog.Proofs.Sameness

/-!
Sameness of shapes.

A `Shape.Layout` sets out what a shape is made of by how sameness looks at it: its face and its
recorded options, which are compared for equality, values and shapes in order, tables, which are
compared as maps, and a set.  Sameness of shapes is agreement of their layouts (`same_iff`), and
what is shown of layouts is shown of all kinds of shapes at once.  Parts are compared from the left
to the right, but for members of unions: those on the right are looked through for each on the left,
and are compared with it (`sameEachIn_iff`).

Between shapes whose tables are maps and whose unions have no member twice (`Proper`), sameness is
reflexive and symmetric, and it is always transitive, which takes an induction for both directions
at once (`same_trans_both`).  That each member of one union is among those of another as large does
not say at once that it is so the other way round; it is since members that are apart have partners
that are apart (`exists_partners`).
-/

namespace TypeCatalog

/-! ## Lists compared as sets -/

section Sets

variable {α : Type} {rel : α → α → Prop} {as bs : List α}

/-- If no two elements of a list have a partner in common, they can choose partners without choosing
one twice. -/
theorem exists_partners (each : ∀ a ∈ as, ∃ b ∈ bs, rel a b)
    (apart : as.Pairwise fun a a' => ∀ b ∈ bs, rel a b → ¬rel a' b) :
    ∃ cs, List.Forall₂ rel as cs ∧ cs ⊆ bs ∧ cs.Nodup := by
  induction as with
  | nil => exact ⟨[], .nil, List.nil_subset _, .nil⟩
  | cons a rest ih =>
    rw [List.pairwise_cons] at apart
    obtain ⟨c, hc, related⟩ := each a List.mem_cons_self
    obtain ⟨cs, chosen, sub, nodup⟩ := ih (fun a ha => each a (List.mem_cons_of_mem _ ha)) apart.2
    refine ⟨c :: cs, .cons related chosen, List.cons_subset.2 ⟨hc, sub⟩,
      List.nodup_cons.2 ⟨fun again => ?_, nodup⟩⟩
    obtain ⟨a', ha', related'⟩ := exists_of_forall₂_of_mem chosen again
    exact apart.1 a' ha' c hc related related'

/-- A list whose elements have partners of their own in another one is no longer than that. -/
theorem length_le_of_partners (each : ∀ a ∈ as, ∃ b ∈ bs, rel a b)
    (apart : as.Pairwise fun a a' => ∀ b ∈ bs, rel a b → ¬rel a' b) : as.length ≤ bs.length := by
  obtain ⟨cs, chosen, sub, nodup⟩ := exists_partners each apart
  rw [chosen.length_eq]
  exact (List.subperm_of_subset nodup sub).length_le

/-- In lists of the same length everything is then a partner. -/
theorem exists_partner_of_mem (each : ∀ a ∈ as, ∃ b ∈ bs, rel a b)
    (apart : as.Pairwise fun a a' => ∀ b ∈ bs, rel a b → ¬rel a' b)
    (lengths : bs.length ≤ as.length) {b : α} (hb : b ∈ bs) : ∃ a ∈ as, rel a b := by
  obtain ⟨cs, chosen, sub, nodup⟩ := exists_partners each apart
  have all : cs.Perm bs :=
    (List.subperm_of_subset nodup sub).perm_of_length_le (chosen.length_eq ▸ lengths)
  exact exists_of_forall₂_of_mem chosen (all.mem_iff.2 hb)

/-- As many elements, and each of the one list is related to one of the other. -/
structure SetAgree (rel : α → α → Prop) (as bs : List α) : Prop where
  length_eq : as.length = bs.length
  among : ∀ a ∈ as, ∃ b ∈ bs, rel a b

end Sets

/-! ## Layouts -/

namespace Shape

/-- What a shape is on its face, without what it records and what it is made of. -/
inductive Face where
  | unknown
  | none
  | builtin (name : String)
  | list
  | tuple (variadic : Bool)
  | dict
  | mapping
  | union
  | optional
  | literal
  | enum (name : String)
  | typeVar (name : String) (bounded : Bool)
  | classType (name : String)
  | record (name : String) (total : Bool)
  | function (name : String)
  | newType (name : String)
  | fixedGeneric
  | reference (name : String) (target : CollectedKind)

/-- What a shape is made of, by how sameness looks at it. -/
structure Layout where
  face : Face
  /-- The options that are recorded. -/
  options? : Option OptionSet := .none
  values : List Scalar := []
  /-- A table of values. -/
  members : List (String × Scalar) := []
  ordered : List Shape := []
  table : List (String × Shape) := []
  set : List Shape := []

/-- The layout of a shape. -/
def layout : Shape → Layout
  | unknown => { face := .unknown }
  | none => { face := .none }
  | builtin name => { face := .builtin name }
  | list element o => { face := .list, options? := some o, ordered := [element] }
  | tuple elements variadic o =>
    { face := .tuple variadic, options? := some o, ordered := elements }
  | dict key value o => { face := .dict, options? := some o, ordered := [key, value] }
  | mapping key value o => { face := .mapping, options? := some o, ordered := [key, value] }
  | union members o => { face := .union, options? := some o, set := members }
  | optional inner o => { face := .optional, options? := some o, ordered := [inner] }
  | literal values => { face := .literal, values := values }
  | enum name members => { face := .enum name, members := members }
  | typeVar name bound constraints =>
    { face := .typeVar name bound.isSome, ordered := bound.toList ++ constraints }
  | classType name fields o => { face := .classType name, options? := some o, table := fields }
  | record name fields total o =>
    { face := .record name total, options? := some o, table := fields }
  | function name params returns o =>
    { face := .function name, options? := some o, ordered := [returns], table := params }
  | newType name base => { face := .newType name, ordered := [base] }
  | fixedGeneric base bindings o =>
    { face := .fixedGeneric, options? := some o, ordered := [base], table := bindings }
  | reference name target => { face := .reference name target }

/-- Two shapes are the same. -/
def Same (a b : Shape) : Prop := a.same b = true

namespace Layout

/-- The shapes in a layout. -/
def parts (l : Layout) : List Shape :=
  l.ordered ++ l.table.map Prod.snd ++ l.set

/-- Two layouts agree if shapes and options that are related are taken for one.  Shapes in sets have
a relation of their own. -/
structure Agrees (rel inSet : Shape → Shape → Prop)
    (opt : Option OptionSet → Option OptionSet → Prop) (l l' : Layout) : Prop where
  face : l.face = l'.face
  options : opt l.options? l'.options?
  values : List.Forall₂ (fun v w => Scalar.same v w = true) l.values l'.values
  members : Assoc.Agree (fun v w => Scalar.same v w = true) l.members l'.members
  ordered : List.Forall₂ rel l.ordered l'.ordered
  table : Assoc.Agree rel l.table l'.table
  set : SetAgree inSet l.set l'.set

/-- Layouts agree face by face: options, values, parts in order, tables as maps, members as a set.
-/
theorem agrees_iff {rel inSet : Shape → Shape → Prop}
    {opt : Option OptionSet → Option OptionSet → Prop} {l l' : Layout} :
    l.Agrees rel inSet opt l' ↔
    l.face = l'.face ∧ opt l.options? l'.options? ∧
      List.Forall₂ (fun v w => Scalar.same v w = true) l.values l'.values ∧
      Assoc.Agree (fun v w => Scalar.same v w = true) l.members l'.members ∧
      List.Forall₂ rel l.ordered l'.ordered ∧ Assoc.Agree rel l.table l'.table ∧
      SetAgree inSet l.set l'.set :=
  ⟨fun ⟨a, b, c, d, e, f, g⟩ => ⟨a, b, c, d, e, f, g⟩,
    fun ⟨a, b, c, d, e, f, g⟩ => ⟨a, b, c, d, e, f, g⟩⟩

end Layout

/-- Parts in order are compared one by one. -/
theorem sameList_iff {as bs : List Shape} : sameList as bs = true ↔ List.Forall₂ Same as bs := by
  induction as generalizing bs with
  | nil => cases bs <;> simp [sameList]
  | cons a rest ih => cases bs <;> simp [sameList, ih, Same]

/-- Members are looked for among the others, each of which is compared with the one in question. -/
theorem sameEachIn_iff {as bs : List Shape} :
    sameEachIn as bs = true ↔ ∀ a ∈ as, ∃ b ∈ bs, flip Same a b := by
  induction as with
  | nil => simp [sameEachIn]
  | cons a rest ih => simp [sameEachIn, ih, among_iff, flip, Same]

/-- One table is within another if each of its entries has the same one under its key. -/
theorem sameWithin_iff {table other : List (String × Shape)} :
    sameWithin table other = true ↔
      ∀ key a, (key, a) ∈ table → ∃ b, Assoc.find? key other = some b ∧ Same a b := by
  induction table with
  | nil => simp [sameWithin]
  | cons entry rest ih =>
    obtain ⟨k, x⟩ := entry
    have first : (∃ b, Assoc.find? k other = some b ∧ Same x b) ↔
        sameWithin [(k, x)] other = true := by
      simp only [sameWithin, Bool.and_true]
      split <;> rename_i found <;> simp [found, Same]
    have split : sameWithin ((k, x) :: rest) other =
        (sameWithin [(k, x)] other && sameWithin rest other) := by
      simp [sameWithin]
    rw [split, Bool.and_eq_true, ih, ← first]
    constructor
    · rintro ⟨here, later⟩ key a mem
      rcases List.mem_cons.1 mem with eq | mem
      · cases eq
        exact here
      · exact later key a mem
    · intro h
      exact ⟨h k x List.mem_cons_self, fun key a mem => h key a (List.mem_cons_of_mem _ mem)⟩

/-- Two tables, of one length and one within the other, agree as maps. -/
theorem sameTable_iff {table other : List (String × Shape)} :
    table.length = other.length ∧ sameWithin table other = true ↔
      Assoc.Agree Same table other := by
  rw [sameWithin_iff]
  exact ⟨fun h => ⟨h.1, h.2⟩, fun h => ⟨h.1, h.2⟩⟩

/-- Two sets, of one length and one within the other, agree as sets. -/
theorem sameSet_iff {as bs : List Shape} :
    as.length = bs.length ∧ sameEachIn as bs = true ↔ SetAgree (flip Same) as bs := by
  rw [sameEachIn_iff]
  exact ⟨fun h => ⟨h.1, h.2⟩, fun h => ⟨h.1, h.2⟩⟩

theorem agree_nil {α : Type} {rel : α → α → Prop} : Assoc.Agree rel [] [] :=
  ⟨rfl, fun _ _ h => by cases h⟩

theorem setAgree_nil {α : Type} {rel : α → α → Prop} : SetAgree rel [] [] :=
  ⟨rfl, fun _ h => by cases h⟩

/-- A bound stands before the constraints; whether there is one shows on the face. -/
theorem sameBounds_iff {a b : Option Shape} {as bs : List Shape} :
    sameOption a b = true ∧ List.Forall₂ Same as bs ↔
      a.isSome = b.isSome ∧ List.Forall₂ Same (a.toList ++ as) (b.toList ++ bs) := by
  cases a <;> cases b <;> simp [sameOption, Same]

/-- Two shapes are the same if their layouts agree.  What is looked for in a set is compared with it
the other way round. -/
theorem same_iff {a b : Shape} : Same a b ↔ a.layout.Agrees Same (flip Same) Eq b.layout := by
  rw [Layout.agrees_iff]
  -- shapes of different kinds differ on their faces
  cases a <;> cases b <;>
    simp [Same, same, layout, sameList_iff, sameTable_iff, sameSet_iff, Scalar.sameList_iff,
      Scalar.sameTable_iff, agree_nil, setAgree_nil, and_assoc, and_comm, and_left_comm]
  case typeVar.typeVar => exact fun _ => and_comm.trans sameBounds_iff

/-! ## Children -/

theorem mem_children_iff {x part : Shape} : part ∈ x.children ↔ part ∈ x.layout.parts := by
  cases x <;> simp [children, layout, Layout.parts, or_comm]

/-- A part is smaller than what it is part of, which makes an induction over shapes. -/
theorem sizeOf_lt_of_mem_children {x part : Shape} (h : part ∈ x.children) :
    sizeOf part < sizeOf x := by
  have ofList : ∀ shapes : List Shape, part ∈ shapes → sizeOf part < sizeOf shapes :=
    fun shapes h => List.sizeOf_lt_of_mem h
  have ofTable : ∀ table : List (String × Shape), part ∈ table.map Prod.snd →
      sizeOf part < sizeOf table := by
    intro table h
    obtain ⟨⟨name, part⟩, mem, rfl⟩ := List.mem_map.1 h
    have := List.sizeOf_lt_of_mem mem
    simp only [Prod.mk.sizeOf_spec] at this ⊢
    omega
  cases x with
  | list element options | optional element options | newType name element =>
    cases List.mem_singleton.1 h
    simp only [list.sizeOf_spec, optional.sizeOf_spec, newType.sizeOf_spec]
    omega
  | tuple elements variadic options =>
    have := ofList elements h
    simp only [tuple.sizeOf_spec]
    omega
  | union members options =>
    have := ofList members h
    simp only [union.sizeOf_spec]
    omega
  | dict key value options | mapping key value options =>
    simp only [dict.sizeOf_spec, mapping.sizeOf_spec]
    rcases List.mem_pair.1 h with rfl | rfl
    · omega
    · omega
  | typeVar name bound constraints =>
    simp only [typeVar.sizeOf_spec]
    rcases List.mem_append.1 h with isBound | isConstraint
    · obtain rfl := Option.mem_toList.1 isBound
      simp only [Option.some.sizeOf_spec]
      omega
    · have := ofList constraints isConstraint
      omega
  | classType name fields options =>
    have := ofTable fields h
    simp only [classType.sizeOf_spec]
    omega
  | record name fields total options =>
    have := ofTable fields h
    simp only [record.sizeOf_spec]
    omega
  | function name params returns options =>
    simp only [function.sizeOf_spec]
    rcases List.mem_append.1 h with isParam | isReturn
    · have := ofTable params isParam
      omega
    · cases List.mem_singleton.1 isReturn
      omega
  | fixedGeneric base bindings options =>
    simp only [fixedGeneric.sizeOf_spec]
    rcases List.mem_cons.1 h with rfl | isBinding
    · omega
    · have := ofTable bindings isBinding
      omega
  | _ => cases h

/-- What holds of a shape whenever it holds of its children holds of all. -/
theorem children_induction {motive : Shape → Prop}
    (step : ∀ x, (∀ part ∈ x.children, motive part) → motive x) (x : Shape) : motive x := by
  induction size : sizeOf x using Nat.strongRecOn generalizing x with
  | ind n ih =>
    subst size
    exact step x fun part hpart => ih (sizeOf part) (sizeOf_lt_of_mem_children hpart) part rfl

/-- What holds of two shapes whenever it holds of their children, either way round, holds of any
two. -/
theorem pair_induction {motive : Shape → Shape → Prop}
    (step : ∀ a b, (∀ p ∈ a.children, ∀ q ∈ b.children, motive p q ∧ motive q p) → motive a b)
    (a b : Shape) : motive a b := by
  induction size : sizeOf a + sizeOf b using Nat.strongRecOn generalizing a b with
  | ind n ih =>
    subst size
    refine step a b fun p hp q hq => ?_
    have smaller := sizeOf_lt_of_mem_children hp
    have smaller' := sizeOf_lt_of_mem_children hq
    exact ⟨ih _ (by omega) p q rfl, ih _ (by omega) q p rfl⟩

/-! ## Laws of agreement -/

namespace Layout

variable {rel rel' inSet inSet' : Shape → Shape → Prop}
  {opt opt' : Option OptionSet → Option OptionSet → Prop} {l l' : Layout}

theorem mem_parts_of_mem_ordered {part : Shape} (h : part ∈ l.ordered) : part ∈ l.parts :=
  List.mem_append_left _ (List.mem_append_left _ h)

theorem mem_parts_of_mem_table {part : Shape} (h : part ∈ l.table.map Prod.snd) : part ∈ l.parts :=
  List.mem_append_left _ (List.mem_append_right _ h)

theorem mem_parts_of_mem_set {part : Shape} (h : part ∈ l.set) : part ∈ l.parts :=
  List.mem_append_right _ h

/-- Agreement in one sense is agreement in another that the parts and the options bear out. -/
theorem Agrees.imp (h : l.Agrees rel inSet opt l')
    (options : opt l.options? l'.options? → opt' l.options? l'.options?)
    (each : ∀ p ∈ l.parts, ∀ q ∈ l'.parts, rel p q → rel' p q)
    (eachSet : ∀ p ∈ l.parts, ∀ q ∈ l'.parts, inSet p q → inSet' p q) :
    l.Agrees rel' inSet' opt' l' where
  face := h.face
  options := options h.options
  values := h.values
  members := h.members
  ordered := forall₂_imp h.ordered fun p hp q hq =>
    each p (mem_parts_of_mem_ordered hp) q (mem_parts_of_mem_ordered hq)
  table := h.table.imp fun p hp q hq =>
    each p (mem_parts_of_mem_table hp) q (mem_parts_of_mem_table hq)
  set := by
    refine ⟨h.set.length_eq, fun p hp => ?_⟩
    obtain ⟨q, hq, related⟩ := h.set.among p hp
    exact ⟨q, hq, eachSet p (mem_parts_of_mem_set hp) q (mem_parts_of_mem_set hq) related⟩

/-- The tables of a layout are maps. -/
structure Distinct (l : Layout) : Prop where
  members : Assoc.Distinct l.members
  table : Assoc.Distinct l.table

/-- A layout agrees with itself if its parts do and its tables are maps. -/
theorem Agrees.refl (distinct : l.Distinct) (options : opt l.options? l.options?)
    (each : ∀ p ∈ l.parts, rel p p ∧ inSet p p) : l.Agrees rel inSet opt l where
  face := rfl
  options := options
  values := List.forall₂_same.2 fun v _ => v.same_refl
  members := .refl distinct.members fun entry _ => entry.2.same_refl
  ordered := List.forall₂_same.2 fun p hp => (each p (mem_parts_of_mem_ordered hp)).1
  table := .refl distinct.table fun entry mem =>
    (each entry.2 (mem_parts_of_mem_table (List.mem_map_of_mem (f := Prod.snd) mem))).1
  set := ⟨rfl, fun p hp => ⟨p, hp, (each p (mem_parts_of_mem_set hp)).2⟩⟩

/-- Layouts agree the other way round if their parts do.  For the members that takes a set without
repetitions: equal in number, those on one side use up those on the other. -/
theorem Agrees.symm (h : l.Agrees rel (flip rel) Eq l') (distinct : l.Distinct)
    (distinct' : l'.Distinct) (each : ∀ p ∈ l.parts, ∀ q ∈ l'.parts, rel p q ↔ rel q p)
    (apart : l.set.Pairwise fun p p' => ¬rel p p')
    (compose : ∀ p q p', rel p q → rel q p' → rel p p') : l'.Agrees rel (flip rel) Eq l where
  face := h.face.symm
  options := h.options.symm
  values := forall₂_symm h.values fun _ _ _ _ => Scalar.same_symm
  members := (h.members.symm distinct.members distinct'.members).imp
    fun _ _ _ _ => Scalar.same_symm
  ordered := forall₂_symm h.ordered fun p hp q hq =>
    (each p (mem_parts_of_mem_ordered hp) q (mem_parts_of_mem_ordered hq)).1
  table := (h.table.symm distinct.table distinct'.table).imp fun q hq p hp =>
    (each p (mem_parts_of_mem_table hp) q (mem_parts_of_mem_table hq)).1
  set := by
    refine ⟨h.set.length_eq.symm, fun q hq => ?_⟩
    have back : ∀ p ∈ l.set, ∀ q ∈ l'.set, rel q p → rel p q := fun p hp q hq =>
      (each p (mem_parts_of_mem_set hp) q (mem_parts_of_mem_set hq)).2
    -- a shape that is the same as two members of a set would make them the same
    have partners : l.set.Pairwise fun p p' => ∀ q ∈ l'.set, flip rel p q → ¬flip rel p' q :=
      apart.imp_of_mem fun {p p'} hp _ different q hq first second =>
        different (compose p q p' (back p hp q hq first) second)
    obtain ⟨p, hp, related⟩ :=
      exists_partner_of_mem h.set.among partners (Nat.le_of_eq h.set.length_eq.symm) hq
    exact ⟨p, hp, back p hp q hq related⟩

/-- Layouts that agree with one in the middle agree with each other, if their parts do. -/
theorem Agrees.trans {l'' : Layout} (h : l.Agrees rel (flip rel) Eq l')
    (h' : l'.Agrees rel (flip rel) Eq l'')
    (each : ∀ p ∈ l.parts, ∀ r ∈ l''.parts, ∀ q,
      (rel p q → rel q r → rel p r) ∧ (rel r q → rel q p → rel r p)) :
    l.Agrees rel (flip rel) Eq l'' where
  face := h.face.trans h'.face
  options := h.options.trans h'.options
  values := forall₂_trans h.values h'.values fun _ _ _ _ => Scalar.same_trans
  members := h.members.trans h'.members fun _ _ _ _ => Scalar.same_trans
  ordered := by
    have composed : List.Forall₂ (fun p r => ∃ q, rel p q ∧ rel q r) l.ordered l''.ordered :=
      forall₂_trans h.ordered h'.ordered fun _ _ q _ first second => ⟨q, first, second⟩
    refine forall₂_imp composed fun p hp r hr ⟨q, first, second⟩ => ?_
    exact (each p (mem_parts_of_mem_ordered hp) r (mem_parts_of_mem_ordered hr) q).1 first second
  table := by
    have composed : Assoc.Agree (fun p r => ∃ q, rel p q ∧ rel q r) l.table l''.table :=
      h.table.trans h'.table fun _ _ q _ first second => ⟨q, first, second⟩
    refine composed.imp fun p hp r hr ⟨q, first, second⟩ => ?_
    exact (each p (mem_parts_of_mem_table hp) r (mem_parts_of_mem_table hr) q).1 first second
  set := by
    refine ⟨h.set.length_eq.trans h'.set.length_eq, fun p hp => ?_⟩
    obtain ⟨q, hq, related⟩ := h.set.among p hp
    obtain ⟨r, hr, related'⟩ := h'.set.among q hq
    exact ⟨r, hr, (each p (mem_parts_of_mem_set hp) r (mem_parts_of_mem_set hr) q).2 related'
      related⟩

end Layout

/-! ## Laws of sameness -/

/-- The tables of a shape are maps, and as a union it has no member twice. -/
structure Sound (x : Shape) : Prop where
  distinct : x.layout.Distinct
  apart : x.layout.set.Pairwise fun a b => ¬Same a b

/-- A shape without members is sound if its tables are maps. -/
theorem sound_of_set_eq_nil {x : Shape} (distinct : x.layout.Distinct) (set : x.layout.set = []) :
    x.Sound :=
  ⟨distinct, by rw [set]; exact .nil⟩

/-- All that occurs in a shape is sound. -/
abbrev Proper : Shape → Prop := Throughout Sound

/-- A shape whose tables are maps and whose unions are sets is the same as itself. -/
theorem same_refl {x : Shape} (proper : x.Proper) : Same x x := by
  induction x using children_induction with
  | step x ih =>
    rw [same_iff]
    refine .refl proper.self.distinct rfl fun part hpart => ?_
    have child := mem_children_iff.2 hpart
    have itself := ih part child (proper.child child)
    exact ⟨itself, itself⟩

/-- Members of unions change sides as they are compared, so that the two ways round are shown
together. -/
private theorem same_trans_both (a : Shape) : ∀ b c,
    (Same a b → Same b c → Same a c) ∧ (Same c b → Same b a → Same c a) := by
  induction a using children_induction with
  | step a ih =>
    have each : ∀ p ∈ a.layout.parts, ∀ q r,
        (Same p q → Same q r → Same p r) ∧ (Same r q → Same q p → Same r p) :=
      fun p hp => ih p (mem_children_iff.2 hp)
    intro b c
    constructor
    · intro h h'
      rw [same_iff] at h h' ⊢
      exact h.trans h' fun p hp r _ q => each p hp q r
    · intro h h'
      rw [same_iff] at h h' ⊢
      exact h.trans h' fun r _ p hp q => (each p hp q r).symm

theorem same_trans {a b c : Shape} (h : Same a b) (h' : Same b c) : Same a c :=
  (same_trans_both a b c).1 h h'

/-- Of two such shapes, neither way of comparing them says more than the other. -/
theorem same_symm {a b : Shape} (h : Same a b) (proper : a.Proper) (proper' : b.Proper) :
    Same b a := by
  induction a, b using pair_induction with
  | step a b ih =>
    have each : ∀ p ∈ a.layout.parts, ∀ q ∈ b.layout.parts, Same p q ↔ Same q p := by
      intro p hp q hq
      have child := mem_children_iff.2 hp
      have child' := mem_children_iff.2 hq
      obtain ⟨there, back⟩ := ih p child q child'
      exact ⟨fun h => there h (proper.child child) (proper'.child child'),
        fun h => back h (proper'.child child') (proper.child child)⟩
    rw [same_iff] at h ⊢
    exact h.symm proper.self.distinct proper'.self.distinct each proper.self.apart
      fun _ _ _ => same_trans

end Shape

end TypeCatalog
