import TypeCatalog.Proofs.Components

/-!
Sameness of descriptors.

`Descriptor.Agrees` is sameness one level at a time (`same_iff`).  Between descriptors whose tables
are maps, sameness is reflexive and symmetric, and it is always transitive.  Descriptors that are
the same are read alike (`reading_alike`), and each part of the one is the same as some part of
the other, though not in the same place (`exists_part_of_same`).
-/

namespace TypeCatalog

/-! ## Lists related one by one -/

section Lists

variable {α : Type} {rel rel' rel'' : α → α → Prop} {as bs cs : List α}

/-- A relation may be replaced by one that follows from it between elements of the lists. -/
theorem forall₂_imp (h : List.Forall₂ rel as bs)
    (each : ∀ a ∈ as, ∀ b ∈ bs, rel a b → rel' a b) : List.Forall₂ rel' as bs := by
  induction h with
  | nil => exact .nil
  | cons first _ ih =>
    refine .cons (each _ List.mem_cons_self _ List.mem_cons_self first) (ih ?_)
    exact fun a ha b hb => each a (List.mem_cons_of_mem _ ha) b (List.mem_cons_of_mem _ hb)

/-- Lists that are related one by one are so the other way round, if their elements are. -/
theorem forall₂_symm (h : List.Forall₂ rel as bs)
    (each : ∀ a ∈ as, ∀ b ∈ bs, rel a b → rel' b a) : List.Forall₂ rel' bs as := by
  have flipped : List.Forall₂ (flip rel') as bs := forall₂_imp h each
  exact flipped.flip

/-- Relations between lists compose where those between their elements do. -/
theorem forall₂_trans (h : List.Forall₂ rel as bs) (h' : List.Forall₂ rel' bs cs)
    (each : ∀ a ∈ as, ∀ b c, rel a b → rel' b c → rel'' a c) : List.Forall₂ rel'' as cs := by
  induction h generalizing cs with
  | nil =>
    cases h'
    exact .nil
  | cons first _ ih =>
    cases h' with
    | cons first' later' =>
      refine .cons (each _ List.mem_cons_self _ _ first first') (ih later' ?_)
      exact fun a ha => each a (List.mem_cons_of_mem _ ha)

/-- Every element of the second list has a partner in the first. -/
theorem exists_of_forall₂_of_mem {b : α} (h : List.Forall₂ rel as bs) (hb : b ∈ bs) :
    ∃ a ∈ as, rel a b := by
  induction h with
  | nil => cases hb
  | cons first _ ih =>
    rcases List.mem_cons.1 hb with rfl | later
    · exact ⟨_, List.mem_cons_self, first⟩
    · obtain ⟨a, ha, related⟩ := ih later
      exact ⟨a, List.mem_cons_of_mem _ ha, related⟩

theorem forall₂_headD {a b : α} (h : List.Forall₂ rel as bs) (default : rel a b) :
    rel (as.headD a) (bs.headD b) := by
  cases h with
  | nil => exact default
  | cons first _ => exact first

/-- Elements at one place are related, and so is what stands for them where there are none. -/
theorem forall₂_getD {a b : α} (h : List.Forall₂ rel as bs) (i : Nat) (default : rel a b) :
    rel (as[i]?.getD a) (bs[i]?.getD b) := by
  induction h generalizing i with
  | nil => exact default
  | cons first _ ih =>
    cases i with
    | zero => exact first
    | succ i => exact ih i

theorem forall₂_getLastD {a b : α} (h : List.Forall₂ rel as bs) (default : rel a b) :
    rel (as.getLastD a) (bs.getLastD b) := by
  induction h generalizing a b with
  | nil => exact default
  | cons first _ ih =>
    rw [List.getLastD_cons, List.getLastD_cons]
    exact ih first

theorem forall₂_tail (h : List.Forall₂ rel as bs) : List.Forall₂ rel as.tail bs.tail := by
  cases h with
  | nil => exact .nil
  | cons _ later => exact later

theorem forall₂_dropLast (h : List.Forall₂ rel as bs) :
    List.Forall₂ rel as.dropLast bs.dropLast := by
  rw [List.dropLast_eq_take, List.dropLast_eq_take, h.length_eq]
  exact List.forall₂_take _ h

end Lists

/-! ## Values -/

namespace Scalar

theorem same_refl (v : Scalar) : v.same v = true := by
  cases v <;> simp [same, Binary64.same]

theorem same_symm {v w : Scalar} (h : v.same w = true) : w.same v = true := by
  cases v <;> cases w <;> simp_all [same, Binary64.same]

theorem same_trans {u v w : Scalar} (h : u.same v = true) (h' : v.same w = true) :
    u.same w = true := by
  cases u <;> cases v <;> simp [same] at h <;> cases w <;> simp_all [same, Binary64.same]

theorem sameList_iff {vs ws : List Scalar} :
    sameList vs ws = true ↔ List.Forall₂ (fun v w => v.same w = true) vs ws := by
  induction vs generalizing ws with
  | nil => cases ws <;> simp [sameList]
  | cons v rest ih => cases ws <;> simp [sameList, ih]

/-- Tables of values are compared as maps: key by key, in no order. -/
theorem sameTable_iff {table other : List (String × Scalar)} :
    sameTable table other = true ↔ Assoc.Agree (fun v w => v.same w = true) table other := by
  unfold sameTable
  rw [Bool.and_eq_true, beq_iff_eq, List.all_eq_true]
  constructor
  · rintro ⟨lengths, within⟩
    refine ⟨lengths, fun key v mem => ?_⟩
    have here := within (key, v) mem
    cases found : Assoc.find? key other with
    | none => simp [found] at here
    | some w => exact ⟨w, rfl, by simpa only [found] using here⟩
  · rintro ⟨lengths, within⟩
    refine ⟨lengths, ?_⟩
    rintro ⟨key, v⟩ mem
    obtain ⟨w, found, related⟩ := within key v mem
    simpa only [found] using related

end Scalar

/-! ## Descriptors -/

namespace Descriptor

open Recognizer

/-- Two descriptors are the same. -/
def Same (a b : Descriptor) : Prop := a.same b = true

theorem sameList_iff {as bs : List Descriptor} :
    sameList as bs = true ↔ List.Forall₂ Same as bs := by
  induction as generalizing bs with
  | nil => cases bs <;> simp [sameList]
  | cons a rest ih => cases bs <;> simp [sameList, ih, Same]

/-- Bounds are compared as lists of at most one descriptor. -/
theorem sameOption_iff {a b : Option Descriptor} :
    sameOption a b = true ↔ List.Forall₂ Same a.toList b.toList := by
  cases a <;> cases b <;> simp [sameOption, Same]

/-- One table is within another if each of its entries has a like one under the same key. -/
theorem sameWithin_iff {table other : List (String × Descriptor)} :
    sameWithin table other = true ↔
      ∀ key a, (key, a) ∈ table → ∃ b, Assoc.find? key other = some b ∧ Same a b := by
  induction table with
  | nil => simp [sameWithin]
  | cons entry rest ih =>
    obtain ⟨k, d⟩ := entry
    have first : (∃ b, Assoc.find? k other = some b ∧ Same d b) ↔
        sameWithin [(k, d)] other = true := by
      cases found : Assoc.find? k other <;> simp [sameWithin, found, Same]
    have split : sameWithin ((k, d) :: rest) other =
        (sameWithin [(k, d)] other && sameWithin rest other) := by
      simp [sameWithin]
    rw [split, Bool.and_eq_true, ih, ← first]
    constructor
    · rintro ⟨here, later⟩ key a mem
      rcases List.mem_cons.1 mem with eq | mem
      · cases eq
        exact here
      · exact later key a mem
    · intro h
      exact ⟨h k d List.mem_cons_self, fun key a mem => h key a (List.mem_cons_of_mem _ mem)⟩

/-- What two descriptors that are the same have in common, one level deep. -/
inductive Agrees : Descriptor → Descriptor → Prop
  | empty : Agrees empty empty
  | none : Agrees none none
  | any : Agrees any any
  | ellipsis : Agrees ellipsis ellipsis
  | unclassified {repr} : Agrees (unclassified repr) (unclassified repr)
  | builtin {name} : Agrees (builtin name) (builtin name)
  | ref {name} : Agrees (ref name) (ref name)
  | literal {vs ws} : List.Forall₂ (fun v w => Scalar.same v w = true) vs ws →
    Agrees (literal vs) (literal ws)
  | enum {name vs ws} : Assoc.Agree (fun v w => Scalar.same v w = true) vs ws →
    Agrees (enum name vs) (enum name ws)
  | generic {origin as bs} : List.Forall₂ Same as bs →
    Agrees (generic origin as) (generic origin bs)
  | union {as bs} : List.Forall₂ Same as bs → Agrees (union as) (union bs)
  | typeVar {name a b as bs} : List.Forall₂ Same (Option.toList a) (Option.toList b) →
    List.Forall₂ Same as bs → Agrees (typeVar name a as) (typeVar name b bs)
  | classDecl {name as bs params} : Assoc.Agree Same as bs →
    Agrees (classDecl name as params) (classDecl name bs params)
  | typedDict {name as bs total} : Assoc.Agree Same as bs →
    Agrees (typedDict name as total) (typedDict name bs total)
  | newType {name a b} : Same a b → Agrees (newType name a) (newType name b)
  | parameterized {a b as bs} : Same a b → List.Forall₂ Same as bs →
    Agrees (parameterized a as) (parameterized b bs)
  | function {name as bs params} : Assoc.Agree Same as bs →
    Agrees (function name as params) (function name bs params)

/-- The comparison of descriptors decides `Agrees`, constructor by constructor. -/
theorem same_iff {a b : Descriptor} : Same a b ↔ Agrees a b := by
  constructor
  · intro h
    unfold Same at h
    -- descriptors of different kinds are not the same
    cases a <;> cases b <;>
      simp only [same, Bool.and_eq_true, beq_iff_eq, Bool.false_eq_true] at h
    case empty.empty => exact .empty
    case none.none => exact .none
    case any.any => exact .any
    case ellipsis.ellipsis => exact .ellipsis
    case unclassified.unclassified =>
      subst h
      exact .unclassified
    case builtin.builtin =>
      subst h
      exact .builtin
    case ref.ref =>
      subst h
      exact .ref
    case literal.literal => exact .literal (Scalar.sameList_iff.1 h)
    case enum.enum =>
      obtain ⟨rfl, members⟩ := h
      exact .enum (Scalar.sameTable_iff.1 members)
    case generic.generic =>
      obtain ⟨rfl, args⟩ := h
      exact .generic (sameList_iff.1 args)
    case union.union => exact .union (sameList_iff.1 h)
    case typeVar.typeVar =>
      obtain ⟨⟨rfl, bound⟩, constraints⟩ := h
      exact .typeVar (sameOption_iff.1 bound) (sameList_iff.1 constraints)
    case classDecl.classDecl =>
      obtain ⟨⟨rfl, lengths, fields⟩, rfl⟩ := h
      exact .classDecl ⟨lengths, sameWithin_iff.1 fields⟩
    case typedDict.typedDict =>
      obtain ⟨⟨rfl, lengths, fields⟩, rfl⟩ := h
      exact .typedDict ⟨lengths, sameWithin_iff.1 fields⟩
    case newType.newType =>
      obtain ⟨rfl, supertype⟩ := h
      exact .newType supertype
    case parameterized.parameterized =>
      obtain ⟨base, args⟩ := h
      exact .parameterized base (sameList_iff.1 args)
    case function.function =>
      obtain ⟨⟨rfl, lengths, annotations⟩, rfl⟩ := h
      exact .function ⟨lengths, sameWithin_iff.1 annotations⟩
  · intro h
    unfold Same
    cases h with
    | empty | none | any | ellipsis => simp only [same]
    | unclassified | builtin | ref => simp only [same, beq_self_eq_true]
    | literal values => simp only [same, Scalar.sameList_iff.2 values]
    | enum members =>
      simp only [same, Scalar.sameTable_iff.2 members, beq_self_eq_true, Bool.and_self]
    | generic args => simp only [same, sameList_iff.2 args, beq_self_eq_true, Bool.and_self]
    | union members => simp only [same, sameList_iff.2 members]
    | typeVar bound constraints =>
      simp only [same, sameOption_iff.2 bound, sameList_iff.2 constraints, beq_self_eq_true,
        Bool.and_self]
    | classDecl fields | typedDict fields | function fields =>
      simp only [same, fields.length_eq, sameWithin_iff.2 fields.within, beq_self_eq_true,
        Bool.and_self]
    | newType supertype =>
      have supertype : same _ _ = true := supertype
      simp only [same, supertype, beq_self_eq_true, Bool.and_self]
    | parameterized base args =>
      have base : same _ _ = true := base
      simp only [same, base, sameList_iff.2 args, Bool.and_self]

/-! ## Descriptors whose tables are maps -/

/-- The table of a descriptor, if it has one, has distinct keys. -/
def TableDistinct : Descriptor → Prop
  | enum _ members => Assoc.Distinct members
  | classDecl _ fields _ => Assoc.Distinct fields
  | typedDict _ fields _ => Assoc.Distinct fields
  | function _ annotations _ => Assoc.Distinct annotations
  | _ => True

/-- All tables in a descriptor, at whatever depth, have distinct keys. -/
inductive Distinct : Descriptor → Prop
  | intro {d : Descriptor} : d.TableDistinct → (∀ c ∈ d.components, Distinct c) → Distinct d

theorem Distinct.table {d : Descriptor} (h : d.Distinct) : d.TableDistinct := by
  cases h
  assumption

/-- A descriptor whose tables are maps has only such inside. -/
theorem Distinct.component {c d : Descriptor} (h : d.Distinct) (hc : c ∈ d.components) :
    c.Distinct := by
  cases h with
  | intro _ components => exact components c hc

theorem Distinct.of_leaf {d : Descriptor} (table : d.TableDistinct) (leaf : d.components = []) :
    d.Distinct :=
  .intro table fun c hc => by rw [leaf] at hc; cases hc

/-! ## An equivalence -/

/-- A map agrees with itself if its entries do. -/
theorem agree_refl {table : List (String × Descriptor)} (distinct : Assoc.Distinct table)
    (h : ∀ a ∈ table.map Prod.snd, Same a a) : Assoc.Agree Same table table :=
  .refl distinct fun _ mem => h _ (List.mem_map_of_mem (f := Prod.snd) mem)

theorem same_refl (d : Descriptor) (distinct : d.Distinct) : Same d d := by
  induction d using components_induction with
  | step d ih =>
    have ih : ∀ c ∈ d.components, Same c c := fun c hc => ih c hc (distinct.component hc)
    have table := distinct.table
    rw [same_iff]
    cases d with
    | empty => exact .empty
    | none => exact .none
    | any => exact .any
    | ellipsis => exact .ellipsis
    | unclassified repr => exact .unclassified
    | builtin name => exact .builtin
    | ref name => exact .ref
    | literal values => exact .literal (List.forall₂_same.2 fun v _ => v.same_refl)
    | enum name members => exact .enum (.refl table fun entry _ => entry.2.same_refl)
    | generic origin args => exact .generic (List.forall₂_same.2 ih)
    | union members => exact .union (List.forall₂_same.2 ih)
    | typeVar name bound constraints =>
      exact .typeVar (List.forall₂_same.2 fun c hc => ih c (List.mem_append_left _ hc))
        (List.forall₂_same.2 fun c hc => ih c (List.mem_append_right _ hc))
    | classDecl name fields typeParams => exact .classDecl (agree_refl table ih)
    | typedDict name fields total => exact .typedDict (agree_refl table ih)
    | newType name supertype => exact .newType (ih supertype List.mem_cons_self)
    | parameterized base args =>
      exact .parameterized (ih base List.mem_cons_self)
        (List.forall₂_same.2 fun c hc => ih c (List.mem_cons_of_mem _ hc))
    | function name annotations paramNames => exact .function (agree_refl table ih)

/-- Maps agree the other way round, if their entries do: they have the same keys. -/
theorem agree_symm {table other : List (String × Descriptor)} (h : Assoc.Agree Same table other)
    (distinct : Assoc.Distinct table) (distinct' : Assoc.Distinct other)
    (each : ∀ a ∈ table.map Prod.snd, ∀ b ∈ other.map Prod.snd, Same a b → Same b a) :
    Assoc.Agree Same other table :=
  (h.symm distinct distinct').imp fun b hb a ha => each a ha b hb

theorem same_symm {a b : Descriptor} (h : Same a b) (distinct : a.Distinct)
    (distinct' : b.Distinct) : Same b a := by
  induction a using components_induction generalizing b with
  | step a ih =>
    have ih : ∀ c ∈ a.components, ∀ c' ∈ b.components, Same c c' → Same c' c :=
      fun c hc c' hc' related => ih c hc related (distinct.component hc) (distinct'.component hc')
    have table := distinct.table
    have table' := distinct'.table
    rw [same_iff] at h ⊢
    cases h with
    | empty => exact .empty
    | none => exact .none
    | any => exact .any
    | ellipsis => exact .ellipsis
    | unclassified => exact .unclassified
    | builtin => exact .builtin
    | ref => exact .ref
    | literal values => exact .literal (forall₂_symm values fun _ _ _ _ => Scalar.same_symm)
    | enum members =>
      exact .enum ((members.symm table table').imp fun _ _ _ _ => Scalar.same_symm)
    | generic args => exact .generic (forall₂_symm args ih)
    | union members => exact .union (forall₂_symm members ih)
    | typeVar bound constraints =>
      refine .typeVar (forall₂_symm bound fun c hc c' hc' => ?_)
        (forall₂_symm constraints fun c hc c' hc' => ?_)
      · exact ih c (List.mem_append_left _ hc) c' (List.mem_append_left _ hc')
      · exact ih c (List.mem_append_right _ hc) c' (List.mem_append_right _ hc')
    | classDecl fields => exact .classDecl (agree_symm fields table table' ih)
    | typedDict fields => exact .typedDict (agree_symm fields table table' ih)
    | newType supertype =>
      exact .newType (ih _ List.mem_cons_self _ List.mem_cons_self supertype)
    | parameterized base args =>
      refine .parameterized (ih _ List.mem_cons_self _ List.mem_cons_self base)
        (forall₂_symm args fun c hc c' hc' => ?_)
      exact ih c (List.mem_cons_of_mem _ hc) c' (List.mem_cons_of_mem _ hc')
    | function annotations => exact .function (agree_symm annotations table table' ih)

/-- Maps that agree with one map agree with each other, if their entries do. -/
theorem agree_trans {table other third : List (String × Descriptor)}
    (h : Assoc.Agree Same table other) (h' : Assoc.Agree Same other third)
    (each : ∀ a ∈ table.map Prod.snd, ∀ b c, Same a b → Same b c → Same a c) :
    Assoc.Agree Same table third :=
  h.trans h' fun _ mem => each _ (List.mem_map_of_mem (f := Prod.snd) mem)

theorem same_trans {a b c : Descriptor} (h : Same a b) (h' : Same b c) : Same a c := by
  induction a using components_induction generalizing b c with
  | step a ih =>
    have ih : ∀ p ∈ a.components, ∀ q r, Same p q → Same q r → Same p r :=
      fun p hp q r => ih p hp
    rw [same_iff] at h h' ⊢
    cases h with
    | empty | none | any | ellipsis | unclassified | builtin | ref => exact h'
    | literal values =>
      cases h' with
      | literal values' =>
        exact .literal (forall₂_trans values values' fun _ _ _ _ => Scalar.same_trans)
    | enum members =>
      cases h' with
      | enum members' => exact .enum (members.trans members' fun _ _ _ _ => Scalar.same_trans)
    | generic args =>
      cases h' with
      | generic args' => exact .generic (forall₂_trans args args' ih)
    | union members =>
      cases h' with
      | union members' => exact .union (forall₂_trans members members' ih)
    | typeVar bound constraints =>
      cases h' with
      | typeVar bound' constraints' =>
        exact .typeVar (forall₂_trans bound bound' fun p hp => ih p (List.mem_append_left _ hp))
          (forall₂_trans constraints constraints' fun p hp => ih p (List.mem_append_right _ hp))
    | classDecl fields =>
      cases h' with
      | classDecl fields' => exact .classDecl (agree_trans fields fields' ih)
    | typedDict fields =>
      cases h' with
      | typedDict fields' => exact .typedDict (agree_trans fields fields' ih)
    | newType supertype =>
      cases h' with
      | newType supertype' =>
        exact .newType (ih _ List.mem_cons_self _ _ supertype supertype')
    | parameterized base args =>
      cases h' with
      | parameterized base' args' =>
        exact .parameterized (ih _ List.mem_cons_self _ _ base base')
          (forall₂_trans args args' fun p hp => ih p (List.mem_cons_of_mem _ hp))
    | function annotations =>
      cases h' with
      | function annotations' => exact .function (agree_trans annotations annotations' ih)

/-- Two descriptors are equal or the same.  The two differ where a table is no map. -/
def Like (a b : Descriptor) : Prop := a = b ∨ Same a b

/-- Likeness passes through a third descriptor. -/
theorem Like.trans {a b c : Descriptor} (h : Like a b) (h' : Like b c) : Like a c := by
  rcases h with rfl | h
  · exact h'
  · rcases h' with rfl | h'
    · exact .inr h
    · exact .inr (same_trans h h')

theorem Like.same {a b : Descriptor} (h : Like a b) (distinct : a.Distinct) : Same a b := by
  rcases h with rfl | h
  · exact same_refl a distinct
  · exact h

/-! ## Parts -/

theorem isEllipsis_eq_of_same {a b : Descriptor} (h : Same a b) :
    isEllipsis a = isEllipsis b := by
  cases same_iff.1 h <;> rfl

/-- Like arguments of a tuple are both open or both not. -/
theorem isOpen_eq_of_same {as bs : List Descriptor} (h : List.Forall₂ Same as bs) :
    isOpen as = isOpen bs := by
  rw [Bool.eq_iff_iff, isOpen_iff, isOpen_iff]
  constructor
  · rintro ⟨element, rfl⟩
    obtain ⟨x, rest, -, hrest, rfl⟩ := List.forall₂_cons_left_iff.1 h
    obtain ⟨y, rest', dots, none, rfl⟩ := List.forall₂_cons_left_iff.1 hrest
    cases none
    cases same_iff.1 dots
    exact ⟨x, rfl⟩
  · rintro ⟨element, rfl⟩
    obtain ⟨x, rest, -, hrest, rfl⟩ := List.forall₂_cons_right_iff.1 h
    obtain ⟨y, rest', dots, none, rfl⟩ := List.forall₂_cons_right_iff.1 hrest
    cases none
    cases same_iff.1 dots
    exact ⟨x, rfl⟩

theorem forall₂_positional {as bs : List Descriptor} (h : List.Forall₂ Same as bs) :
    List.Forall₂ Same (positional as) (positional bs) := by
  unfold positional
  rw [isOpen_eq_of_same h]
  split
  · exact List.forall₂_take 1 h
  · exact h

theorem any_isEllipsis_eq_of_same {as bs : List Descriptor} (h : List.Forall₂ Same as bs) :
    as.any isEllipsis = bs.any isEllipsis := by
  induction h with
  | nil => rfl
  | cons first _ ih => rw [List.any_cons, List.any_cons, isEllipsis_eq_of_same first, ih]

/-- The arguments that a family looks at stand at the same places. -/
theorem forall₂_positions {as bs : List Descriptor} (family : Origin)
    (h : List.Forall₂ Same as bs) :
    List.Forall₂ Same (family.positions as) (family.positions bs) := by
  cases family with
  | tuple => exact forall₂_positional h
  | list =>
    rcases h with _ | ⟨first, _ | ⟨second, later⟩⟩
    · exact .nil
    · exact .cons first .nil
    · exact .nil
  | dict | mapping =>
    rcases h with _ | ⟨first, _ | ⟨second, _ | ⟨third, later⟩⟩⟩
    · exact .nil
    · exact .nil
    · exact .cons first (.cons second .nil)
    · exact .nil

/-- What is wrong with some arguments is wrong with others that are the same. -/
theorem fault?_eq_of_same {as bs : List Descriptor} (family : Origin) (origin : String)
    (h : List.Forall₂ Same as bs) : family.fault? origin as = family.fault? origin bs := by
  cases family with
  | tuple => simp only [Origin.fault?, any_isEllipsis_eq_of_same (forall₂_positional h)]
  | list | dict | mapping => simp only [Origin.fault?, h.length_eq]

variable {definitions : List (String × Descriptor)}

/-- Tables that agree give a name like annotations; what neither of them has is left out in both. -/
theorem annotated_same {table other : List (String × Descriptor)}
    (h : Assoc.Agree Same table other) (distinct : Assoc.Distinct table) (name : String) :
    Like (annotated table name) (annotated other name) := by
  unfold annotated
  cases found : Assoc.find? name table with
  | none =>
    have absent : Assoc.find? name other = Option.none := by
      rw [Assoc.find?_eq_none_iff, ← (h.keys_perm distinct).mem_iff]
      exact Assoc.find?_eq_none_iff.1 found
    rw [absent]
    exact .inl rfl
  | some a =>
    obtain ⟨b, found', related⟩ := h.within name a (Assoc.mem_of_find? found)
    rw [found']
    exact .inr related

/-- A part of a descriptor has its like in every descriptor that is the same. -/
theorem exists_part_of_same {a b part : Descriptor} (h : Same a b) (distinct : a.Distinct)
    (distinct' : b.Distinct) (hp : part ∈ b.parts definitions) :
    ∃ p ∈ a.parts definitions, Like p part := by
  have table := distinct.table
  have table' := distinct'.table
  have ofLists : ∀ {as bs : List Descriptor}, List.Forall₂ Same as bs → part ∈ bs →
      ∃ p ∈ as, Like p part := by
    intro as bs related mem
    obtain ⟨p, hp, same⟩ := exists_of_forall₂_of_mem related mem
    exact ⟨p, hp, .inr same⟩
  have ofTables : ∀ {as bs : List (String × Descriptor)}, Assoc.Agree Same as bs →
      Assoc.Distinct as → Assoc.Distinct bs → part ∈ bs.map Prod.snd →
      ∃ p ∈ as.map Prod.snd, Like p part := by
    intro as bs agree distinct distinct' mem
    obtain ⟨⟨key, part⟩, entry, rfl⟩ := List.mem_map.1 mem
    obtain ⟨p, found, same⟩ := (agree.symm distinct distinct').within key part entry
    exact ⟨p, List.mem_map_of_mem (f := Prod.snd) (Assoc.mem_of_find? found), .inr same⟩
  cases same_iff.1 h with
  | empty | none | any | ellipsis | unclassified | builtin | literal | enum => cases hp
  | ref => exact ⟨part, hp, .inl rfl⟩
  | @generic origin as bs args =>
    simp only [parts] at hp ⊢
    cases held : Origin.of? origin with
    | none =>
      rw [held] at hp
      cases hp
    | some family =>
      rw [held] at hp
      exact ofLists (forall₂_positions family args) hp
  | union members => exact ofLists members hp
  | typeVar bound constraints => exact ofLists (List.rel_append bound constraints) hp
  | classDecl fields => exact ofTables fields table table' hp
  | typedDict fields => exact ofTables fields table table' hp
  | newType supertype => exact ofLists (.cons supertype .nil) hp
  | parameterized base args => exact ofLists (.cons base args) hp
  | function annotations =>
    rcases List.mem_append.1 hp with isParam | isReturn
    · obtain ⟨name, hname, rfl⟩ := List.mem_map.1 isParam
      exact ⟨_, List.mem_append_left _ (List.mem_map_of_mem hname),
        annotated_same annotations table name⟩
    · rw [List.mem_singleton] at isReturn
      subst isReturn
      exact ⟨_, List.mem_append_right _ List.mem_cons_self,
        annotated_same annotations table returnName⟩

/-! ## Readings -/

/-- The same thing is to be done, for sources that are the same. -/
inductive Reading.Alike : Reading → Reading → Prop
  | malformed {fault fault'} : Alike (.malformed fault) (.malformed fault')
  | unresolved {name} : Alike (.unresolved name) (.unresolved name)
  | composed : Alike .composed .composed
  | collected {kind name source source'} : Like source source' →
    Alike (.collected kind name source) (.collected kind name source')

theorem Reading.Alike.refl (reading : Reading) : reading.Alike reading := by
  cases reading with
  | malformed => exact .malformed
  | unresolved => exact .unresolved
  | composed => exact .composed
  | collected => exact .collected (.inl rfl)

theorem Reading.Alike.eq_unresolved {reading : Reading} {name : String}
    (h : Alike (.unresolved name) reading) : reading = .unresolved name := by
  cases h
  rfl

theorem Reading.Alike.eq_composed {reading : Reading} (h : Alike .composed reading) :
    reading = .composed := by
  cases h
  rfl

/-- What reads like a collected type is collected under the same name, from a like source. -/
theorem Reading.Alike.eq_collected {reading : Reading} {kind : CollectedKind} {name : String}
    {source : Descriptor} (h : Alike (.collected kind name source) reading) :
    ∃ source', reading = .collected kind name source' ∧ Like source source' := by
  cases h with
  | collected like => exact ⟨_, rfl, like⟩

/-- Like descriptors declare the same type parameters. -/
theorem declared_eq_of_same {a b : Descriptor} (h : Same a b) :
    a.declared definitions = b.declared definitions := by
  cases same_iff.1 h <;> rfl

/-- Descriptors that are the same are read alike. -/
theorem reading_alike {a b : Descriptor} (h : Same a b)
    (definitions : List (String × Descriptor)) :
    (a.reading definitions).Alike (b.reading definitions) := by
  cases same_iff.1 h with
  | empty | none | any | ellipsis | unclassified | builtin | enum | typeVar | newType =>
    exact .composed
  | ref => exact .refl _
  | literal values =>
    cases values with
    | nil => exact .malformed
    | cons => exact .composed
  | @generic origin as bs args =>
    have same : ((Origin.of? origin).bind fun family => family.fault? origin as) =
        (Origin.of? origin).bind fun family => family.fault? origin bs :=
      Option.bind_congr fun family _ => fault?_eq_of_same family origin args
    simp only [reading, same]
    exact .refl _
  | union members =>
    cases members with
    | nil => exact .malformed
    | cons => exact .composed
  | classDecl | typedDict | function => exact .collected (.inr h)
  | parameterized base args =>
    simp only [reading, declared_eq_of_same base, args.length_eq]
    split
    · exact .malformed
    · exact .composed

end Descriptor

end TypeCatalog
