import TypeCatalog.Proofs.Spelling

/-!
Shapes that are put together under two sets of options.

Two shapes match when they are normal, each under its options, and plainly the same
(`Shape.Matches`).  What is put together from matching shapes matches again (`matches_assembled`),
whatever the two sets of options are: fields may be ordered in one and not in the other, and a
union may be an optional type in one and not in the other.

The point is the union.  Under either set the members are taken out of matching shapes, and two
that are dropped as repetitions in one are plainly the same and so dropped in the other too; hence
the members match as sets (`exists_member_of_matches`), there are equally many
(`length_members_eq`), and what becomes of them is plainly their union in either case
(`Combines.cases_plain`).
-/

namespace TypeCatalog

namespace Shape

variable {o o' : OptionSet} {x y a : Shape} {xs ys : List Shape}

/-! ## Simple shapes are normal -/

/-- A shape that is neither a union nor an optional type is regular if it records the right options
and its tables are maps. -/
theorem regular_of_plain_face (options : ∀ o', x.layout.options? = some o' → o' = o)
    (distinct : x.layout.Distinct) (set : x.layout.set = [])
    (face : x.layout.face ≠ .optional) : Regular o x where
  options := options
  distinct := distinct
  apart := by rw [set]; exact .nil
  atoms := by rw [set]; exact fun _ h => by cases h
  collapsed := by rw [set]; exact fun _ _ h => by cases h
  optional inner o' eq := absurd (by rw [eq]; rfl) face

theorem regular_unknown : Regular o unknown :=
  regular_of_plain_face (fun _ eq => by cases eq) ⟨.nil, .nil⟩ rfl (fun eq => by cases eq)

theorem regular_none : Regular o none :=
  regular_of_plain_face (fun _ eq => by cases eq) ⟨.nil, .nil⟩ rfl (fun eq => by cases eq)

theorem regular_reference (name : String) (kind : CollectedKind) :
    Regular o (reference name kind) :=
  regular_of_plain_face (fun _ eq => by cases eq) ⟨.nil, .nil⟩ rfl (fun eq => by cases eq)

/-! ## What a normal shape brings into a union -/

/-- A shape that is no union and no optional type brings itself. -/
theorem brought_of_isAtom (atom : x.isAtom = true) : x.brought = [x] := by
  cases x with
  | union | optional => cases atom
  | _ => rfl

/-- An optional type brings what it is about, and the absent value. -/
theorem brought_optional {inner : Shape} (atom : inner.isAtom = true) :
    (optional inner o).brought = [inner, none] := by
  have alone : spliced inner = [inner] := by
    cases inner with
    | union | optional => cases atom
    | _ => rfl
  simp only [brought, reopened, List.flatMap_cons, List.flatMap_nil, alone]
  rfl

/-- What a normal shape brings into a union is normal, and not a union itself. -/
theorem Normal.of_mem_brought (normal : Normal o x) (h : a ∈ x.brought) :
    Normal o a ∧ a.isAtom = true := by
  cases atom : x.isAtom with
  | true =>
    rw [brought_of_isAtom atom, List.mem_singleton] at h
    subst h
    exact ⟨normal, atom⟩
  | false =>
    cases x with
    | union members p =>
      have listed : a ∈ members := by simpa [brought, reopened, spliced] using h
      exact ⟨normal.child listed, normal.self.atoms a listed⟩
    | optional inner p =>
      have inside := (normal.self.optional inner p rfl).2.1
      rw [brought_optional inside] at h
      rcases List.mem_pair.1 h with rfl | rfl
      · exact ⟨normal.inner, inside⟩
      · exact ⟨throughout_of_leaf regular_none rfl, rfl⟩
    | _ => cases atom

/-- What is no atom is plainly the union of what it brings. -/
theorem Normal.plain_eq_union (normal : Normal o x) (composite : x.isAtom = false) :
    x.plain = union (x.brought.map plain) .empty := by
  cases x with
  | union members p =>
    have all : (union members p).brought = members := by simp [brought, reopened, spliced]
    rw [plain_union, all]
  | optional inner p =>
    rw [normal.plain_optional, brought_optional (normal.self.optional inner p rfl).2.1]
    rfl
  | _ => cases composite

/-- A normal shape is spelled plainly as a union if it is not atomic. -/
theorem Normal.face_plain_eq_union_iff (normal : Normal o x) :
    x.plain.layout.face = .union ↔ x.isAtom = false := by
  cases atom : x.isAtom with
  | true =>
    obtain ⟨notUnion, notOptional⟩ := isAtom_iff.1 atom
    rw [face_plain notOptional]
    exact ⟨fun eq => absurd eq notUnion, fun eq => by cases eq⟩
  | false =>
    rw [normal.plain_eq_union atom]
    exact ⟨fun _ => rfl, fun _ => rfl⟩

/-! ## Shapes that match -/

/-- Two shapes are normal, each under its options, and plainly the same. -/
structure Matches (o o' : OptionSet) (x y : Shape) : Prop where
  left : Normal o x
  right : Normal o' y
  plain : Same x.plain y.plain

/-- Shapes match in both directions. -/
theorem Matches.symm (h : Matches o o' x y) : Matches o' o y x :=
  ⟨h.right, h.left, same_symm h.plain h.left.proper_plain h.right.proper_plain⟩

/-- A shape that is normal under both sets of options matches itself. -/
theorem Normal.matches_self (normal : Normal o x) (normal' : Normal o' x) : Matches o o' x x :=
  ⟨normal, normal', same_refl normal.proper_plain⟩

theorem matches_unknown : Matches o o' unknown unknown :=
  Normal.matches_self (throughout_of_leaf regular_unknown rfl)
    (throughout_of_leaf regular_unknown rfl)

theorem matches_reference (name : String) (kind : CollectedKind) :
    Matches o o' (reference name kind) (reference name kind) :=
  Normal.matches_self (throughout_of_leaf (regular_reference name kind) rfl)
    (throughout_of_leaf (regular_reference name kind) rfl)

/-- Shapes that match are both atomic or both not. -/
theorem Matches.isAtom_eq (h : Matches o o' x y) : x.isAtom = y.isAtom := by
  have faces : x.plain.layout.face = .union ↔ y.plain.layout.face = .union := by
    rw [(same_iff.1 h.plain).face]
  rw [h.left.face_plain_eq_union_iff, h.right.face_plain_eq_union_iff] at faces
  cases left : x.isAtom with
  | false => exact (faces.1 left).symm
  | true => cases right : y.isAtom with
    | true => rfl
    | false =>
      rw [faces.2 right] at left
      cases left

/-- What one of two matching shapes brings into a union, the other brings as well. -/
theorem Matches.exists_brought (h : Matches o o' x y) (ha : a ∈ x.brought) :
    ∃ b ∈ y.brought, Matches o o' a b := by
  cases atom : x.isAtom with
  | true =>
    rw [brought_of_isAtom atom, List.mem_singleton] at ha
    subst ha
    have atom' : y.isAtom = true := h.isAtom_eq ▸ atom
    exact ⟨y, brought_of_isAtom atom' ▸ List.mem_cons_self, h⟩
  | false =>
    have atom' : y.isAtom = false := h.isAtom_eq ▸ atom
    have plain := h.plain
    rw [h.left.plain_eq_union atom, h.right.plain_eq_union atom', same_iff] at plain
    obtain ⟨_, mapped, same⟩ := plain.set.among a.plain (List.mem_map_of_mem ha)
    obtain ⟨b, hb, rfl⟩ := List.mem_map.1 mapped
    have back : Matches o' o b a :=
      ⟨(h.right.of_mem_brought hb).1, (h.left.of_mem_brought ha).1, same⟩
    exact ⟨b, hb, back.symm⟩

/-! ## Members of a union of normal shapes -/

section Members

variable (normal : ∀ x ∈ xs, Normal o x)

include normal

/-- Members of normal shapes are normal and atomic. -/
theorem normal_of_mem_members (h : a ∈ members xs) : Normal o a ∧ a.isAtom = true := by
  obtain ⟨x, hx, brought⟩ := mem_brought_of_mem_members h
  exact (normal x hx).of_mem_brought brought

/-- Members are told apart by their plain spellings already. -/
theorem members_apart : (members xs).Pairwise fun a b => ¬Same a.plain b.plain := by
  have apart : (members xs).Pairwise fun a b => a.same b = false := firsts_pairwise _
  refine apart.imp_of_mem fun {a b} ha hb different same => ?_
  have same' : Same a b := ((normal_of_mem_members normal ha).1.same_iff_plain
    (normal_of_mem_members normal hb).1).2 same
  rw [Same, different] at same'
  cases same'

/-- What the union of normal shapes is, is normal. -/
theorem normal_of_combines (combines : Combines o xs x) : Normal o x := by
  have member : ∀ a ∈ members xs, Normal o a ∧ a.isAtom = true := fun a ha =>
    normal_of_mem_members normal ha
  cases combines with
  | single only => exact (member x (only ▸ List.mem_cons_self)).1
  | @optional inner collapse present listed =>
    have isMember := mem_members_of_pair listed
    refine throughout_of_children ⟨fun _ eq => (Option.some.inj eq).symm, ⟨.nil, .nil⟩, .nil,
      fun _ h => (by cases h), fun _ _ h => (by cases h), fun inner' _ eq => ?_⟩
      fun part hpart => ?_
    · cases eq
      exact ⟨collapse, (member inner isMember).2, present⟩
    · rw [List.mem_singleton.1 hpart]
      exact (member inner isMember).1
  | union several uncollapsed =>
    refine throughout_of_children ⟨fun _ eq => (Option.some.inj eq).symm, ⟨.nil, .nil⟩,
      members_apart normal, fun a ha => (member a ha).2, fun collapse two absent => ?_,
      fun _ _ eq => (by cases eq)⟩ fun part hpart => (member part hpart).1
    obtain ⟨first, second, listed⟩ := List.length_eq_two.1 two
    have listed : members xs = [first, second] := listed
    have absent : none ∈ members xs := absent
    rw [listed] at absent
    rcases List.mem_pair.1 absent with rfl | rfl
    · exact (uncollapsed second collapse).2 listed
    · exact (uncollapsed first collapse).1 listed

/-- A union with more than one member is plainly the union of its members, collapsed or not. -/
theorem Combines.cases_plain (combines : Combines o xs x) :
    members xs = [x] ∨ (∀ only, members xs ≠ [only]) ∧
      ∃ shapes : List Shape,
        x.plain = .union shapes .empty ∧ shapes.Perm ((members xs).map plain) := by
  cases combines with
  | single only => exact .inl only
  | @optional inner collapse present listed =>
    have perm := pair_perm_members listed
    have atom := (normal_of_mem_members normal (mem_members_of_pair listed)).2
    refine .inr ⟨fun only single => ?_, [inner.plain, none], plain_optional o atom present,
      perm.map plain⟩
    rw [single] at perm
    cases perm.length_eq
  | union several _ => exact .inr ⟨several, _, plain_union _ _, .refl _⟩

end Members

/-! ## Unions of matching shapes -/

section Unions

variable (h : List.Forall₂ (Matches o o') xs ys)

include h

theorem normal_of_matches : (∀ x ∈ xs, Normal o x) ∧ ∀ y ∈ ys, Normal o' y := by
  induction h with
  | nil => exact ⟨fun _ h => (by cases h), fun _ h => (by cases h)⟩
  | cons first _ ih =>
    exact ⟨List.forall_mem_cons.2 ⟨first.left, ih.1⟩, List.forall_mem_cons.2 ⟨first.right, ih.2⟩⟩

theorem matches_flip : List.Forall₂ (Matches o' o) ys xs :=
  (h.imp fun _ _ => Matches.symm).flip

/-- Each member of the one union has its match in the other. -/
theorem exists_member_of_matches (ha : a ∈ members xs) : ∃ b ∈ members ys, Matches o o' a b := by
  obtain ⟨normal, normal'⟩ := normal_of_matches h
  obtain ⟨x, hx, brought⟩ := mem_brought_of_mem_members ha
  obtain ⟨y, hy, matching⟩ := exists_of_forall₂_of_mem h.flip hx
  obtain ⟨b, hb, related⟩ := Matches.exists_brought matching brought
  obtain ⟨c, hc, alike⟩ := exists_member_of_mem_brought hy hb
  have normalC := (normal_of_mem_members normal' hc).1
  refine ⟨c, hc, related.left, normalC, ?_⟩
  rcases alike with rfl | same
  · exact related.plain
  · have back : Same b.plain c.plain := same_symm (normalC.same_plain related.right same)
      normalC.proper_plain related.right.proper_plain
    exact same_trans related.plain back

/-- Each member on one side has a partner of its own on the other. -/
theorem length_members_le : (members xs).length ≤ (members ys).length := by
  refine length_le_of_partners (fun a ha => exists_member_of_matches h ha) ?_
  refine (members_apart (normal_of_matches h).1).imp fun {a b} apart c _ first second => ?_
  exact apart (same_trans first.plain second.symm.plain)

/-- So there are as many members on both sides. -/
theorem length_members_eq : (members xs).length = (members ys).length :=
  Nat.le_antisymm (length_members_le h) (length_members_le (matches_flip h))

/-- The unions of shapes that match one by one match, however they are spelled. -/
theorem matches_combine (combines : Combines o xs x) (combines' : Combines o' ys y) :
    Matches o o' x y := by
  obtain ⟨normal, normal'⟩ := normal_of_matches h
  have lengths := length_members_eq h
  refine ⟨normal_of_combines normal combines, normal_of_combines normal' combines', ?_⟩
  rcases combines.cases_plain normal with only | ⟨several, shapes, spelled, perm⟩
  · rcases combines'.cases_plain normal' with only' | ⟨several', -, -, -⟩
    · obtain ⟨b, hb, related⟩ := exists_member_of_matches h (only ▸ List.mem_cons_self)
      rw [only', List.mem_singleton] at hb
      exact hb ▸ related.plain
    · rw [only, List.length_singleton] at lengths
      obtain ⟨other, single⟩ := List.length_eq_one_iff.1 lengths.symm
      exact absurd single (several' other)
  · rcases combines'.cases_plain normal' with only' | ⟨-, shapes', spelled', perm'⟩
    · rw [only', List.length_singleton] at lengths
      obtain ⟨other, single⟩ := List.length_eq_one_iff.1 lengths
      exact absurd single (several other)
    · rw [spelled, spelled', same_iff]
      refine ⟨rfl, rfl, .nil, agree_nil, .nil, agree_nil, ?_, fun p hp => ?_⟩
      · have counted := perm.length_eq.trans ((List.length_map _).trans lengths)
        exact counted.trans ((perm'.length_eq.trans (List.length_map _)).symm)
      · obtain ⟨a, ha, rfl⟩ := List.mem_map.1 (perm.mem_iff.1 hp)
        obtain ⟨b, hb, related⟩ := exists_member_of_matches h ha
        exact ⟨b.plain, perm'.mem_iff.2 (List.mem_map_of_mem hb), related.symm.plain⟩

end Unions

/-- Normal shapes that are no optional types match if their layouts agree with what matches in
them. -/
theorem matches_of_agrees (normal : Normal o x) (normal' : Normal o' y)
    (face : x.layout.face ≠ .optional)
    (h : x.layout.Agrees (Matches o o') (Matches o o') (fun p p' => p.isSome = p'.isSome)
      y.layout) :
    Matches o o' x y := by
  have face' : y.layout.face ≠ .optional := h.face ▸ face
  refine ⟨normal, normal', ?_⟩
  rw [same_iff, layout_plain face, layout_plain face', Layout.agrees_map_iff]
  exact h.imp erased_options_iff.2 (fun p _ q _ matching => matching.plain)
    fun p _ q _ matching => matching.symm.plain

end Shape

/-! ## Shapes of descriptors -/

namespace Descriptor

open Shape

variable {o o' : OptionSet} {xs ys : List Shape} {definitions : List (String × Descriptor)}

theorem perm_arranged (table : List (String × Shape)) : (arranged o table).Perm table := by
  unfold arranged
  split
  · exact Assoc.sortKeys_perm table
  · exact .refl table

/-- Fields of different names make a map, ordered or not. -/
theorem distinct_arranged {names : List String} (nodup : names.Nodup) (shapes : List Shape) :
    Assoc.Distinct (arranged o (names.zip shapes)) :=
  (Assoc.distinct_zip nodup shapes).perm (perm_arranged _)

/-- Shapes that are put together from normal ones are normal. -/
theorem normal_assembled (definitions : List (String × Descriptor)) {d : Descriptor}
    (distinct : d.Distinct) (normal : ∀ x ∈ xs, Normal o x) :
    Normal o (d.assembled definitions o xs) := by
  have table := distinct.table
  have recorded : ∀ p, some o = some p → p = o := fun _ eq => (Option.some.inj eq).symm
  have nothing : ∀ p, Option.none = some p → p = o := fun _ eq => by cases eq
  have onFace :
      Regular o (d.assembled definitions o xs) → Normal o (d.assembled definitions o xs) :=
    fun regular => throughout_assembled regular_unknown regular_none normal definitions o d
      fun _ => regular
  cases d with
  | union members =>
    obtain ⟨x, combined, combines⟩ := combine_eq_some o xs
    simp only [assembled, combined, Option.getD_some]
    exact normal_of_combines normal combines
  | ref name => exact drawnFrom_headD.throughout regular_unknown regular_none normal
  | generic origin args =>
    apply onFace
    simp only [assembled]
    split
    · rename_i family _
      cases family with
      | list | dict | tuple | mapping =>
        exact regular_of_plain_face recorded ⟨.nil, .nil⟩ rfl fun eq => by cases eq
    · exact regular_unknown
  | typeVar name bound constraints =>
    apply onFace
    rcases bound with _ | bound
    · exact regular_of_plain_face nothing ⟨.nil, .nil⟩ rfl fun eq => by cases eq
    · cases xs with
      | nil | cons => exact regular_of_plain_face nothing ⟨.nil, .nil⟩ rfl fun eq => by cases eq
  | classDecl name fields typeParams =>
    exact onFace (regular_of_plain_face recorded ⟨.nil, distinct_arranged table xs⟩ rfl
      fun eq => by cases eq)
  | typedDict name fields total =>
    exact onFace (regular_of_plain_face recorded ⟨.nil, distinct_arranged table xs⟩ rfl
      fun eq => by cases eq)
  | newType name supertype =>
    exact onFace (regular_of_plain_face nothing ⟨.nil, .nil⟩ rfl fun eq => by cases eq)
  | parameterized base args =>
    exact onFace (regular_of_plain_face recorded ⟨.nil, Assoc.distinct_ofPairs _⟩ rfl
      fun eq => by cases eq)
  | function name annotations paramNames =>
    exact onFace (regular_of_plain_face recorded ⟨.nil, Assoc.distinct_ofPairs _⟩ rfl
      fun eq => by cases eq)
  | enum name members =>
    exact onFace (regular_of_plain_face nothing ⟨table, .nil⟩ rfl fun eq => by cases eq)
  | none | builtin | literal =>
    exact onFace (regular_of_plain_face nothing ⟨.nil, .nil⟩ rfl fun eq => by cases eq)
  | empty | any | ellipsis | unclassified => exact onFace regular_unknown

/-- Fields in either order agree. -/
theorem agree_arranged {names : List String} (nodup : names.Nodup)
    (h : List.Forall₂ (Matches o o') xs ys) :
    Assoc.Agree (Matches o o') (arranged o (names.zip xs)) (arranged o' (names.zip ys)) := by
  have agree := (Assoc.inStep_zip names h).agree (Assoc.distinct_zip nodup ys)
  exact (agree.perm_left (perm_arranged _)).perm_right (perm_arranged _).symm
    (distinct_arranged nodup ys)

/-- Shapes that are put together from matching ones match. -/
theorem matches_assembled (definitions : List (String × Descriptor)) {d : Descriptor}
    (distinct : d.Distinct) (h : List.Forall₂ (Matches o o') xs ys) :
    Matches o o' (d.assembled definitions o xs) (d.assembled definitions o' ys) := by
  have normal := normal_assembled definitions distinct (normal_of_matches h).1
  have normal' := normal_assembled definitions distinct (normal_of_matches h).2
  have table := distinct.table
  have head := forall₂_headD h matches_unknown
  cases d with
  | union members =>
    obtain ⟨x, combined, combines⟩ := combine_eq_some o xs
    obtain ⟨y, combined', combines'⟩ := combine_eq_some o' ys
    simp only [assembled, combined, combined', Option.getD_some]
    exact matches_combine h combines combines'
  | ref name => exact head
  | generic origin args =>
    simp only [assembled] at normal normal' ⊢
    cases held : Origin.of? origin with
    | none => exact matches_unknown
    | some family =>
      rw [held] at normal normal'
      refine matches_of_agrees normal normal' (by cases family <;> exact fun eq => by cases eq) ?_
      cases family with
      | list =>
        exact ⟨rfl, rfl, .nil, agree_nil, .cons head .nil, agree_nil, setAgree_nil⟩
      | tuple => exact ⟨rfl, rfl, .nil, agree_nil, h, agree_nil, setAgree_nil⟩
      | dict | mapping =>
        exact ⟨rfl, rfl, .nil, agree_nil,
          .cons head (.cons (forall₂_getD h 1 matches_unknown) .nil), agree_nil, setAgree_nil⟩
  | typeVar name bound constraints =>
    refine matches_of_agrees normal normal' ?_ ?_
    · rcases bound with _ | bound
      · exact fun eq => by cases eq
      · cases xs with
        | nil | cons => exact fun eq => by cases eq
    · rcases bound with _ | bound
      · exact ⟨rfl, rfl, .nil, agree_nil, h, agree_nil, setAgree_nil⟩
      · cases h with
        | nil => exact ⟨rfl, rfl, .nil, agree_nil, .nil, agree_nil, setAgree_nil⟩
        | cons first later =>
          exact ⟨rfl, rfl, .nil, agree_nil, .cons first later, agree_nil, setAgree_nil⟩
  | classDecl name fields typeParams =>
    exact matches_of_agrees normal normal' (fun eq => by cases eq)
      ⟨rfl, rfl, .nil, agree_nil, .nil, agree_arranged table h, setAgree_nil⟩
  | typedDict name fields total =>
    exact matches_of_agrees normal normal' (fun eq => by cases eq)
      ⟨rfl, rfl, .nil, agree_nil, .nil, agree_arranged table h, setAgree_nil⟩
  | newType name supertype =>
    exact matches_of_agrees normal normal' (fun eq => by cases eq)
      ⟨rfl, rfl, .nil, agree_nil, .cons head .nil, agree_nil, setAgree_nil⟩
  | parameterized base args =>
    have bindings := (Assoc.inStep_zip (bindingNames (base.declared definitions) args.length)
      (forall₂_tail h)).ofPairs.agree (Assoc.distinct_ofPairs _)
    exact matches_of_agrees normal normal' (fun eq => by cases eq)
      ⟨rfl, rfl, .nil, agree_nil, .cons head .nil, bindings, setAgree_nil⟩
  | function name annotations paramNames =>
    have params := (Assoc.inStep_zip (parameterNames paramNames)
      (forall₂_dropLast h)).ofPairs.agree (Assoc.distinct_ofPairs _)
    exact matches_of_agrees normal normal' (fun eq => by cases eq)
      ⟨rfl, rfl, .nil, agree_nil, .cons (forall₂_getLastD h matches_unknown) .nil, params,
        setAgree_nil⟩
  | none | builtin | enum | literal => exact normal.matches_self normal'
  | empty | any | ellipsis | unclassified => exact matches_unknown

end Descriptor

end TypeCatalog
