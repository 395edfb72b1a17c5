import TypeCatalog.Proofs.UnionSets
import TypeCatalog.Proofs.WellMade

/-!
Unions of unions.

What `Shape.combine` makes of some shapes may be a bare member, an optional type or a union, and is
opened and spliced again when it is a member of another union.  Nothing is lost or gained on the
way: it brings into the other union what the shapes that it is made of bring into it, up to
repetitions (`sameElements_brought`).  And what is made of some shapes is told by what they bring
into it as a set, so that shapes that bring in the same elements are combined to the same shape
(`same_of_combines`): there are as many members in either case, and the absent value is among them
in both or in neither.
-/

namespace TypeCatalog.Shape

variable {o : OptionSet} {x y a : Shape} {xs ys : List Shape}

theorem members_eq (xs : List Shape) : members xs = firsts (xs.flatMap brought) := by
  rw [members, splice, List.flatMap_assoc]
  rfl

/-- Members are the same elements as all that is brought in. -/
theorem sameElements_members (proper : ∀ a ∈ xs.flatMap brought, a.Proper) :
    SameElements (members xs) (xs.flatMap brought) := by
  rw [members_eq]
  refine ⟨fun a ha => ?_, fun b hb => ?_⟩
  · have listed := mem_of_mem_firsts ha
    exact ⟨a, listed, same_refl (proper a listed)⟩
  · obtain ⟨a, ha, same, -⟩ := exists_first_of_proper proper hb
    exact ⟨a, ha, same⟩

section Orderly

variable (orderly : ∀ x ∈ xs, Orderly x)

include orderly

theorem orderly_of_mem_flatMap_brought (ha : a ∈ xs.flatMap brought) : Orderly a := by
  obtain ⟨x, hx, brought⟩ := List.mem_flatMap.1 ha
  exact ((orderly x hx).of_mem_brought brought).1

/-- What the union of some shapes brings into another one are its members. -/
theorem mem_brought_of_combines (combines : Combines o xs x) : a ∈ x.brought ↔ a ∈ members xs := by
  have atom : ∀ a ∈ members xs, a.isAtom = true := fun a ha =>
    (orderly_of_mem_members orderly ha).2
  cases combines with
  | single only =>
    rw [brought_of_isAtom (atom x (only ▸ List.mem_cons_self)), only]
  | @optional inner _ _ listed =>
    rw [brought_optional (atom inner (mem_members_of_pair listed))]
    exact (pair_perm_members listed).mem_iff
  | union => simp [brought, reopened, spliced]

/-- It brings in what the shapes that it is made of would bring in themselves. -/
theorem sameElements_brought (combines : Combines o xs x) :
    SameElements x.brought (xs.flatMap brought) := by
  have proper : ∀ a ∈ xs.flatMap brought, a.Proper := fun a ha =>
    (orderly_of_mem_flatMap_brought orderly ha).proper
  refine SameElements.trans (sameElements_of_mem_iff (fun a ha => ?_) fun a => ?_)
    (sameElements_members proper)
  · have member := (mem_brought_of_combines orderly combines).1 ha
    exact (orderly_of_mem_members orderly member).1.proper
  · exact mem_brought_of_combines orderly combines

end Orderly

/-! ## Shapes that are the same -/

/-- What a shape brings into a union is the same as something that a shape that is the same brings
in. -/
theorem exists_brought_of_same (orderly : Orderly x) (orderly' : Orderly y) (same : Same x y)
    (ha : a ∈ x.brought) : ∃ b ∈ y.brought, Same a b := by
  have agrees := same_iff.1 same
  cases atom : x.isAtom with
  | true =>
    have atom' : y.isAtom = true := isAtom_iff.2 (agrees.face ▸ isAtom_iff.1 atom)
    rw [brought_of_isAtom atom, List.mem_singleton] at ha
    subst ha
    exact ⟨y, brought_of_isAtom atom' ▸ List.mem_cons_self, same⟩
  | false =>
    cases x with
    | union members p =>
      obtain ⟨members', p', rfl⟩ := exists_of_face_union agrees.face.symm
      have listed : a ∈ members := by simpa [brought, reopened, spliced] using ha
      obtain ⟨b, hb, same⟩ := agrees.set.among a listed
      have listed' : b ∈ members' := hb
      have properA : a.Proper := orderly.proper.child listed
      have properB : b.Proper := orderly'.proper.child listed'
      exact ⟨b, by simpa [brought, reopened, spliced] using listed',
        same_symm same properB properA⟩
    | optional inner p =>
      obtain ⟨inner', p', rfl⟩ := exists_of_face_optional agrees.face.symm
      obtain ⟨inside, -⟩ := List.forall₂_cons.1 agrees.ordered
      rw [brought_optional orderly.self.2.2.2] at ha
      rw [brought_optional orderly'.self.2.2.2]
      rcases List.mem_pair.1 ha with rfl | rfl
      · exact ⟨inner', List.mem_cons_self, inside⟩
      · exact ⟨none, by simp, same_none_iff.2 rfl⟩
    | _ => cases atom

/-- Lists of shapes with the same elements bring the same elements into a union. -/
theorem SameElements.brought (h : SameElements xs ys) (orderly : ∀ x ∈ xs, Orderly x)
    (orderly' : ∀ y ∈ ys, Orderly y) :
    SameElements (xs.flatMap Shape.brought) (ys.flatMap Shape.brought) := by
  refine ⟨fun a ha => ?_, fun b hb => ?_⟩
  · obtain ⟨x, hx, listed⟩ := List.mem_flatMap.1 ha
    obtain ⟨y, hy, same⟩ := h.left x hx
    obtain ⟨b, hb, same'⟩ := exists_brought_of_same (orderly x hx) (orderly' y hy) same listed
    exact ⟨b, List.mem_flatMap.2 ⟨y, hy, hb⟩, same'⟩
  · obtain ⟨y, hy, listed⟩ := List.mem_flatMap.1 hb
    obtain ⟨x, hx, same⟩ := h.right y hy
    obtain ⟨a, ha, same'⟩ := exists_brought_of_same (orderly' y hy) (orderly x hx) same listed
    exact ⟨a, List.mem_flatMap.2 ⟨x, hx, ha⟩, same'⟩

/-! ## Unions with the same elements -/

section SameElements

variable (orderly : ∀ x ∈ xs, Orderly x) (orderly' : ∀ y ∈ ys, Orderly y)
  (elements : SameElements (members xs) (members ys))

include orderly orderly' elements

theorem length_members_le_of_sameElements : (members xs).length ≤ (members ys).length := by
  have partnered : ∀ a ∈ members xs, ∃ b ∈ members ys, Same a b := elements.left
  refine length_le_of_partners partnered ?_
  refine (orderly_members_apart orderly).imp_of_mem fun {a b} ha hb apart c hc same same' => ?_
  have back : Same c b := same_symm same' (orderly_of_mem_members orderly hb).1.proper
    (orderly_of_mem_members orderly' hc).1.proper
  have together : Same a b := same_trans same back
  rw [Same, apart.1] at together
  cases together

theorem length_members_eq_of_sameElements : (members xs).length = (members ys).length :=
  Nat.le_antisymm (length_members_le_of_sameElements orderly orderly' elements)
    (length_members_le_of_sameElements orderly' orderly elements.symm)

/-- A member and the absent value are met with a member and the absent value. -/
theorem exists_pair_of_sameElements {inner : Shape}
    (listed : members xs = [inner, none] ∨ members xs = [none, inner]) :
    ∃ inner', (members ys = [inner', none] ∨ members ys = [none, inner']) ∧
      (inner ≠ none → Same inner inner') := by
  have lengths := length_members_eq_of_sameElements orderly orderly' elements
  have perm := pair_perm_members listed
  rw [← perm.length_eq] at lengths
  obtain ⟨first, second, pair⟩ := List.length_eq_two.1 lengths.symm
  have absent : none ∈ members ys := by
    obtain ⟨b, hb, same⟩ := elements.left none (perm.subset (by simp))
    rwa [same_none_iff.1 same] at hb
  obtain ⟨b, hb, same⟩ := elements.left inner (perm.subset List.mem_cons_self)
  rw [pair] at absent hb
  have present : inner ≠ none → b ≠ none := by
    rintro present rfl
    exact present (eq_none_of_same_none same)
  rcases List.mem_pair.1 absent with rfl | rfl
  · refine ⟨second, .inr pair, fun given => ?_⟩
    rcases List.mem_pair.1 hb with rfl | rfl
    · exact absurd rfl (present given)
    · exact same
  · refine ⟨first, .inl pair, fun given => ?_⟩
    rcases List.mem_pair.1 hb with rfl | rfl
    · exact same
    · exact absurd rfl (present given)

/-- A single member is met with a single member that is the same. -/
theorem exists_single_of_sameElements (only : members xs = [a]) :
    ∃ b, members ys = [b] ∧ Same a b := by
  have lengths := length_members_eq_of_sameElements orderly orderly' elements
  rw [only, List.length_singleton] at lengths
  obtain ⟨b, single⟩ := List.length_eq_one_iff.1 lengths.symm
  obtain ⟨c, hc, same⟩ := elements.left a (only ▸ List.mem_cons_self)
  rw [single, List.mem_singleton] at hc
  exact ⟨b, single, hc ▸ same⟩

end SameElements

/-- Shapes that bring the same elements into a union are combined to the same shape. -/
theorem same_of_combines (orderly : ∀ x ∈ xs, Orderly x) (orderly' : ∀ y ∈ ys, Orderly y)
    (elements : SameElements (xs.flatMap brought) (ys.flatMap brought))
    (combines : Combines o xs x) (combines' : Combines o ys y) : Same x y := by
  have elements : SameElements (members xs) (members ys) := by
    rw [members_eq, members_eq]
    refine (sameElements_firsts_iff (fun a ha => ?_) fun b hb => ?_).2 elements
    · exact (orderly_of_mem_flatMap_brought orderly ha).proper
    · exact (orderly_of_mem_flatMap_brought orderly' hb).proper
  have lengths := length_members_eq_of_sameElements orderly orderly' elements
  cases combines with
  | single only =>
    obtain ⟨b, single, same⟩ := exists_single_of_sameElements orderly orderly' elements only
    cases combines' with
    | single only' =>
      rw [single] at only'
      cases only'
      exact same
    | optional _ _ listed =>
      have two := (pair_perm_members listed).length_eq
      rw [single] at two
      cases two
    | union several => exact absurd single (several b)
  | @optional inner collapse present listed =>
    obtain ⟨inner', pair, same⟩ :=
      exists_pair_of_sameElements orderly orderly' elements listed
    have two := (pair_perm_members pair).length_eq
    cases combines' with
    | single only =>
      rw [only] at two
      cases two
    | @optional other _ present' listed' =>
      have eq : inner' = other := by
        have inside := (pair_perm_members listed').subset List.mem_cons_self
        rcases pair with pair | pair <;> rw [pair] at inside
        · exact ((List.mem_pair.1 inside).resolve_right present').symm
        · exact ((List.mem_pair.1 inside).resolve_left present').symm
      subst eq
      exact same_iff.2 ⟨rfl, rfl, .nil, agree_nil, .cons (same present) .nil, agree_nil,
        setAgree_nil⟩
    | union _ uncollapsed =>
      obtain ⟨notFirst, notSecond⟩ := uncollapsed inner' collapse
      exact absurd pair (not_or.2 ⟨notFirst, notSecond⟩)
  | union several uncollapsed =>
    cases combines' with
    | single only' =>
      obtain ⟨b, single, -⟩ := exists_single_of_sameElements orderly' orderly elements.symm only'
      exact absurd single (several b)
    | optional collapse _ listed' =>
      obtain ⟨inner, pair, -⟩ :=
        exists_pair_of_sameElements orderly' orderly elements.symm listed'
      obtain ⟨notFirst, notSecond⟩ := uncollapsed inner collapse
      exact absurd pair (not_or.2 ⟨notFirst, notSecond⟩)
    | union =>
      refine same_iff.2 ⟨rfl, rfl, .nil, agree_nil, .nil, agree_nil, lengths, fun a ha => ?_⟩
      obtain ⟨b, hb, same⟩ := elements.left a ha
      exact ⟨b, hb, same_symm same (orderly_of_mem_members orderly ha).1.proper
        (orderly_of_mem_members orderly' hb).1.proper⟩

end TypeCatalog.Shape
