import TypeCatalog.Proofs.ShapeSameness

/-!
Shapes as they are built.

A shape is `Built` when its tables are maps and every union in it, at whatever depth, was made by
`Shape.unionOf`, which splices the unions among its members and drops repetitions.  Built shapes are
proper (`Built.proper`), so that sameness is an equivalence of them; and it is the sameness of sets
for their unions, although the comparison only counts members and looks for those of the first union
in the second (`same_is_set_equivalence`).  That it goes the other way round as well rests on the
members of either union being apart from each other, since then neither has more members than the
other (`length_le_of_among`).
-/

namespace TypeCatalog.Shape

/-! ## Built shapes -/

/-- A shape whose tables are maps and whose unions are all made by `unionOf`. -/
inductive Built : Shape → Prop
  | union {members : List Shape} (options : OptionSet) :
    (∀ x ∈ members, Built x) → Built (unionOf members options)
  | other {x : Shape} : (∀ members options, x ≠ .union members options) → x.layout.Distinct →
    (∀ part ∈ x.children, Built part) → Built x

theorem Built.of_leaf {x : Shape} (other : ∀ members options, x ≠ .union members options)
    (distinct : x.layout.Distinct) (leaf : x.children = []) : Built x :=
  .other other distinct fun part hpart => by rw [leaf] at hpart; cases hpart

/-- What a union was made of is gone, but its members are built all the same. -/
theorem Built.child {x part : Shape} (built : Built x) (hpart : part ∈ x.children) :
    Built part := by
  induction built with
  | @union members options each ih =>
    obtain ⟨x, hx, brought⟩ := List.mem_flatMap.1 (mem_of_mem_firsts hpart)
    unfold spliced at brought
    split at brought
    · exact ih _ hx brought
    · rw [List.mem_singleton.1 brought]
      exact each x hx
  | other _ _ parts => exact parts part hpart

theorem Built.sound {x : Shape} (built : Built x) : x.Sound := by
  cases built with
  | @union members options _ =>
    refine ⟨⟨.nil, .nil⟩, (firsts_pairwise (splice members)).imp fun different same => ?_⟩
    rw [Same, different] at same
    cases same
  | other notUnion distinct _ =>
    refine sound_of_set_eq_nil distinct ?_
    cases x with
    | union members options => exact absurd rfl (notUnion members options)
    | _ => rfl

theorem Built.proper {x : Shape} (built : Built x) : x.Proper := by
  induction x using children_induction with
  | step x ih =>
    exact throughout_of_children built.sound fun part hpart => ih part hpart (built.child hpart)

/-! ## Unions as sets -/

section Unions

variable {as bs : List Shape} {o o' : OptionSet}

/-- If the members of a union are all among those of another, it has no more members. -/
theorem length_le_of_among (proper : (union as o).Proper) (proper' : (union bs o').Proper)
    (among : ∀ a ∈ as, ∃ b ∈ bs, Same a b) : as.length ≤ bs.length := by
  refine length_le_of_partners among (proper.self.apart.imp_of_mem fun {a a'} ha ha' apart => ?_)
  intro b hb same same'
  have back : Same b a' := same_symm same' (proper.child ha') (proper'.child hb)
  exact apart (same_trans same back)

/-- Two unions are the same if they have the same options and the members of each are among those
of the other. -/
theorem same_union_iff (proper : (union as o).Proper) (proper' : (union bs o').Proper) :
    Same (union as o) (union bs o') ↔
      o = o' ∧ (∀ a ∈ as, ∃ b ∈ bs, Same a b) ∧ ∀ b ∈ bs, ∃ a ∈ as, Same b a := by
  have turned : ∀ a ∈ as, ∀ b ∈ bs, Same a b ↔ Same b a := fun a ha b hb =>
    ⟨fun h => same_symm h (proper.child ha) (proper'.child hb),
      fun h => same_symm h (proper'.child hb) (proper.child ha)⟩
  constructor
  · intro same
    have there := same_iff.1 same
    have back := same_iff.1 (same_symm same proper proper')
    refine ⟨Option.some.inj there.options, fun a ha => ?_, fun b hb => ?_⟩
    · obtain ⟨b, hb, same⟩ := there.set.among a ha
      exact ⟨b, hb, (turned a ha b hb).2 same⟩
    · obtain ⟨a, ha, same⟩ := back.set.among b hb
      exact ⟨a, ha, (turned a ha b hb).1 same⟩
  · rintro ⟨rfl, there, back⟩
    have lengths : as.length = bs.length :=
      Nat.le_antisymm (length_le_of_among proper proper' there)
        (length_le_of_among proper' proper back)
    refine same_iff.2 ⟨rfl, rfl, .nil, agree_nil, .nil, agree_nil, lengths, fun a ha => ?_⟩
    obtain ⟨b, hb, same⟩ := there a ha
    exact ⟨b, hb, (turned a ha b hb).1 same⟩

end Unions

/-- **Sameness is an equivalence, and of unions it is sameness of sets.**  It is reflexive,
symmetric and transitive on built shapes; and two built unions are the same just in case they have
the same options and each member of either is the same as some member of the other. -/
theorem same_is_set_equivalence :
    Equivalence (fun a b : { x : Shape // x.Built } => a.1.same b.1 = true) ∧
      ∀ as bs o o', (union as o).Built → (union bs o').Built →
        ((union as o).same (union bs o') = true ↔
          o = o' ∧ (∀ a ∈ as, ∃ b ∈ bs, a.same b = true) ∧
            ∀ b ∈ bs, ∃ a ∈ as, b.same a = true) := by
  refine ⟨⟨?_, ?_, ?_⟩, ?_⟩
  · rintro ⟨a, built⟩
    exact same_refl built.proper
  · rintro ⟨a, built⟩ ⟨b, built'⟩ same
    exact same_symm same built.proper built'.proper
  · rintro ⟨a, _⟩ ⟨b, _⟩ ⟨c, _⟩ same same'
    exact same_trans same same'
  · intro as bs o o' built built'
    exact same_union_iff built.proper built'.proper

/-- Two unions in different orders, one of them made of a union with a repetition: a class whose
fields are in another order is the same class, and so the unions have the same members. -/
theorem same_is_set_equivalence_of_reordered :
    let int : Shape := .builtin "int"
    let class₁ : Shape := .classType "P" [("x", int), ("y", none)] .empty
    let class₂ : Shape := .classType "P" [("y", none), ("x", int)] .empty
    let x : Shape := unionOf [class₁, int, class₂] .empty
    let y : Shape := unionOf [int, unionOf [class₂, int] .empty, class₁] .empty
    x = .union [class₁, int] .empty ∧ y = .union [int, class₂] .empty ∧ x.Built ∧ y.Built ∧
      x.same y = true := by
  intro int class₁ class₂ x y
  have leaf : int.Built ∧ Built none :=
    ⟨.of_leaf (fun _ _ eq => Shape.noConfusion eq) ⟨.nil, .nil⟩ rfl,
      .of_leaf (fun _ _ eq => Shape.noConfusion eq) ⟨.nil, .nil⟩ rfl⟩
  have first : class₁.Built := by
    refine .other (fun _ _ eq => Shape.noConfusion eq) ⟨.nil, ?_⟩
      (List.forall_mem_cons.2 ⟨leaf.1, List.forall_mem_singleton.2 leaf.2⟩)
    simp [class₁, layout, Assoc.Distinct, Assoc.keys]
  have second : class₂.Built := by
    refine .other (fun _ _ eq => Shape.noConfusion eq) ⟨.nil, ?_⟩
      (List.forall_mem_cons.2 ⟨leaf.2, List.forall_mem_singleton.2 leaf.1⟩)
    simp [class₂, layout, Assoc.Distinct, Assoc.keys]
  have inner : (unionOf [class₂, int] .empty).Built :=
    .union .empty (List.forall_mem_cons.2 ⟨second, List.forall_mem_singleton.2 leaf.1⟩)
  have built : x.Built := .union .empty (List.forall_mem_cons.2
    ⟨first, List.forall_mem_cons.2 ⟨leaf.1, List.forall_mem_singleton.2 second⟩⟩)
  have built' : y.Built := .union .empty (List.forall_mem_cons.2
    ⟨leaf.1, List.forall_mem_cons.2 ⟨inner, List.forall_mem_singleton.2 first⟩⟩)
  have listed : x = .union [class₁, int] .empty := by
    simp only [x, class₁, class₂, int]
    cbv
  have listed' : y = .union [int, class₂] .empty := by
    simp only [y, class₁, class₂, int]
    cbv
  refine ⟨listed, listed', built, built', ?_⟩
  rw [listed] at built ⊢
  rw [listed'] at built' ⊢
  obtain ⟨equivalence, unions⟩ := same_is_set_equivalence
  have alike : class₁.same class₂ = true := by
    simp only [class₁, class₂, int]
    cbv
  refine (unions _ _ _ _ built built').2 ⟨rfl, ?_, ?_⟩
  · refine List.forall_mem_cons.2 ⟨⟨class₂, by simp, alike⟩, List.forall_mem_singleton.2 ?_⟩
    exact ⟨int, by simp, equivalence.refl ⟨int, leaf.1⟩⟩
  · refine List.forall_mem_cons.2 ⟨⟨int, by simp, equivalence.refl ⟨int, leaf.1⟩⟩,
      List.forall_mem_singleton.2 ⟨class₁, by simp, ?_⟩⟩
    exact equivalence.symm (x := ⟨class₁, first⟩) (y := ⟨class₂, second⟩) alike

end TypeCatalog.Shape
