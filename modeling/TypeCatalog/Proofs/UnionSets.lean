import Mathlib.Data.List.Induction
import TypeCatalog.Proofs.BuiltShapes

/-!
Unions as canonical sets.

`Shape.unionOf` splices the unions among its members and drops repetitions as it goes along, in one
pass and one level deep.  What it keeps are the first occurrences of the spliced sequence
(`firsts_eq_firstOccurrences`): a shape that is the same as an earlier one is the same as an earlier
one that was kept, since sameness is transitive (`among_firsts`).  One level is deep enough, as
there is no union among the members of a built union (`Built.not_union_of_mem`).

Dropping repetitions loses no element and brings in none (`sameElements_firsts_iff`), so that unions
are the same just in case the spliced sequences have the same elements; neither the order nor the
number of members matters then, nor whether some of them were grouped into a union before
(`unionOf_is_a_canonical_set`).
-/

namespace TypeCatalog.Shape

variable {a : Shape} {shapes as bs cs : List Shape}

/-! ## First occurrences -/

/-- The shapes of a list that are not the same as an earlier one, in order. -/
def firstOccurrences (shapes : List Shape) : List Shape :=
  (shapes.zipIdx.filter fun entry => !entry.1.among (shapes.take entry.2)).map Prod.fst

theorem firstOccurrences_append_singleton (shapes : List Shape) (a : Shape) :
    firstOccurrences (shapes ++ [a]) =
      firstOccurrences shapes ++ if a.among shapes then [] else [a] := by
  -- what stands before a place is the same with or without the last shape
  have earlier : (shapes.zipIdx.filter fun entry =>
        !entry.1.among ((shapes ++ [a]).take entry.2)) =
      shapes.zipIdx.filter fun entry => !entry.1.among (shapes.take entry.2) := by
    refine List.filter_congr fun entry member => ?_
    have place := (List.getElem?_eq_some_iff.1 (List.mem_zipIdx_iff_getElem?.1 member)).1
    rw [List.take_append_of_le_length (Nat.le_of_lt place)]
  rw [firstOccurrences, List.zipIdx_append, List.filter_append, List.map_append, earlier]
  congr 1
  cases listed : a.among shapes <;> simp [listed]

/-- Among the shapes that are kept is one that is the same as any that was to be pushed. -/
theorem among_firsts (a : Shape) (shapes : List Shape) :
    a.among (firsts shapes) = a.among shapes := by
  rw [Bool.eq_iff_iff, among_iff, among_iff]
  constructor
  · rintro ⟨b, hb, same⟩
    exact ⟨b, mem_of_mem_firsts hb, same⟩
  · rintro ⟨b, hb, same⟩
    obtain ⟨c, hc, rfl | same'⟩ := exists_first_of_mem hb
    · exact ⟨b, hc, same⟩
    · exact ⟨c, hc, same_trans same' same⟩

theorem firsts_append_singleton (shapes : List Shape) (a : Shape) :
    firsts (shapes ++ [a]) = firsts shapes ++ if a.among shapes then [] else [a] := by
  have pushed : firsts (shapes ++ [a]) = pushNew (firsts shapes) a := by
    rw [firsts, List.foldl_append]
    rfl
  rw [pushed, pushNew, among_firsts]
  cases a.among shapes <;> simp

/-- The shapes that are kept are the first occurrences. -/
theorem firsts_eq_firstOccurrences (shapes : List Shape) :
    firsts shapes = firstOccurrences shapes := by
  induction shapes using List.reverseRecOn with
  | nil => rfl
  | append_singleton shapes a ih =>
    rw [firsts_append_singleton, firstOccurrences_append_singleton, ih]

theorem among_append (a : Shape) (as bs : List Shape) :
    a.among (as ++ bs) = (a.among as || a.among bs) := by
  rw [Bool.eq_iff_iff, Bool.or_eq_true, among_iff, among_iff, among_iff]
  simp only [List.mem_append, or_and_right, exists_or]

/-- Repetitions may be dropped before others are. -/
theorem firsts_append_firsts (as bs cs : List Shape) :
    firsts (as ++ firsts bs ++ cs) = firsts (as ++ bs ++ cs) := by
  induction cs using List.reverseRecOn with
  | nil =>
    rw [List.append_nil, List.append_nil]
    induction bs using List.reverseRecOn with
    | nil => rfl
    | append_singleton bs b ih =>
      rw [firsts_append_singleton bs, ← List.append_assoc, ← List.append_assoc,
        firsts_append_singleton, ← ih, among_append]
      cases listed : b.among bs with
      | true => simp
      | false =>
        have last := firsts_append_singleton (as ++ firsts bs) b
        rw [among_append, among_firsts, listed] at last
        exact last
  | append_singleton cs c ih =>
    rw [← List.append_assoc, ← List.append_assoc, firsts_append_singleton, firsts_append_singleton,
      ih]
    simp only [among_append, among_firsts]

/-! ## The same elements -/

/-- Two lists have the same elements up to sameness. -/
structure SameElements (as bs : List Shape) : Prop where
  left : ∀ a ∈ as, ∃ b ∈ bs, a.same b = true
  right : ∀ b ∈ bs, ∃ a ∈ as, b.same a = true

theorem SameElements.symm (h : SameElements as bs) : SameElements bs as :=
  ⟨h.right, h.left⟩

theorem SameElements.trans (h : SameElements as bs) (h' : SameElements bs cs) :
    SameElements as cs := by
  refine ⟨fun a ha => ?_, fun c hc => ?_⟩
  · obtain ⟨b, hb, same⟩ := h.left a ha
    obtain ⟨c, hc, same'⟩ := h'.left b hb
    exact ⟨c, hc, same_trans same same'⟩
  · obtain ⟨b, hb, same⟩ := h'.right c hc
    obtain ⟨a, ha, same'⟩ := h.right b hb
    exact ⟨a, ha, same_trans same same'⟩

theorem SameElements.append {as' bs' : List Shape} (h : SameElements as bs)
    (h' : SameElements as' bs') : SameElements (as ++ as') (bs ++ bs') := by
  refine ⟨fun a ha => ?_, fun b hb => ?_⟩
  · rcases List.mem_append.1 ha with first | second
    · obtain ⟨b, hb, same⟩ := h.left a first
      exact ⟨b, List.mem_append_left _ hb, same⟩
    · obtain ⟨b, hb, same⟩ := h'.left a second
      exact ⟨b, List.mem_append_right _ hb, same⟩
  · rcases List.mem_append.1 hb with first | second
    · obtain ⟨a, ha, same⟩ := h.right b first
      exact ⟨a, List.mem_append_left _ ha, same⟩
    · obtain ⟨a, ha, same⟩ := h'.right b second
      exact ⟨a, List.mem_append_right _ ha, same⟩

/-- The first of the group of a proper shape is the same as it, either way round. -/
theorem exists_first_of_proper (proper : ∀ x ∈ shapes, x.Proper) (h : a ∈ shapes) :
    ∃ b ∈ firsts shapes, Same a b ∧ Same b a := by
  obtain ⟨b, hb, rfl | same⟩ := exists_first_of_mem h
  · exact ⟨a, hb, same_refl (proper a h), same_refl (proper a h)⟩
  · exact ⟨b, hb, same_symm same (proper b (mem_of_mem_firsts hb)) (proper a h), same⟩

theorem within_firsts_iff (proper : ∀ a ∈ as, a.Proper) (proper' : ∀ b ∈ bs, b.Proper) :
    (∀ a ∈ firsts as, ∃ b ∈ firsts bs, a.same b = true) ↔ ∀ a ∈ as, ∃ b ∈ bs, a.same b = true := by
  constructor
  · intro each a ha
    obtain ⟨c, hc, same, -⟩ := exists_first_of_proper proper ha
    obtain ⟨b, hb, same'⟩ := each c hc
    exact ⟨b, mem_of_mem_firsts hb, same_trans same same'⟩
  · intro each a ha
    obtain ⟨b, hb, same⟩ := each a (mem_of_mem_firsts ha)
    obtain ⟨c, hc, same', -⟩ := exists_first_of_proper proper' hb
    exact ⟨c, hc, same_trans same same'⟩

/-- Dropping repetitions loses no element and brings in none. -/
theorem sameElements_firsts_iff (proper : ∀ a ∈ as, a.Proper) (proper' : ∀ b ∈ bs, b.Proper) :
    SameElements (firsts as) (firsts bs) ↔ SameElements as bs := by
  have there := within_firsts_iff proper proper'
  have back := within_firsts_iff proper' proper
  exact ⟨fun h => ⟨there.1 h.left, back.1 h.right⟩, fun h => ⟨there.2 h.left, back.2 h.right⟩⟩

/-- Proper shapes that are the same but for order and repetition. -/
theorem sameElements_of_mem_iff (proper : ∀ a ∈ as, a.Proper) (each : ∀ a, a ∈ as ↔ a ∈ bs) :
    SameElements as bs :=
  ⟨fun a ha => ⟨a, (each a).1 ha, same_refl (proper a ha)⟩,
    fun b hb => ⟨b, (each b).2 hb, same_refl (proper b ((each b).2 hb))⟩⟩

/-! ## Built unions -/

/-- There is no union among the members of a built union. -/
theorem Built.not_union_of_mem {members : List Shape} {o : OptionSet}
    (built : (Shape.union members o).Built) (ha : a ∈ members) :
    ∀ nested o', a ≠ Shape.union nested o' := by
  generalize whole : Shape.union members o = x at built
  induction built generalizing members o with
  | @union given options each ih =>
    cases whole
    obtain ⟨x, hx, brought⟩ := List.mem_flatMap.1 (mem_of_mem_firsts ha)
    unfold spliced at brought
    split at brought
    · exact ih _ hx brought rfl
    · rename_i single
      rw [List.mem_singleton.1 brought]
      exact single
  | other notUnion => exact absurd whole.symm (notUnion members o)

theorem splice_append (as bs : List Shape) : splice (as ++ bs) = splice as ++ splice bs :=
  List.flatMap_append

/-- Spliced shapes are built like those they come from. -/
theorem built_of_mem_splice (built : ∀ x ∈ shapes, x.Built) (ha : a ∈ splice shapes) :
    a.Built := by
  obtain ⟨x, hx, brought⟩ := List.mem_flatMap.1 ha
  unfold spliced at brought
  split at brought
  · exact (built _ hx).child brought
  · rw [List.mem_singleton.1 brought]
    exact built x hx

/-- A union in the place of some members makes no difference. -/
theorem unionOf_group (before group after : List Shape) (o o' : OptionSet) :
    unionOf (before ++ unionOf group o' :: after) o = unionOf (before ++ group ++ after) o := by
  have inPlace : splice (before ++ unionOf group o' :: after) =
      splice before ++ firsts (splice group) ++ splice after := by
    rw [splice_append, List.append_assoc]
    rfl
  rw [unionOf, inPlace, firsts_append_firsts, ← splice_append, ← splice_append]
  rfl

/-- The members of a built union are apart, whichever of two is compared with the other. -/
theorem Built.members_apart {members : List Shape} {o : OptionSet}
    (built : (Shape.union members o).Built) :
    members.Pairwise fun a b => a.same b = false ∧ b.same a = false := by
  have apart : members.Pairwise fun a b => ¬Same a b := built.sound.apart
  refine apart.imp_of_mem fun {a b} ha hb different => ?_
  have proper : a.Proper ∧ b.Proper := ⟨(built.child ha).proper, (built.child hb).proper⟩
  exact ⟨Bool.eq_false_iff.2 different,
    Bool.eq_false_iff.2 fun same => different (same_symm same proper.2 proper.1)⟩

/-- Built unions under the same options are the same just in case what they are made of has the same
elements once it is spliced. -/
theorem same_unionOf_iff (o : OptionSet) (built : ∀ x ∈ as, x.Built) (built' : ∀ y ∈ bs, y.Built) :
    (unionOf as o).same (unionOf bs o) = true ↔ SameElements (splice as) (splice bs) := by
  have sets := same_union_iff (Built.union o built).proper (Built.union o built').proper
  have spliced : SameElements (firsts (splice as)) (firsts (splice bs)) ↔
      SameElements (splice as) (splice bs) := by
    refine sameElements_firsts_iff (fun a ha => ?_) fun b hb => ?_
    · exact (built_of_mem_splice built ha).proper
    · exact (built_of_mem_splice built' hb).proper
  exact sets.trans ⟨fun ⟨_, there, back⟩ => spliced.1 ⟨there, back⟩, fun h =>
    ⟨rfl, (spliced.2 h).left, (spliced.2 h).right⟩⟩

/-- **Unions are canonical sets.**  The members of a union are the first occurrences of what it is
made of with the unions there spliced in place; they are apart from each other, and no union is
among them.  Two unions under the same options are the same just in case the spliced sequences have
the same elements; so it does not matter in which order and how often the members are given, and
grouping some of them into a union, under any options, gives the very same union. -/
theorem unionOf_is_a_canonical_set (o : OptionSet) {xs ys : List Shape}
    (built : ∀ x ∈ xs, x.Built) (built' : ∀ y ∈ ys, y.Built) :
    (∃ members, unionOf xs o = union members o ∧
      members = firstOccurrences (splice xs) ∧
      (members.Pairwise fun a b => a.same b = false ∧ b.same a = false) ∧
      ∀ a ∈ members, ∀ nested o', a ≠ union nested o') ∧
    ((unionOf xs o).same (unionOf ys o) = true ↔ SameElements (splice xs) (splice ys)) ∧
    (∀ zs, (∀ x, x ∈ xs ↔ x ∈ zs) → (unionOf xs o).same (unionOf zs o) = true) ∧
    ∀ before group after o', xs = before ++ group ++ after →
      unionOf (before ++ unionOf group o' :: after) o = unionOf xs o := by
  have whole : (union (firsts (splice xs)) o).Built := .union o built
  refine ⟨⟨_, rfl, firsts_eq_firstOccurrences _, whole.members_apart, ?_⟩,
    same_unionOf_iff o built built', ?_, ?_⟩
  · exact fun a ha => whole.not_union_of_mem ha
  · intro zs each
    have others : ∀ z ∈ zs, z.Built := fun z hz => built z ((each z).2 hz)
    refine (same_unionOf_iff o built others).2 (sameElements_of_mem_iff ?_ fun a => ?_)
    · exact fun a ha => (built_of_mem_splice built ha).proper
    · simp only [splice, List.mem_flatMap, each]
  · rintro before group after o' rfl
    exact unionOf_group before group after o o'

/-- A union with a repetition and a nested union, the same members written flat, in another order
without the repetition, and in groups. -/
theorem unionOf_is_a_canonical_set_of_nested :
    let int : Shape := .builtin "int"
    let str : Shape := .builtin "str"
    let o : OptionSet := .ofList [.collapseOptional]
    let nested : Shape := unionOf [int, none] o
    unionOf [str, nested, int, str] .empty = .union [str, int, none] .empty ∧
      firstOccurrences (splice [str, nested, int, str]) = [str, int, none] ∧
      (∀ x ∈ [str, nested, int, str], x.Built) ∧ (∀ y ∈ [none, str, int], y.Built) ∧
      (unionOf [str, nested, int, str] .empty).same (unionOf [none, str, int] .empty) = true ∧
      (unionOf [str, nested, int, str] .empty).same (unionOf [int, nested, str] .empty) = true ∧
      unionOf [str, unionOf [nested, int] o, str] .empty =
        unionOf [str, nested, int, str] .empty := by
  intro int str o nested
  have leaf : int.Built ∧ str.Built ∧ Built none :=
    ⟨.of_leaf (fun _ _ eq => Shape.noConfusion eq) ⟨.nil, .nil⟩ rfl,
      .of_leaf (fun _ _ eq => Shape.noConfusion eq) ⟨.nil, .nil⟩ rfl,
      .of_leaf (fun _ _ eq => Shape.noConfusion eq) ⟨.nil, .nil⟩ rfl⟩
  obtain ⟨number, text, absent⟩ := leaf
  have inner : nested.Built :=
    .union o (List.forall_mem_cons.2 ⟨number, List.forall_mem_singleton.2 absent⟩)
  have built : ∀ x ∈ [str, nested, int, str], x.Built := by
    simp only [List.forall_mem_cons]
    exact ⟨text, inner, number, text, List.forall_mem_nil _⟩
  have built' : ∀ y ∈ [none, str, int], y.Built := by
    simp only [List.forall_mem_cons]
    exact ⟨absent, text, number, List.forall_mem_nil _⟩
  have kept : firstOccurrences (splice [str, nested, int, str]) = [str, int, none] := by
    rw [← firsts_eq_firstOccurrences]
    simp only [nested, str, int, o]
    cbv
  obtain ⟨⟨members, made, first, -⟩, alike, reordered, grouped⟩ :=
    unionOf_is_a_canonical_set .empty built built'
  refine ⟨by rw [made, first, kept], kept, built, built', alike.2 ?_, reordered _ fun x => ?_,
    grouped [str] [nested, int] [str] o rfl⟩
  case refine_2 =>
    simp only [List.mem_cons, List.not_mem_nil, or_false]
    tauto
  have spliced : splice [str, nested, int, str] = [str, int, none, int, str] := by
    simp only [nested, str, int, o]
    cbv
  rw [spliced]
  refine sameElements_of_mem_iff ?_ fun a => ?_
  · simp only [List.forall_mem_cons]
    exact ⟨text.proper, number.proper, absent.proper, number.proper, text.proper,
      List.forall_mem_nil _⟩
  · have flat : splice [none, str, int] = [none, str, int] := rfl
    rw [flat]
    simp only [List.mem_cons, List.not_mem_nil, or_false]
    tauto

end TypeCatalog.Shape
