import TypeCatalog.Proofs.Positions
import TypeCatalog.Proofs.Validity

/-!
What the schema of a union admits.

A union is written as `oneOf` over its members, and an optional type as `oneOf` over its inner type
and the absent value.  A value of one member is admitted by the whole unless another member admits
it as well, so that a union admits all that its members do if and only if no two of them have a
value in common (`unions_admit_members_apart`).  Members whose schemas allow no sort of values in
common are of this kind, and for others it is not so: a whole number is a number too, and a type
that is not known admits the absent value (`whole_numbers_are_lost`).
-/

namespace TypeCatalog

/-! ## Just one of a list -/

section Just

variable {α : Type} {p : α → Bool}

/-- An element that qualifies is the only one unless another does. -/
theorem countP_eq_one_iff_of_split {earlier later : List α} {x : α} (qualifies : p x = true) :
    (earlier ++ x :: later).countP p = 1 ↔ ∀ y ∈ earlier ++ later, p y = false := by
  have count : (earlier ++ x :: later).countP p = (earlier ++ later).countP p + 1 := by
    rw [List.countP_append, List.countP_cons_of_pos qualifies, List.countP_append]
    omega
  have zero := List.countP_eq_zero (p := p) (l := earlier ++ later)
  simp only [Bool.not_eq_true] at zero
  rw [count, ← zero]
  omega

/-- At most one qualifies just in case no two do. -/
theorem countP_le_one_iff {l : List α} :
    l.countP p ≤ 1 ↔ l.Pairwise fun x y => ¬(p x = true ∧ p y = true) := by
  induction l with
  | nil => simp
  | cons x rest ih =>
    rw [List.pairwise_cons, ← ih]
    cases qualifies : p x with
    | false =>
      rw [List.countP_cons_of_neg (by simp [qualifies])]
      simp
    | true =>
      have zero := List.countP_eq_zero (p := p) (l := rest)
      rw [List.countP_cons_of_pos qualifies]
      constructor
      · intro le
        have none : rest.countP p = 0 := by omega
        exact ⟨fun y hy both => zero.1 none y hy both.2, by omega⟩
      · rintro ⟨others, -⟩
        have none : rest.countP p = 0 := zero.2 fun y hy other => others y hy ⟨rfl, other⟩
        omega

end Just

namespace Shape

variable {pointed : String → Json → Bool} {members arms : List Shape} {whole inner : Shape}
  {options : OptionSet} {v : Json}

/-- Whether the schema of a shape admits a value, given what its pointers do. -/
def admits (pointed : String → Json → Bool) (x : Shape) (v : Json) : Bool :=
  x.schema.admits pointed v

theorem admits_type_of_schema_eq {x : Shape} {t : JsonType} (typed : x.schema = [.type t]) :
    x.admits pointed v = t.holds v.sort := by
  rw [admits, typed, Schema.admits_type]

theorem admits_none_iff : none.admits pointed v = true ↔ v = .null := by
  rw [admits_type_of_schema_eq rfl, ← Json.sort_eq_null_iff]
  cases v.sort <;> decide

/-- The shapes that the schema of a union or an optional type is made of. -/
inductive HasArms : Shape → List Shape → Prop
  | union (members : List Shape) (options : OptionSet) : HasArms (.union members options) members
  | optional (inner : Shape) (options : OptionSet) :
    HasArms (.optional inner options) [inner, .none]

namespace HasArms

variable (has : whole.HasArms arms)

include has

theorem schema_eq : whole.schema = [.oneOf (arms.map schema)] := by
  cases has with
  | union members options => rw [schema, schemas_eq]
  | optional inner options => simp only [schema, List.map_cons, List.map_nil]

theorem admits_iff : whole.admits pointed v = true ↔
    arms.countP (fun x => x.admits pointed v) = 1 := by
  unfold admits
  rw [has.schema_eq, Schema.admits_oneOf, List.countP_map, beq_iff_eq]
  rfl

/-- A value of one arm is admitted unless another arm admits it. -/
theorem admits_iff_of_split {earlier later : List Shape} {x : Shape}
    (split : arms = earlier ++ x :: later) (one : x.admits pointed v = true) :
    whole.admits pointed v = true ↔ ∀ y ∈ earlier ++ later, y.admits pointed v = false := by
  rw [has.admits_iff, split]
  exact countP_eq_one_iff_of_split (p := fun x : Shape => x.admits pointed v) one

theorem exists_arm (admitted : whole.admits pointed v = true) :
    ∃ x ∈ arms, x.admits pointed v = true := by
  rw [has.admits_iff] at admitted
  exact List.countP_pos_iff.1 (by omega)

/-- The values of all arms are admitted just in case no two arms have one in common. -/
theorem admits_all_iff :
    (∀ v, (∃ x ∈ arms, x.admits pointed v = true) → whole.admits pointed v = true) ↔
      arms.Pairwise fun x y => ∀ v, ¬(x.admits pointed v = true ∧ y.admits pointed v = true) := by
  constructor
  · intro all
    refine List.pairwise_iff_getElem.2 fun i j hi hj lt v both => ?_
    have one := has.admits_iff.1 (all v ⟨_, List.getElem_mem hi, both.1⟩)
    exact List.pairwise_iff_getElem.1 (countP_le_one_iff.1 (Nat.le_of_eq one)) i j hi hj lt both
  · rintro apart v ⟨x, hx, one⟩
    have atMost := countP_le_one_iff.2 (apart.imp fun each => each v)
    have atLeast := List.countP_pos_iff (p := fun x : Shape => x.admits pointed v).2 ⟨x, hx, one⟩
    exact has.admits_iff.2 (by omega)

theorem none_mem_of_isNullable (nullable : whole.isNullable = true) : Shape.none ∈ arms := by
  cases has with
  | union members options =>
    obtain ⟨x, hx, isNone⟩ := List.any_eq_true.1 nullable
    exact isNone_iff.1 isNone ▸ hx
  | optional inner options => exact List.mem_cons_of_mem _ List.mem_cons_self

end HasArms

/-- **A union admits what one member does.**  Of a union or an optional type, whatever pointers
admit: a value of one arm is admitted by the whole just in case no other arm admits it, and no other
value is; so the whole admits the values of all its arms if and only if no two arms have a value in
common, for which it is enough that no two of their schemas allow the same sort of values; and where
the absent value is one of the arms, `null` is admitted if and only if no other arm admits it. -/
theorem unions_admit_members_apart (pointed : String → Json → Bool) (whole : Shape)
    (arms : List Shape) (has : whole.HasArms arms) :
    (∀ v, (whole.admits pointed v = true → ∃ x ∈ arms, x.admits pointed v = true) ∧
      ∀ earlier x later, arms = earlier ++ x :: later → x.admits pointed v = true →
        (whole.admits pointed v = true ↔ ∀ y ∈ earlier ++ later, y.admits pointed v = false)) ∧
      ((∀ v, (∃ x ∈ arms, x.admits pointed v = true) → whole.admits pointed v = true) ↔
        arms.Pairwise fun x y =>
          ∀ v, ¬(x.admits pointed v = true ∧ y.admits pointed v = true)) ∧
      (∀ bound, Schema.Bounds bound pointed →
        (arms.Pairwise fun x y => Schema.apart bound x.schema y.schema = true) →
        ∀ v, (∃ x ∈ arms, x.admits pointed v = true) → whole.admits pointed v = true) ∧
      (whole.isNullable = true →
        ∃ earlier later, arms = earlier ++ .none :: later ∧
          (whole.admits pointed .null = true ↔
            ∀ y ∈ earlier ++ later, y.admits pointed .null = false)) := by
  refine ⟨fun v => ⟨has.exists_arm, fun _ _ _ => has.admits_iff_of_split⟩, has.admits_all_iff,
    fun bound bounded apart => has.admits_all_iff.2 (apart.imp fun separate v both => ?_),
    fun nullable => ?_⟩
  · rw [admits, admits, Schema.not_admits_of_apart bounded separate both.1] at both
    cases both.2
  · obtain ⟨earlier, later, split⟩ := List.append_of_mem (has.none_mem_of_isNullable nullable)
    exact ⟨earlier, later, split, has.admits_iff_of_split split (admits_none_iff.2 rfl)⟩

/-- A whole number, a text or nothing: the three have no value in common. -/
theorem unions_admit_members_apart_of_three :
    let arms : List Shape := [.builtin "int", .builtin "str", .none]
    let whole : Shape := .union arms .empty
    whole.HasArms arms ∧
      (arms.Pairwise fun x y => Schema.apart (fun _ _ => true) x.schema y.schema = true) ∧
      ∀ pointed v, (∃ x ∈ arms, x.admits pointed v = true) → whole.admits pointed v = true := by
  intro arms whole
  have has : whole.HasArms arms := .union arms .empty
  have apart : arms.Pairwise fun x y =>
      Schema.apart (fun _ _ => true) x.schema y.schema = true := by
    simp only [arms]
    decide
  refine ⟨has, apart, fun pointed => ?_⟩
  exact (unions_admit_members_apart pointed whole arms has).2.2.1 _ (fun _ _ _ => rfl) apart

end Shape

namespace Pipeline

open Shape (HasArms)

/-- A whole number is a value of two members of a union of whole and other numbers, and `null` is a
value both of the absent value and of a type that is not known: neither is admitted. -/
theorem whole_numbers_are_lost :
    let pointed : String → Json → Bool := fun _ _ => true
    let collapsing := OptionSet.empty.insert .collapseOptional
    let number : Shape := .union [.builtin "int", .builtin "float"] .empty
    let maybe : Shape := .optional .unknown collapsing
    (((standard []).shape (.union [.builtin "int", .builtin "float"]) .empty .start).1 =
          .ok number ∧
        (Shape.builtin "int").admits pointed (.int 3) = true ∧
        number.admits pointed (.int 3) = false) ∧
      ((standard []).shape (.union [.any, .none]) collapsing .start).1 = .ok maybe ∧
        maybe.isNullable = true ∧ maybe.admits pointed .null = false := by
  intro pointed collapsing number maybe
  have whole : (Shape.builtin "int").admits pointed (.int 3) = true := by
    rw [Shape.admits_type_of_schema_eq rfl, Json.sort_int]
    rfl
  have real : (Shape.builtin "float").admits pointed (.int 3) = true := by
    rw [Shape.admits_type_of_schema_eq rfl, Json.sort_int]
    rfl
  refine ⟨⟨?_, whole, Bool.eq_false_iff.2 fun admitted => ?_⟩, ?_, rfl, rfl⟩
  · simp only [number]
    cbv
  · have has : number.HasArms ([] ++ .builtin "int" :: [.builtin "float"]) := .union _ _
    have others := (has.admits_iff_of_split rfl whole).1 admitted
    rw [others _ List.mem_cons_self] at real
    cases real
  · simp only [collapsing, maybe]
    cbv

end Pipeline

end TypeCatalog
