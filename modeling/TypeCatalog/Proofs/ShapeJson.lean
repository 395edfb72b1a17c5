import TypeCatalog.Proofs.BuiltShapes
import TypeCatalog.Shape.Encode

/-!
Shapes are told by their JSON.

No two shapes are written alike (`toJson_inj`): the kind comes first and is a word of its own for
each kind of shapes, parts follow under fixed names, and what is left out where there is nothing to
write, options, a bound and constraints, stands behind all that is always written.  Names that are
chosen freely, of fields, parameters and bindings, are in objects of their own and cannot be taken
for the names of parts.  Hence built shapes that are written alike are the same
(`same_of_toJson_eq`).
-/

namespace TypeCatalog

/-! ## Values and options -/

theorem Assoc.mapValues_inj {α β : Type} {f : α → β} (inj : ∀ {a b}, f a = f b → a = b)
    {table other : List (String × α)} (h : mapValues f table = mapValues f other) :
    table = other := by
  refine List.map_injective_iff.2 (fun entry entry' eq => ?_) h
  obtain ⟨name, value⟩ := Prod.mk.inj eq
  exact Prod.ext name (inj value)

theorem Scalar.toJson_inj {v w : Scalar} (h : v.toJson = w.toJson) : v = w := by
  have read := congrArg Scalar.ofJson? h
  rw [Scalar.ofJson?_toJson, Scalar.ofJson?_toJson] at read
  exact Option.some.inj read

theorem ExtractOption.toJson_inj {a b : ExtractOption} (h : a.toJson = b.toJson) : a = b := by
  cases a <;> cases b <;> simp_all [ExtractOption.toJson]

theorem CollectedKind.name_inj {a b : CollectedKind} (h : a.name = b.name) : a = b := by
  cases a <;> cases b <;> simp_all [CollectedKind.name]

namespace OptionSet

/-- A set is told by the options it holds. -/
theorem eq_of_toList_eq {s t : OptionSet} (h : s.toList = t.toList) : s = t := by
  have holds : ∀ option, s.contains option = t.contains option := fun option =>
    Bool.eq_iff_iff.2 (by rw [← mem_toList, ← mem_toList, h])
  have collapse : s.collapseOptional = t.collapseOptional := holds .collapseOptional
  have sort : s.sortFields = t.sortFields := holds .sortFields
  obtain ⟨collapse', sort', custom, increasing⟩ := s
  obtain ⟨_, _, custom', increasing'⟩ := t
  subst collapse sort
  have customs : custom.map ExtractOption.custom = custom'.map ExtractOption.custom :=
    List.append_cancel_left (List.append_cancel_left h)
  have same : custom = custom' :=
    List.map_injective_iff.2 (fun _ _ eq => ExtractOption.custom.inj eq) customs
  subst same
  rfl

theorem toMembers_inj {s t : OptionSet} (h : s.toMembers = t.toMembers) : s = t := by
  apply eq_of_toList_eq
  unfold toMembers at h
  split at h <;> split at h
  · rename_i none none'
    rw [List.isEmpty_iff.1 none, List.isEmpty_iff.1 none']
  · cases h
  · cases h
  · have written : s.toList.map ExtractOption.toJson = t.toList.map ExtractOption.toJson := by
      simpa [toJson] using h
    exact List.map_injective_iff.2 (fun _ _ => ExtractOption.toJson_inj) written

end OptionSet

namespace Shape

/-! ## Shapes -/

/-- The shapes that are written as a shape is are the shape itself. -/
def Told (x : Shape) : Prop :=
  ∀ y : Shape, x.toJson = y.toJson → x = y

section Parts

variable {xs ys : List Shape} {table other : List (String × Shape)}

theorem listToJson_inj (each : ∀ x ∈ xs, Told x) (h : listToJson xs = listToJson ys) : xs = ys := by
  induction xs generalizing ys with
  | nil =>
    cases ys with
    | nil => rfl
    | cons y ys => cases h
  | cons x xs ih =>
    cases ys with
    | nil => cases h
    | cons y ys =>
      simp only [listToJson, List.cons.injEq] at h
      obtain rfl := each x List.mem_cons_self y h.1
      rw [ih (fun z hz => each z (List.mem_cons_of_mem _ hz)) h.2]

theorem tableToJson_inj (each : ∀ x ∈ table.map Prod.snd, Told x)
    (h : tableToJson table = tableToJson other) : table = other := by
  induction table generalizing other with
  | nil =>
    cases other with
    | nil => rfl
    | cons entry other => cases h
  | cons entry table ih =>
    cases other with
    | nil => cases h
    | cons entry' other =>
      simp only [tableToJson, List.cons.injEq, Prod.mk.injEq] at h
      obtain ⟨⟨name, first⟩, later⟩ := h
      have shape := each entry.2 List.mem_cons_self entry'.2 first
      rw [Prod.ext name shape, ih (fun z hz => each z (List.mem_cons_of_mem _ hz)) later]

/-- A bound and constraints, either of which may be left out. -/
theorem boundsToJson_inj {a b : Option Shape} (bound : ∀ x ∈ a.toList, Told x)
    (constraints : ∀ x ∈ xs, Told x)
    (h : boundToMembers a ++ constraintsToMembers (listToJson xs) =
      boundToMembers b ++ constraintsToMembers (listToJson ys)) : a = b ∧ xs = ys := by
  have written : ∀ {xs ys : List Json}, constraintsToMembers xs = constraintsToMembers ys →
      xs = ys := by
    intro xs ys eq
    cases xs <;> cases ys <;> simp_all [constraintsToMembers]
  -- members that begin with a bound do not begin with constraints
  have apart : ∀ {x : Shape} {rest : List (String × Json)} {ys : List Json},
      boundToMembers (some x) ++ rest ≠ constraintsToMembers ys := by
    intro x rest ys eq
    cases ys <;> simp [boundToMembers, constraintsToMembers] at eq
  cases a with
  | none =>
    cases b with
    | none => exact ⟨rfl, listToJson_inj constraints (written h)⟩
    | some y => exact absurd h.symm apart
  | some x =>
    cases b with
    | none => exact absurd h apart
    | some y =>
      simp only [boundToMembers, List.cons_append, List.nil_append, List.cons.injEq,
        Prod.mk.injEq, true_and] at h
      obtain rfl := bound x (Option.mem_toList.2 rfl) y h.1
      exact ⟨rfl, listToJson_inj constraints (written h.2)⟩

end Parts

/-- No two shapes are written alike. -/
theorem toJson_inj {x y : Shape} (h : x.toJson = y.toJson) : x = y := by
  suffices told : Told x from told y h
  clear h y
  induction x using children_induction with
  | step x each =>
    intro y h
    -- shapes of different kinds begin with different words
    cases x <;> cases y <;> simp [toJson] at h
    case unknown.unknown => rfl
    case none.none => rfl
    case builtin.builtin name name' => rw [h]
    case list.list element o element' o' =>
      obtain ⟨first, options⟩ := h
      have element_eq := each element (.head _) element' first
      rw [element_eq, OptionSet.toMembers_inj options]
    case tuple.tuple elements variadic o elements' variadic' o' =>
      obtain ⟨first, rfl, options⟩ := h
      have elements_eq : elements = elements' := listToJson_inj each first
      rw [elements_eq, OptionSet.toMembers_inj options]
    case dict.dict key value o key' value' o' =>
      obtain ⟨first, second, options⟩ := h
      have key_eq := each key (.head _) key' first
      have value_eq := each value (.tail _ (.head _)) value' second
      rw [key_eq, value_eq, OptionSet.toMembers_inj options]
    case mapping.mapping key value o key' value' o' =>
      obtain ⟨first, second, options⟩ := h
      have key_eq := each key (.head _) key' first
      have value_eq := each value (.tail _ (.head _)) value' second
      rw [key_eq, value_eq, OptionSet.toMembers_inj options]
    case union.union members o members' o' =>
      obtain ⟨first, options⟩ := h
      have members_eq : members = members' := listToJson_inj each first
      rw [members_eq, OptionSet.toMembers_inj options]
    case optional.optional inner o inner' o' =>
      obtain ⟨first, options⟩ := h
      have inner_eq := each inner (.head _) inner' first
      rw [inner_eq, OptionSet.toMembers_inj options]
    case literal.literal values values' =>
      rw [List.map_injective_iff.2 (fun _ _ => Scalar.toJson_inj) h]
    case enum.enum name members name' members' =>
      obtain ⟨rfl, values⟩ := h
      rw [Assoc.mapValues_inj Scalar.toJson_inj values]
    case typeVar.typeVar name bound constraints name' bound' constraints' =>
      obtain ⟨rfl, bounds⟩ := h
      obtain ⟨rfl, rfl⟩ := boundsToJson_inj (fun p hp => each p (List.mem_append_left _ hp))
        (fun p hp => each p (List.mem_append_right _ hp)) bounds
      rfl
    case classType.classType name fields o name' fields' o' =>
      obtain ⟨rfl, table, options⟩ := h
      rw [tableToJson_inj each table, OptionSet.toMembers_inj options]
    case record.record name fields total o name' fields' total' o' =>
      obtain ⟨rfl, table, rfl, options⟩ := h
      rw [tableToJson_inj each table, OptionSet.toMembers_inj options]
    case function.function name params returns o name' params' returns' o' =>
      obtain ⟨rfl, table, last, options⟩ := h
      have returns_eq := each returns (List.mem_append_right _ (.head _)) returns' last
      rw [tableToJson_inj (fun p hp => each p (List.mem_append_left _ hp)) table, returns_eq,
        OptionSet.toMembers_inj options]
    case newType.newType name base name' base' =>
      obtain ⟨rfl, last⟩ := h
      rw [each base (.head _) base' last]
    case fixedGeneric.fixedGeneric base bindings o base' bindings' o' =>
      obtain ⟨first, table, options⟩ := h
      have base_eq := each base (.head _) base' first
      rw [base_eq, tableToJson_inj (fun p hp => each p (.tail _ hp)) table,
        OptionSet.toMembers_inj options]
    case reference.reference name target name' target' =>
      obtain ⟨rfl, word⟩ := h
      rw [CollectedKind.name_inj word]

/-- **The JSON of a built shape tells the shape.**  A shape that is written as a built shape is,
with its members in the same order, is that shape, and is the same by the comparison of shapes. -/
theorem same_of_toJson_eq {a b : Shape} (built : a.Built) (h : a.toJson = b.toJson) :
    a = b ∧ a.same b = true := by
  obtain rfl := toJson_inj h
  exact ⟨rfl, same_refl built.proper⟩

/-- A class whose fields have the names of parts, and one that is made in another way: a union of
unions for a union, and options in another order. -/
theorem same_of_toJson_eq_of_respliced :
    let int : Shape := .builtin "int"
    let var : Shape := .typeVar "T" int []
    let o : OptionSet := .ofList [.sortFields, .custom "a"]
    let o' : OptionSet := .ofList [.custom "a", .sortFields, .custom "a"]
    let a : Shape := .classType "P" [("kind", unionOf [int, var] o), ("options", var)] o
    let b : Shape := .classType "P"
      [("kind", unionOf [unionOf [int] .empty, var, int] o'), ("options", var)] o'
    a.Built ∧ a.toJson = b.toJson ∧ a.same b = true := by
  intro int var o o' a b
  have leaf : int.Built := .of_leaf (fun _ _ eq => Shape.noConfusion eq) ⟨.nil, .nil⟩ rfl
  have bounded : var.Built :=
    .other (fun _ _ eq => Shape.noConfusion eq) ⟨.nil, .nil⟩ (List.forall_mem_singleton.2 leaf)
  have choice : (unionOf [int, var] o).Built :=
    .union o (List.forall_mem_cons.2 ⟨leaf, List.forall_mem_singleton.2 bounded⟩)
  have built : a.Built := by
    refine .other (fun _ _ eq => Shape.noConfusion eq) ⟨.nil, ?_⟩
      (List.forall_mem_cons.2 ⟨choice, List.forall_mem_singleton.2 bounded⟩)
    simp [a, layout, Assoc.Distinct, Assoc.keys]
  have alike : a.toJson = b.toJson := by
    simp only [a, b, o, o', var, int]
    cbv
  exact ⟨built, alike, (same_of_toJson_eq built alike).2⟩

end Shape

end TypeCatalog
