import TypeCatalog.Proofs.Combining

/-!
Shapes that are put together from the same parts.

Descriptors that are the same need not list their fields in the same order, and so the shapes of
their parts do not come in the same order either.  What is put together from them is the same
nonetheless (`Descriptor.same_assembled`), as long as parts that are like each other have shapes
that are the same (`Descriptor.Alongside`): a field is then found under its name in either table,
and everything else that has parts has them in the same order.
-/

namespace TypeCatalog

/-! ## Shapes next to the descriptors that they are of -/

namespace Descriptor

open Shape (Orderly)

/-- Two lists of shapes belong to two lists of descriptors one by one, and descriptors that are like
each other have shapes that are the same. -/
structure Alongside (ps : List Descriptor) (xs : List Shape) (qs : List Descriptor)
    (ys : List Shape) : Prop where
  count : xs.length = ps.length
  count' : ys.length = qs.length
  same : ∀ p x q y, (p, x) ∈ ps.zip xs → (q, y) ∈ qs.zip ys → Like p q → Shape.Same x y

section Alongside

variable {ps qs : List Descriptor} {xs ys : List Shape}

theorem Alongside.forall₂ (h : Alongside ps xs qs ys) (like : List.Forall₂ Like ps qs) :
    List.Forall₂ Shape.Same xs ys := by
  obtain ⟨count, count', same⟩ := h
  induction like generalizing xs ys with
  | nil =>
    cases List.length_eq_zero_iff.1 count
    cases List.length_eq_zero_iff.1 count'
    exact .nil
  | @cons p q ps qs first _ ih =>
    obtain ⟨x, xs, rfl⟩ := List.exists_cons_of_length_eq_add_one count
    obtain ⟨y, ys, rfl⟩ := List.exists_cons_of_length_eq_add_one count'
    refine .cons (same p x q y List.mem_cons_self List.mem_cons_self first)
      (ih (Nat.succ.inj count) (Nat.succ.inj count') fun p x q y hp hq => ?_)
    exact same p x q y (List.mem_cons_of_mem _ hp) (List.mem_cons_of_mem _ hq)

theorem Alongside.forall₂_same (h : Alongside ps xs qs ys) (same : List.Forall₂ Same ps qs) :
    List.Forall₂ Shape.Same xs ys :=
  h.forall₂ (same.imp fun _ _ => .inr)

end Alongside

end Descriptor

namespace Assoc

variable {α β : Type} {key : String} {b : β}

/-- What stands next to a key is next to its value. -/
theorem exists_of_mem_zip_keys {table : List (String × α)} {values : List β}
    (h : (key, b) ∈ (keys table).zip values) :
    ∃ a, (key, a) ∈ table ∧ (a, b) ∈ (table.map Prod.snd).zip values := by
  induction table generalizing values with
  | nil => cases h
  | cons entry rest ih =>
    cases values with
    | nil => cases h
    | cons v values =>
      rcases List.mem_cons.1 h with eq | later
      · cases eq
        exact ⟨entry.2, List.mem_cons_self, List.mem_cons_self⟩
      · obtain ⟨a, entry, pair⟩ := ih later
        exact ⟨a, List.mem_cons_of_mem _ entry, List.mem_cons_of_mem _ pair⟩

theorem exists_mem_zip_keys {a : α} {table : List (String × α)} {values : List β}
    (count : values.length = table.length) (h : (key, a) ∈ table) :
    ∃ b, (key, b) ∈ (keys table).zip values ∧ (a, b) ∈ (table.map Prod.snd).zip values := by
  induction table generalizing values with
  | nil => cases h
  | cons entry rest ih =>
    obtain ⟨v, values, rfl⟩ := List.exists_cons_of_length_eq_add_one count
    rcases List.mem_cons.1 h with rfl | later
    · exact ⟨v, List.mem_cons_self, List.mem_cons_self⟩
    · obtain ⟨b, entry, pair⟩ := ih (Nat.succ.inj count) later
      exact ⟨b, List.mem_cons_of_mem _ entry, List.mem_cons_of_mem _ pair⟩

end Assoc

namespace Descriptor

open Shape

variable {o : OptionSet} {xs ys : List Shape} {definitions : List (String × Descriptor)}

/-- Tables of fields agree whatever the order of the fields was. -/
theorem agree_fields {as bs : List (String × Descriptor)} (fields : Assoc.Agree Same as bs)
    (distinct' : Assoc.Distinct bs) (h : Alongside (as.map Prod.snd) xs (bs.map Prod.snd) ys) :
    Assoc.Agree Shape.Same (arranged o ((Assoc.keys as).zip xs))
      (arranged o ((Assoc.keys bs).zip ys)) := by
  have count : xs.length = as.length := by simpa using h.count
  have count' : ys.length = bs.length := by simpa using h.count'
  have agree : Assoc.Agree Shape.Same ((Assoc.keys as).zip xs) ((Assoc.keys bs).zip ys) := by
    refine ⟨by simp [Assoc.keys, count, count', fields.length_eq], fun key x listed => ?_⟩
    obtain ⟨a, entry, pair⟩ := Assoc.exists_of_mem_zip_keys listed
    obtain ⟨b, found, same⟩ := fields.within key a entry
    obtain ⟨y, listed', pair'⟩ := Assoc.exists_mem_zip_keys count' (Assoc.mem_of_find? found)
    exact ⟨y, (Assoc.find?_eq_some_iff (Assoc.distinct_zip distinct' ys)).2 listed',
      h.same a x b y pair pair' (.inr same)⟩
  exact (agree.perm_left (perm_arranged _)).perm_right (perm_arranged _).symm
    (distinct_arranged distinct' ys)

/-- The parts of a function are in the order of its parameters. -/
theorem forall₂_annotated {as bs : List (String × Descriptor)}
    (annotations : Assoc.Agree Same as bs) (distinct : Assoc.Distinct as) (names : List String) :
    List.Forall₂ Like (names.map (Recognizer.annotated as))
      (names.map (Recognizer.annotated bs)) := by
  rw [List.forall₂_map_left_iff, List.forall₂_map_right_iff, List.forall₂_same]
  exact fun name _ => annotated_same annotations distinct name

theorem sameElements_of_forall₂ (h : List.Forall₂ Shape.Same xs ys)
    (orderly : ∀ x ∈ xs, Orderly x) (orderly' : ∀ y ∈ ys, Orderly y) : SameElements xs ys := by
  have back : List.Forall₂ Shape.Same ys xs := forall₂_symm h fun x hx y hy same =>
    Shape.same_symm same (orderly x hx).proper (orderly' y hy).proper
  refine ⟨fun x hx => ?_, fun y hy => ?_⟩
  · obtain ⟨y, hy, same⟩ := exists_of_forall₂_of_mem h.flip hx
    exact ⟨y, hy, same⟩
  · obtain ⟨x, hx, same⟩ := exists_of_forall₂_of_mem back.flip hy
    exact ⟨x, hx, same⟩

/-- Shapes that are put together for descriptors that are the same, from shapes of like parts that
are the same, are the same. -/
theorem same_assembled {d d' : Descriptor} (alike : Same d d') (distinct : d.Distinct)
    (distinct' : d'.Distinct) (orderly : ∀ x ∈ xs, Orderly x) (orderly' : ∀ y ∈ ys, Orderly y)
    (h : Alongside (d.parts definitions) xs (d'.parts definitions) ys) :
    Shape.Same (d.assembled definitions o xs) (d'.assembled definitions o ys) := by
  have table := distinct.table
  have table' := distinct'.table
  have known : Shape.Same unknown unknown := Shape.same_refl orderly_unknown.proper
  cases same_iff.1 alike with
  | empty | any | ellipsis | unclassified => exact known
  | none => exact Shape.same_refl orderly_none.proper
  | builtin => exact Shape.same_iff.2 ⟨rfl, rfl, .nil, agree_nil, .nil, agree_nil, setAgree_nil⟩
  | ref =>
    exact forall₂_headD (h.forall₂ (List.forall₂_same.2 fun _ _ => .inl rfl)) known
  | literal values =>
    exact Shape.same_iff.2 ⟨rfl, rfl, values, agree_nil, .nil, agree_nil, setAgree_nil⟩
  | enum members =>
    exact Shape.same_iff.2 ⟨rfl, rfl, .nil, members, .nil, agree_nil, setAgree_nil⟩
  | @generic origin as bs args =>
    cases held : Origin.of? origin with
    | none =>
      simp only [assembled, held]
      exact known
    | some family =>
      simp only [parts, held] at h
      have shapes := h.forall₂_same (forall₂_positions family args)
      have head := forall₂_headD shapes known
      simp only [assembled, held]
      cases family with
      | list =>
        exact Shape.same_iff.2 ⟨rfl, rfl, .nil, agree_nil, .cons head .nil, agree_nil, setAgree_nil⟩
      | dict | mapping =>
        exact Shape.same_iff.2 ⟨rfl, rfl, .nil, agree_nil,
          .cons head (.cons (forall₂_getD shapes 1 known) .nil), agree_nil, setAgree_nil⟩
      | tuple =>
        refine Shape.same_iff.2 ⟨?_, rfl, .nil, agree_nil, shapes, agree_nil, setAgree_nil⟩
        exact congrArg Face.tuple (isOpen_eq_of_same args)
  | @union as bs members =>
    obtain ⟨x, combined, combines⟩ := combine_eq_some o xs
    obtain ⟨y, combined', combines'⟩ := combine_eq_some o ys
    simp only [assembled, combined, combined', Option.getD_some]
    have elements := sameElements_of_forall₂ (h.forall₂_same members) orderly orderly'
    exact same_of_combines orderly orderly' (elements.brought orderly orderly') combines combines'
  | @typeVar name a b as bs bound constraints =>
    have shapes := h.forall₂_same (List.rel_append bound constraints)
    rcases a with _ | a <;> rcases b with _ | b
    · exact Shape.same_iff.2 ⟨rfl, rfl, .nil, agree_nil, shapes, agree_nil, setAgree_nil⟩
    · cases bound
    · cases bound
    · cases shapes with
      | nil => exact Shape.same_iff.2 ⟨rfl, rfl, .nil, agree_nil, .nil, agree_nil, setAgree_nil⟩
      | cons first later =>
        exact Shape.same_iff.2 ⟨rfl, rfl, .nil, agree_nil, .cons first later, agree_nil,
          setAgree_nil⟩
  | classDecl fields =>
    exact Shape.same_iff.2 ⟨rfl, rfl, .nil, agree_nil, .nil, agree_fields fields table' h,
      setAgree_nil⟩
  | typedDict fields =>
    exact Shape.same_iff.2 ⟨rfl, rfl, .nil, agree_nil, .nil, agree_fields fields table' h,
      setAgree_nil⟩
  | newType supertype =>
    have shapes := h.forall₂_same (.cons supertype .nil)
    exact Shape.same_iff.2 ⟨rfl, rfl, .nil, agree_nil, .cons (forall₂_headD shapes known) .nil,
      agree_nil, setAgree_nil⟩
  | @parameterized a b as bs base args =>
    have shapes := h.forall₂_same (.cons base args)
    have names : bindingNames (a.declared definitions) as.length =
        bindingNames (b.declared definitions) bs.length := by
      rw [declared_eq_of_same base, args.length_eq]
    have bindings := (Assoc.inStep_zip (bindingNames (a.declared definitions) as.length)
      (forall₂_tail shapes)).ofPairs.agree (Assoc.distinct_ofPairs _)
    simp only [assembled, ← names]
    exact Shape.same_iff.2 ⟨rfl, rfl, .nil, agree_nil, .cons (forall₂_headD shapes known) .nil,
      bindings, setAgree_nil⟩
  | @function name as bs paramNames annotations =>
    have like := List.rel_append (forall₂_annotated annotations table (parameterNames paramNames))
      (forall₂_annotated annotations table [Recognizer.returnName])
    have shapes := h.forall₂ like
    have params := (Assoc.inStep_zip (parameterNames paramNames)
      (forall₂_dropLast shapes)).ofPairs.agree (Assoc.distinct_ofPairs _)
    exact Shape.same_iff.2 ⟨rfl, rfl, .nil, agree_nil, .cons (forall₂_getLastD shapes known) .nil,
      params, setAgree_nil⟩

end Descriptor

end TypeCatalog
