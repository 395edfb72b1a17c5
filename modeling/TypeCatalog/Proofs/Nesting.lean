import TypeCatalog.Proofs.Combining
import TypeCatalog.Proofs.Lockstep
import TypeCatalog.Proofs.OrderlyMoments
import TypeCatalog.Proofs.Passes

/-!
Nested unions.

A tree of union descriptors has the shape of the flat union of its leaves (`nested_unions_flatten`).
The two runs meet the same leaves in the same order and so fail alike or leave the same session; but
an inner union may be collapsed to a single member or an optional type, or bring in an alias that
was built under other options, before the outer one opens it again.  What carries the induction over
the tree is that each subtree brings the same elements into a union as its leaves do together
(`Pipeline.bringAlike_leaves`).

It is so from any session whose finished claims are orderly, the ones in the middle of a build
included.
-/

namespace TypeCatalog

/-! ## Trees of unions -/

namespace Descriptor

mutual

/-- What is in a tree of unions and is no union itself, from left to right. -/
def leaves : Descriptor → List Descriptor
  | union members => leavesList members
  | d => [d]

/-- The leaves of some trees. -/
def leavesList : List Descriptor → List Descriptor
  | [] => []
  | d :: rest => leaves d ++ leavesList rest

end

theorem leavesList_eq (ds : List Descriptor) : leavesList ds = ds.flatMap leaves := by
  induction ds with
  | nil => rfl
  | cons d rest ih => rw [leavesList, ih, List.flatMap_cons]

theorem leaves_union (members : List Descriptor) :
    (union members).leaves = members.flatMap leaves := by
  rw [leaves, leavesList_eq]

/-- A tree of unions, none of which is empty. -/
inductive Nest : Descriptor → Prop
  | leaf {d : Descriptor} : (∀ members, d ≠ union members) → Nest d
  | union {members : List Descriptor} : members ≠ [] → (∀ d ∈ members, Nest d) →
    Nest (union members)

theorem leaves_of_not_union {d : Descriptor} (leaf : ∀ members, d ≠ union members) :
    d.leaves = [d] := by
  cases d with
  | union members => exact absurd rfl (leaf members)
  | _ => rfl

theorem Nest.leaves_ne_nil {d : Descriptor} (nest : d.Nest) : d.leaves ≠ [] := by
  induction nest with
  | leaf leaf =>
    rw [leaves_of_not_union leaf]
    exact List.cons_ne_nil _ _
  | @union members some _ ih =>
    obtain ⟨d, hd⟩ := List.exists_mem_of_ne_nil members some
    obtain ⟨c, hc⟩ := List.exists_mem_of_ne_nil _ (ih d hd)
    rw [leaves_union]
    exact List.ne_nil_of_mem (List.mem_flatMap.2 ⟨d, hd, hc⟩)

theorem reading_union {members : List Descriptor} (some : members ≠ [])
    (definitions : List (String × Descriptor)) :
    (union members).reading definitions = .composed := by
  cases members with
  | nil => exact absurd rfl some
  | cons => rfl

end Descriptor

namespace Pipeline

open Shape (Orderly SameElements)

variable {stock : List Stock} {definitions : List (String × Descriptor)} {options : OptionSet}
  {ds es ds' es' members leaves : List Descriptor} {s s' : Session}

/-! ## Lists of shapes one after another -/

theorem shapesOf_append_of_ok {xs : List Shape} {outcome : Except ExtractError (List Shape)}
    {s'' : Session}
    (first : (unbounded stock definitions).shapesOf options ds s = (.ok xs, s'))
    (later : (unbounded stock definitions).shapesOf options es s' = (outcome, s'')) :
    (unbounded stock definitions).shapesOf options (ds ++ es) s =
      (outcome.map (xs ++ ·), s'') := by
  rw [Surroundings.shapesOf_append, Build.bind_ok first]
  cases outcome with
  | error fault => exact Build.bind_error later
  | ok shapes => exact Build.bind_ok later

theorem shapesOf_append_of_error {fault : ExtractError}
    (first : (unbounded stock definitions).shapesOf options ds s = (.error fault, s')) :
    (unbounded stock definitions).shapesOf options (ds ++ es) s = (.error fault, s') := by
  rw [Surroundings.shapesOf_append, Build.bind_error first]

/-! ## Bringing the same elements into a union -/

/-- From a session, two lists of descriptors fail with the same fault, or have shapes that bring the
same elements into a union, and either way they leave the same session. -/
inductive BringAlike (stock : List Stock) (definitions : List (String × Descriptor))
    (options : OptionSet) (ds es : List Descriptor) (s : Session) : Prop
  | error {fault : ExtractError} {s' : Session} :
    (unbounded stock definitions).shapesOf options ds s = (.error fault, s') →
    (unbounded stock definitions).shapesOf options es s = (.error fault, s') →
    BringAlike stock definitions options ds es s
  | ok {xs ys : List Shape} {s' : Session} :
    (unbounded stock definitions).shapesOf options ds s = (.ok xs, s') →
    (unbounded stock definitions).shapesOf options es s = (.ok ys, s') →
    s'.registry.Neat → (∀ x ∈ xs, Orderly x) → (∀ y ∈ ys, Orderly y) →
    SameElements (xs.flatMap Shape.brought) (ys.flatMap Shape.brought) →
    BringAlike stock definitions options ds es s

theorem bringAlike_self (tables : ∀ entry ∈ definitions, entry.2.Distinct)
    (distinct : ∀ d ∈ ds, d.Distinct) (neat : s.registry.Neat) :
    BringAlike stock definitions options ds ds s := by
  have after := (orderlyLaw stock options tables).shapes ds s distinct neat
  rcases outcome : (unbounded stock definitions).shapesOf options ds s with ⟨fault | xs, s'⟩
  · exact .error outcome outcome
  · rw [outcome] at after
    have orderly := (after.2 xs rfl).2
    refine .ok outcome outcome after.1 orderly orderly ?_
    refine Shape.sameElements_of_mem_iff (fun a ha => ?_) fun _ => Iff.rfl
    exact (Shape.orderly_of_mem_flatMap_brought orderly ha).proper

theorem BringAlike.append (first : BringAlike stock definitions options ds es s)
    (later : ∀ s' : Session, s'.registry.Neat →
      BringAlike stock definitions options ds' es' s') :
    BringAlike stock definitions options (ds ++ ds') (es ++ es') s := by
  cases first with
  | error left right =>
    exact .error (shapesOf_append_of_error left) (shapesOf_append_of_error right)
  | @ok xs ys s' left right neat orderly orderly' elements =>
    cases later s' neat with
    | error left' right' =>
      exact .error (shapesOf_append_of_ok left left') (shapesOf_append_of_ok right right')
    | ok left' right' neat' made made' elements' =>
      refine .ok (shapesOf_append_of_ok left left') (shapesOf_append_of_ok right right') neat'
        (List.forall_mem_append.2 ⟨orderly, made⟩) (List.forall_mem_append.2 ⟨orderly', made'⟩) ?_
      rw [List.flatMap_append, List.flatMap_append]
      exact elements.append elements'

/-- The shape of a union is what its members are combined to. -/
theorem shape_union (covered : Stock.covers stock (.union members) = true) (some : members ≠ [])
    {outcome : Except ExtractError (List Shape)}
    (parts : (unbounded stock definitions).shapesOf options members s = (outcome, s')) :
    (ofStock stock definitions).shape (.union members) options s =
      (outcome.map fun xs => (Shape.combine options xs).getD .unknown, s') :=
  shape_of_composed covered (Descriptor.reading_union some definitions) parts

/-- A union has a shape if all its members do. -/
theorem exists_shape_union (covered : Stock.covers stock (.union members) = true)
    (some : members ≠ []) {xs : List Shape}
    (parts : (unbounded stock definitions).shapesOf options members s = (.ok xs, s')) :
    ∃ x, (ofStock stock definitions).shape (.union members) options s = (.ok x, s') ∧
      Shape.Combines options xs x := by
  obtain ⟨x, combined, combines⟩ := Shape.combine_eq_some options xs
  refine ⟨x, ?_, combines⟩
  rw [shape_union covered some parts, Except.map, combined]
  rfl

/-- A union brings in what its members bring in. -/
theorem BringAlike.union (covered : Stock.covers stock (.union members) = true)
    (some : members ≠ []) (alike : BringAlike stock definitions options members es s) :
    BringAlike stock definitions options [.union members] es s := by
  cases alike with
  | error left right => exact .error (shapesOf_cons_of_error (shape_union covered some left)) right
  | @ok xs ys s' left right neat orderly orderly' elements =>
    obtain ⟨x, made, combines⟩ := exists_shape_union covered some left
    have shapes : xs ≠ [] := by
      rintro rfl
      exact some (List.length_eq_zero_iff.1 (passes_iff.2 left).length_eq.symm)
    have single : (unbounded stock definitions).shapesOf options [.union members] s =
        (.ok [x], s') := shapesOf_cons_of_ok made rfl
    refine .ok single right neat
      (List.forall_mem_singleton.2 (Shape.orderly_of_combines orderly shapes combines)) orderly' ?_
    rw [List.flatMap_singleton]
    exact (Shape.sameElements_brought orderly combines).trans elements

/-- Descriptors bring in what their leaves do if each of them does, from whichever neat registry the
ones before it leave. -/
theorem bringAlike_flatMap_leaves (tables : ∀ entry ∈ definitions, entry.2.Distinct)
    (each : ∀ d ∈ ds, ∀ s : Session, s.registry.Neat →
      BringAlike stock definitions options [d] d.leaves s) (neat : s.registry.Neat) :
    BringAlike stock definitions options ds (ds.flatMap Descriptor.leaves) s := by
  induction ds generalizing s with
  | nil => exact bringAlike_self tables (List.forall_mem_nil _) neat
  | cons d rest later =>
    exact (each d List.mem_cons_self s neat).append fun s' neat' =>
      later (fun d hd => each d (List.mem_cons_of_mem _ hd)) neat'

/-- Trees of unions bring in what their leaves do. -/
theorem bringAlike_leaves (covered : ∀ members, Stock.covers stock (.union members) = true)
    (tables : ∀ entry ∈ definitions, entry.2.Distinct) {d : Descriptor} (nest : d.Nest)
    (distinct : d.Distinct) (neat : s.registry.Neat) :
    BringAlike stock definitions options [d] d.leaves s := by
  induction nest generalizing s with
  | leaf leaf =>
    rw [Descriptor.leaves_of_not_union leaf]
    exact bringAlike_self tables (List.forall_mem_singleton.2 distinct) neat
  | @union members some _ ih =>
    rw [Descriptor.leaves_union]
    refine .union (covered members) some (bringAlike_flatMap_leaves tables ?_ neat)
    exact fun d hd s neat => ih d hd (distinct.component hd) neat

/-- The shapes of two unions whose members bring in the same elements. -/
theorem BringAlike.shapes (covered : ∀ members, Stock.covers stock (.union members) = true)
    (some : members ≠ []) (some' : leaves ≠ [])
    (alike : BringAlike stock definitions options members leaves s) :
    OutcomesAgree Shape.Same
        ((ofStock stock definitions).shape (.union members) options s).1
        ((ofStock stock definitions).shape (.union leaves) options s).1 ∧
      ((ofStock stock definitions).shape (.union members) options s).2 =
        ((ofStock stock definitions).shape (.union leaves) options s).2 := by
  cases alike with
  | error left right =>
    rw [shape_union (covered _) some left, shape_union (covered _) some' right]
    exact ⟨.error, rfl⟩
  | @ok xs ys s' left right _ orderly orderly' elements =>
    obtain ⟨x, made, combines⟩ := exists_shape_union (covered _) some left
    obtain ⟨y, made', combines'⟩ := exists_shape_union (covered _) some' right
    rw [made, made']
    exact ⟨.ok (Shape.same_of_combines orderly orderly' elements combines combines'), rfl⟩

/-- **Nested unions flatten.**  Consider any moment of the run of a descriptor after whatever calls,
the middle of a build included, and a tree of unions, none of them empty, with any leaves.  Under
any options, the shape of the tree and that of the flat union of its leaves, from left to right, are
then the same or fail with the same fault, and they leave the same session. -/
theorem nested_unions_flatten {calls : List Call} (sound : ∀ c ∈ calls, c.Distinct)
    (tables : ∀ entry ∈ definitions, entry.2.Distinct) {asked : Descriptor}
    (maps : asked.Distinct) {chosen : OptionSet} {m : Moment}
    (run : Moment.Reaches stock definitions chosen
      ⟨.asking asked, [], (sessionAfter calls).registry⟩ m)
    (nest : (Descriptor.union members).Nest) (distinct : (Descriptor.union members).Distinct)
    (options : OptionSet) (journal : List String) :
    let s : Session := ⟨m.registry, journal⟩
    let tree := (ofStock stock definitions).shape (.union members) options s
    let leaves := (Descriptor.union members).leaves
    let flat := (ofStock stock definitions).shape (.union leaves) options s
    OutcomesAgree (fun x y => x.same y = true) tree.1 flat.1 ∧ tree.2 = flat.2 := by
  intro s tree leaves flat
  have neat : s.registry.Neat := Moment.neat_of_reaches sound tables maps run
  -- whether unions are covered does not depend on what is in them
  cases covered : Stock.covers stock (.union members) with
  | false =>
    have uncovered : Stock.covers stock (.union leaves) = false := covered
    simp only [tree, flat, shape_of_uncovered covered, shape_of_uncovered uncovered]
    exact ⟨.ok (Shape.same_refl Shape.orderly_unknown.proper), trivial⟩
  | true =>
    have covered : ∀ members, Stock.covers stock (.union members) = true := fun _ => covered
    have some' := nest.leaves_ne_nil
    cases nest with
    | leaf leaf => exact absurd rfl (leaf members)
    | union some nests =>
      have flattened : leaves = members.flatMap Descriptor.leaves := Descriptor.leaves_union members
      refine BringAlike.shapes covered some some' ?_
      rw [flattened]
      refine bringAlike_flatMap_leaves tables (fun d hd s neat => ?_) neat
      exact bringAlike_leaves covered tables (nests d hd) (distinct.component hd) neat

/-- In the middle of a class, a tree with the class itself and an alias that was collapsed before,
under options that do not collapse. -/
theorem nested_unions_flatten_of_unfinished :
    let int : Descriptor := .builtin "int"
    let box : Descriptor := .classDecl "Box" [("it", .ref "Maybe")] []
    let definitions := [("Maybe", Descriptor.union [.none, int]), ("Box", box)]
    let o : OptionSet := .ofList [.collapseOptional]
    let before : Call := ⟨Stock.all, definitions, o, .shape (.ref "Maybe")⟩
    let r : Registry :=
      ⟨[⟨.typeAlias, "Maybe", .union [.none, int], some (.optional (.builtin "int") o)⟩,
        ⟨.classType, "Box", box, none⟩], by decide⟩
    let m : Moment := ⟨.gathering box [] [.ref "Maybe"], [.collecting .classType "Box"], r⟩
    let members : List Descriptor :=
      [.union [.ref "Maybe", .union [.ref "Box"]], .builtin "str", .none]
    let leaves : List Descriptor := [.ref "Maybe", .ref "Box", .builtin "str", .none]
    let shape := fun ds =>
      ((ofStock Stock.all definitions).shape (.union ds) .empty ⟨r, []⟩).1
    Moment.Reaches Stock.all definitions .empty
        ⟨.asking box, [], (sessionAfter [before]).registry⟩ m ∧
      (Descriptor.union members).leaves = leaves ∧
      shape members = .ok (.union
        [.builtin "int", .none, .reference "Box" .classType, .builtin "str"] .empty) ∧
      OutcomesAgree (fun x y => x.same y = true) (shape members) (shape leaves) := by
  intro int box definitions o before r m members leaves shape
  have leaf : int.Distinct ∧ (Descriptor.builtin "str").Distinct ∧ Descriptor.none.Distinct ∧
      ∀ name, (Descriptor.ref name).Distinct :=
    ⟨.of_leaf trivial rfl, .of_leaf trivial rfl, .of_leaf trivial rfl,
      fun _ => .of_leaf trivial rfl⟩
  obtain ⟨number, text, absent, named⟩ := leaf
  have maps : box.Distinct := by
    refine .intro ?_ (List.forall_mem_singleton.2 (named "Maybe"))
    simp [box, Descriptor.TableDistinct, Assoc.Distinct, Assoc.keys]
  have tables : ∀ entry ∈ definitions, entry.2.Distinct :=
    List.forall_mem_cons.2 ⟨.intro trivial
      (List.forall_mem_cons.2 ⟨absent, List.forall_mem_singleton.2 number⟩),
      List.forall_mem_singleton.2 maps⟩
  have sound : ∀ c ∈ [before], c.Distinct :=
    List.forall_mem_singleton.2 ⟨tables, List.forall_mem_singleton.2 (named "Maybe")⟩
  have entered : (sessionAfter [before]).registry.entries =
      [⟨.typeAlias, "Maybe", .union [.none, int], some (.optional (.builtin "int") o)⟩] := by
    simp only [before, definitions, o, int, box]
    cbv
  have free : (sessionAfter [before]).registry.find? .classType "Box" = none := by
    rw [Registry.find?, entered]
    rfl
  have claimed : (sessionAfter [before]).registry.push .classType "Box" box free = r :=
    Registry.ext_entries (by rw [Registry.push_entries, entered]; rfl)
  have run : Moment.Reaches Stock.all definitions .empty
      ⟨.asking box, [], (sessionAfter [before]).registry⟩ m := by
    refine .single (congrArg some ?_)
    rw [Moment.afterAsking_free rfl rfl free, claimed]
    rfl
  have distinct : (Descriptor.union members).Distinct := by
    refine .intro trivial (List.forall_mem_cons.2 ⟨.intro trivial ?_, ?_⟩)
    · exact List.forall_mem_cons.2 ⟨named "Maybe",
        List.forall_mem_singleton.2 (.intro trivial (List.forall_mem_singleton.2 (named "Box")))⟩
    · exact List.forall_mem_cons.2 ⟨text, List.forall_mem_singleton.2 absent⟩
  have nest : (Descriptor.union members).Nest := by
    have single : ∀ name, (Descriptor.ref name).Nest := fun _ => .leaf fun _ eq => by cases eq
    refine .union (by simp [members]) (List.forall_mem_cons.2 ⟨.union (by simp) ?_, ?_⟩)
    · exact List.forall_mem_cons.2 ⟨single "Maybe", List.forall_mem_singleton.2
        (.union (by simp) (List.forall_mem_singleton.2 (single "Box")))⟩
    · exact List.forall_mem_cons.2 ⟨.leaf fun _ eq => (by cases eq),
        List.forall_mem_singleton.2 (.leaf fun _ eq => (by cases eq))⟩
  have flat : (Descriptor.union members).leaves = leaves := rfl
  obtain ⟨agree, -⟩ := nested_unions_flatten sound tables maps run nest distinct .empty []
  rw [flat] at agree
  refine ⟨run, flat, ?_, agree⟩
  simp only [shape, members, r, definitions, box, int, o]
  cbv

end Pipeline

end TypeCatalog
