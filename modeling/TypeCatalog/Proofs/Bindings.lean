import TypeCatalog.Proofs.Passes
import TypeCatalog.Proofs.Tables

/-!
The arguments of a generic class.

Arguments are bound under the names of the parameters that the class declares, first to first and so
on, and under their places where none are declared; if there are parameters but not as many as
arguments, nothing is taken at all.  The bindings are a map, though, and nothing keeps a class from
declaring one name twice: then the arguments of that name are all taken, and the last one is bound
(`Pipeline.arguments_are_lost`).  So there are as many bindings as arguments, in their order, if and
only if the names that are declared are distinct (`Pipeline.arguments_bind_by_position`).
-/

namespace TypeCatalog

namespace Descriptor

variable {params : List String} {count : Nat}

/-- Places have names apart. -/
theorem toString_injective : Function.Injective (toString : Nat → String) := by
  intro i j same
  have digits : Nat.toDigits 10 i = Nat.toDigits 10 j := by
    rw [Nat.toString_eq_ofList_toDigits, Nat.toString_eq_ofList_toDigits] at same
    exact String.ofList_injective same
  rw [← @Nat.ofDigitChars_ten_toDigits i, digits, Nat.ofDigitChars_ten_toDigits]

theorem bindingNames_nil : bindingNames [] count = (List.range count).map toString :=
  List.map_congr_left fun _ _ => rfl

/-- As many parameters as arguments: the arguments have the names of the parameters. -/
theorem bindingNames_of_length_eq (fits : params.length = count) :
    bindingNames params count = params := by
  refine List.ext_getElem? fun i => ?_
  unfold bindingNames Recognizer.bindingName
  rw [List.getElem?_map]
  by_cases bound : i < params.length
  · rw [List.getElem?_range (fits ▸ bound), Option.map_some, List.getElem?_eq_getElem bound,
      Option.getD_some]
  · rw [List.getElem?_eq_none (Nat.le_of_not_lt bound), List.getElem?_eq_none]
    · rfl
    · rw [List.length_range]
      omega

/-- It is for the parameters to be distinct. -/
theorem nodup_bindingNames_iff (fits : params.length = 0 ∨ params.length = count) :
    (bindingNames params count).Nodup ↔ params.Nodup := by
  rcases fits with none | fits
  · cases List.length_eq_zero_iff.1 none
    rw [bindingNames_nil]
    exact iff_of_true (List.nodup_range.map toString_injective) .nil
  · rw [bindingNames_of_length_eq fits]

variable {definitions : List (String × Descriptor)} {base : Descriptor} {args : List Descriptor}

/-- A generic class is taken apart just in case it declares no parameters, or one for each
argument. -/
theorem reading_parameterized :
    (parameterized base args).reading definitions =
      if (base.declared definitions).length ≠ 0 ∧
          (base.declared definitions).length ≠ args.length then
        .malformed (.typeParams base.label (base.declared definitions).length args.length)
      else .composed := rfl

end Descriptor

namespace Pipeline

/-- **Arguments bind by position, under names that may fall together.**  A generic class with
parameters, but not as many as arguments, is refused before anything is taken.  If it has a shape,
then its base is taken first and after it the arguments, in their order, each in the session that
those before it left; the name of an argument is that of the parameter at its place, or its place if
no parameters are declared; each name is bound, where it stands first, to the shape of the last
argument that has it; and there is a binding for each argument, in the order of the arguments, just
in case the class declares no name twice. -/
theorem arguments_bind_by_position (definitions : List (String × Descriptor))
    (options : OptionSet) (base : Descriptor) (args : List Descriptor) (s : Session) :
    let p := standard definitions
    let d : Descriptor := .parameterized base args
    let declared := base.declared definitions
    let names := (List.range args.length).map fun i => declared[i]?.getD (toString i)
    (declared ≠ [] → declared.length ≠ args.length →
        p.shape d options s =
          (.error (.typeParams base.label declared.length args.length), s)) ∧
      ∀ x s', p.shape d options s = (.ok x, s') →
        ∃ baseShape bindings xs between,
          x = .fixedGeneric baseShape bindings options ∧
          p.shape base options s = (.ok baseShape, between) ∧
          p.Passes options args between xs s' ∧
          Assoc.keys bindings = names.eraseDups ∧
          (∀ i n y, names[i]? = some n → xs[i]? = some y → n ∉ names.drop (i + 1) →
            Assoc.find? n bindings = some y) ∧
          (declared.Nodup → bindings = names.zip xs) ∧
          (bindings.length = args.length ↔ declared.Nodup) := by
  intro p d declared names
  have covered : Stock.covers Stock.all d = true := Stock.covers_all d
  have named : names = Descriptor.bindingNames declared args.length := rfl
  refine ⟨fun some other => ?_, fun x s' taken => ?_⟩
  · refine shape_of_malformed covered ?_
    rw [Descriptor.reading_parameterized, if_pos ⟨mt List.length_eq_zero_iff.1 some, other⟩]
  · by_cases refused : declared.length ≠ 0 ∧ declared.length ≠ args.length
    · have malformed := Descriptor.reading_parameterized.trans (if_pos refused)
      cases (shape_of_malformed covered malformed).symm.trans taken
    have reading : d.reading definitions = .composed :=
      Descriptor.reading_parameterized.trans (if_neg refused)
    obtain ⟨shapes, pass, made⟩ := passes_of_composed covered reading taken
    cases pass with
    | @cons _ _ _ between _ baseShape xs first rest =>
      have lengths : names.length = xs.length := by
        rw [rest.length_eq, List.length_map, List.length_range]
      have keys : Assoc.keys (names.zip xs) = names := List.map_fst_zip (Nat.le_of_eq lengths)
      have counted : (names.zip xs).length = args.length := by
        rw [List.length_zip, lengths, Nat.min_self, rest.length_eq]
      have distinct : Assoc.Distinct (names.zip xs) ↔ declared.Nodup := by
        unfold Assoc.Distinct
        rw [keys, named]
        refine Descriptor.nodup_bindingNames_iff ?_
        omega
      refine ⟨baseShape, Assoc.ofPairs (names.zip xs), xs, between, made, first, rest,
        ?_, ?_, ?_, ?_⟩
      · rw [Assoc.keys_ofPairs, keys]
      · intro i n y name shape last
        refine Assoc.find?_ofPairs_of_getElem? (List.getElem?_zip_eq_some.2 ⟨name, shape⟩) ?_
        rwa [Assoc.keys, List.map_drop, ← Assoc.keys, keys]
      · exact fun nodup => Assoc.ofPairs_of_distinct (distinct.2 nodup)
      · rw [← distinct, ← counted]
        exact Assoc.length_ofPairs_eq_iff

/-- A class with two parameters, by its name: two arguments are bound to them, and one is
refused. -/
theorem arguments_bind_by_position_of_two :
    let pair : Descriptor := .classDecl "Pair" [] ["K", "V"]
    let definitions := [("Pair", pair)]
    let shape := fun args =>
      (standard definitions).shape (.parameterized (.ref "Pair") args) .empty .start
    shape [.any] = (.error (.typeParams "ref Pair" 2 1), .start) ∧
      ∃ baseShape bindings xs,
        (shape [.builtin "int", .builtin "str"]).1 =
          .ok (.fixedGeneric baseShape bindings .empty) ∧
        bindings = ["K", "V"].zip xs ∧ bindings.length = 2 := by
  intro pair definitions shape
  have refused := (arguments_bind_by_position definitions .empty (.ref "Pair") [.any] .start).1
  have bound := (arguments_bind_by_position definitions .empty (.ref "Pair")
    [.builtin "int", .builtin "str"] .start).2
  have succeeds : (shape [.builtin "int", .builtin "str"]).1.isOk = true := by
    simp only [shape, definitions, pair]
    cbv
  have distinct : ((Descriptor.ref "Pair").declared definitions).Nodup :=
    show ["K", "V"].Nodup by decide
  refine ⟨refused (List.cons_ne_nil _ _) (by decide), ?_⟩
  rcases taken : shape [.builtin "int", .builtin "str"] with ⟨fault | x, s'⟩
  · rw [taken] at succeeds
    cases succeeds
  · obtain ⟨baseShape, bindings, xs, between, rfl, -, -, -, -, whole, counted⟩ := bound x s' taken
    exact ⟨baseShape, bindings, xs, rfl, whole distinct, counted.2 distinct⟩

/-- A class that declares one name twice takes two arguments and binds one. -/
theorem arguments_are_lost :
    let pair : Descriptor := .classDecl "Pair" [] ["T", "T"]
    let args : List Descriptor := [.builtin "int", .builtin "str"]
    let bindings : List (String × Shape) := [("T", .builtin "str")]
    ((standard []).shape (.parameterized pair args) .empty .start).1 =
        .ok (.fixedGeneric (.classType "Pair" [] .empty) bindings .empty) ∧
      (pair.declared []).length = args.length ∧ bindings.length ≠ args.length := by
  intro pair args bindings
  refine ⟨?_, rfl, by decide⟩
  simp only [pair, args, bindings]
  cbv

end Pipeline

end TypeCatalog
