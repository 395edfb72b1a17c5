import TypeCatalog.Proofs.Passes
import TypeCatalog.Proofs.Sources
import TypeCatalog.Proofs.Tables

/-!
The parameters of a function.

A function comes with annotations in no order, and with the names of its parameters in theirs.  The
names say which annotations are taken, when and how often: `parameters_follow_names` tells the pass
over them, in the session in which the function's own name has been claimed, and what the function
takes from it.  Other annotations are a matter of comparison only.  They belong to the source of the
claim, and functions that differ in them come out alike unless the name is met again
(`Pipeline.shape_withSource`).
-/

namespace TypeCatalog

open Recognizer (annotated returnName)

namespace Descriptor

variable {definitions annotations annotations' : List (String × Descriptor)} {name : String}
  {names : List String}

theorem annotated_of_absent (absent : Assoc.find? name annotations = Option.none) :
    annotated annotations name = .empty := by
  rw [annotated, absent, Option.getD_none]

/-- The annotations that a function is made of. -/
theorem parts_function : (function name annotations names).parts definitions =
    (parameterNames names ++ [returnName]).map (annotated annotations) := by
  rw [List.map_append, List.map_singleton]
  rfl

end Descriptor

namespace Pipeline

variable {p : Pipeline} {options : OptionSet} {annotations : List (String × Descriptor)}
  {names : List String} {s s' : Session} {xs : List Shape}

/-- Each name has the shape of its annotation where it is listed for the last time. -/
theorem Passes.find?_last (pass : p.Passes options (names.map (annotated annotations)) s xs s')
    {earlier later : List String} {n : String} (split : names = earlier ++ n :: later)
    (last : n ∉ later) :
    ∃ ys y between next, p.Passes options (earlier.map (annotated annotations)) s ys between ∧
      p.shape (annotated annotations n) options between = (.ok y, next) ∧
      Assoc.find? n (Assoc.ofPairs (names.zip xs)) = some y := by
  subst split
  rw [List.map_append, List.map_cons] at pass
  obtain ⟨ys, y, zs, between, next, rfl, passed, here⟩ := pass.of_split
  have lengths : earlier.length = ys.length := by
    rw [passed.length_eq, List.length_map]
  refine ⟨ys, y, between, next, passed, here, ?_⟩
  rw [List.zip_append lengths, List.zip_cons_cons]
  refine Assoc.find?_ofPairs_of_last fun mem => last ?_
  obtain ⟨entry, hentry, rfl⟩ := List.mem_map.1 mem
  exact (List.of_mem_zip hentry).1

/-- **Parameters follow their names.**  Let a function be asked for in a session in which its name
is free.  If it has a shape, its parameters are the names that are listed and not reserved, each
where it is listed first; they have been taken in the order of the list, each in the session that
those before it left and the first in that in which the name is claimed, and a name that is listed
more than once has the shape that it had the last time; and what the function returns has been taken
after them.  If it has none, one of these annotations has none, and nothing is left of the claim.
An annotation that is absent is unknown.  And the annotations of other names are nothing to this:
with others in their place the outcome is the same, and so is what is left but for the source of
the claim, provided that both functions compare alike with what is met under their name on the
way. -/
theorem parameters_follow_names (definitions : List (String × Descriptor)) (options : OptionSet)
    (name : String) (annotations : List (String × Descriptor)) (names : List String) (s : Session)
    (free : s.registry.find? .function name = none) :
    let p := standard definitions
    let d : Descriptor := .function name annotations names
    let claimed : Session := ⟨s.registry.push .function name d free, s.journal⟩
    let listed := Descriptor.parameterNames names
    (∀ x s', p.shape d options s = (.ok x, s') →
      ∃ params returns xs between after,
        x = .function name params returns options ∧
        p.Passes options (listed.map (annotated annotations)) claimed xs between ∧
        p.shape (annotated annotations returnName) options between = (.ok returns, after) ∧
        s' = ⟨after.registry.fill .function name x, after.journal⟩ ∧
        Assoc.keys params = listed.eraseDups ∧
        ∀ earlier n later, listed = earlier ++ n :: later → n ∉ later →
          ∃ ys y atName next,
            p.Passes options (earlier.map (annotated annotations)) claimed ys atName ∧
            p.shape (annotated annotations n) options atName = (.ok y, next) ∧
            Assoc.find? n params = some y) ∧
      (∀ fault s', p.shape d options s = (.error fault, s') →
        s'.registry = s.registry ∧ ∃ after,
          p.Breaks options ((listed ++ [returnName]).map (annotated annotations)) claimed fault
            after) ∧
      (∀ n s', Assoc.find? n annotations = none →
        p.shape (annotated annotations n) options s' = (.ok .unknown, s')) ∧
      ∀ annotations',
        (∀ n ∈ listed ++ [returnName], annotated annotations' n = annotated annotations n) →
        let d' : Descriptor := .function name annotations' names
        (∀ met stack r, Moment.Reaches Stock.all definitions options
            ⟨.gathering d [] (d.parts definitions), [], claimed.registry⟩ ⟨.asking met, stack, r⟩ →
          Moment.Indifferent definitions .function name d d' met) →
        (p.shape d' options s).1 = (p.shape d options s).1 ∧
          (p.shape d' options s).2.registry =
            (p.shape d options s).2.registry.withSource .function name d' := by
  intro p d claimed listed
  refine ⟨fun x s' taken => ?_, fun fault s' failed => ?_, fun n s' absent => ?_, ?_⟩
  · obtain ⟨xs, after, pass, made, left⟩ := passes_of_vacant (Stock.covers_all d) rfl free taken
    rw [Descriptor.parts_function, List.map_append] at pass
    obtain ⟨xs, ys, between, rfl, params, rest⟩ := pass.of_append
    obtain ⟨returns, rfl, last⟩ := rest.of_singleton
    have lengths : listed.length = xs.length := by
      rw [params.length_eq, List.length_map]
    have split : (xs ++ [returns]).dropLast = xs ∧
        (xs ++ [returns]).getLastD .unknown = returns := by
      simp
    have whole : x = .function name (Assoc.ofPairs (listed.zip xs)) returns options := by
      rw [made, Descriptor.assembled, split.1, split.2]
    refine ⟨_, returns, xs, between, after, whole, params, last, left, ?_, ?_⟩
    · rw [Assoc.keys_ofPairs, Assoc.keys, List.map_fst_zip (Nat.le_of_eq lengths)]
    · exact fun earlier n later => params.find?_last
  · obtain ⟨restored, after, broken⟩ := breaks_of_vacant (Stock.covers_all d) rfl free failed
    rw [Descriptor.parts_function] at broken
    exact ⟨restored, after, broken⟩
  · rw [Descriptor.annotated_of_absent absent]
    exact shape_of_composed (Stock.covers_all .empty) rfl rfl
  · intro annotations' agree d' alike
    have parts : d'.parts definitions = d.parts definitions := by
      rw [Descriptor.parts_function, Descriptor.parts_function]
      exact List.map_congr_left agree
    exact shape_withSource (Stock.covers_all d) (Stock.covers_all d') rfl rfl parts rfl free alike

/-- A name is listed twice and has no annotation; the annotations of a reserved name and of one that
is not listed are malformed, and the function comes out as it does without them. -/
theorem parameters_follow_names_of_malformed_others :
    let used : List (String × Descriptor) := [("x", .builtin "int"), ("return", .builtin "str")]
    let others : List (String × Descriptor) := [("self", .union []), ("z", .literal [])]
    let names := ["self", "y", "x", "y"]
    let f : Descriptor := .function "f" (others ++ used) names
    let f' : Descriptor := .function "f" used names
    let shape := fun d => (standard []).shape d .empty .start
    let x : Shape := .function "f" [("y", .unknown), ("x", .builtin "int")] (.builtin "str") .empty
    Session.start.registry.find? .function "f" = none ∧
      (shape f).1 = .ok x ∧
      Assoc.keys [("y", Shape.unknown), ("x", .builtin "int")] =
        (Descriptor.parameterNames names).eraseDups ∧
      (shape f').1 = .ok x ∧
      (shape f').2.registry = (shape f).2.registry.withSource .function "f" f' := by
  intro used others names f f' shape x
  have free : Session.start.registry.find? .function "f" = none := rfl
  have taken : (shape f).1 = .ok x := by
    simp only [shape, f, x, used, others, names, List.cons_append, List.nil_append]
    cbv
  obtain ⟨success, -, -, inert⟩ :=
    parameters_follow_names [] .empty "f" (others ++ used) names .start free
  obtain ⟨params, returns, -, -, -, made, -, -, -, keys, -⟩ := success x _ (Prod.ext taken rfl)
  obtain ⟨-, rfl, -⟩ := Shape.function.inj made
  have agree : ∀ n ∈ Descriptor.parameterNames names ++ [returnName],
      annotated used n = annotated (others ++ used) n := by
    intro n hn
    have listed : n ∈ ["y", "x", "y", "return"] := hn
    simp only [List.mem_cons, List.not_mem_nil, or_false] at listed
    rcases listed with rfl | rfl | rfl | rfl <;> rfl
  have leaves : ∀ d ∈ f.parts [], d.parts [] = [] ∧ d.reading [] = .composed := by
    intro d hd
    have part : d ∈ [.empty, .builtin "int", .empty, .builtin "str"] := hd
    simp only [List.mem_cons, List.not_mem_nil, or_false] at part
    rcases part with rfl | rfl | rfl | rfl <;> exact ⟨rfl, rfl⟩
  have asked : ∀ r₀ met stack r, Moment.Reaches Stock.all [] .empty
      ⟨.gathering f [] (f.parts []), [], r₀⟩ ⟨.asking met, stack, r⟩ → met ∈ f.parts [] := by
    intro r₀ met stack r run
    have closed : ∀ d ∈ f.parts [], ∀ part ∈ d.parts [], part ∈ f.parts [] := by
      intro d hd part hpart
      rw [(leaves d hd).1] at hpart
      cases hpart
    refine Moment.pending_of_reaches closed ?_ run met List.mem_cons_self
    simp [Moment.pending, Control.pending]
  obtain ⟨outcome, left⟩ := inert used agree fun met stack r run source reading => by
    rw [(leaves met (asked _ met stack r run)).2] at reading
    cases reading
  exact ⟨free, taken, keys, outcome.trans taken, left⟩

end Pipeline

end TypeCatalog
