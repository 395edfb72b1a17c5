import TypeCatalog.Proofs.Run

/-!
Descriptors taken one after another.

The parts of a type are taken from left to right, each in the session that those before it have
left.  `Passes` tells such a pass step by step, and `Breaks` one that comes to a descriptor without
a shape and goes no further.  A list of descriptors does the one or the other (`passes_iff`,
`breaks_of_shapesOf`), and what becomes of a type that is made of parts is told by the pass over
them: `passes_of_composed` where it is not collected, `passes_of_vacant` and `breaks_of_vacant`
where it is and its name has not been claimed.
-/

namespace TypeCatalog.Pipeline

/-- Descriptors have shapes one after another, each in the session that those before it leave. -/
inductive Passes (p : Pipeline) (options : OptionSet) :
    List Descriptor → Session → List Shape → Session → Prop
  | nil {s : Session} : Passes p options [] s [] s
  | cons {d : Descriptor} {rest : List Descriptor} {s s' s'' : Session} {x : Shape}
    {xs : List Shape} :
    p.shape d options s = (.ok x, s') →
    Passes p options rest s' xs s'' →
    Passes p options (d :: rest) s (x :: xs) s''

/-- All goes well up to one of some descriptors, which fails. -/
def Breaks (p : Pipeline) (options : OptionSet) (ds : List Descriptor) (s : Session)
    (fault : ExtractError) (s' : Session) : Prop :=
  ∃ earlier d later xs between, ds = earlier ++ d :: later ∧
    p.Passes options earlier s xs between ∧ p.shape d options between = (.error fault, s')

variable {p : Pipeline} {options : OptionSet} {ds es : List Descriptor} {s s' : Session}
  {xs : List Shape} {fault : ExtractError}

/-! ## Parts of a pass -/

theorem Passes.length_eq (pass : p.Passes options ds s xs s') : xs.length = ds.length := by
  induction pass with
  | nil => rfl
  | cons _ _ ih => exact congrArg Nat.succ ih

/-- A pass over one list and then another is a pass over each. -/
theorem Passes.of_append (pass : p.Passes options (ds ++ es) s xs s') :
    ∃ ys zs between, xs = ys ++ zs ∧ p.Passes options ds s ys between ∧
      p.Passes options es between zs s' := by
  induction ds generalizing s xs with
  | nil => exact ⟨[], xs, s, rfl, .nil, pass⟩
  | cons d rest ih =>
    cases pass with
    | cons first later =>
      obtain ⟨ys, zs, between, rfl, passed, passes⟩ := ih later
      exact ⟨_ :: ys, zs, between, rfl, .cons first passed, passes⟩

theorem Passes.of_singleton {d : Descriptor} (pass : p.Passes options [d] s xs s') :
    ∃ x, xs = [x] ∧ p.shape d options s = (.ok x, s') := by
  cases pass with
  | cons first later =>
    cases later
    exact ⟨_, rfl, first⟩

/-- Of whatever is passed, what stood before it was passed before. -/
theorem Passes.of_split {earlier later : List Descriptor} {d : Descriptor}
    (pass : p.Passes options (earlier ++ d :: later) s xs s') :
    ∃ ys x zs between next, xs = ys ++ x :: zs ∧ p.Passes options earlier s ys between ∧
      p.shape d options between = (.ok x, next) := by
  obtain ⟨ys, zs, between, rfl, passed, rest⟩ := pass.of_append
  cases rest with
  | cons first _ => exact ⟨ys, _, _, between, _, rfl, passed, first⟩

/-! ## Passes and lists of shapes -/

variable {stock : List Stock} {definitions : List (String × Descriptor)}

theorem passes_iff : (ofStock stock definitions).Passes options ds s xs s' ↔
    (unbounded stock definitions).shapesOf options ds s = (.ok xs, s') := by
  constructor
  · intro pass
    induction pass with
    | nil => rfl
    | cons first _ ih => exact shapesOf_cons_of_ok first ih
  · intro taken
    induction ds generalizing s xs with
    | nil =>
      cases taken
      exact .nil
    | cons d rest ih =>
      rcases first : (ofStock stock definitions).shape d options s with ⟨fault | x, between⟩
      · rw [shapesOf_cons_of_error first] at taken
        cases taken
      · rcases later : (unbounded stock definitions).shapesOf options rest between with
          ⟨fault | others, after⟩
        · rw [shapesOf_cons_of_ok first later] at taken
          cases taken
        · rw [shapesOf_cons_of_ok first later] at taken
          cases taken
          exact .cons first (ih later)

/-- A list of descriptors without shapes breaks off at one of them. -/
theorem breaks_of_shapesOf
    (failed : (unbounded stock definitions).shapesOf options ds s = (.error fault, s')) :
    (ofStock stock definitions).Breaks options ds s fault s' := by
  induction ds generalizing s with
  | nil => cases failed
  | cons d rest ih =>
    rcases first : (ofStock stock definitions).shape d options s with ⟨fault' | x, between⟩
    · rw [shapesOf_cons_of_error first] at failed
      cases failed
      exact ⟨[], d, rest, [], s, rfl, .nil, first⟩
    · rcases others : (unbounded stock definitions).shapesOf options rest between with
        ⟨fault' | xs, after⟩
      · rw [shapesOf_cons_of_ok first others] at failed
        cases failed
        obtain ⟨earlier, d', later, xs, middle, rfl, passed, broken⟩ := ih others
        exact ⟨d :: earlier, d', later, x :: xs, middle, rfl, .cons first passed, broken⟩
      · rw [shapesOf_cons_of_ok first others] at failed
        cases failed

/-! ## Types made of parts -/

section Parts

variable {d : Descriptor} {x : Shape} (covered : Stock.covers stock d = true)

include covered

theorem passes_of_composed (reading : d.reading definitions = .composed)
    (taken : (ofStock stock definitions).shape d options s = (.ok x, s')) :
    ∃ xs, (ofStock stock definitions).Passes options (d.parts definitions) s xs s' ∧
      x = d.assembled definitions options xs := by
  rcases parts : (unbounded stock definitions).shapesOf options (d.parts definitions) s with
    ⟨fault | xs, after⟩
  · rw [shape_of_composed covered reading parts] at taken
    cases taken
  · rw [shape_of_composed covered reading parts] at taken
    cases taken
    exact ⟨xs, passes_iff.2 parts, rfl⟩

variable {kind : CollectedKind} {name : String} {source : Descriptor}
  (reading : d.reading definitions = .collected kind name source)
  (free : s.registry.find? kind name = none)

include reading free

/-- The name is claimed before the first part is taken, and the claim is finished after the last. -/
theorem passes_of_vacant
    (taken : (ofStock stock definitions).shape d options s = (.ok x, s')) :
    ∃ xs after, (ofStock stock definitions).Passes options (d.parts definitions)
        ⟨s.registry.push kind name source free, s.journal⟩ xs after ∧
      x = d.assembled definitions options xs ∧
      s' = ⟨after.registry.fill kind name x, after.journal⟩ := by
  rcases parts : (unbounded stock definitions).shapesOf options (d.parts definitions)
    ⟨s.registry.push kind name source free, s.journal⟩ with ⟨fault | xs, after⟩
  · rw [shape_of_undone covered reading free parts] at taken
    cases taken
  · rw [shape_of_built covered reading free parts] at taken
    cases taken
    exact ⟨xs, after, passes_iff.2 parts, rfl, rfl⟩

/-- A part without a shape is the only reason for a fault, and nothing is left of the claim then. -/
theorem breaks_of_vacant
    (failed : (ofStock stock definitions).shape d options s = (.error fault, s')) :
    s'.registry = s.registry ∧ ∃ after,
      (ofStock stock definitions).Breaks options (d.parts definitions)
        ⟨s.registry.push kind name source free, s.journal⟩ fault after := by
  rcases parts : (unbounded stock definitions).shapesOf options (d.parts definitions)
    ⟨s.registry.push kind name source free, s.journal⟩ with ⟨fault' | xs, after⟩
  · rw [shape_of_undone covered reading free parts] at failed
    cases failed
    exact ⟨rfl, after, breaks_of_shapesOf parts⟩
  · rw [shape_of_built covered reading free parts] at failed
    cases failed

end Parts

end TypeCatalog.Pipeline
