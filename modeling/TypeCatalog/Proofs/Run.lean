import TypeCatalog.Extraction
import TypeCatalog.Proofs.Depth

/-!
Laws of a whole run.

What an extraction does with a descriptor is one of eight steps, one for what the recognizers do
not cover and seven for what they do, and with a list of descriptors one of three.  A `Law` is a
property of outcomes that each of these steps keeps; it then holds of every shape that a stock
pipeline builds, whatever the registry holds and however the definitions lead to each other
(`Law.shape`, `Law.shapes`).  The induction is over the bound on the depth, which is never reached,
so that a law says nothing about bounds.

The laws most used say that registries keep a property and that the shapes built in them have one;
an `Invariant` gathers what is needed for such a law.

The shapes of parameters and of the roots of a document are shapes of lists of descriptors
(`params_eq`, `rootShapes_eq`), and an extraction yields those of its roots with what they leave in
the registry (`Document.extract_eq`).
-/

namespace TypeCatalog

namespace Pipeline

variable {stock : List Stock} {definitions : List (String × Descriptor)} {options : OptionSet}

/-- A property `One` of what becomes of a descriptor in a registry, and a property `All` of what
becomes of a list of them, that every step of an extraction keeps. -/
structure Law (stock : List Stock) (definitions : List (String × Descriptor))
    (options : OptionSet)
    (One : Descriptor → Registry → Except ExtractError Shape → Registry → Prop)
    (All : List Descriptor → Registry → Except ExtractError (List Shape) → Registry → Prop) :
    Prop where
  unclaimed {d r} : Stock.covers stock d = false → One d r (.ok .unknown) r
  malformed {d r fault} : Stock.covers stock d = true →
    d.reading definitions = .malformed fault → One d r (.error fault) r
  unresolved {d r name} : Stock.covers stock d = true →
    d.reading definitions = .unresolved name →
    One d r (.ok ((r.search CollectedKind.searchOrder name).getD .unknown)) r
  composed {d r outcome r'} : Stock.covers stock d = true →
    d.reading definitions = .composed → All (d.parts definitions) r outcome r' →
    One d r (outcome.map (d.assembled definitions options)) r'
  conflict {d r kind name source e} : Stock.covers stock d = true →
    d.reading definitions = .collected kind name source →
    r.find? kind name = some e → e.source.same source = false →
    One d r (.error (.conflict kind name)) r
  known {d r kind name source e} : Stock.covers stock d = true →
    d.reading definitions = .collected kind name source →
    r.find? kind name = some e → e.source.same source = true → One d r (.ok e.known) r
  /-- A name is claimed and what was built for it is kept. -/
  built {d r kind name source shapes r'} : Stock.covers stock d = true →
    d.reading definitions = .collected kind name source → ∀ free : r.find? kind name = none,
    (r.push kind name source free).Grows r' →
    All (d.parts definitions) (r.push kind name source free) (.ok shapes) r' →
    One d r (.ok (d.assembled definitions options shapes))
      (r'.fill kind name (d.assembled definitions options shapes))
  /-- A name is claimed and the claim is taken back. -/
  undone {d r kind name source fault r'} : Stock.covers stock d = true →
    d.reading definitions = .collected kind name source → ∀ free : r.find? kind name = none,
    All (d.parts definitions) (r.push kind name source free) (.error fault) r' →
    One d r (.error fault) r
  nil {r} : All [] r (.ok []) r
  cons {d rest r shape r' outcome r''} : One d r (.ok shape) r' → r'.Grows r'' →
    All rest r' outcome r'' → All (d :: rest) r (outcome.map (shape :: ·)) r''
  stop {d rest r fault r'} : One d r (.error fault) r' → All (d :: rest) r (.error fault) r'

namespace Law

variable {One : Descriptor → Registry → Except ExtractError Shape → Registry → Prop}
  {All : List Descriptor → Registry → Except ExtractError (List Shape) → Registry → Prop}

/-- What holds of every shape holds of lists of shapes. -/
theorem shapesOf (law : Law stock definitions options One All) {w : Surroundings}
    (disciplined : ∀ d, (w.shapeOf d options).Disciplined)
    (one : ∀ d s, (w.shapeOf d options s).1 ≠ .error .endless →
      One d s.registry (w.shapeOf d options s).1 (w.shapeOf d options s).2.registry)
    (ds : List Descriptor) (s : Session)
    (ends : (w.shapesOf options ds s).1 ≠ .error .endless) :
    All ds s.registry (w.shapesOf options ds s).1 (w.shapesOf options ds s).2.registry := by
  induction ds generalizing s with
  | nil => exact law.nil
  | cons d rest ih =>
    rw [Surroundings.shapesOf_cons] at ends ⊢
    have first := one d s
    rcases outcome : w.shapeOf d options s with ⟨fault | shape, s'⟩
    · rw [outcome] at first
      rw [Build.bind_error outcome] at ends ⊢
      exact law.stop (first fun eq => ends (by cases eq; rfl))
    · rw [outcome] at first
      have grown := (Surroundings.disciplined_shapesOf disciplined rest).growing s'
      have later := ih s'
      rw [Build.bind_ok outcome] at ends ⊢
      rcases outcome' : w.shapesOf options rest s' with ⟨fault | shapes, s''⟩
      · rw [outcome'] at grown later
        rw [Build.bind_error outcome'] at ends ⊢
        exact law.cons (first (by simp)) grown (later fun eq => ends (by cases eq; rfl))
      · rw [outcome'] at grown later
        rw [Build.bind_ok outcome']
        exact law.cons (first (by simp)) grown (later (by simp))

/-- A descriptor that is covered is read by the law if lists of its parts are. -/
theorem read (law : Law stock definitions options One All) {w : Surroundings}
    (same : w.definitions = definitions) (disciplined : ∀ d, (w.shapeOf d options).Disciplined)
    (all : ∀ ds s, (w.shapesOf options ds s).1 ≠ .error .endless →
      All ds s.registry (w.shapesOf options ds s).1 (w.shapesOf options ds s).2.registry)
    {d : Descriptor} (covered : Stock.covers stock d = true) (s : Session)
    (ends : (w.read options d s).1 ≠ .error .endless) :
    One d s.registry (w.read options d s).1 (w.read options d s).2.registry := by
  subst same
  cases reading : d.reading w.definitions with
  | malformed fault =>
    rw [Surroundings.read_malformed options reading]
    exact law.malformed covered reading
  | unresolved name =>
    rw [Surroundings.read_unresolved options reading]
    exact law.unresolved covered reading
  | composed =>
    rw [Surroundings.read_composed options reading] at ends ⊢
    have parts := all (d.parts w.definitions) s
    unfold Surroundings.compose at ends ⊢
    rcases outcome : w.shapesOf options (d.parts w.definitions) s with ⟨fault | shapes, s'⟩
    · rw [outcome] at parts
      rw [Build.bind_error outcome] at ends ⊢
      exact law.composed covered reading (parts fun eq => ends (by cases eq; rfl))
    · rw [outcome] at parts
      rw [Build.bind_ok outcome]
      exact law.composed covered reading (parts (by simp))
  | collected kind name source =>
    rw [Surroundings.read_collected options reading] at ends ⊢
    have composing := (Surroundings.disciplined_compose disciplined d).growing
    cases found : s.registry.find? kind name with
    | some e =>
      cases same : e.source.same source with
      | false =>
        rw [Build.collect_of_conflict found same]
        exact law.conflict covered reading found same
      | true =>
        rw [Build.collect_of_known found same]
        exact law.known covered reading found same
    | none =>
      have parts := all (d.parts w.definitions) ⟨s.registry.push kind name source found, s.journal⟩
      have grown := (Surroundings.disciplined_shapesOf disciplined (d.parts w.definitions)).growing
        ⟨s.registry.push kind name source found, s.journal⟩
      rcases outcome : w.shapesOf options (d.parts w.definitions)
        ⟨s.registry.push kind name source found, s.journal⟩ with ⟨fault | shapes, s'⟩
      · rw [outcome] at parts
        rw [Build.collect_of_error composing found (Build.bind_error outcome)] at ends ⊢
        exact law.undone covered reading found (parts fun eq => ends (by cases eq; rfl))
      · rw [outcome] at parts grown
        rw [Build.collect_of_ok composing found (Build.bind_ok outcome)]
        exact law.built covered reading found grown (parts (by simp))

/-- A law holds of every shape that is taken without reaching the bound. -/
theorem shapeWithin (law : Law stock definitions options One All) (bound : Nat) (d : Descriptor)
    (s : Session)
    (ends : ((ofStock stock definitions).shapeWithin bound d options s).1 ≠ .error .endless) :
    One d s.registry ((ofStock stock definitions).shapeWithin bound d options s).1
      ((ofStock stock definitions).shapeWithin bound d options s).2.registry := by
  induction bound generalizing d s with
  | zero => exact absurd rfl ends
  | succ bound ih =>
    have disciplined := disciplined_shapeWithin stock definitions options bound
    rw [shapeWithin_succ] at ends ⊢
    cases covered : Stock.covers stock d with
    | false => exact law.unclaimed covered
    | true =>
      rw [covered, if_pos rfl] at ends
      exact law.read rfl disciplined (law.shapesOf disciplined ih) covered s ends

/-- A law holds of every shape. -/
theorem shape (law : Law stock definitions options One All) (d : Descriptor) (s : Session) :
    One d s.registry ((ofStock stock definitions).shape d options s).1
      ((ofStock stock definitions).shape d options s).2.registry :=
  law.shapeWithin _ d s (shape_ne_endless stock definitions options d s)

end Law

/-! ## Shapes without a bound -/

/-- A descriptor that is covered has the shape that is read off it. -/
theorem shape_of_covered {d : Descriptor} (covered : Stock.covers stock d = true) (s : Session) :
    (ofStock stock definitions).shape d options s =
      (unbounded stock definitions).read options d s := by
  rw [shape_eq_firstClaim, Stock.firstClaim_stock, covered, if_pos rfl]

/-- A descriptor that is not covered is left unknown. -/
theorem shape_of_uncovered {d : Descriptor} (uncovered : Stock.covers stock d = false)
    (s : Session) : (ofStock stock definitions).shape d options s = (.ok .unknown, s) := by
  rw [shape_eq_firstClaim, Stock.firstClaim_stock, uncovered]
  rfl

variable (stock definitions options) in
/-- Stock recognizers do nothing undisciplined. -/
theorem disciplined_shape (d : Descriptor) :
    ((ofStock stock definitions).shape d options).Disciplined :=
  (disciplined_ofStock stock definitions).shape d options

section Covered

variable {d source : Descriptor} {kind : CollectedKind} {name : String} {s : Session}
  (covered : Stock.covers stock d = true)

include covered

/-- A malformed descriptor is an error, and nothing is collected. -/
theorem shape_of_malformed {fault : ExtractError}
    (reading : d.reading definitions = .malformed fault) :
    (ofStock stock definitions).shape d options s = (.error fault, s) := by
  rw [shape_of_covered covered, Surroundings.read_malformed options reading, Build.fail_apply]

/-- A name without a definition is what is collected under it, if anything. -/
theorem shape_of_unresolved (reading : d.reading definitions = .unresolved name) :
    (ofStock stock definitions).shape d options s =
      (.ok ((s.registry.search CollectedKind.searchOrder name).getD .unknown), s) := by
  rw [shape_of_covered covered, Surroundings.read_unresolved options reading]
  rfl

/-- A type that is not collected is put together from the shapes of its parts. -/
theorem shape_of_composed (reading : d.reading definitions = .composed)
    {outcome : Except ExtractError (List Shape)} {s' : Session}
    (parts : (unbounded stock definitions).shapesOf options (d.parts definitions) s =
      (outcome, s')) :
    (ofStock stock definitions).shape d options s =
      (outcome.map (d.assembled definitions options), s') := by
  rw [shape_of_covered covered, Surroundings.read_composed options reading]
  cases outcome with
  | error fault => exact Build.bind_error parts
  | ok shapes => exact Build.bind_ok parts

variable (reading : d.reading definitions = .collected kind name source)

include reading

/-- A name that is claimed for another descriptor is a conflict. -/
theorem shape_of_conflict {e : Registry.Entry} (found : s.registry.find? kind name = some e)
    (other : e.source.same source = false) :
    (ofStock stock definitions).shape d options s = (.error (.conflict kind name), s) := by
  rw [shape_of_covered covered, Surroundings.read_collected options reading,
    Build.collect_of_conflict found other]

/-- A name that is claimed for the same descriptor is known. -/
theorem shape_of_known {e : Registry.Entry} (found : s.registry.find? kind name = some e)
    (same : e.source.same source = true) :
    (ofStock stock definitions).shape d options s = (.ok e.known, s) := by
  rw [shape_of_covered covered, Surroundings.read_collected options reading,
    Build.collect_of_known found same]

variable (free : s.registry.find? kind name = none) {s' : Session}

/-- A free name is claimed, built and finished. -/
theorem shape_of_built {shapes : List Shape}
    (parts : (unbounded stock definitions).shapesOf options (d.parts definitions)
      ⟨s.registry.push kind name source free, s.journal⟩ = (.ok shapes, s')) :
    (ofStock stock definitions).shape d options s =
      (.ok (d.assembled definitions options shapes),
        ⟨s'.registry.fill kind name (d.assembled definitions options shapes), s'.journal⟩) := by
  have composing := (Surroundings.disciplined_compose (w := unbounded stock definitions)
    (disciplined_shape stock definitions options) d).growing
  rw [shape_of_covered covered, Surroundings.read_collected options reading]
  exact Build.collect_of_ok composing free (Build.bind_ok parts)

/-- A free name whose parts fail is free again. -/
theorem shape_of_undone {fault : ExtractError}
    (parts : (unbounded stock definitions).shapesOf options (d.parts definitions)
      ⟨s.registry.push kind name source free, s.journal⟩ = (.error fault, s')) :
    (ofStock stock definitions).shape d options s =
      (.error fault, ⟨s.registry, s'.journal⟩) := by
  have composing := (Surroundings.disciplined_compose (w := unbounded stock definitions)
    (disciplined_shape stock definitions options) d).growing
  rw [shape_of_covered covered, Surroundings.read_collected options reading]
  exact Build.collect_of_error composing free (Build.bind_error parts)

end Covered

/-! ## Lists of shapes -/

variable (stock definitions options)

theorem growing_shapes (ds : List Descriptor) :
    ((unbounded stock definitions).shapesOf options ds).Growing :=
  (Surroundings.disciplined_shapesOf (disciplined_shape stock definitions options) ds).growing

/-- Shapes of lists are taken without reaching the bound, as those of their elements are. -/
theorem shapesOf_ne_endless (ds : List Descriptor) (s : Session) :
    ((unbounded stock definitions).shapesOf options ds s).1 ≠ .error .endless := by
  intro eq
  refine (Surroundings.endsAs_shapesOf (g := unbounded stock definitions)
    (disciplined_shape stock definitions options) ?_).2 _ eq rfl
  intro d _ s' _
  exact ⟨rfl, fun e failed is => shape_ne_endless stock definitions options d s' (is ▸ failed)⟩

variable {stock definitions options}

/-- A first shape that is taken is put before the others. -/
theorem shapesOf_cons_of_ok {d : Descriptor} {rest : List Descriptor} {s s' s'' : Session}
    {x : Shape} {outcome : Except ExtractError (List Shape)}
    (first : (ofStock stock definitions).shape d options s = (.ok x, s'))
    (later : (unbounded stock definitions).shapesOf options rest s' = (outcome, s'')) :
    (unbounded stock definitions).shapesOf options (d :: rest) s =
      (outcome.map (x :: ·), s'') := by
  have first : (unbounded stock definitions).shapeOf d options s = (.ok x, s') := first
  rw [Surroundings.shapesOf_cons, Build.bind_ok first]
  cases outcome with
  | error fault => exact Build.bind_error later
  | ok shapes => exact Build.bind_ok later

/-- A first shape that fails is the end. -/
theorem shapesOf_cons_of_error {d : Descriptor} {rest : List Descriptor} {s s' : Session}
    {fault : ExtractError}
    (first : (ofStock stock definitions).shape d options s = (.error fault, s')) :
    (unbounded stock definitions).shapesOf options (d :: rest) s = (.error fault, s') := by
  have first : (unbounded stock definitions).shapeOf d options s = (.error fault, s') := first
  rw [Surroundings.shapesOf_cons, Build.bind_error first]

/-- A law holds of every list of shapes. -/
theorem Law.shapes {One : Descriptor → Registry → Except ExtractError Shape → Registry → Prop}
    {All : List Descriptor → Registry → Except ExtractError (List Shape) → Registry → Prop}
    (law : Law stock definitions options One All) (ds : List Descriptor) (s : Session) :
    All ds s.registry ((unbounded stock definitions).shapesOf options ds s).1
      ((unbounded stock definitions).shapesOf options ds s).2.registry :=
  law.shapesOf (disciplined_shape stock definitions options) (fun d s _ => law.shape d s) ds s
    (shapesOf_ne_endless stock definitions options ds s)

/-! ## Invariants -/

/-- A property `Inv` of registries that claiming and finishing keep, and a property `Good` of shapes
that whatever is built in such a registry has. -/
structure Invariant (definitions : List (String × Descriptor)) (options : OptionSet)
    (Inv : Registry → Prop) (Good : Registry → Shape → Prop) : Prop where
  unknown {r : Registry} : Good r .unknown
  known {r : Registry} {e : Registry.Entry} : Inv r → e ∈ r.entries → Good r e.known
  mono {r r' : Registry} {x : Shape} : r.Grows r' → Good r x → Good r' x
  composed {d : Descriptor} {r : Registry} {shapes : List Shape} :
    d.reading definitions = .composed → (∀ x ∈ shapes, Good r x) →
    Good r (d.assembled definitions options shapes)
  push {r : Registry} {kind : CollectedKind} {name : String} (source : Descriptor) :
    ∀ free : r.find? kind name = none, Inv r → Inv (r.push kind name source free)
  built {d source : Descriptor} {r r' : Registry} {kind : CollectedKind} {name : String}
    {shapes : List Shape} : d.reading definitions = .collected kind name source →
    ∀ free : r.find? kind name = none, (r.push kind name source free).Grows r' → Inv r' →
    (∀ x ∈ shapes, Good r' x) →
    Inv (r'.fill kind name (d.assembled definitions options shapes)) ∧
      Good (r'.fill kind name (d.assembled definitions options shapes))
        (d.assembled definitions options shapes)

/-- An invariant is a law: registries keep it, and shapes that are built are good. -/
theorem Invariant.law {Inv : Registry → Prop} {Good : Registry → Shape → Prop}
    (kept : Invariant definitions options Inv Good) (stock : List Stock) :
    Law stock definitions options
      (fun _ r outcome r' => Inv r → Inv r' ∧ ∀ x, outcome = .ok x → Good r' x)
      (fun _ r outcome r' => Inv r → Inv r' ∧ ∀ xs, outcome = .ok xs → ∀ x ∈ xs, Good r' x) where
  unclaimed _ inv := ⟨inv, fun x eq => by cases eq; exact kept.unknown⟩
  malformed _ _ inv := ⟨inv, fun x eq => by cases eq⟩
  unresolved {d r name} _ _ inv := by
    refine ⟨inv, fun x eq => ?_⟩
    cases eq
    cases found : r.search CollectedKind.searchOrder name with
    | none => exact kept.unknown
    | some x =>
      obtain ⟨e, he, -, -, rfl⟩ := Registry.exists_of_search_eq_some found
      exact kept.known inv he
  composed {d r outcome r'} _ reading parts inv := by
    obtain ⟨inv', good⟩ := parts inv
    refine ⟨inv', fun x eq => ?_⟩
    cases outcome with
    | error fault => cases eq
    | ok shapes =>
      cases eq
      exact kept.composed reading (good shapes rfl)
  conflict _ _ _ _ inv := ⟨inv, fun x eq => by cases eq⟩
  known _ _ found _ inv := by
    refine ⟨inv, fun x eq => ?_⟩
    cases eq
    exact kept.known inv (Registry.find?_eq_some_iff.1 found).1
  built {d r kind name source shapes r'} _ reading free grown parts inv := by
    obtain ⟨inv', good⟩ := parts (kept.push source free inv)
    obtain ⟨filled, made⟩ := kept.built reading free grown inv' (good shapes rfl)
    refine ⟨filled, fun x eq => ?_⟩
    cases eq
    exact made
  undone _ _ _ _ inv := ⟨inv, fun x eq => by cases eq⟩
  nil inv := ⟨inv, fun xs eq x hx => by cases eq; cases hx⟩
  cons {d rest r shape r' outcome r''} first grown later inv := by
    obtain ⟨inv', good⟩ := first inv
    obtain ⟨inv'', goodRest⟩ := later inv'
    refine ⟨inv'', fun xs eq x hx => ?_⟩
    cases outcome with
    | error fault => cases eq
    | ok shapes =>
      cases eq
      rcases List.mem_cons.1 hx with rfl | hx
      · exact kept.mono grown (good x rfl)
      · exact goodRest shapes rfl x hx
  stop first inv := ⟨(first inv).1, fun xs eq => by cases eq⟩

/-! ## Parameters and roots -/

variable (stock definitions options)

/-- The shapes of parameters are those of their annotations, without a bound. -/
theorem params_eq (annotations : List (String × Descriptor)) (names : List String)
    (s : Session) :
    (ofStock stock definitions).params annotations names options s =
      (do
        let shapes ← (unbounded stock definitions).shapesOf options
          ((Descriptor.parameterNames names).map (Recognizer.annotated annotations))
        return Assoc.ofPairs ((Descriptor.parameterNames names).zip shapes) :
          Build (List (String × Shape))) s := by
  unfold params Recognizer.paramsOf
  rw [Surroundings.paramsOnto_eq]
  refine (Build.EndsAs.bind (Surroundings.endsAs_shapesOf
    (disciplined_shapeWithin stock definitions options _) ?_)
    fun shapes s' _ => Build.endsAs_pure _).1.symm
  intro d hd s' _
  obtain ⟨name, -, rfl⟩ := List.mem_map.1 hd
  have small : (Recognizer.annotated annotations name).size ≤
      Descriptor.sizeTable annotations + 1 := by
    rcases Descriptor.annotated_cases annotations name with absent | written
    · rw [absent]
      simp only [Descriptor.size]
      omega
    · have := Descriptor.size_le_sizeTable written
      omega
  have enough : (Recognizer.annotated annotations name).depth definitions s'.registry.keys ≤
      (ofStock stock definitions).depthFor (Descriptor.sizeTable annotations + 1) := by
    refine Nat.le_trans (depth_le_depthFor stock definitions _ _) ?_
    unfold depthFor
    omega
  exact ⟨(shapeWithin_eq_shape stock definitions options enough).symm,
    (endsAs_of_depth_le stock definitions options (Nat.le_refl _) enough).2⟩

/-- The shapes of roots are those of their descriptors under the names of the roots. -/
theorem rootShapes_eq (roots : List (String × Descriptor)) :
    Document.rootShapes (ofStock stock definitions) options roots = (do
      let shapes ← (unbounded stock definitions).shapesOf options (roots.map Prod.snd)
      return (Assoc.keys roots).zip shapes) := by
  rw [← Surroundings.tableOf_eq]
  induction roots with
  | nil => rfl
  | cons root rest ih =>
    unfold Document.rootShapes Surroundings.tableOf
    rw [ih]
    rfl

end Pipeline

namespace Document

variable {doc : Document} {options : OptionSet}

/-- An extraction succeeds when the shapes of the roots do, and then yields them and what they
leave in the registry. -/
theorem extract_eq (doc : Document) (options : OptionSet) :
    doc.extract options =
      match (Pipeline.unbounded Stock.all doc.definitions).shapesOf options
        (doc.roots.map Prod.snd) .start with
      | (.ok shapes, s) => .ok ⟨(Assoc.keys doc.roots).zip shapes, s.registry.catalog⟩
      | (.error fault, _) => .error fault := by
  unfold extract extractWith Pipeline.standard
  rw [Pipeline.rootShapes_eq]
  simp only [Build.bind_apply]
  split <;> rename_i outcome <;> split at outcome <;> simp_all

/-- A document that is extracted has the shapes of its roots, and the catalog that they leave. -/
theorem shapesOf_of_extract_eq_ok {x : Extraction} (extracted : doc.extract options = .ok x) :
    ∃ shapes s, (Pipeline.unbounded Stock.all doc.definitions).shapesOf options
        (doc.roots.map Prod.snd) .start = (.ok shapes, s) ∧
      x = ⟨(Assoc.keys doc.roots).zip shapes, s.registry.catalog⟩ := by
  rw [extract_eq] at extracted
  split at extracted
  · rename_i shapes s outcome
    cases extracted
    exact ⟨shapes, s, outcome, rfl⟩
  · cases extracted

/-- A document that is not extracted fails for one of its roots. -/
theorem shapesOf_of_extract_eq_error {fault : ExtractError}
    (failed : doc.extract options = .error fault) :
    ∃ s, (Pipeline.unbounded Stock.all doc.definitions).shapesOf options
      (doc.roots.map Prod.snd) .start = (.error fault, s) := by
  rw [extract_eq] at failed
  split at failed
  · cases failed
  · rename_i fault' s outcome
    cases failed
    exact ⟨s, outcome⟩

end Document

end TypeCatalog
