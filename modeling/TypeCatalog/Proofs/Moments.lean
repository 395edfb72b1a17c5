import TypeCatalog.Proofs.Persistence
import Mathlib.Logic.Relation

/-!
The moments of an extraction, and the claims that are under way in each of them.

The shape of a descriptor is taken in one go, so that nothing said of it can name what is going on
in between.  Here the run is taken apart: a `Moment` has what is being done, what is to come back
to (the collected types around it that have claimed their names among it), and the registry; and
`Moment.next` is a single step, which claims, finishes and abandons as the pipeline does, and takes
the parts of a descriptor in the order in which the recognizers do (`Stock.firstClaim_stock`).
`reaches_shape` shows that the steps from a descriptor lead to just the outcome and the registry of
its shape, wherever it is asked for.

The run is told a second time here because a build, being a function from sessions to outcomes, has
no moments of its own that the steps could be read off.  What the two accounts do, they do by the
same definitions: a descriptor is read, taken apart and put together by `Descriptor.reading`,
`Descriptor.parts` and `Descriptor.assembled`, a name is claimed, finished and abandoned by
`Registry.tryClaim`, `Registry.tryFinalize` and `Registry.abandon`.  Only the order of these is
restated, and `runLaw` compares it with `Build.collect`, case by case.

In a moment that is `Balanced` the unfinished claims are those of the types that are to be come
back to, in the order in which they were entered.  A step from there makes the innermost claim,
finishes it, takes it back or leaves the claims alone (`Moment.Advance`); so each step keeps the
balance (`Moment.Balanced.next`), and it holds throughout a run (`Moment.Balanced.of_reaches`).
Hence no claim outlives the call that made it, every claim is there to be finished, and a conflict
is found nowhere but where a name is claimed (`claims_are_balanced`).
-/

namespace TypeCatalog

/-! ## Unfinished claims -/

namespace Registry

variable {r : Registry} {kind : CollectedKind} {name : String}
  {others : List (CollectedKind × String)}

/-- Whether a claim is not finished. -/
def Entry.isProvisional (e : Entry) : Bool :=
  e.shape?.isNone

theorem Entry.isProvisional_iff {e : Entry} : e.isProvisional = true ↔ e.shape? = none :=
  Option.isNone_iff_eq_none

/-- The names that are claimed and not finished, in the order of their claims. -/
def provisional (r : Registry) : List (CollectedKind × String) :=
  (r.entries.filter Entry.isProvisional).map Entry.key

theorem provisional_nodup (r : Registry) : r.provisional.Nodup :=
  r.distinct.sublist ((List.filter_sublist).map _)

/-- A registry is at rest if no claim in it is unfinished. -/
theorem provisional_eq_nil_iff : r.provisional = [] ↔ r.AtRest := by
  unfold provisional AtRest
  rw [List.map_eq_nil_iff, List.filter_eq_nil_iff]
  refine forall_congr' fun e => forall_congr' fun _ => ?_
  rw [Entry.isProvisional_iff]

/-- A new claim is the last of the unfinished ones. -/
theorem provisional_push (source : Descriptor) (free : r.find? kind name = none) :
    (r.push kind name source free).provisional = r.provisional ++ [(kind, name)] := by
  unfold provisional
  rw [push_entries, List.filter_append, List.map_append]
  rfl

/-- A claim that is finished is not among them any more. -/
theorem provisional_fill (shape : Shape) :
    (r.fill kind name shape).provisional = r.provisional.filter (· ≠ (kind, name)) := by
  unfold provisional
  rw [fill_entries]
  induction r.entries with
  | nil => rfl
  | cons e rest ih =>
    rw [List.map_cons]
    by_cases key : e.key = (kind, name)
    · rw [if_pos key, List.filter_cons_of_neg (by simp [Entry.isProvisional]), ih]
      by_cases unfinished : e.isProvisional = true
      · rw [List.filter_cons_of_pos unfinished, List.map_cons,
          List.filter_cons_of_neg (by simp [key])]
      · rw [List.filter_cons_of_neg unfinished]
    · rw [if_neg key]
      by_cases unfinished : e.isProvisional = true
      · rw [List.filter_cons_of_pos unfinished, List.filter_cons_of_pos unfinished, List.map_cons,
          List.map_cons, List.filter_cons_of_pos (by simp [key]), ih]
      · rw [List.filter_cons_of_neg unfinished, List.filter_cons_of_neg unfinished, ih]

section Last

variable (last : r.provisional = others ++ [(kind, name)])

include last

/-- The last unfinished claim is found, and it has no shape. -/
theorem find?_of_provisional :
    ∃ e, r.find? kind name = some e ∧ e.shape? = none := by
  have listed : (kind, name) ∈ r.provisional := last ▸ List.mem_append_right _ List.mem_cons_self
  obtain ⟨e, he, key⟩ := List.mem_map.1 listed
  obtain ⟨mem, unfinished⟩ := List.mem_filter.1 he
  exact ⟨e, find?_eq_some_iff.2 ⟨mem, key⟩, Entry.isProvisional_iff.1 unfinished⟩

theorem tryFinalize_of_provisional (shape : Shape) :
    r.tryFinalize kind name shape = (.ok shape, r.fill kind name shape) := by
  obtain ⟨e, found, unfinished⟩ := find?_of_provisional last
  simp only [tryFinalize, found, unfinished]

/-- Finishing the last unfinished claim leaves the others. -/
theorem provisional_fill_last (shape : Shape) :
    (r.fill kind name shape).provisional = others := by
  have nodup := r.provisional_nodup
  rw [last, List.nodup_append] at nodup
  have apart : ∀ key ∈ others, key ≠ (kind, name) := fun key hkey =>
    nodup.2.2 key hkey (kind, name) List.mem_cons_self
  rw [provisional_fill, last, List.filter_append, List.filter_cons_of_neg (by simp),
    List.filter_nil, List.append_nil, List.filter_eq_self]
  exact fun key hkey => decide_eq_true (apart key hkey)

/-- Abandoning the last unfinished claim leaves the others, though it takes finished claims with
it. -/
theorem provisional_abandon_last : (r.abandon kind name).provisional = others := by
  obtain ⟨e, found, unfinished⟩ := find?_of_provisional last
  obtain ⟨mem, key⟩ := find?_eq_some_iff.1 found
  have inProgress : r.status kind name = .inProgress := by
    simp only [status, found, Entry.status, unfinished]
  obtain ⟨earlier, later, split⟩ := List.append_of_mem mem
  obtain ⟨notEarlier, notLater⟩ := key_ne_of_split split
  rw [key] at notEarlier notLater
  have cut : (r.abandon kind name).entries = earlier := by
    rw [abandon_of_inProgress inProgress]
    exact before_entries_of_split split key
  have listed : (earlier.filter Entry.isProvisional).map Entry.key ++
      (kind, name) :: (later.filter Entry.isProvisional).map Entry.key =
        others ++ (kind, name) :: [] := by
    rw [← last, provisional, split, List.filter_append,
      List.filter_cons_of_pos (Entry.isProvisional_iff.2 unfinished), List.map_append,
      List.map_cons, key]
  -- the name stands once in the list, so that nothing unfinished was claimed after it
  have once : (earlier.filter Entry.isProvisional).map Entry.key = others := by
    refine ((List.append_cons_inj_of_notMem ?_ ?_).1 listed).1
    · intro twice
      obtain ⟨e', he', key'⟩ := List.mem_map.1 twice
      exact notEarlier e' (List.mem_filter.1 he').1 key'
    · intro twice
      obtain ⟨e', he', key'⟩ := List.mem_map.1 twice
      exact notLater e' (List.mem_filter.1 he').1 key'
  rw [provisional, cut, once]

end Last

end Registry

namespace Pipeline

/-! ## Moments -/

/-- What is to be come back to once a shape has been taken. -/
inductive Frame where
  /-- A descriptor whose parts are gathered: the shapes of the first of them, and those behind the
  one that is asked for. -/
  | gathering (d : Descriptor) (shapes : List Shape) (pending : List Descriptor)
  /-- A type that is collected, and has found its name vacant. -/
  | collecting (kind : CollectedKind) (name : String)

/-- The name that has been claimed for what is to be come back to. -/
def Frame.claimed? : Frame → Option (CollectedKind × String)
  | gathering _ _ _ => none
  | collecting kind name => some (kind, name)

/-- What is being done. -/
inductive Control where
  | asking (d : Descriptor)
  | gathering (d : Descriptor) (shapes : List Shape) (pending : List Descriptor)
  | answering (outcome : Except ExtractError Shape)

/-- A moment of a run. -/
structure Moment where
  control : Control
  /-- What is to be come back to, the innermost first. -/
  stack : List Frame
  registry : Registry

section Moments

variable (stock : List Stock) (definitions : List (String × Descriptor)) (options : OptionSet)

/-- The moment after a descriptor is asked for. -/
def Moment.afterAsking (d : Descriptor) (stack : List Frame) (r : Registry) : Moment :=
  if Stock.covers stock d then
    match d.reading definitions with
    | .malformed fault => ⟨.answering (.error fault), stack, r⟩
    | .unresolved name =>
      ⟨.answering (.ok ((r.search CollectedKind.searchOrder name).getD .unknown)), stack, r⟩
    | .composed => ⟨.gathering d [] (d.parts definitions), stack, r⟩
    | .collected kind name source =>
      match r.tryClaim kind name source with
      | (.error fault, r') => ⟨.answering (.error fault), stack, r'⟩
      | (.ok (.done shape), r') => ⟨.answering (.ok shape), stack, r'⟩
      | (.ok .inProgress, r') => ⟨.answering (.ok (.reference name kind)), stack, r'⟩
      | (.ok .vacant, r') =>
        ⟨.gathering d [] (d.parts definitions), .collecting kind name :: stack, r'⟩
  else ⟨.answering (.ok .unknown), stack, r⟩

/-- The next moment; there is none after the last answer.  A collected type is settled as
`Build.complete` settles it. -/
def Moment.next : Moment → Option Moment
  | ⟨.asking d, stack, r⟩ => some (afterAsking stock definitions d stack r)
  | ⟨.gathering d shapes [], stack, r⟩ =>
    some ⟨.answering (.ok (d.assembled definitions options shapes)), stack, r⟩
  | ⟨.gathering d shapes (part :: pending), stack, r⟩ =>
    some ⟨.asking part, .gathering d shapes pending :: stack, r⟩
  | ⟨.answering _, [], _⟩ => none
  | ⟨.answering (.ok shape), .gathering d shapes pending :: stack, r⟩ =>
    some ⟨.gathering d (shapes ++ [shape]) pending, stack, r⟩
  | ⟨.answering (.error fault), .gathering _ _ _ :: stack, r⟩ =>
    some ⟨.answering (.error fault), stack, r⟩
  | ⟨.answering (.ok shape), .collecting kind name :: stack, r⟩ =>
    let (outcome, r') := r.tryFinalize kind name shape
    some ⟨.answering outcome, stack, r'⟩
  | ⟨.answering (.error fault), .collecting kind name :: stack, r⟩ =>
    some ⟨.answering (.error fault), stack, r.abandon kind name⟩

/-- One moment comes after another in a run, or is the same. -/
abbrev Moment.Reaches : Moment → Moment → Prop :=
  Relation.ReflTransGen fun m m' => m.next stock definitions options = some m'

end Moments

variable {stock : List Stock} {definitions : List (String × Descriptor)} {options : OptionSet}

namespace Moment

/-! ## Runs and shapes -/

section Asking

variable {d : Descriptor} {stack : List Frame} {r : Registry} {kind : CollectedKind}
  {name : String} {source : Descriptor}

theorem afterAsking_uncovered (uncovered : Stock.covers stock d = false) :
    afterAsking stock definitions d stack r = ⟨.answering (.ok .unknown), stack, r⟩ := by
  simp [afterAsking, uncovered]

theorem afterAsking_malformed (covered : Stock.covers stock d = true) {fault : ExtractError}
    (reading : d.reading definitions = .malformed fault) :
    afterAsking stock definitions d stack r = ⟨.answering (.error fault), stack, r⟩ := by
  simp [afterAsking, covered, reading]

theorem afterAsking_unresolved (covered : Stock.covers stock d = true)
    (reading : d.reading definitions = .unresolved name) :
    afterAsking stock definitions d stack r =
      ⟨.answering (.ok ((r.search CollectedKind.searchOrder name).getD .unknown)), stack, r⟩ := by
  simp [afterAsking, covered, reading]

theorem afterAsking_composed (covered : Stock.covers stock d = true)
    (reading : d.reading definitions = .composed) :
    afterAsking stock definitions d stack r =
      ⟨.gathering d [] (d.parts definitions), stack, r⟩ := by
  simp [afterAsking, covered, reading]

variable (covered : Stock.covers stock d = true)
  (reading : d.reading definitions = .collected kind name source)

include covered reading

theorem afterAsking_conflict {e : Registry.Entry} (found : r.find? kind name = some e)
    (other : e.source.same source = false) :
    afterAsking stock definitions d stack r =
      ⟨.answering (.error (.conflict kind name)), stack, r⟩ := by
  simp [afterAsking, covered, reading, Registry.tryClaim_taken found, other]

theorem afterAsking_known {e : Registry.Entry} (found : r.find? kind name = some e)
    (same : e.source.same source = true) :
    afterAsking stock definitions d stack r = ⟨.answering (.ok e.known), stack, r⟩ := by
  have key : (e.kind, e.name) = (kind, name) := (Registry.find?_eq_some_iff.1 found).2
  obtain ⟨rfl, rfl⟩ := Prod.mk.inj key
  simp only [afterAsking, covered, reading, Registry.tryClaim_taken found, same, if_true]
  cases finished : e.shape? with
  | none => simp [Registry.Entry.status, Registry.Entry.known, finished]
  | some shape => simp [Registry.Entry.status, Registry.Entry.known, finished]

theorem afterAsking_free (free : r.find? kind name = none) :
    afterAsking stock definitions d stack r =
      ⟨.gathering d [] (d.parts definitions), .collecting kind name :: stack,
        r.push kind name source free⟩ := by
  simp [afterAsking, covered, reading, Registry.tryClaim_free free]

end Asking

/-- Why a descriptor is refused in a registry: it is malformed, or its name is claimed for another
one. -/
inductive Refused (definitions : List (String × Descriptor)) (d : Descriptor) (r : Registry) :
    ExtractError → Prop
  | malformed {fault : ExtractError} : d.reading definitions = .malformed fault →
    Refused definitions d r fault
  | conflict {kind : CollectedKind} {name : String} {source : Descriptor} {e : Registry.Entry} :
    d.reading definitions = .collected kind name source → r.find? kind name = some e →
    e.source.same source = false → Refused definitions d r (.conflict kind name)

/-- A descriptor that is asked for is answered at once, or its parts are gathered next, and before
that a vacant name is claimed. -/
theorem afterAsking_cases (stock : List Stock) (definitions : List (String × Descriptor))
    (d : Descriptor) (stack : List Frame) (r : Registry) :
    (∃ outcome, afterAsking stock definitions d stack r = ⟨.answering outcome, stack, r⟩ ∧
        ∀ fault, outcome = .error fault → Refused definitions d r fault) ∨
      afterAsking stock definitions d stack r =
        ⟨.gathering d [] (d.parts definitions), stack, r⟩ ∨
      ∃ kind name source free, afterAsking stock definitions d stack r =
        ⟨.gathering d [] (d.parts definitions), .collecting kind name :: stack,
          r.push kind name source free⟩ := by
  cases covered : Stock.covers stock d with
  | false => exact .inl ⟨_, afterAsking_uncovered covered, fun fault eq => by cases eq⟩
  | true =>
    cases reading : d.reading definitions with
    | malformed fault =>
      refine .inl ⟨_, afterAsking_malformed covered reading, fun fault' eq => ?_⟩
      cases eq
      exact .malformed reading
    | unresolved name =>
      exact .inl ⟨_, afterAsking_unresolved covered reading, fun fault eq => by cases eq⟩
    | composed => exact .inr (.inl (afterAsking_composed covered reading))
    | collected kind name source =>
      cases found : r.find? kind name with
      | none => exact .inr (.inr ⟨_, _, _, found, afterAsking_free covered reading found⟩)
      | some e =>
        cases same : e.source.same source with
        | true =>
          exact .inl ⟨_, afterAsking_known covered reading found same, fun fault eq => by cases eq⟩
        | false =>
          refine .inl ⟨_, afterAsking_conflict covered reading found same, fun fault eq => ?_⟩
          cases eq
          exact .conflict reading found same

/-- Wherever a descriptor is asked for, the run comes to answer it with its shape, and to what the
shape leaves in the registry; and the parts of a descriptor are gathered in the same way. -/
theorem runLaw (stock : List Stock) (definitions : List (String × Descriptor))
    (options : OptionSet) :
    Law stock definitions options
      (fun d r outcome r' => r.Grows r' ∧ ∀ stack,
        Reaches stock definitions options ⟨.asking d, stack, r⟩ ⟨.answering outcome, stack, r'⟩)
      (fun ds r outcome r' => r.Grows r' ∧ ∀ d shapes stack,
        Reaches stock definitions options ⟨.gathering d shapes ds, stack, r⟩
          ⟨.answering (outcome.map fun more => d.assembled definitions options (shapes ++ more)),
            stack, r'⟩) where
  unclaimed uncovered :=
    ⟨.refl _, fun stack => .single (congrArg some (afterAsking_uncovered uncovered))⟩
  malformed covered reading :=
    ⟨.refl _, fun stack => .single (congrArg some (afterAsking_malformed covered reading))⟩
  unresolved covered reading :=
    ⟨.refl _, fun stack => .single (congrArg some (afterAsking_unresolved covered reading))⟩
  composed {d r outcome r'} covered reading parts := by
    refine ⟨parts.1, fun stack => ?_⟩
    exact .head (congrArg some (afterAsking_composed covered reading)) (parts.2 d [] stack)
  conflict covered reading found other :=
    ⟨.refl _, fun stack =>
      .single (congrArg some (afterAsking_conflict covered reading found other))⟩
  known covered reading found same :=
    ⟨.refl _, fun stack => .single (congrArg some (afterAsking_known covered reading found same))⟩
  built {d r kind name source shapes r'} covered reading free grown parts := by
    refine ⟨Registry.grows_fill free grown _, fun stack => ?_⟩
    have gathered := parts.2 d [] (.collecting kind name :: stack)
    refine .head (congrArg some (afterAsking_free covered reading free)) (gathered.tail ?_)
    simp only [next, Except.map, List.nil_append, Registry.tryFinalize_of_grows free grown]
  undone {d r kind name source fault r'} covered reading free parts := by
    refine ⟨.refl _, fun stack => ?_⟩
    have gathered := parts.2 d [] (.collecting kind name :: stack)
    refine .head (congrArg some (afterAsking_free covered reading free)) (gathered.tail ?_)
    simp only [next, Except.map, Registry.abandon_of_grows free parts.1]
  nil := by
    refine ⟨.refl _, fun d shapes stack => .single ?_⟩
    simp only [next, Except.map, List.append_nil]
  cons {d ds r shape r' outcome r''} first grown later := by
    refine ⟨first.1.trans grown, fun whole shapes stack => ?_⟩
    have asked := first.2 (.gathering whole shapes ds :: stack)
    have rest := later.2 whole (shapes ++ [shape]) stack
    refine .head rfl (asked.trans (.head rfl ?_))
    cases outcome with
    | error fault => exact rest
    | ok more =>
      simp only [Except.map, List.append_assoc, List.singleton_append] at rest ⊢
      exact rest
  stop {d ds r fault r'} first := by
    refine ⟨first.1, fun whole shapes stack => ?_⟩
    exact .head rfl ((first.2 (.gathering whole shapes ds :: stack)).tail rfl)

/-- The run of a descriptor, wherever it is asked for. -/
theorem reaches_shape (d : Descriptor) (stack : List Frame) (s : Session) :
    Reaches stock definitions options ⟨.asking d, stack, s.registry⟩
      ⟨.answering ((ofStock stock definitions).shape d options s).1, stack,
        ((ofStock stock definitions).shape d options s).2.registry⟩ :=
  ((runLaw stock definitions options).shape d s).2 stack

/-! ## Balanced moments -/

/-- The names that have been claimed for what is to be come back to, the innermost first. -/
def claimed (m : Moment) : List (CollectedKind × String) :=
  m.stack.filterMap Frame.claimed?

/-- The unfinished claims are those of the collected types that are to be come back to. -/
def Balanced (m : Moment) : Prop :=
  m.registry.provisional = m.claimed.reverse

theorem balanced_collecting {control : Control} {kind : CollectedKind} {name : String}
    {stack : List Frame} {r : Registry} :
    (⟨control, .collecting kind name :: stack, r⟩ : Moment).Balanced ↔
      r.provisional = (stack.filterMap Frame.claimed?).reverse ++ [(kind, name)] := by
  have listed : (Frame.collecting kind name :: stack).filterMap Frame.claimed? =
      (kind, name) :: stack.filterMap Frame.claimed? := List.filterMap_cons_some rfl
  unfold Balanced claimed
  rw [listed, List.reverse_cons]

/-- A call is balanced where it begins, in a registry at rest. -/
theorem balanced_of_atRest {control : Control} {r : Registry} (rest : r.AtRest) :
    (⟨control, [], r⟩ : Moment).Balanced :=
  Registry.provisional_eq_nil_iff.2 rest

variable {m m' : Moment}

/-- What a step does with the claims: nothing, and a fault then is not a new one unless a descriptor
is refused; or it makes the innermost claim, finishes it or takes it back. -/
inductive Advance (definitions : List (String × Descriptor)) : Moment → Moment → Prop
  | quiet {m m' : Moment} : m'.registry = m.registry → m'.claimed = m.claimed →
    (∀ fault, m'.control = .answering (.error fault) → m.control = .answering (.error fault) ∨
      ∃ d stack r, m = ⟨.asking d, stack, r⟩ ∧ Refused definitions d r fault) →
    Advance definitions m m'
  | claim {d : Descriptor} {shapes : List Shape} {pending : List Descriptor} {stack : List Frame}
    {r : Registry} {kind : CollectedKind} {name : String} (source : Descriptor)
    (free : r.find? kind name = none) :
    Advance definitions ⟨.asking d, stack, r⟩
      ⟨.gathering d shapes pending, .collecting kind name :: stack, r.push kind name source free⟩
  | finish {shape : Shape} {kind : CollectedKind} {name : String} {stack : List Frame}
    {r : Registry} :
    Advance definitions ⟨.answering (.ok shape), .collecting kind name :: stack, r⟩
      ⟨.answering (.ok shape), stack, r.fill kind name shape⟩
  | undo {fault : ExtractError} {kind : CollectedKind} {name : String} {stack : List Frame}
    {r : Registry} :
    Advance definitions ⟨.answering (.error fault), .collecting kind name :: stack, r⟩
      ⟨.answering (.error fault), stack, r.abandon kind name⟩

/-- Asking for a descriptor claims one name at most. -/
theorem advance_afterAsking (stock : List Stock) (definitions : List (String × Descriptor))
    (d : Descriptor) (stack : List Frame) (r : Registry) :
    Advance definitions ⟨.asking d, stack, r⟩ (afterAsking stock definitions d stack r) := by
  rcases afterAsking_cases stock definitions d stack r with
    ⟨outcome, eq, refused⟩ | eq | ⟨kind, name, source, free, eq⟩
  · rw [eq]
    refine .quiet rfl rfl fun fault failed => .inr ⟨d, stack, r, rfl, refused fault ?_⟩
    cases failed
    rfl
  · rw [eq]
    exact .quiet rfl rfl fun fault failed => by cases failed
  · rw [eq]
    exact .claim source free

/-- All steps from a balanced moment; the claim that is finished is there in it. -/
theorem Balanced.advance (balanced : m.Balanced)
    (step : m.next stock definitions options = some m') : Advance definitions m m' := by
  obtain ⟨control, stack, r⟩ := m
  cases control with
  | asking d =>
    cases step
    exact advance_afterAsking stock definitions d stack r
  | gathering d shapes pending =>
    cases pending with
    | nil =>
      cases step
      exact .quiet rfl rfl fun fault failed => by cases failed
    | cons part pending =>
      cases step
      exact .quiet rfl rfl fun fault failed => by cases failed
  | answering outcome =>
    rcases stack with _ | ⟨⟨d, shapes, pending⟩ | ⟨kind, name⟩, stack⟩
    · cases step
    · cases outcome with
      | error fault =>
        cases step
        exact .quiet rfl rfl fun _ failed => .inl failed
      | ok shape =>
        cases step
        exact .quiet rfl rfl fun fault failed => by cases failed
    · cases outcome with
      | error fault =>
        cases step
        exact .undo
      | ok shape =>
        have last := balanced_collecting.1 balanced
        simp only [Moment.next, Registry.tryFinalize_of_provisional last] at step
        cases step
        exact .finish

/-- Each step keeps a moment balanced. -/
theorem Balanced.next (balanced : m.Balanced)
    (step : m.next stock definitions options = some m') : m'.Balanced := by
  cases balanced.advance step with
  | quiet registry claimed _ =>
    unfold Balanced
    rw [registry, claimed]
    exact balanced
  | @claim d shapes pending stack r kind name source free =>
    rw [balanced_collecting, Registry.provisional_push]
    exact congrArg (· ++ [(kind, name)]) balanced
  | finish => exact Registry.provisional_fill_last (balanced_collecting.1 balanced) _
  | undo => exact Registry.provisional_abandon_last (balanced_collecting.1 balanced)

/-- A whole run does. -/
theorem Balanced.of_reaches (balanced : m.Balanced)
    (run : Reaches stock definitions options m m') : m'.Balanced := by
  induction run with
  | refl => exact balanced
  | tail _ step ih => exact ih.next step

/-- In a balanced run, whatever is answered with a fault goes back to a descriptor that was
refused. -/
theorem refused_of_reaches {d : Descriptor} {r : Registry} (rest : r.AtRest)
    (run : Reaches stock definitions options ⟨.asking d, [], r⟩ m) {fault : ExtractError}
    (failed : m.control = .answering (.error fault)) :
    ∃ d' stack r', Reaches stock definitions options ⟨.asking d, [], r⟩ ⟨.asking d', stack, r'⟩ ∧
      Refused definitions d' r' fault := by
  induction run with
  | refl => cases failed
  | @tail m m' run step ih =>
    cases ((balanced_of_atRest rest).of_reaches run).advance step with
    | quiet _ _ faults =>
      rcases faults fault failed with earlier | ⟨d', stack, r', rfl, refused⟩
      · exact ih earlier
      · exact ⟨d', stack, r', run, refused⟩
    | claim => cases failed
    | finish => cases failed
    | undo => exact ih failed

/-- Claims that are not there to be finished are no reason to refuse a descriptor. -/
theorem Refused.ne_unclaimed {d : Descriptor} {r : Registry} {fault : ExtractError}
    (refused : Refused definitions d r fault) (kind : CollectedKind) (name : String) :
    fault ≠ .unclaimed kind name := by
  rintro rfl
  cases refused with
  | malformed reading => cases Descriptor.isOfDescriptor_of_malformed reading

/-- A conflict is found where a name is claimed for another descriptor than before. -/
theorem Refused.of_conflict {d : Descriptor} {r : Registry} {kind : CollectedKind} {name : String}
    (refused : Refused definitions d r (.conflict kind name)) :
    ∃ source e, d.reading definitions = .collected kind name source ∧
      r.claim kind name source = .error (.conflict kind name) ∧
      r.find? kind name = some e ∧ e.source.same source = false := by
  cases refused with
  | malformed reading => cases Descriptor.isOfDescriptor_of_malformed reading
  | @conflict _ _ source e reading found other =>
    refine ⟨source, e, reading, ?_, found, other⟩
    rw [Registry.claim, Registry.tryClaim_taken found, other]
    rfl

end Moment

/-- **Claims are balanced.**  Consider the moments of a descriptor, after whatever calls.  Wherever
one is asked for in them, the first or one inside, the run comes to answer it with the shape that
the pipeline takes of it there, and to the registry that this leaves.  In each moment the unfinished
claims are those of the collected types that are to be come back to and have found their names
vacant; before and after the call there are none.  Hence finishing a claim never fails and no shape
ends in an unclaimed name, and every conflict is found in a moment when a name is claimed that
another descriptor holds. -/
theorem claims_are_balanced (stock : List Stock) (definitions : List (String × Descriptor))
    (options : OptionSet) (d : Descriptor) (before : List Call) :
    let s := sessionAfter before
    let left := (ofStock stock definitions).shape d options s
    let reached := Moment.Reaches stock definitions options ⟨.asking d, [], s.registry⟩
    (∀ d' stack s', reached ⟨.asking d', stack, s'.registry⟩ →
      reached ⟨.answering ((ofStock stock definitions).shape d' options s').1, stack,
        ((ofStock stock definitions).shape d' options s').2.registry⟩) ∧
    (∀ m, reached m → m.registry.provisional = m.claimed.reverse) ∧
    (s.registry.provisional = [] ∧ left.2.registry.provisional = []) ∧
    (∀ shape kind name stack r,
      reached ⟨.answering (.ok shape), .collecting kind name :: stack, r⟩ →
        r.finalize kind name shape = .ok (shape, r.fill kind name shape)) ∧
    (∀ kind name, left.1 ≠ .error (.unclaimed kind name)) ∧
    ∀ m kind name, reached m → m.control = .answering (.error (.conflict kind name)) →
      ∃ d' stack r, reached ⟨.asking d', stack, r⟩ ∧ ∃ source e,
        d'.reading definitions = .collected kind name source ∧
        r.claim kind name source = .error (.conflict kind name) ∧
        r.find? kind name = some e ∧ e.source.same source = false := by
  intro s left reached
  have rest : s.registry.AtRest := atRest_sessionAfter before
  have answered : ∀ d' stack s', reached ⟨.asking d', stack, s'.registry⟩ →
      reached ⟨.answering ((ofStock stock definitions).shape d' options s').1, stack,
        ((ofStock stock definitions).shape d' options s').2.registry⟩ := fun d' stack s' asked =>
    asked.trans (Moment.reaches_shape d' stack s')
  have final : reached ⟨.answering left.1, [], left.2.registry⟩ := answered d [] s .refl
  have balanced : ∀ m, reached m → m.Balanced := fun m run =>
    (Moment.balanced_of_atRest rest).of_reaches run
  refine ⟨answered, balanced, ⟨Registry.provisional_eq_nil_iff.2 rest, balanced _ final⟩,
    ?_, ?_, ?_⟩
  · intro shape kind name stack r run
    have last := Moment.balanced_collecting.1 (balanced _ run)
    exact congrArg Registry.granted (Registry.tryFinalize_of_provisional last shape)
  · intro kind name failed
    obtain ⟨d', stack, r, -, refused⟩ :=
      Moment.refused_of_reaches rest final (congrArg Control.answering failed)
    exact refused.ne_unclaimed kind name rfl
  · intro m kind name run failed
    obtain ⟨d', stack, r, asked, refused⟩ := Moment.refused_of_reaches rest run failed
    exact ⟨d', stack, r, asked, refused.of_conflict⟩

/-- A class that is built for another one, after a call that failed: both are under way, the outer
one first. -/
theorem claims_are_balanced_of_nested :
    let inner : Descriptor := .classDecl "Inner" [("back", .ref "Outer")] []
    let outer : Descriptor := .classDecl "Outer" [("inner", inner)] []
    let failing : Call :=
      ⟨Stock.all, [], .empty, .shape (.classDecl "Inner" [("bad", .union [])] [])⟩
    let r : Registry :=
      ⟨[⟨.classType, "Outer", outer, none⟩, ⟨.classType, "Inner", inner, none⟩], by decide⟩
    let m : Moment := ⟨.gathering inner [] [.ref "Outer"],
      [.collecting .classType "Inner", .gathering outer [] [], .collecting .classType "Outer"], r⟩
    Moment.Reaches Stock.all [] .empty ⟨.asking outer, [], (sessionAfter [failing]).registry⟩ m ∧
      r.provisional = [(.classType, "Outer"), (.classType, "Inner")] := by
  intro inner outer failing r m
  have run : Moment.Reaches Stock.all [] .empty
      ⟨.asking outer, [], (sessionAfter [failing]).registry⟩ m :=
    .tail (.tail (.tail .refl rfl) rfl) rfl
  exact ⟨run, (claims_are_balanced Stock.all [] .empty outer [failing]).2.1 m run⟩

end Pipeline

end TypeCatalog
