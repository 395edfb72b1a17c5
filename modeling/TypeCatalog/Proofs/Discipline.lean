import TypeCatalog.Pipeline
import TypeCatalog.Proofs.Claimant
import TypeCatalog.Proofs.Collect
import TypeCatalog.Recognizer.Extra

/-!
What recognizers do with a session.

A recognizer may change a session only by the means that it is given: it asks for the shapes of
other descriptors, looks names up, notes labels and collects types.  A build that is put together of
these is `Disciplined`, and whatever each of them keeps holds of all such builds: the registry grows
(`Disciplined.growing`), and labels that have been noted stay, also those that were noted on behalf
of what failed (`Disciplined.journal`).

A recognizer is disciplined if what it builds is, wherever the shapes that it asks for are.  The
stock recognizers are, and so are those that may be put beside them; a pipeline of disciplined
recognizers builds nothing else (`Pipeline.Disciplined.shape`), wherever they stand in it.
-/

namespace TypeCatalog

open Recognizer

/-! ## Builds -/

namespace Build

variable {α : Type} {b : Build α}

/-- A build that does no more with a session than to look names up in it, note labels, and collect
what is built in the same way. -/
inductive Disciplined : {α : Type} → Build α → Prop
  | pure {α : Type} (a : α) : Disciplined (Pure.pure a : Build α)
  | fail {α : Type} (fault : ExtractError) : Disciplined (Build.fail fault : Build α)
  | bind {α β : Type} {first : Build α} {next : α → Build β} : Disciplined first →
    (∀ a, Disciplined (next a)) → Disciplined (first >>= next)
  | search (kinds : List CollectedKind) (name : String) : Disciplined do
      let registry ← Build.registry
      return registry.search kinds name
  | note (label : String) : Disciplined (Build.note label)
  | orElse {α : Type} {first : Build α} (a : α) : Disciplined first →
    Disciplined (first.orElse a)
  | collect {kind : CollectedKind} {name : String} {source : Descriptor} {build : Build Shape} :
    Disciplined build → Disciplined (Build.collect kind name source build)

/-- A value may be changed in passing. -/
theorem Disciplined.map {β : Type} (f : α → β) (h : b.Disciplined) : (f <$> b).Disciplined := by
  rw [map_eq_pure_bind]
  exact h.bind fun a => .pure (f a)

/-- The registry grows by what is collected. -/
theorem Disciplined.growing (h : b.Disciplined) : b.Growing := by
  induction h with
  | pure a => exact growing_pure a
  | fail fault => exact growing_fail fault
  | bind _ _ first next => exact first.bind next
  | search kinds name => exact growing_registry.bind fun _ => growing_pure _
  | note label => exact fun s => .refl _
  | orElse a _ grown =>
    intro s
    rw [orElse_session]
    exact grown s
  | collect _ grown => exact grown.collect

/-- Labels stay where they were noted, whatever fails later. -/
theorem Disciplined.journal (h : b.Disciplined) (s : Session) : s.journal <+: (b s).2.journal := by
  induction h generalizing s with
  | pure | fail | search => exact List.prefix_refl _
  | note label => exact List.prefix_append _ _
  | @bind _ _ first next _ _ noted later =>
    have noted := noted s
    rw [bind_apply]
    rcases outcome : first s with ⟨fault | a, s'⟩
    · rwa [outcome] at noted
    · rw [outcome] at noted
      exact noted.trans (later a s')
  | orElse a _ noted =>
    rw [orElse_session]
    exact noted s
  | @collect kind name source build disciplined noted =>
    cases found : s.registry.find? kind name with
    | some e =>
      cases same : e.source.same source with
      | false => simp [collect_of_conflict found same]
      | true => simp [collect_of_known found same]
    | none =>
      have noted := noted ⟨s.registry.push kind name source found, s.journal⟩
      rcases outcome : build ⟨s.registry.push kind name source found, s.journal⟩
        with ⟨fault | shape, s'⟩
      · rw [outcome] at noted
        rwa [collect_of_error disciplined.growing found outcome]
      · rw [outcome] at noted
        rwa [collect_of_ok disciplined.growing found outcome]

end Build

/-! ## Surroundings -/

namespace Surroundings

variable {w : Surroundings} {options : OptionSet}

theorem disciplined_shapesOf (h : ∀ d, (w.shapeOf d options).Disciplined) (ds : List Descriptor) :
    (w.shapesOf options ds).Disciplined := by
  induction ds with
  | nil => exact .pure []
  | cons d rest ih => exact (h d).bind fun shape => ih.bind fun shapes => .pure _

theorem disciplined_compose (h : ∀ d, (w.shapeOf d options).Disciplined) (d : Descriptor) :
    (w.compose options d).Disciplined :=
  (disciplined_shapesOf h _).bind fun _ => .pure _

/-- A descriptor is read by looking its name up, by putting its parts together, or by collecting
that. -/
theorem disciplined_read (h : ∀ d, (w.shapeOf d options).Disciplined) (d : Descriptor) :
    (w.read options d).Disciplined := by
  unfold read
  cases d.reading w.definitions with
  | malformed fault => exact .fail fault
  | unresolved name =>
    exact (Build.Disciplined.search CollectedKind.searchOrder name).bind fun found =>
      .pure (found.getD .unknown)
  | composed => exact disciplined_compose h d
  | collected kind name source => exact (disciplined_compose h d).collect

end Surroundings

/-! ## Recognizers -/

namespace Recognizer

/-- A recognizer that builds nothing undisciplined of what is disciplined. -/
def Disciplined (r : Recognizer) : Prop :=
  ∀ w : Surroundings, (∀ d options, (w.shapeOf d options).Disciplined) →
    ∀ d options, (r.claim? w d options).Disciplined

/-- A stock recognizer reads what it claims, and else does nothing at all. -/
theorem disciplined_stock (r : Stock) : r.recognizer.Disciplined := by
  intro w h d options
  show (r.claim? w d options).Disciplined
  rcases Stock.claim?_cases w options r d with reads | ⟨name, looks⟩ | refuses
  · rw [reads]
    exact (Surroundings.disciplined_read (fun d => h d options) d).map some
  · rw [looks]
    exact .search _ name
  · rw [refuses]
    exact .pure none

theorem disciplined_renamed (name oldName newName : String) :
    (renamed name oldName newName).Disciplined := by
  intro w _ d options
  cases d <;> exact .pure _

theorem disciplined_noting (name : String) : (noting name).Disciplined :=
  fun _ _ d _ => (Build.Disciplined.note d.label).bind fun _ => .pure none

/-- What is attempted may have noted and collected something before it fails. -/
theorem disciplined_attempting (name origin : String) : (attempting name origin).Disciplined := by
  intro w h d options
  simp only [attempting]
  split
  · rename_i arg _
    exact ((h arg options).orElse .unknown).bind fun shape => .pure (some shape)
  · exact .pure none

theorem disciplined_plainly (name origin : String) : (plainly name origin).Disciplined := by
  intro w h d options
  simp only [plainly]
  split
  · rename_i arg _
    exact (h arg .empty).bind fun shape => .pure (some shape)
  · exact .pure none

/-- A recognizer of its own may collect as the stock ones do. -/
theorem disciplined_collecting (name : String) (kind : CollectedKind) :
    (collecting name kind).Disciplined := by
  intro w _ d options
  cases d with
  | unclassified repr =>
    exact (Build.Disciplined.pure (Shape.builtin repr)).collect.bind fun shape => .pure (some shape)
  | _ => exact .pure none

/-- The shape that the first of some recognizers gives is disciplined if all of them are. -/
theorem disciplined_firstClaim {recognizers : List Recognizer}
    (disciplined : ∀ r ∈ recognizers, r.Disciplined) {w : Surroundings}
    (h : ∀ d options, (w.shapeOf d options).Disciplined) (d : Descriptor) (options : OptionSet) :
    (firstClaim w d options recognizers).Disciplined := by
  induction recognizers with
  | nil => exact .pure Shape.unknown
  | cons r rest ih =>
    obtain ⟨own, others⟩ := List.forall_mem_cons.1 disciplined
    refine (own w h d options).bind fun claimed => ?_
    cases claimed with
    | none => exact ih others
    | some shape => exact .pure shape

end Recognizer

/-! ## Pipelines -/

namespace Pipeline

/-- A pipeline of disciplined recognizers. -/
def Disciplined (p : Pipeline) : Prop :=
  ∀ r ∈ p.recognizers, r.Disciplined

theorem disciplined_ofStock (stock : List Stock) (definitions : List (String × Descriptor)) :
    (ofStock stock definitions).Disciplined := by
  intro r hr
  obtain ⟨stock, -, rfl⟩ := List.mem_map.1 hr
  exact disciplined_stock stock

variable {p : Pipeline}

theorem Disciplined.push (h : p.Disciplined) {r : Recognizer} (disciplined : r.Disciplined) :
    (p.push r).Disciplined :=
  List.forall_mem_append.2 ⟨h, List.forall_mem_singleton.2 disciplined⟩

/-- A disciplined recognizer may stand anywhere. -/
theorem Disciplined.insert (h : p.Disciplined) {r : Recognizer} (disciplined : r.Disciplined)
    (index : Nat) : (p.insert index r).Disciplined :=
  List.forall_mem_append.2 ⟨fun r hr => h r (List.mem_of_mem_take hr),
    List.forall_mem_cons.2 ⟨disciplined, fun r hr => h r (List.mem_of_mem_drop hr)⟩⟩

/-- Within a bound, the shapes that recognizers ask for are disciplined, and so what they make of
them. -/
theorem Disciplined.shapeWithin (h : p.Disciplined) (bound : Nat) (d : Descriptor)
    (options : OptionSet) : (p.shapeWithin bound d options).Disciplined := by
  induction bound generalizing d options with
  | zero => exact .fail .endless
  | succ bound ih => exact disciplined_firstClaim h ih d options

theorem Disciplined.shape (h : p.Disciplined) (d : Descriptor) (options : OptionSet) :
    (p.shape d options).Disciplined :=
  h.shapeWithin _ d options

end Pipeline

end TypeCatalog
