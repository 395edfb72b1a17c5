import TypeCatalog.Proofs.Moments

/-!
What the source of a claim is good for.

Whoever meets a claimed name compares the descriptor that is asked for with the source of the claim.
That is all a source is good for: put another one into a claim (`Registry.withSource`), and a run
goes through the same moments with the other source in their registries, as long as both compare
alike with whatever is met under the name (`Moment.reaches_withSource`).

What makes this go through is that a run takes back no claim that was there before it
(`Moment.Above`), so that the claim in question stands in each of its moments.
-/

namespace TypeCatalog

namespace Registry

variable {r base : Registry} {kind kind' : CollectedKind} {name name' : String}
  {source source' : Descriptor} {e : Entry}

/-! ## Another source -/

/-- The claim on a name is for another source. -/
def Entry.withSource (kind : CollectedKind) (name : String) (source : Descriptor) (e : Entry) :
    Entry :=
  ⟨e.kind, e.name, if e.key = (kind, name) then source else e.source, e.shape?⟩

theorem Entry.withSource_of_ne (other : e.key ≠ (kind, name)) :
    e.withSource kind name source = e := by
  unfold withSource
  rw [if_neg other]

theorem Entry.withSource_of_key (key : e.key = (kind, name)) :
    e.withSource kind name source = ⟨e.kind, e.name, source, e.shape?⟩ := by
  unfold withSource
  rw [if_pos key]

/-- Put another source into the claim on a name, if there is one. -/
def withSource (r : Registry) (kind : CollectedKind) (name : String) (source : Descriptor) :
    Registry :=
  ⟨r.entries.map (Entry.withSource kind name source), by
    rw [List.map_map]
    exact r.distinct⟩

/-- The claims that are found are the same but for the source. -/
theorem find?_withSource : (r.withSource kind name source).find? kind' name' =
    (r.find? kind' name').map (Entry.withSource kind name source) :=
  List.find?_map

/-- There is no source to change where a name is free. -/
theorem withSource_of_free (free : r.find? kind name = none) :
    r.withSource kind name source = r := by
  apply ext_entries
  refine (List.map_congr_left fun e he => ?_).trans (List.map_id _)
  exact Entry.withSource_of_ne fun key =>
    find?_eq_none_iff.1 free (key ▸ List.mem_map_of_mem he)

/-- A search does not look at sources. -/
theorem search_withSource (kinds : List CollectedKind) :
    (r.withSource kind name source).search kinds name' = r.search kinds name' := by
  unfold search
  congr 1
  funext kind'
  rw [known?_eq_map, known?_eq_map, find?_withSource, Option.map_map]
  rfl

/-- A claim on another name may be made before or after the source is changed. -/
theorem push_withSource (free : r.find? kind' name' = none)
    (free' : (r.withSource kind name source).find? kind' name' = none)
    (other : (kind', name') ≠ (kind, name)) :
    (r.withSource kind name source).push kind' name' source' free' =
      (r.push kind' name' source' free).withSource kind name source := by
  apply ext_entries
  have kept : Entry.withSource kind name source ⟨kind', name', source', none⟩ =
      ⟨kind', name', source', none⟩ := Entry.withSource_of_ne other
  simp only [withSource, push_entries, List.map_append, List.map_singleton, kept]

/-- A claim that has just been made is one for the other source. -/
theorem withSource_push (free : r.find? kind name = none) :
    (r.push kind name source' free).withSource kind name source =
      r.push kind name source free := by
  have others : (r.withSource kind name source).entries = r.entries :=
    congrArg entries (withSource_of_free free)
  have own : Entry.withSource kind name source ⟨kind, name, source', none⟩ =
      ⟨kind, name, source, none⟩ := Entry.withSource_of_key rfl
  apply ext_entries
  rw [push_entries, ← others]
  simp only [withSource, push_entries, List.map_append, List.map_singleton, own]

/-- So may a shape be written, into any claim. -/
theorem fill_withSource {x : Shape} :
    (r.withSource kind name source).fill kind' name' x =
      (r.fill kind' name' x).withSource kind name source := by
  apply ext_entries
  simp only [withSource, fill_entries, List.map_map]
  refine List.map_congr_left fun e _ => ?_
  by_cases filled : e.key = (kind', name')
  · simp [Entry.withSource, Entry.key, Prod.mk.inj filled]
  · rw [Function.comp_apply, Function.comp_apply, if_neg filled]
    exact if_neg filled

/-- So may a claim be abandoned: where it stands is told by its name. -/
theorem abandon_withSource : (r.withSource kind name source).abandon kind' name' =
    (r.abandon kind' name').withSource kind name source := by
  have status : (r.withSource kind name source).status kind' name' = r.status kind' name' := by
    unfold Registry.status
    rw [find?_withSource]
    cases r.find? kind' name' <;> rfl
  unfold abandon
  rw [status]
  split
  · apply ext_entries
    exact List.takeWhile_map
  · rfl

/-- Finishing answers alike, since it does not look at sources. -/
theorem tryFinalize_withSource (x : Shape) :
    (r.withSource kind name source).tryFinalize kind' name' x =
      ((r.tryFinalize kind' name' x).1,
        (r.tryFinalize kind' name' x).2.withSource kind name source) := by
  unfold tryFinalize
  rw [find?_withSource]
  cases found : r.find? kind' name' with
  | none => rfl
  | some e =>
    obtain ⟨own, called, made, _ | known⟩ := e
    · exact congrArg (Prod.mk (Except.ok x)) fill_withSource
    · simp only [Option.map_some, Entry.withSource]
      split <;> rfl

/-! ## Claims that were there before -/

theorem keys_subset_of_prefix (kept : base.entries <+: r.entries) : base.keys ⊆ r.keys := fun _ h =>
  (kept.map Entry.key).subset h

/-- A claim that was there before is found as it was. -/
theorem find?_of_prefix (kept : base.entries <+: r.entries)
    (found : base.find? kind name = some e) : r.find? kind name = some e := by
  obtain ⟨mem, key⟩ := find?_eq_some_iff.1 found
  exact find?_eq_some_iff.2 ⟨kept.subset mem, key⟩

/-- Writing a shape into a later claim leaves what was there before. -/
theorem prefix_fill (kept : base.entries <+: r.entries) (free : (kind, name) ∉ base.keys)
    (x : Shape) : base.entries <+: (r.fill kind name x).entries := by
  obtain ⟨later, split⟩ := kept
  have same : base.entries.map (fun e =>
      if e.key = (kind, name) then ⟨e.kind, e.name, e.source, some x⟩ else e) = base.entries := by
    refine (List.map_congr_left fun e he => if_neg ?_).trans (List.map_id _)
    exact fun key => free (key ▸ List.mem_map_of_mem he)
  rw [fill_entries, ← split, List.map_append, same]
  exact List.prefix_append _ _

/-- So does abandoning a later claim. -/
theorem prefix_abandon (kept : base.entries <+: r.entries) (free : (kind, name) ∉ base.keys) :
    base.entries <+: (r.abandon kind name).entries := by
  unfold abandon
  split
  · obtain ⟨later, split⟩ := kept
    have others : ∀ e ∈ base.entries, (e.key != (kind, name)) = true := fun e he =>
      bne_iff_ne.2 fun key => free (key ▸ List.mem_map_of_mem he)
    show base.entries <+: r.entries.takeWhile _
    rw [← split, List.takeWhile_append_of_pos others]
    exact List.prefix_append _ _
  · exact kept

/-- So does finishing one. -/
theorem prefix_tryFinalize (kept : base.entries <+: r.entries) (free : (kind, name) ∉ base.keys)
    (x : Shape) : base.entries <+: (r.tryFinalize kind name x).2.entries := by
  unfold tryFinalize
  split
  · exact kept
  · split
    · exact prefix_fill kept free x
    · split <;> exact kept

end Registry

namespace Pipeline

/-- The descriptors that something to be come back to is still to ask for. -/
def Frame.pending : Frame → List Descriptor
  | gathering _ _ parts => parts
  | collecting _ _ => []

/-- The descriptors that are asked for next. -/
def Control.pending : Control → List Descriptor
  | asking d => [d]
  | gathering _ _ parts => parts
  | answering _ => []

namespace Moment

variable {stock : List Stock} {definitions : List (String × Descriptor)} {options : OptionSet}
  {base : Registry} {m m' : Moment}

/-- What was claimed before stands in front, and it is not for this run to finish any of it or to
take it back. -/
structure Above (base : Registry) (m : Moment) : Prop where
  kept : base.entries <+: m.registry.entries
  own : ∀ key ∈ m.claimed, key ∉ base.keys

/-- A step takes back no claim that was there before the run. -/
theorem Above.next (above : m.Above base) (step : m.next stock definitions options = some m') :
    m'.Above base := by
  obtain ⟨control, stack, r⟩ := m
  obtain ⟨kept, own⟩ := above
  cases control with
  | asking d =>
    cases step
    rcases afterAsking_cases stock definitions d stack r with
      ⟨outcome, eq, -⟩ | eq | ⟨kind, name, source, free, eq⟩
    · exact eq ▸ ⟨kept, own⟩
    · exact eq ▸ ⟨kept, own⟩
    · rw [eq]
      refine ⟨kept.trans (List.prefix_append _ _), List.forall_mem_cons.2 ⟨fun old => ?_, own⟩⟩
      exact Registry.find?_eq_none_iff.1 free (Registry.keys_subset_of_prefix kept old)
  | gathering d shapes pending => cases pending <;> cases step <;> exact ⟨kept, own⟩
  | answering outcome =>
    rcases stack with _ | ⟨⟨d, shapes, pending⟩ | ⟨kind, name⟩, stack⟩
    · cases step
    · cases outcome <;> cases step <;> exact ⟨kept, own⟩
    · obtain ⟨free, others⟩ := List.forall_mem_cons.1 own
      cases outcome with
      | error fault =>
        cases step
        exact ⟨Registry.prefix_abandon kept free, others⟩
      | ok shape =>
        cases step
        exact ⟨Registry.prefix_tryFinalize kept free shape, others⟩

/-- So no step of a run does. -/
theorem Above.of_reaches (above : m.Above base) (run : Reaches stock definitions options m m') :
    m'.Above base := by
  induction run with
  | refl => exact above
  | tail _ step ih => exact ih.next step

/-! ## What a run asks for -/

/-- The descriptors that are still to be asked for, and the one that is asked for now. -/
def pending (m : Moment) : List Descriptor :=
  m.control.pending ++ m.stack.flatMap Frame.pending

/-- A step asks for nothing but what was to be asked for, and the parts of it. -/
theorem pending_next (step : m.next stock definitions options = some m') :
    ∀ d ∈ m'.pending, d ∈ m.pending ∨ ∃ whole ∈ m.pending, d ∈ whole.parts definitions := by
  obtain ⟨control, stack, r⟩ := m
  intro d hd
  cases control with
  | asking whole =>
    cases step
    have parts : d ∈ whole.parts definitions ++ stack.flatMap Frame.pending →
        d ∈ (⟨.asking whole, stack, r⟩ : Moment).pending ∨
          ∃ whole' ∈ (⟨.asking whole, stack, r⟩ : Moment).pending,
            d ∈ whole'.parts definitions := fun h =>
      (List.mem_append.1 h).elim (fun part => .inr ⟨whole, List.mem_cons_self, part⟩)
        fun later => .inl (List.mem_cons_of_mem _ later)
    rcases afterAsking_cases stock definitions whole stack r with
      ⟨outcome, eq, -⟩ | eq | ⟨kind, name, source, free, eq⟩
    · rw [eq] at hd
      exact .inl (List.mem_cons_of_mem _ hd)
    · rw [eq] at hd
      exact parts hd
    · rw [eq] at hd
      exact parts hd
  | gathering whole shapes parts =>
    cases parts with
    | nil =>
      cases step
      exact .inl hd
    | cons part parts =>
      cases step
      exact .inl hd
  | answering outcome =>
    rcases stack with _ | ⟨⟨whole, shapes, parts⟩ | ⟨kind, name⟩, stack⟩
    · cases step
    · cases outcome with
      | error fault =>
        cases step
        exact .inl (List.mem_append_right parts hd)
      | ok shape =>
        cases step
        exact .inl hd
    · cases outcome with
      | error fault =>
        cases step
        exact .inl hd
      | ok shape =>
        cases step
        exact .inl hd

/-- A run asks for nothing but what was to be asked for, the parts of it, the parts of those, and so
on. -/
theorem pending_of_reaches {among : Descriptor → Prop}
    (closed : ∀ d, among d → ∀ part ∈ d.parts definitions, among part)
    (all : ∀ d ∈ m.pending, among d) (run : Reaches stock definitions options m m') :
    ∀ d ∈ m'.pending, among d := by
  induction run with
  | refl => exact all
  | tail _ step ih =>
    intro d hd
    rcases pending_next step d hd with old | ⟨whole, there, part⟩
    · exact ih d old
    · exact closed whole (ih whole there) d part

/-! ## Runs with another source -/

/-- The same moment with another source in the claim on a name. -/
def withSource (kind : CollectedKind) (name : String) (source : Descriptor) (m : Moment) :
    Moment :=
  ⟨m.control, m.stack, m.registry.withSource kind name source⟩

variable {kind : CollectedKind} {name : String} {source : Descriptor} {e : Registry.Entry}

/-- A descriptor that is met under the name compares alike with two sources. -/
def Indifferent (definitions : List (String × Descriptor)) (kind : CollectedKind) (name : String)
    (source source' : Descriptor) (d : Descriptor) : Prop :=
  ∀ met, d.reading definitions = .collected kind name met → source.same met = source'.same met

/-- A descriptor that compares alike with both sources is answered alike. -/
theorem afterAsking_withSource {d : Descriptor} {stack : List Frame} {r : Registry}
    (found : r.find? kind name = some e)
    (alike : Indifferent definitions kind name e.source source d) :
    afterAsking stock definitions d stack (r.withSource kind name source) =
      (afterAsking stock definitions d stack r).withSource kind name source := by
  cases covered : Stock.covers stock d with
  | false => rw [afterAsking_uncovered covered, afterAsking_uncovered covered]; rfl
  | true =>
    cases reading : d.reading definitions with
    | malformed fault =>
      rw [afterAsking_malformed covered reading, afterAsking_malformed covered reading]
      rfl
    | unresolved other =>
      rw [afterAsking_unresolved covered reading, afterAsking_unresolved covered reading,
        Registry.search_withSource]
      rfl
    | composed =>
      rw [afterAsking_composed covered reading, afterAsking_composed covered reading]
      rfl
    | collected kind' name' met =>
      have there : (r.withSource kind name source).find? kind' name' =
          (r.find? kind' name').map (Registry.Entry.withSource kind name source) :=
        Registry.find?_withSource
      cases found' : r.find? kind' name' with
      | none =>
        rw [found'] at there
        have other : (kind', name') ≠ (kind, name) := by
          rintro ⟨⟩
          rw [found] at found'
          cases found'
        rw [afterAsking_free covered reading found', afterAsking_free covered reading there,
          Registry.push_withSource found' there other]
        rfl
      | some e' =>
        rw [found'] at there
        have compared : (e'.withSource kind name source).source.same met = e'.source.same met := by
          by_cases same : (kind', name') = (kind, name)
          · cases same
            cases found.symm.trans found'
            rw [Registry.Entry.withSource_of_key (Registry.find?_eq_some_iff.1 found).2]
            exact (alike met reading).symm
          · rw [Registry.Entry.withSource_of_ne]
            exact (Registry.find?_eq_some_iff.1 found').2 ▸ same
        cases same : e'.source.same met with
        | false =>
          rw [afterAsking_conflict covered reading found' same,
            afterAsking_conflict covered reading there (compared.trans same)]
          rfl
        | true =>
          rw [afterAsking_known covered reading found' same,
            afterAsking_known covered reading there (compared.trans same)]
          rfl

/-- A step is the same with either source, as long as what is asked for compares alike with both. -/
theorem next_withSource (found : m.registry.find? kind name = some e)
    (alike : ∀ d, m.control = .asking d → Indifferent definitions kind name e.source source d) :
    (m.withSource kind name source).next stock definitions options =
      (m.next stock definitions options).map (withSource kind name source) := by
  obtain ⟨control, stack, r⟩ := m
  cases control with
  | asking d => exact congrArg some (afterAsking_withSource found (alike d rfl))
  | gathering d shapes pending => cases pending <;> rfl
  | answering outcome =>
    rcases stack with _ | ⟨⟨d, shapes, pending⟩ | ⟨kind', name'⟩, stack⟩
    · rfl
    · cases outcome <;> rfl
    · cases outcome with
      | error fault =>
        simp only [Moment.next, withSource, Registry.abandon_withSource, Option.map_some]
      | ok shape =>
        simp only [Moment.next, withSource, Registry.tryFinalize_withSource, Option.map_some]

/-- A run goes through the same moments with another source in a claim that was there before it, as
long as whatever is met under the name compares alike with both. -/
theorem reaches_withSource (above : m.Above base) (found : base.find? kind name = some e)
    (run : Reaches stock definitions options m m')
    (alike : ∀ d stack r, Reaches stock definitions options m ⟨.asking d, stack, r⟩ →
      Indifferent definitions kind name e.source source d) :
    Reaches stock definitions options (m.withSource kind name source)
      (m'.withSource kind name source) := by
  induction run with
  | refl => exact .refl
  | @tail middle last run step ih =>
    refine ih.tail ?_
    have there := Registry.find?_of_prefix (above.of_reaches run).kept found
    rw [next_withSource there fun d asks => ?_, step]
    · rfl
    · obtain ⟨control, stack, r⟩ := middle
      cases asks
      exact alike d stack r run

/-- A run has one end. -/
theorem eq_of_reaches_last {last last' : Moment}
    (run : Reaches stock definitions options m last)
    (run' : Reaches stock definitions options m last')
    (ends : last.next stock definitions options = none)
    (ends' : last'.next stock definitions options = none) : last = last' := by
  have unique : Relator.RightUnique fun a b : Moment => a.next stock definitions options = some b :=
    fun _ _ _ one other => Option.some.inj (one.symm.trans other)
  rcases run.total_of_right_unique unique run' with onward | onward
  · rcases onward.cases_head with same | ⟨next, step, -⟩
    · exact same
    · rw [ends] at step
      cases step
  · rcases onward.cases_head with same | ⟨next, step, -⟩
    · exact same.symm
    · rw [ends'] at step
      cases step

end Moment

variable {stock : List Stock} {definitions : List (String × Descriptor)} {options : OptionSet}
  {kind : CollectedKind} {name : String} {source source' : Descriptor} {s : Session}

/-- The pass over the parts of a type comes out alike, whatever the claim on a name is for. -/
theorem shapesOf_withSource {d : Descriptor} {e : Registry.Entry} {ds : List Descriptor}
    (found : s.registry.find? kind name = some e)
    (alike : ∀ met stack r, Moment.Reaches stock definitions options
        ⟨.gathering d [] ds, [], s.registry⟩ ⟨.asking met, stack, r⟩ →
      Moment.Indifferent definitions kind name e.source source met) :
    let one := (unbounded stock definitions).shapesOf options ds s
    let other := (unbounded stock definitions).shapesOf options ds
      ⟨s.registry.withSource kind name source, s.journal⟩
    other.1.map (d.assembled definitions options) = one.1.map (d.assembled definitions options) ∧
      other.2.registry = one.2.registry.withSource kind name source := by
  intro one other
  have run := ((Moment.runLaw stock definitions options).shapes ds s).2 d [] []
  have run' := ((Moment.runLaw stock definitions options).shapes ds
    ⟨s.registry.withSource kind name source, s.journal⟩).2 d [] []
  have above : (⟨.gathering d [] ds, [], s.registry⟩ : Moment).Above s.registry :=
    ⟨List.prefix_refl _, fun key hkey => absurd hkey List.not_mem_nil⟩
  have same := Moment.eq_of_reaches_last run' (Moment.reaches_withSource above found run alike)
    rfl rfl
  exact ⟨Control.answering.inj (Moment.mk.inj same).1, (Moment.mk.inj same).2.2⟩

/-- Two descriptors that are collected under one name, which is vacant, and have the same parts come
out alike, and leave registries that differ in the source of the claim alone. -/
theorem shape_withSource {d d' : Descriptor} (covered : Stock.covers stock d = true)
    (covered' : Stock.covers stock d' = true)
    (reading : d.reading definitions = .collected kind name source)
    (reading' : d'.reading definitions = .collected kind name source')
    (parts : d'.parts definitions = d.parts definitions)
    (made : d'.assembled definitions options = d.assembled definitions options)
    (free : s.registry.find? kind name = none)
    (alike : ∀ met stack r, Moment.Reaches stock definitions options
        ⟨.gathering d [] (d.parts definitions), [], s.registry.push kind name source free⟩
        ⟨.asking met, stack, r⟩ →
      Moment.Indifferent definitions kind name source source' met) :
    let one := (ofStock stock definitions).shape d options s
    let other := (ofStock stock definitions).shape d' options s
    other.1 = one.1 ∧ other.2.registry = one.2.registry.withSource kind name source' := by
  intro one other
  have claimed : (s.registry.push kind name source free).find? kind name =
      some ⟨kind, name, source, none⟩ :=
    Registry.find?_eq_some_iff.2 ⟨List.mem_append_right _ List.mem_cons_self, rfl⟩
  have both := @shapesOf_withSource stock definitions options kind name source'
    ⟨s.registry.push kind name source free, s.journal⟩ _ _ _ claimed alike
  simp only [Registry.withSource_push] at both
  rcases taken : (unbounded stock definitions).shapesOf options (d.parts definitions)
    ⟨s.registry.push kind name source free, s.journal⟩ with ⟨outcome, after⟩
  rcases taken' : (unbounded stock definitions).shapesOf options (d.parts definitions)
    ⟨s.registry.push kind name source' free, s.journal⟩ with ⟨outcome', after'⟩
  rw [taken, taken'] at both
  obtain ⟨outcomes, registries⟩ := both
  rw [← parts] at taken'
  cases outcome with
  | error fault =>
    cases outcome' with
    | ok => cases outcomes
    | error fault' =>
      cases outcomes
      simp only [one, other, shape_of_undone covered reading free taken,
        shape_of_undone covered' reading' free taken', Registry.withSource_of_free free, and_self]
  | ok xs =>
    cases outcome' with
    | error fault' => cases outcomes
    | ok ys =>
      have shapes := Except.ok.inj outcomes
      have left : after'.registry = after.registry.withSource kind name source' := registries
      simp only [one, other, shape_of_built covered reading free taken,
        shape_of_built covered' reading' free taken', made, shapes, left,
        Registry.fill_withSource, and_self]

end Pipeline

end TypeCatalog
