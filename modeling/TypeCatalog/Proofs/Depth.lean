import TypeCatalog.Proofs.Components
import TypeCatalog.Proofs.Discipline

/-!
The depth of an extraction.

A reference leads from a descriptor to a definition that may be larger and may lead back.  It
still comes to an end, because the name of a definition is claimed before the definition is
entered and stays claimed as long as something inside is built.  `openSize` counts the
definitions whose names are free, and `depth` adds what is left of the descriptor at hand; every
step from a descriptor to one of its parts makes it smaller (`depth_part_lt`,
`depth_part_lt_of_claimed`).  So a bound of `depth` is never reached (`endsAs_of_depth_le`),
whatever the registry holds, and `Pipeline.shape` is one answer for all larger bounds.
-/

namespace TypeCatalog

open Recognizer

/-! ## Builds within a bound -/

namespace Pipeline

variable (stock : List Stock) (definitions : List (String × Descriptor)) (options : OptionSet)

/-- The surroundings that a stock pipeline gives its recognizers within a bound. -/
def within (bound : Nat) : Surroundings :=
  ⟨(ofStock stock definitions).shapeWithin bound, definitions⟩

/-- One step of a stock pipeline. -/
theorem shapeWithin_succ (bound : Nat) (d : Descriptor) :
    (ofStock stock definitions).shapeWithin (bound + 1) d options =
      if Stock.covers stock d then (within stock definitions bound).read options d
      else pure .unknown :=
  Stock.firstClaim_stock (within stock definitions bound) options stock d

theorem disciplined_shapeWithin (bound : Nat) (d : Descriptor) :
    ((ofStock stock definitions).shapeWithin bound d options).Disciplined :=
  (disciplined_ofStock stock definitions).shapeWithin bound d options

end Pipeline

/-! ## What is left to be entered -/

namespace Descriptor

/-- The kind and the name under which a definition is collected. -/
def definedKey (name : String) (definition : Descriptor) : CollectedKind × String :=
  definition.ownKey?.getD (.typeAlias, name)

/-- The sizes of the definitions whose names are not among those claimed. -/
def openSize (claimed : List (CollectedKind × String)) : List (String × Descriptor) → Nat
  | [] => 0
  | (name, d) :: rest =>
    (if definedKey name d ∈ claimed then 0 else d.size) + openSize claimed rest

/-- How deep the parts of a descriptor are asked for at most. -/
def depth (definitions : List (String × Descriptor)) (claimed : List (CollectedKind × String)) :
    Descriptor → Nat
  | empty => 1
  | d =>
    match d.ownKey? with
    | some key =>
      if key ∈ claimed then 1 else d.size + 1 + openSize (key :: claimed) definitions
    | Option.none => d.size + 1 + openSize claimed definitions

/-! ## Free definitions -/

section Sizes

variable {definitions : List (String × Descriptor)}
  {claimed claimed' : List (CollectedKind × String)}

theorem openSize_le_sizeTable : openSize claimed definitions ≤ sizeTable definitions := by
  induction definitions with
  | nil => exact Nat.le_refl _
  | cons entry rest ih =>
    simp only [openSize, sizeTable]
    split <;> omega

/-- The more names are claimed, the less is left to be entered. -/
theorem openSize_anti (h : claimed ⊆ claimed') :
    openSize claimed' definitions ≤ openSize claimed definitions := by
  induction definitions with
  | nil => exact Nat.le_refl _
  | cons entry rest ih =>
    obtain ⟨name, d⟩ := entry
    simp only [openSize]
    by_cases old : definedKey name d ∈ claimed
    · rw [if_pos old, if_pos (h old)]
      omega
    · rw [if_neg old]
      split <;> omega

/-- Claiming the name of a definition takes the definition off what is left. -/
theorem openSize_claim {name : String} {d : Descriptor} (h : (name, d) ∈ definitions)
    (free : definedKey name d ∉ claimed) :
    openSize (definedKey name d :: claimed) definitions + d.size ≤
      openSize claimed definitions := by
  induction definitions with
  | nil => cases h
  | cons entry rest ih =>
    obtain ⟨other, first⟩ := entry
    have shrunk : openSize (definedKey name d :: claimed) rest ≤ openSize claimed rest :=
      openSize_anti (List.subset_cons_self _ _)
    simp only [openSize]
    rcases List.mem_cons.1 h with eq | later
    · cases eq
      rw [if_pos List.mem_cons_self, if_neg free]
      omega
    · have := ih later
      by_cases old : definedKey other first ∈ claimed
      · rw [if_pos old, if_pos (List.mem_cons_of_mem _ old)]
        omega
      · rw [if_neg old]
        split <;> omega

/-! ## Parts are less deep -/

theorem depth_pos (d : Descriptor) : 0 < depth definitions claimed d := by
  unfold depth
  split
  · exact Nat.one_pos
  · split
    · split <;> omega
    · omega

/-- A descriptor is no deeper than its size and all that is left to be entered. -/
theorem depth_le (d : Descriptor) :
    depth definitions claimed d ≤ d.size + 1 + openSize claimed definitions := by
  have := d.size_pos
  unfold depth
  split
  · omega
  · split
    · rename_i key own
      have : openSize (key :: claimed) definitions ≤ openSize claimed definitions :=
        openSize_anti (List.subset_cons_self _ _)
      split <;> omega
    · omega

theorem depth_of_ownKey_eq_none {d : Descriptor} (own : d.ownKey? = Option.none)
    (ne : d ≠ empty) :
    depth definitions claimed d = d.size + 1 + openSize claimed definitions := by
  unfold depth
  split
  · exact absurd rfl ne
  · rw [own]

/-- A collected type is not entered while its name is claimed, and leaves itself out once it is. -/
theorem depth_of_ownKey {d : Descriptor} {key : CollectedKind × String}
    (own : d.ownKey? = some key) :
    depth definitions claimed d =
      if key ∈ claimed then 1 else d.size + 1 + openSize (key :: claimed) definitions := by
  unfold depth
  split
  · cases own
  · rw [own]

/-- The parts of a type that is not collected are less deep. -/
theorem depth_part_lt {d part : Descriptor} (h : part ∈ d.parts definitions)
    (composed : d.reading definitions = .composed) (later : claimed ⊆ claimed') :
    depth definitions claimed' part < depth definitions claimed d := by
  obtain ⟨own, named⟩ := composed_cases composed
  have shrunk : openSize claimed' definitions ≤ openSize claimed definitions :=
    openSize_anti later
  have positive := d.size_pos
  rw [depth_of_ownKey_eq_none own (ne_empty_of_part h)]
  rcases part_cases h with component | rfl | ⟨name, rfl, found⟩
  · have smaller := size_lt_of_mem_components component
    have bound : depth definitions claimed' part ≤
        part.size + 1 + openSize claimed' definitions := depth_le part
    omega
  · show 1 < _
    omega
  · obtain ⟨key, own'⟩ := Option.isSome_iff_exists.1 (named name part rfl found)
    have defined : definedKey name part = key := by rw [definedKey, own', Option.getD_some]
    rw [depth_of_ownKey own']
    split
    · omega
    · rename_i free
      have taken := openSize_claim (Assoc.mem_of_find? found) (defined ▸ free)
      rw [defined] at taken
      omega

/-- The parts of a type that is collected are less deep once its name is claimed. -/
theorem depth_part_lt_of_claimed {d part source : Descriptor} {kind : CollectedKind}
    {name : String} (h : part ∈ d.parts definitions)
    (collected : d.reading definitions = .collected kind name source)
    (free : (kind, name) ∉ claimed) (later : (kind, name) :: claimed ⊆ claimed') :
    depth definitions claimed' part < depth definitions claimed d := by
  have bound : depth definitions claimed' part ≤
      part.size + 1 + openSize claimed' definitions := depth_le part
  have shrunk : openSize claimed' definitions ≤ openSize ((kind, name) :: claimed) definitions :=
    openSize_anti later
  have positive := d.size_pos
  rcases collected_cases collected with ⟨own, -⟩ | ⟨rfl, rfl, found, own⟩
  · rw [depth_of_ownKey own, if_neg free]
    rcases part_cases h with component | rfl | ⟨other, rfl, -⟩
    · have smaller := size_lt_of_mem_components component
      omega
    · show 1 < _
      omega
    · cases own
  · obtain rfl : part = source := by
      rw [parts, found] at h
      exact List.mem_singleton.1 h
    have defined : definedKey name part = (.typeAlias, name) := by
      rw [definedKey, own, Option.getD_none]
    have taken := openSize_claim (Assoc.mem_of_find? found) (defined ▸ free)
    rw [defined] at taken
    rw [depth_of_ownKey_eq_none rfl (ne_empty_of_part h)]
    omega

end Sizes

end Descriptor

/-! ## The bound is never reached -/

namespace Build

variable {α β : Type} {s : Session}

/-- A build comes to an end in a session, and does there what another build does. -/
def EndsAs (b b' : Build α) (s : Session) : Prop :=
  b' s = b s ∧ ∀ e, (b s).1 = .error e → e ≠ .endless

theorem endsAs_pure (a : α) : (Pure.pure a : Build α).EndsAs (Pure.pure a) s :=
  ⟨rfl, fun _ eq => by cases eq⟩

/-- A build that fails ends, unless it fails for the bound. -/
theorem endsAs_fail {e : ExtractError} (h : e ≠ .endless) :
    (Build.fail e : Build α).EndsAs (Build.fail e) s :=
  ⟨rfl, fun e' eq => by cases eq; exact h⟩

/-- One build after another comes to an end if both do. -/
theorem EndsAs.bind {first first' : Build α} {next next' : α → Build β}
    (h : first.EndsAs first' s)
    (h' : ∀ a s', first s = (.ok a, s') → (next a).EndsAs (next' a) s') :
    (first >>= next).EndsAs (first' >>= next') s := by
  obtain ⟨same, ends⟩ := h
  rcases outcome : first s with ⟨e | a, s'⟩
  · rw [outcome] at same ends
    refine ⟨(bind_error same).trans (bind_error outcome).symm, fun e' eq => ?_⟩
    rw [bind_error outcome] at eq
    cases eq
    exact ends e rfl
  · rw [outcome] at same
    obtain ⟨same', ends'⟩ := h' a s' outcome
    refine ⟨?_, fun e eq => ends' e ?_⟩
    · rw [bind_ok same, bind_ok outcome, same']
    · rw [bind_ok outcome] at eq
      exact eq

/-- A collected build comes to an end if what it builds does once the name is claimed. -/
theorem Growing.endsAs_collect {kind : CollectedKind} {name : String} {source : Descriptor}
    {b b' : Build Shape} (growing : b.Growing)
    (h : ∀ free : s.registry.find? kind name = none,
      b.EndsAs b' ⟨s.registry.push kind name source free, s.journal⟩) :
    (Build.collect kind name source b).EndsAs (Build.collect kind name source b') s := by
  cases found : s.registry.find? kind name with
  | some e =>
    cases same : e.source.same source with
    | false =>
      refine ⟨(collect_of_conflict found same).trans (collect_of_conflict found same).symm, ?_⟩
      rw [collect_of_conflict found same]
      exact fun e eq => by cases eq; exact ExtractError.noConfusion
    | true =>
      refine ⟨(collect_of_known found same).trans (collect_of_known found same).symm, ?_⟩
      rw [collect_of_known found same]
      exact fun e eq => by cases eq
  | none =>
    obtain ⟨same, ends⟩ := h found
    refine ⟨?_, fun e eq => ?_⟩
    · rw [collect_of_free found, collect_of_free found, complete, complete, same]
    · rcases outcome : b ⟨s.registry.push kind name source found, s.journal⟩ with ⟨e' | x, s'⟩
      · rw [outcome] at ends
        rw [collect_of_error growing found outcome] at eq
        cases eq
        exact ends e rfl
      · rw [collect_of_ok growing found outcome] at eq
        cases eq

end Build

namespace Surroundings

variable {f g : Surroundings} {options : OptionSet} {s : Session}

/-- Shapes that come to an end one by one do so together. -/
theorem endsAs_shapesOf (disciplined : ∀ d, (f.shapeOf d options).Disciplined)
    {ds : List Descriptor} (h : ∀ d ∈ ds, ∀ s', s.registry.Grows s'.registry →
      (f.shapeOf d options).EndsAs (g.shapeOf d options) s') :
    (f.shapesOf options ds).EndsAs (g.shapesOf options ds) s := by
  induction ds generalizing s with
  | nil => exact Build.endsAs_pure []
  | cons d rest ih =>
    refine (h d List.mem_cons_self s (.refl _)).bind fun shape s' outcome => ?_
    have grown := (disciplined d).growing s
    rw [outcome] at grown
    refine (ih fun d hd s'' grown' => ?_).bind fun shapes _ _ => Build.endsAs_pure _
    exact h d (List.mem_cons_of_mem _ hd) s'' (grown.trans grown')

/-- A type that is put together comes to an end if its parts do. -/
theorem endsAs_compose (disciplined : ∀ d, (f.shapeOf d options).Disciplined) {d : Descriptor}
    (h : ∀ part ∈ d.parts f.definitions, ∀ s', s.registry.Grows s'.registry →
      (f.shapeOf part options).EndsAs (g.shapeOf part options) s')
    (same : g.definitions = f.definitions) :
    (f.compose options d).EndsAs (g.compose options d) s := by
  unfold compose
  rw [same]
  exact (endsAs_shapesOf disciplined h).bind fun _ _ _ => Build.endsAs_pure _

/-- A descriptor is read to an end if everything less deep is. -/
theorem endsAs_read (disciplined : ∀ d, (f.shapeOf d options).Disciplined) {d : Descriptor}
    (h : ∀ part s', part.depth f.definitions s'.registry.keys <
        d.depth f.definitions s.registry.keys →
      (f.shapeOf part options).EndsAs (g.shapeOf part options) s')
    (same : g.definitions = f.definitions) :
    (f.read options d).EndsAs (g.read options d) s := by
  cases read : d.reading f.definitions with
  | malformed fault =>
    rw [read_malformed options read, read_malformed options (same ▸ read)]
    exact Build.endsAs_fail (Descriptor.ne_endless_of_malformed read)
  | unresolved name =>
    rw [read_unresolved options read, read_unresolved options (same ▸ read)]
    exact Build.EndsAs.bind ⟨rfl, fun _ eq => by cases eq⟩ fun _ _ _ => Build.endsAs_pure _
  | composed =>
    rw [read_composed options read, read_composed options (same ▸ read)]
    refine endsAs_compose disciplined ?_ same
    intro part hp s' grown
    exact h part s' (Descriptor.depth_part_lt hp read grown.keys_subset)
  | collected kind name source =>
    rw [read_collected options read, read_collected options (same ▸ read)]
    refine (disciplined_compose disciplined d).growing.endsAs_collect fun free =>
      endsAs_compose disciplined ?_ same
    intro part hp s' grown
    refine h part s' (Descriptor.depth_part_lt_of_claimed hp read
      (Registry.find?_eq_none_iff.1 free) fun key hkey => grown.keys_subset ?_)
    rw [Registry.push_keys, List.mem_append, List.mem_singleton]
    exact (List.mem_cons.1 hkey).symm

end Surroundings

namespace Pipeline

variable (stock : List Stock) (definitions : List (String × Descriptor)) (options : OptionSet)

/-- A bound as large as the depth of a descriptor is not reached, and any larger one gives the
same answer. -/
theorem endsAs_of_depth_le {bound bound' : Nat} (le : bound ≤ bound') {d : Descriptor}
    {s : Session} (h : d.depth definitions s.registry.keys ≤ bound) :
    ((ofStock stock definitions).shapeWithin bound d options).EndsAs
      ((ofStock stock definitions).shapeWithin bound' d options) s := by
  induction bound generalizing bound' d s with
  | zero =>
    have positive : 0 < d.depth definitions s.registry.keys := Descriptor.depth_pos d
    omega
  | succ bound ih =>
    obtain ⟨bound', rfl⟩ : ∃ n, bound' = n + 1 := ⟨bound' - 1, by omega⟩
    rw [shapeWithin_succ, shapeWithin_succ]
    split
    · have disciplined := disciplined_shapeWithin stock definitions options bound
      refine Surroundings.endsAs_read disciplined ?_ rfl
      intro part s' lt
      exact ih (by omega) (Nat.le_of_lt_succ (Nat.lt_of_lt_of_le lt h))
    · exact Build.endsAs_pure _

/-- The bound of a pipeline is as large as the depth, whatever is claimed. -/
theorem depth_le_depthFor (d : Descriptor) (claimed : List (CollectedKind × String)) :
    d.depth definitions claimed ≤ (ofStock stock definitions).depthFor d.size := by
  have bound : d.depth definitions claimed ≤
      d.size + 1 + Descriptor.openSize claimed definitions := Descriptor.depth_le d
  have total : Descriptor.openSize claimed definitions ≤ Descriptor.sizeTable definitions :=
    Descriptor.openSize_le_sizeTable
  show _ ≤ d.size + Descriptor.sizeTable definitions + 2
  omega

/-- Any bound that is large enough gives the shape. -/
theorem shapeWithin_eq_shape {bound : Nat} {d : Descriptor} {s : Session}
    (h : d.depth definitions s.registry.keys ≤ bound) :
    (ofStock stock definitions).shapeWithin bound d options s =
      (ofStock stock definitions).shape d options s := by
  have least := endsAs_of_depth_le stock definitions options h (Nat.le_refl _)
  have chosen := endsAs_of_depth_le stock definitions options
    (depth_le_depthFor stock definitions d s.registry.keys) (Nat.le_refl _)
  exact least.1.trans chosen.1.symm

/-- A shape is never given up for the bound. -/
theorem shape_ne_endless (d : Descriptor) (s : Session) :
    ((ofStock stock definitions).shape d options s).1 ≠ .error .endless := by
  intro eq
  have enough := depth_le_depthFor stock definitions d s.registry.keys
  exact (endsAs_of_depth_le stock definitions options (Nat.le_refl _) enough).2 _ eq rfl

/-- The surroundings in which every descriptor has its shape, without a bound. -/
def unbounded : Surroundings :=
  ⟨(ofStock stock definitions).shape, definitions⟩

/-- The shape of a descriptor is what the recognizers make of the shapes of others. -/
theorem shape_eq_firstClaim (d : Descriptor) (s : Session) :
    (ofStock stock definitions).shape d options s =
      firstClaim (unbounded stock definitions) d options (stock.map Stock.recognizer) s := by
  have enough := depth_le_depthFor stock definitions d s.registry.keys
  have bound : (ofStock stock definitions).depthFor d.size =
      d.size + Descriptor.sizeTable definitions + 1 + 1 := rfl
  rw [Stock.firstClaim_stock, shape, bound, shapeWithin_succ]
  split
  · refine (Surroundings.endsAs_read (f := within stock definitions _)
      (g := unbounded stock definitions) (disciplined_shapeWithin stock definitions options _)
      ?_ rfl).1.symm
    intro part s' lt
    have le : part.depth definitions s'.registry.keys ≤
        d.size + Descriptor.sizeTable definitions + 1 :=
      Nat.le_of_lt_succ (Nat.lt_of_lt_of_le lt enough)
    exact ⟨(shapeWithin_eq_shape stock definitions options le).symm,
      (endsAs_of_depth_le stock definitions options (Nat.le_refl _) le).2⟩
  · rfl

/-- **An extraction comes to an end.**  Whatever stock recognizers a pipeline has, however its
definitions refer to each other and whatever the registry holds, a depth that is taken from the
sizes of the descriptor and the definitions is never reached, and a larger one changes nothing;
so the shape is what the recognizers make of it when they ask for shapes without any bound. -/
theorem shape_terminates (d : Descriptor) (s : Session) :
    ((ofStock stock definitions).shape d options s).1 ≠ .error .endless ∧
      (∀ further, (ofStock stock definitions).shapeWithin
          ((ofStock stock definitions).depthFor d.size + further) d options s =
        (ofStock stock definitions).shape d options s) ∧
      (ofStock stock definitions).shape d options s =
        firstClaim ⟨(ofStock stock definitions).shape, definitions⟩ d options
          (stock.map Stock.recognizer) s := by
  refine ⟨shape_ne_endless stock definitions options d s, fun further => ?_,
    shape_eq_firstClaim stock definitions options d s⟩
  have enough := depth_le_depthFor stock definitions d s.registry.keys
  exact shapeWithin_eq_shape stock definitions options (Nat.le_add_right_of_le enough)

end Pipeline

end TypeCatalog
