import TypeCatalog.Proofs.Catalog
import TypeCatalog.Proofs.Claims
import TypeCatalog.Proofs.Run
import TypeCatalog.Proofs.Sameness

/-!
When an extraction fails.

An extraction enters what is behind a name only once, and refers to it from then on.  Nothing
escapes it for that.  A name that is met again is compared with the descriptor that it was
claimed for, and what is the same has parts that are the same; so everything that can be reached
from the roots is `Settled` once the extraction has succeeded (`settledLaw`,
`settled_of_reaches`).  Conversely all that is entered can be reached, so an extraction that fails
has met a malformed descriptor or two different ones for one name (`faultLaw`).  Both together say
when a document can be extracted (`extract_succeeds_iff`); the options have no part in it.
-/

namespace TypeCatalog

open Recognizer

namespace Descriptor

variable {definitions : List (String × Descriptor)}

/-! ## Malformed descriptors -/

/-- What no extraction accepts. -/
inductive Malformed (definitions : List (String × Descriptor)) : Descriptor → Prop
  | listArgs {origin args} : Origin.of? origin = some .list → 1 < args.length →
    Malformed definitions (generic origin args)
  | keyValueArgs {origin args} :
    Origin.of? origin = some .dict ∨ Origin.of? origin = some .mapping →
    ¬(args.length = 0 ∨ args.length = 2) → Malformed definitions (generic origin args)
  /-- Dots stand in a tuple anywhere but behind a single type. -/
  | tupleDots {origin args} : Origin.of? origin = some .tuple → .ellipsis ∈ args →
    (∀ element, element ≠ .ellipsis → args ≠ [element, .ellipsis]) →
    Malformed definitions (generic origin args)
  | emptyUnion : Malformed definitions (union [])
  | emptyLiteral : Malformed definitions (literal [])
  /-- A class declares type parameters, and not as many as there are arguments. -/
  | typeParams {base args} : (base.declared definitions).length ≠ 0 →
    (base.declared definitions).length ≠ args.length →
    Malformed definitions (parameterized base args)

theorem any_isEllipsis_positional_iff {args : List Descriptor} :
    (positional args).any isEllipsis = true ↔
      .ellipsis ∈ args ∧ ∀ element, element ≠ .ellipsis → args ≠ [element, .ellipsis] := by
  cases opened : isOpen args with
  | true =>
    obtain ⟨element, rfl⟩ := isOpen_iff.1 opened
    have first : positional [element, .ellipsis] = [element] := rfl
    rw [first, List.any_cons, List.any_nil, Bool.or_false, isEllipsis_iff]
    constructor
    · rintro rfl
      exact ⟨List.mem_cons_self, fun _ ne eq => ne (List.cons.inj eq).1.symm⟩
    · rintro ⟨-, none⟩
      by_contra ne
      exact none element ne rfl
  | false =>
    have all : positional args = args := by simp [positional, opened]
    rw [all, List.any_eq_true]
    constructor
    · rintro ⟨d, hd, dots⟩
      obtain rfl := isEllipsis_iff.1 dots
      refine ⟨hd, fun element _ eq => ?_⟩
      rw [isOpen_iff.2 ⟨element, eq⟩] at opened
      cases opened
    · rintro ⟨dots, -⟩
      exact ⟨_, dots, isEllipsis_iff.2 rfl⟩

theorem fault?_ne_none_iff {origin : String} {args : List Descriptor} {family : Origin}
    (held : Origin.of? origin = some family) :
    family.fault? origin args ≠ Option.none ↔ Malformed definitions (generic origin args) := by
  have fixed : ∀ {other}, Origin.of? origin = some other → family = other :=
    fun held' => Option.some.inj (held.symm.trans held')
  constructor
  · intro fault
    cases family with
    | list =>
      have many : ¬args.length ≤ 1 := fun few => fault (if_pos few)
      exact .listArgs held (Nat.lt_of_not_le many)
    | dict => exact .keyValueArgs (.inl held) fun allowed => fault (if_pos allowed)
    | mapping => exact .keyValueArgs (.inr held) fun allowed => fault (if_pos allowed)
    | tuple =>
      have dots : (positional args).any isEllipsis = true := by
        by_contra no
        exact fault (if_neg no)
      obtain ⟨listed, misplaced⟩ := any_isEllipsis_positional_iff.1 dots
      exact .tupleDots held listed misplaced
  · intro malformed
    cases malformed with
    | listArgs held' many =>
      obtain rfl := fixed held'
      rw [Origin.fault?, if_neg (Nat.not_le.2 many)]
      exact Option.some_ne_none _
    | keyValueArgs held' wrong =>
      rcases held' with held' | held' <;> obtain rfl := fixed held' <;>
      · rw [Origin.fault?, if_neg wrong]
        exact Option.some_ne_none _
    | tupleDots held' listed misplaced =>
      obtain rfl := fixed held'
      rw [Origin.fault?, if_pos (any_isEllipsis_positional_iff.2 ⟨listed, misplaced⟩)]
      exact Option.some_ne_none _

theorem malformed_of_reading {d : Descriptor} {fault : ExtractError}
    (h : d.reading definitions = .malformed fault) : d.Malformed definitions := by
  cases d with
  | generic origin args =>
    simp only [reading] at h
    split at h
    · rename_i fault eq
      obtain ⟨family, held, faulty⟩ := Option.bind_eq_some_iff.1 eq
      rw [← fault?_ne_none_iff held, faulty]
      exact Option.some_ne_none fault
    · cases h
  | union members =>
    cases members with
    | nil => exact .emptyUnion
    | cons => cases h
  | literal values =>
    cases values with
    | nil => exact .emptyLiteral
    | cons => cases h
  | parameterized base args =>
    simp only [reading] at h
    split at h
    · rename_i wrong
      exact .typeParams wrong.1 wrong.2
    · cases h
  | ref name =>
    simp only [reading] at h
    split at h
    · cases h
    · split at h <;> cases h
  | _ => cases h

/-- A descriptor is malformed if there is a fault to report. -/
theorem reading_malformed_iff {d : Descriptor} :
    (∃ fault, d.reading definitions = .malformed fault) ↔ d.Malformed definitions := by
  constructor
  · rintro ⟨fault, h⟩
    exact malformed_of_reading h
  · have generic : ∀ {origin args}, Malformed definitions (.generic origin args) →
        ∀ {family}, Origin.of? origin = some family →
        ∃ fault, (Descriptor.generic origin args).reading definitions = .malformed fault := by
      intro origin args malformed family held
      obtain ⟨fault, faulty⟩ :=
        Option.ne_none_iff_exists'.1 ((fault?_ne_none_iff held).2 malformed)
      exact ⟨fault, by simp only [reading, held, Option.bind_some, faulty]⟩
    intro malformed
    cases malformed with
    | listArgs held many => exact generic (.listArgs held many) held
    | keyValueArgs held wrong =>
      rcases held with held | held
      · exact generic (.keyValueArgs (.inl held) wrong) held
      · exact generic (.keyValueArgs (.inr held) wrong) held
    | tupleDots held listed misplaced => exact generic (.tupleDots held listed misplaced) held
    | emptyUnion => exact ⟨_, rfl⟩
    | emptyLiteral => exact ⟨_, rfl⟩
    | typeParams some' other => exact ⟨_, by simp only [reading]; exact if_pos ⟨some', other⟩⟩

/-! ## Descriptors that are settled -/

/-- Nothing is wrong with a descriptor as far as its parts, and the names that it is made of are
collected for descriptors like those here. -/
inductive Settled (definitions : List (String × Descriptor)) (claims : List Claim) :
    Descriptor → Prop
  | unresolved {d name} : d.reading definitions = .unresolved name → Settled definitions claims d
  | composed {d} : d.reading definitions = .composed →
    (∀ part ∈ d.parts definitions, Settled definitions claims part) → Settled definitions claims d
  | collected {d kind name source c} : d.reading definitions = .collected kind name source →
    c ∈ claims → c.key = (kind, name) → Like c.source source → Settled definitions claims d

theorem Distinct.part {d part : Descriptor}
    (distinct : ∀ entry ∈ definitions, entry.2.Distinct) (h : d.Distinct)
    (hp : part ∈ d.parts definitions) : part.Distinct := by
  rcases part_cases hp with component | rfl | ⟨name, rfl, found⟩
  · exact h.component component
  · exact .of_leaf trivial rfl
  · exact distinct _ (Assoc.mem_of_find? found)

variable {claims : List Claim}

theorem Settled.not_malformed {d : Descriptor} (h : Settled definitions claims d) :
    ¬d.Malformed definitions := by
  intro malformed
  obtain ⟨fault, reading⟩ := reading_malformed_iff.2 malformed
  cases h with
  | unresolved reading' => simp [reading] at reading'
  | composed reading' => simp [reading] at reading'
  | collected reading' => simp [reading] at reading'

/-- What is settled and collected has a claim, for a descriptor like its own. -/
theorem Settled.exists_claim {d source : Descriptor} {kind : CollectedKind} {name : String}
    (h : Settled definitions claims d)
    (reading : d.reading definitions = .collected kind name source) :
    ∃ c ∈ claims, c.key = (kind, name) ∧ Like c.source source := by
  cases h with
  | unresolved reading' => simp [reading] at reading'
  | composed reading' => simp [reading] at reading'
  | collected reading' mem key like =>
    rw [reading] at reading'
    cases reading'
    exact ⟨_, mem, key, like⟩

/-- What is the same as something settled is settled. -/
theorem Settled.of_same {a b : Descriptor}
    (tables : ∀ entry ∈ definitions, entry.2.Distinct) (settled : Settled definitions claims a)
    (h : Same a b) (distinct : a.Distinct) (distinct' : b.Distinct) :
    Settled definitions claims b := by
  induction settled generalizing b with
  | unresolved reading =>
    have alike := reading_alike h definitions
    rw [reading] at alike
    exact .unresolved alike.eq_unresolved
  | composed reading parts ih =>
    have alike := reading_alike h definitions
    rw [reading] at alike
    refine .composed alike.eq_composed fun part hpart => ?_
    obtain ⟨p, hp, like⟩ := exists_part_of_same h distinct distinct' hpart
    rcases like with rfl | same
    · exact parts p hp
    · exact ih p hp same (distinct.part tables hp) (distinct'.part tables hpart)
  | collected reading mem key like =>
    have alike := reading_alike h definitions
    rw [reading] at alike
    obtain ⟨source', reading', like'⟩ := alike.eq_collected
    exact .collected reading' mem key (like.trans like')

end Descriptor

/-! ## What can be reached -/

namespace Document

open Descriptor (Settled Like)

/-- The descriptors that can be reached from the roots of a document. -/
inductive Reaches (doc : Document) : Descriptor → Prop
  | root {entry} : entry ∈ doc.roots → Reaches doc entry.2
  | part {d part} : Reaches doc d → part ∈ d.parts doc.definitions → Reaches doc part

/-- The tables in the descriptors of a document are maps, as they are in every document that is
decoded. -/
structure Distinct (doc : Document) : Prop where
  roots : ∀ entry ∈ doc.roots, entry.2.Distinct
  definitions : ∀ entry ∈ doc.definitions, entry.2.Distinct

/-- What makes an extraction fail: a malformed descriptor, or two different ones for one name. -/
def Faulty (doc : Document) : Prop :=
  (∃ d, doc.Reaches d ∧ d.Malformed doc.definitions) ∨
    ∃ a b, doc.Reaches a ∧ doc.Reaches b ∧ a.ownKey?.isSome ∧ a.ownKey? = b.ownKey? ∧
      a.same b = false

variable {doc : Document}

theorem Reaches.distinct {d : Descriptor} (tables : doc.Distinct) (h : doc.Reaches d) :
    d.Distinct := by
  induction h with
  | root mem => exact tables.roots _ mem
  | part _ hpart ih => exact ih.part tables.definitions hpart

/-! ## Failures come from what can be reached -/

/-- A claim is for a descriptor that can be reached. -/
def Meets (doc : Document) (c : Claim) : Prop :=
  ∃ d, doc.Reaches d ∧ d.reading doc.definitions = .collected c.kind c.name c.source

theorem meets_push {r : Registry} {kind : CollectedKind} {name : String} {d source : Descriptor}
    (free : r.find? kind name = none) (reached : doc.Reaches d)
    (reading : d.reading doc.definitions = .collected kind name source)
    (meets : ∀ c ∈ r.claims, doc.Meets c) :
    ∀ c ∈ (r.push kind name source free).claims, doc.Meets c := by
  intro c hc
  rw [Registry.push_claims] at hc
  rcases List.mem_append.1 hc with old | new
  · exact meets c old
  · cases List.mem_singleton.1 new
    exact ⟨d, reached, reading⟩

/-- A name that is claimed for two different descriptors makes a document faulty. -/
theorem faulty_of_conflict (tables : doc.Distinct) {d source : Descriptor} {c : Claim}
    (reached : doc.Reaches d)
    (reading : d.reading doc.definitions = .collected c.kind c.name source)
    (meets : doc.Meets c) (other : c.source.same source = false) : doc.Faulty := by
  obtain ⟨d', reached', reading'⟩ := meets
  rcases Descriptor.collected_pair reading' reading with
    ⟨own', own, eq', rfl⟩ | ⟨rfl, rfl, found⟩
  · rw [eq'] at other
    exact .inr ⟨d', source, reached', reached, by rw [own']; rfl, own'.trans own.symm, other⟩
  · have distinct := tables.definitions _ (Assoc.mem_of_find? found)
    have same : c.source.same c.source = true := Descriptor.same_refl c.source distinct
    rw [same] at other
    cases other

/-- Whatever an extraction enters can be reached, and so can what it fails for. -/
theorem faultLaw (tables : doc.Distinct) (options : OptionSet) :
    Pipeline.Law Stock.all doc.definitions options
      (fun d r outcome r' => doc.Reaches d → (∀ c ∈ r.claims, doc.Meets c) →
        (∀ c ∈ r'.claims, doc.Meets c) ∧ ∀ fault, outcome = .error fault → doc.Faulty)
      (fun ds r outcome r' => (∀ d ∈ ds, doc.Reaches d) → (∀ c ∈ r.claims, doc.Meets c) →
        (∀ c ∈ r'.claims, doc.Meets c) ∧ ∀ fault, outcome = .error fault → doc.Faulty) where
  unclaimed _ _ meets := ⟨meets, fun fault eq => by cases eq⟩
  malformed {d r fault} _ reading reached meets :=
    ⟨meets, fun _ _ => .inl ⟨d, reached, Descriptor.malformed_of_reading reading⟩⟩
  unresolved _ _ _ meets := ⟨meets, fun fault eq => by cases eq⟩
  composed {d r outcome r'} _ _ parts reached meets := by
    obtain ⟨meets', faulty⟩ := parts (fun part hpart => reached.part hpart) meets
    refine ⟨meets', fun fault eq => ?_⟩
    cases outcome with
    | error fault' => exact faulty fault' rfl
    | ok shapes => cases eq
  conflict {d r kind name source e} _ reading found other reached meets := by
    obtain ⟨he, key⟩ := Registry.find?_eq_some_iff.1 found
    obtain ⟨rfl, rfl⟩ := Prod.mk.inj key
    have claimed : doc.Meets e.claim := meets _ (List.mem_map_of_mem he)
    exact ⟨meets, fun _ _ => faulty_of_conflict tables reached reading claimed other⟩
  known _ _ _ _ _ meets := ⟨meets, fun fault eq => by cases eq⟩
  built {d r kind name source shapes r'} _ reading free _ parts reached meets := by
    refine ⟨?_, fun fault eq => by cases eq⟩
    rw [Registry.fill_claims]
    exact (parts (fun part hpart => reached.part hpart)
      (meets_push free reached reading meets)).1
  undone {d r kind name source fault r'} _ reading free parts reached meets := by
    refine ⟨meets, fun _ _ => ?_⟩
    exact (parts (fun part hpart => reached.part hpart)
      (meets_push free reached reading meets)).2 fault rfl
  nil _ meets := ⟨meets, fun fault eq => by cases eq⟩
  cons {d rest r shape r' outcome r''} first _ later reached meets := by
    obtain ⟨meets', -⟩ := first (reached d List.mem_cons_self) meets
    obtain ⟨meets'', faulty⟩ :=
      later (fun d hd => reached d (List.mem_cons_of_mem _ hd)) meets'
    refine ⟨meets'', fun fault eq => ?_⟩
    cases outcome with
    | error fault' => exact faulty fault' rfl
    | ok shapes => cases eq
  stop {d rest r fault r'} first reached meets := by
    obtain ⟨meets', faulty⟩ := first (reached d List.mem_cons_self) meets
    exact ⟨meets', fun _ _ => faulty fault rfl⟩

/-! ## What succeeds settles everything -/

/-- A claim has been entered: all parts of what it is for are settled. -/
def Entered (doc : Document) (claims : List Claim) (c : Claim) (_ : Shape) : Prop :=
  ∃ d, doc.Reaches d ∧ d.reading doc.definitions = .collected c.kind c.name c.source ∧
    ∀ part ∈ d.parts doc.definitions, Settled doc.definitions claims part

/-- What an extraction succeeds with is settled in the claims that it ends with. -/
theorem settledLaw (doc : Document) (options : OptionSet) (final : Registry) :
    Pipeline.Law Stock.all doc.definitions options
      (fun d r outcome r' => doc.Reaches d → ∀ x, outcome = .ok x → r'.Leads final →
        r.Finished (doc.Entered final.claims) →
        r'.Finished (doc.Entered final.claims) ∧ Settled doc.definitions final.claims d)
      (fun ds r outcome r' => (∀ d ∈ ds, doc.Reaches d) → ∀ xs, outcome = .ok xs →
        r'.Leads final → r.Finished (doc.Entered final.claims) →
        r'.Finished (doc.Entered final.claims) ∧
          ∀ d ∈ ds, Settled doc.definitions final.claims d) where
  unclaimed {d r} uncovered := by
    rw [Stock.covers_all] at uncovered
    cases uncovered
  malformed _ _ _ x eq := by cases eq
  unresolved _ reading _ x _ _ entered := ⟨entered, .unresolved reading⟩
  composed {d r outcome r'} _ reading parts reached x eq leads entered := by
    cases outcome with
    | error fault => cases eq
    | ok shapes =>
      obtain ⟨entered', settled⟩ :=
        parts (fun part hpart => reached.part hpart) shapes rfl leads entered
      exact ⟨entered', .composed reading settled⟩
  conflict _ _ _ _ _ x eq := by cases eq
  known {d r kind name source e} _ reading found same _ x _ leads entered := by
    obtain ⟨he, key⟩ := Registry.find?_eq_some_iff.1 found
    exact ⟨entered, .collected reading (leads.mem_claims he) key (.inr same)⟩
  built {d r kind name source shapes r'} _ reading free grown parts reached x _ leads entered := by
    obtain ⟨entered', settled⟩ :=
      parts (fun part hpart => reached.part hpart) shapes rfl (leads.of_fill grown)
        (entered.push free)
    refine ⟨entered'.fill grown ⟨d, reached, reading, settled⟩, ?_⟩
    obtain ⟨e, he, rfl, rfl, rfl, -⟩ := Registry.exists_filled free grown
      (d.assembled doc.definitions options shapes)
    exact .collected reading (leads.mem_claims he) rfl (.inl rfl)
  undone _ _ _ _ _ x eq := by cases eq
  nil _ xs _ _ entered := ⟨entered, fun d hd => by cases hd⟩
  cons {d rest r shape r' outcome r''} first grown later reached xs eq leads entered := by
    cases outcome with
    | error fault => cases eq
    | ok shapes =>
      obtain ⟨entered', settled⟩ :=
        first (reached d List.mem_cons_self) shape rfl (leads.of_grows grown) entered
      obtain ⟨entered'', settledRest⟩ :=
        later (fun d hd => reached d (List.mem_cons_of_mem _ hd)) shapes rfl leads entered'
      refine ⟨entered'', fun d' hd' => ?_⟩
      rcases List.mem_cons.1 hd' with rfl | hd'
      · exact settled
      · exact settledRest d' hd'
  stop _ _ xs eq := by cases eq

/-- From settled roots everything that can be reached is settled. -/
theorem settled_of_reaches (tables : doc.Distinct) {claims : List Claim}
    (entered : ∀ c ∈ claims, ∃ x, doc.Entered claims c x)
    (roots : ∀ entry ∈ doc.roots, Settled doc.definitions claims entry.2) {d : Descriptor}
    (h : doc.Reaches d) : Settled doc.definitions claims d := by
  induction h with
  | root mem => exact roots _ mem
  | @part d part reached hpart ih =>
    cases ih with
    | unresolved reading =>
      obtain ⟨rfl, undefined⟩ := Descriptor.unresolved_cases reading
      rw [Descriptor.parts, undefined] at hpart
      cases hpart
    | composed _ settled => exact settled part hpart
    | @collected _ kind name source c reading mem key like =>
      obtain ⟨rfl, rfl⟩ := Prod.mk.inj key
      obtain ⟨-, d', reached', reading', settled⟩ := entered c mem
      rcases Descriptor.collected_pair reading' reading with
        ⟨-, -, eq', rfl⟩ | ⟨rfl, -, -⟩
      · rw [eq'] at like
        have distinct := reached.distinct tables
        have distinct' := reached'.distinct tables
        have same : d'.Same source := like.same distinct'
        obtain ⟨p, hp, like'⟩ := Descriptor.exists_part_of_same same distinct' distinct hpart
        rcases like' with rfl | same'
        · exact settled p hp
        · exact (settled p hp).of_same tables.definitions same'
            ((reached'.part hp).distinct tables) ((reached.part hpart).distinct tables)
      · exact settled part hpart

/-- Settled descriptors that have one kind and name are the same. -/
theorem same_of_settled {claims : List Claim} (distinct : (claims.map Claim.key).Nodup)
    {a b : Descriptor} (settled : Settled doc.definitions claims a)
    (settled' : Settled doc.definitions claims b) (tables : a.Distinct)
    (sources : ∀ c ∈ claims, c.source.Distinct) (own : a.ownKey?.isSome)
    (eq : a.ownKey? = b.ownKey?) : a.same b = true := by
  obtain ⟨⟨kind, name⟩, ownA⟩ := Option.isSome_iff_exists.1 own
  have ownB : b.ownKey? = some (kind, name) := eq.symm.trans ownA
  obtain ⟨c, hc, key, like⟩ := settled.exists_claim (Descriptor.reading_of_ownKey ownA)
  obtain ⟨c', hc', key', like'⟩ := settled'.exists_claim (Descriptor.reading_of_ownKey ownB)
  obtain rfl : c = c' := List.inj_on_of_nodup_map distinct hc hc' (key.trans key'.symm)
  have forth := like.same (sources c hc)
  have back : a.Same c.source := Descriptor.same_symm forth (sources c hc) tables
  exact Descriptor.same_trans back (like'.same (sources c hc))

/-! ## Whole extractions -/

theorem reaches_of_root {d : Descriptor} (h : d ∈ doc.roots.map Prod.snd) : doc.Reaches d := by
  obtain ⟨entry, mem, rfl⟩ := List.mem_map.1 h
  exact .root mem

theorem Meets.distinct (tables : doc.Distinct) {c : Claim} (meets : doc.Meets c) :
    c.source.Distinct := by
  obtain ⟨d, reached, reading⟩ := meets
  rcases Descriptor.collected_cases reading with ⟨-, eq⟩ | ⟨-, -, found, -⟩
  · rw [eq]
    exact reached.distinct tables
  · exact tables.definitions _ (Assoc.mem_of_find? found)

/-- What an extraction fails for is a fault of the document. -/
theorem faulty_of_extract_eq_error (tables : doc.Distinct) {options : OptionSet}
    {fault : ExtractError} (failed : doc.extract options = .error fault) : doc.Faulty := by
  have met := (faultLaw tables options).shapes (doc.roots.map Prod.snd) .start
    (fun d hd => reaches_of_root hd) fun c hc => by cases hc
  obtain ⟨s, outcome⟩ := shapesOf_of_extract_eq_error failed
  rw [outcome] at met
  exact met.2 fault rfl

/-- The roots of an extraction that succeeds leave claims for what can be reached, and all that can
be reached is settled in them. -/
theorem settled_of_shapesOf (tables : doc.Distinct) {options : OptionSet} {shapes : List Shape}
    {s : Session}
    (outcome : (Pipeline.unbounded Stock.all doc.definitions).shapesOf options
      (doc.roots.map Prod.snd) .start = (.ok shapes, s)) :
    (∀ c ∈ s.registry.claims, doc.Meets c) ∧
      ∀ d, doc.Reaches d → Settled doc.definitions s.registry.claims d := by
  have met := (faultLaw tables options).shapes (doc.roots.map Prod.snd) .start
    (fun d hd => reaches_of_root hd) fun c hc => by cases hc
  have settles := (settledLaw doc options s.registry).shapes (doc.roots.map Prod.snd) .start
    fun d hd => reaches_of_root hd
  have grown := Pipeline.growing_shapes Stock.all doc.definitions options
    (doc.roots.map Prod.snd) .start
  rw [outcome] at met settles grown
  obtain ⟨finished, roots⟩ := settles shapes rfl (.refl _) fun e he => by cases he
  have rest : s.registry.AtRest := Registry.atRest_empty.of_grows grown
  have entered : ∀ c ∈ s.registry.claims, ∃ x, doc.Entered s.registry.claims c x := by
    intro c hc
    obtain ⟨e, he, rfl⟩ := List.mem_map.1 hc
    obtain ⟨x, done⟩ := Option.ne_none_iff_exists'.1 (rest e he)
    exact ⟨x, finished e he x done⟩
  refine ⟨met.1, fun d reached => settled_of_reaches tables entered (fun entry mem => ?_) reached⟩
  exact roots entry.2 (List.mem_map_of_mem (f := Prod.snd) mem)

/-- An extraction that succeeds settles all that can be reached. -/
theorem exists_settled_of_extract_eq_ok (tables : doc.Distinct) {options : OptionSet}
    {x : Extraction} (extracted : doc.extract options = .ok x) :
    ∃ claims : List Claim, (claims.map Claim.key).Nodup ∧ (∀ c ∈ claims, c.source.Distinct) ∧
      ∀ d, doc.Reaches d → Settled doc.definitions claims d := by
  obtain ⟨shapes, s, outcome, -⟩ := shapesOf_of_extract_eq_ok extracted
  obtain ⟨meets, settled⟩ := settled_of_shapesOf tables outcome
  refine ⟨s.registry.claims, ?_, fun c hc => (meets c hc).distinct tables, settled⟩
  rw [Registry.claims_keys]
  exact s.registry.distinct

/-- **When a document can be extracted.**  Exactly when nothing that can be reached from its roots
is malformed, and any two classes, typed dictionaries or functions that can be reached and have
one kind and name are the same. -/
theorem extract_succeeds_iff (doc : Document) (tables : doc.Distinct) (options : OptionSet) :
    (∃ x, doc.extract options = .ok x) ↔
      (∀ d, doc.Reaches d → ¬d.Malformed doc.definitions) ∧
        ∀ a b, doc.Reaches a → doc.Reaches b → a.ownKey?.isSome → a.ownKey? = b.ownKey? →
          a.same b = true := by
  constructor
  · rintro ⟨x, extracted⟩
    obtain ⟨claims, distinct, sources, settled⟩ :=
      exists_settled_of_extract_eq_ok tables extracted
    refine ⟨fun d reached => (settled d reached).not_malformed, fun a b ha hb own eq => ?_⟩
    exact same_of_settled distinct (settled a ha) (settled b hb) (ha.distinct tables) sources own
      eq
  · rintro ⟨sound, agreeing⟩
    cases outcome : doc.extract options with
    | ok x => exact ⟨x, rfl⟩
    | error fault =>
      rcases faulty_of_extract_eq_error tables outcome with
        ⟨d, reached, malformed⟩ | ⟨a, b, ha, hb, own, eq, other⟩
      · exact absurd malformed (sound d reached)
      · rw [agreeing a b ha hb own eq] at other
        cases other

/-- A class that holds itself, given in place with its fields in another order. -/
theorem extract_succeeds_iff_of_reordered_fields :
    let doc : Document :=
      ⟨[("Node", .classDecl "Node" [("next", .ref "Node"), ("item", .builtin "int")] [])],
        [("node", .ref "Node"),
          ("other", .classDecl "Node" [("item", .builtin "int"), ("next", .ref "Node")] [])]⟩
    doc.Distinct ∧
      ((∃ x, doc.extract .empty = .ok x) ↔
        (∀ d, doc.Reaches d → ¬d.Malformed doc.definitions) ∧
          ∀ a b, doc.Reaches a → doc.Reaches b → a.ownKey?.isSome → a.ownKey? = b.ownKey? →
            a.same b = true) := by
  intro doc
  have next : (Descriptor.ref "Node").Distinct := .of_leaf trivial rfl
  have item : (Descriptor.builtin "int").Distinct := .of_leaf trivial rfl
  have node : (Descriptor.classDecl "Node"
      [("next", .ref "Node"), ("item", .builtin "int")] []).Distinct := by
    refine .intro (by simp [Descriptor.TableDistinct, Assoc.Distinct, Assoc.keys]) fun c hc => ?_
    rcases List.mem_pair.1 hc with rfl | rfl
    · exact next
    · exact item
  have other : (Descriptor.classDecl "Node"
      [("item", .builtin "int"), ("next", .ref "Node")] []).Distinct := by
    refine .intro (by simp [Descriptor.TableDistinct, Assoc.Distinct, Assoc.keys]) fun c hc => ?_
    rcases List.mem_pair.1 hc with rfl | rfl
    · exact item
    · exact next
  have tables : doc.Distinct := by
    refine ⟨fun entry mem => ?_, fun entry mem => ?_⟩
    · rcases List.mem_pair.1 mem with rfl | rfl
      · exact next
      · exact other
    · cases List.mem_singleton.1 mem
      exact node
  exact ⟨tables, extract_succeeds_iff doc tables .empty⟩

end Document

end TypeCatalog
