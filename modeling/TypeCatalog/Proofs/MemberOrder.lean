import TypeCatalog.Proofs.Meaning
import TypeCatalog.Proofs.Nesting

/-!
Unions of descriptors without references, in any order.

The members of a union share a registry, so that a class that occurs in two of them is built for the
first and recalled for the second, and a different class under the same name is a conflict wherever
it comes second.  Neither depends on the order.  A run that starts where nothing is being built
comes to shapes that its descriptors mean by the claims that it leaves (`meansLaw`); and descriptors
that mean something by the claims of one run do not fail in another one from the same registry,
which claims no name that the first does not (`followsLaw`).  So if one order of the members
succeeds, the other does, and the other way round; both leave the same names, and as the members
mean the same in either, so does their union (`union_is_of_a_set`).
-/

namespace TypeCatalog.Pipeline

open Descriptor (Means Same)
open Shape (SameElements)

variable {definitions : List (String × Descriptor)} {options : OptionSet} {r₀ r r' : Registry}

/-- A name that is vacant now was so when less was held. -/
theorem vacant_of_kept (kept : ∀ e ∈ r₀.entries, e ∈ r.entries) {kind : CollectedKind}
    {name : String} (free : r.find? kind name = none) : (kind, name) ∉ r₀.keys := by
  intro held
  obtain ⟨e, he, key⟩ := List.mem_map.1 held
  exact Registry.find?_eq_none_iff.1 free (key ▸ List.mem_map_of_mem (kept e he))

/-! ## What a run comes to -/

/-- A registry goes on from another one: it holds all that was held, and what has been added is
collected under new names from descriptors without references, and means what it is finished
with. -/
structure GoesOn (definitions : List (String × Descriptor)) (options : OptionSet)
    (r₀ r : Registry) : Prop where
  kept : ∀ e ∈ r₀.entries, e ∈ r.entries
  added : ∀ e ∈ r.entries, e ∈ r₀.entries ∨
    e.key ∉ r₀.keys ∧ e.source.RefFree ∧ e.source.Distinct ∧
      ∀ x, e.shape? = some x → Means definitions options r₀ r.claims e.source x

theorem GoesOn.refl (r : Registry) : GoesOn definitions options r r :=
  ⟨fun _ he => he, fun _ he => .inl he⟩

theorem GoesOn.push (h : GoesOn definitions options r₀ r) {d : Descriptor} {kind : CollectedKind}
    {name : String} (free : r.find? kind name = none) (refFree : d.RefFree)
    (distinct : d.Distinct) : GoesOn definitions options r₀ (r.push kind name d free) := by
  refine ⟨fun e he => ?_, fun e he => ?_⟩
  · exact List.mem_append_left _ (h.kept e he)
  · rcases List.mem_append.1 he with old | new
    · refine (h.added e old).imp_right fun ⟨vacant, free', distinct', means⟩ => ?_
      refine ⟨vacant, free', distinct', fun x finished => (means x finished).mono ?_⟩
      rw [Registry.push_claims free]
      exact List.subset_append_left _ _
    · cases List.mem_singleton.1 new
      refine .inr ⟨vacant_of_kept h.kept free, refFree, distinct, fun x finished => ?_⟩
      cases finished

theorem GoesOn.fill (h : GoesOn definitions options r₀ r) {d : Descriptor} {kind : CollectedKind}
    {name : String} (free : r.find? kind name = none) (refFree : d.RefFree)
    (distinct : d.Distinct) (grown : (r.push kind name d free).Grows r')
    (h' : GoesOn definitions options r₀ r') {x : Shape}
    (means : Means definitions options r₀ r'.claims d x) :
    GoesOn definitions options r₀ (r'.fill kind name x) := by
  obtain ⟨fresh, eq, -⟩ := id grown
  have filled := Registry.fill_entries_of_append free eq x
  refine ⟨fun e he => ?_, fun e he => ?_⟩
  · exact (Registry.grows_fill free grown x).mem (h.kept e he)
  · rw [Registry.fill_claims]
    rw [filled] at he
    have elsewhere : e ∈ r'.entries → _ := h'.added e
    rcases List.mem_append.1 he with old | later
    · refine elsewhere ?_
      rw [eq]
      exact List.mem_append_left _ (List.mem_append_left _ old)
    · rcases List.mem_cons.1 later with rfl | new
      · refine .inr ⟨vacant_of_kept h.kept free, refFree, distinct, fun y finished => ?_⟩
        cases finished
        exact means
      · refine elsewhere ?_
        rw [eq]
        exact List.mem_append_right _ new

/-- What is met again means what it is known by. -/
theorem GoesOn.known (h : GoesOn definitions options r₀ r) {d : Descriptor} {e : Registry.Entry}
    {x : Shape} (he : e ∈ r.entries) (own : d.ownKey? = some e.key) (same : Same e.source d)
    (finished : e.shape? = some x) : Means definitions options r₀ r.claims d x := by
  rcases h.added e he with held | ⟨vacant, -, -, means⟩
  · exact .held held own same finished
  · have own' : e.source.ownKey? = some e.key := (Descriptor.ownKey?_eq_of_same same).trans own
    obtain ⟨c, hc, key, same', free, distinct, xs, rfl, count, parts⟩ :=
      (means x finished).exists_claim own' vacant
    exact .collected hc (key ▸ vacant) (key ▸ own) (Descriptor.same_trans same' same) free distinct
      count parts

/-- From a registry, descriptors without references come to shapes that they mean by the claims that
are left. -/
theorem meansLaw (definitions : List (String × Descriptor)) (options : OptionSet)
    (r₀ : Registry) :
    Law Stock.all definitions options
      (fun d r outcome r' => d.RefFree → d.Distinct → r.Ahead d →
        GoesOn definitions options r₀ r →
        r.Grows r' ∧ GoesOn definitions options r₀ r' ∧
          ∀ x, outcome = .ok x → Means definitions options r₀ r'.claims d x)
      (fun ds r outcome r' => (∀ d ∈ ds, d.RefFree) → (∀ d ∈ ds, d.Distinct) →
        (∀ d ∈ ds, r.Ahead d) → GoesOn definitions options r₀ r →
        r.Grows r' ∧ GoesOn definitions options r₀ r' ∧
          ∀ xs, outcome = .ok xs → xs.length = ds.length ∧
            ∀ pair ∈ ds.zip xs, Means definitions options r₀ r'.claims pair.1 pair.2) where
  unclaimed {d r} uncovered := by
    rw [Stock.covers_all] at uncovered
    cases uncovered
  malformed _ _ _ _ _ h := ⟨.refl _, h, fun x eq => by cases eq⟩
  unresolved {d r name} _ reading free _ _ _ := absurd reading (free.not_unresolved name)
  composed {d r outcome r'} _ reading parts free distinct ahead h := by
    obtain ⟨grown, goesOn, made⟩ := parts (fun _ hp => free.part hp)
      (fun _ hp => free.distinct_part distinct hp) (fun _ hp => ahead.part free hp) h
    refine ⟨grown, goesOn, fun x eq => ?_⟩
    cases outcome with
    | error fault => cases eq
    | ok shapes =>
      cases eq
      obtain ⟨count, means⟩ := made shapes rfl
      exact .composed reading count means
  conflict _ _ _ _ _ _ _ h := ⟨.refl _, h, fun x eq => by cases eq⟩
  known {d r kind name source e} _ reading found same free _ ahead h := by
    obtain ⟨own, rfl⟩ := free.collected reading
    obtain ⟨he, key⟩ := Registry.find?_eq_some_iff.1 found
    -- so the answer is no reference, which would hide what the descriptor means
    obtain ⟨x, finished⟩ := ahead.finished_of_same he same fun eq => by
      rw [eq] at own
      cases own
    refine ⟨.refl _, h, fun y eq => ?_⟩
    cases eq
    rw [Registry.Entry.known_eq finished]
    exact h.known he (key ▸ own) same finished
  built {d r kind name source shapes r'} _ reading vacant grown parts free distinct ahead h := by
    obtain ⟨own, rfl⟩ := free.collected reading
    obtain ⟨-, goesOn, made⟩ := parts (fun _ hp => free.part hp)
      (fun _ hp => free.distinct_part distinct hp) (fun _ hp => ahead.part_push free vacant hp)
      (h.push vacant free distinct)
    obtain ⟨count, means⟩ := made shapes rfl
    have claimed : (⟨kind, name, source⟩ : Claim) ∈ r'.claims := by
      refine grown.claims_subset ?_
      rw [Registry.push_claims vacant]
      exact List.mem_append_right _ List.mem_cons_self
    have new : Means definitions options r₀ r'.claims source
        (source.assembled definitions options shapes) :=
      .collected claimed (vacant_of_kept h.kept vacant) own (Descriptor.same_refl source distinct)
        free distinct count means
    refine ⟨Registry.grows_fill vacant grown _, h.fill vacant free distinct grown goesOn new,
      fun x eq => ?_⟩
    cases eq
    rw [Registry.fill_claims]
    exact new
  undone _ _ _ _ _ _ _ h := ⟨.refl _, h, fun x eq => by cases eq⟩
  nil _ _ _ h := ⟨.refl _, h, fun xs eq => by cases eq; exact ⟨rfl, fun _ hp => by cases hp⟩⟩
  cons {d rest r shape r' outcome r''} first grown later free distinct ahead h := by
    obtain ⟨grown', goesOn, means⟩ := first (free d List.mem_cons_self)
      (distinct d List.mem_cons_self) (ahead d List.mem_cons_self) h
    obtain ⟨-, goesOn', made⟩ := later (fun d hd => free d (List.mem_cons_of_mem _ hd))
      (fun d hd => distinct d (List.mem_cons_of_mem _ hd))
      (fun d hd => (ahead d (List.mem_cons_of_mem _ hd)).of_grows grown') goesOn
    refine ⟨grown'.trans grown, goesOn', fun xs eq => ?_⟩
    cases outcome with
    | error fault => cases eq
    | ok shapes =>
      cases eq
      obtain ⟨count, each⟩ := made shapes rfl
      exact ⟨congrArg Nat.succ count,
        List.forall_mem_cons.2 ⟨(means shape rfl).mono grown.claims_subset, each⟩⟩
  stop {d rest r fault r'} first free distinct ahead h := by
    obtain ⟨grown, goesOn, -⟩ := first (free d List.mem_cons_self)
      (distinct d List.mem_cons_self) (ahead d List.mem_cons_self) h
    exact ⟨grown, goesOn, fun xs eq => by cases eq⟩

/-! ## Runs that follow another one -/

/-- A registry follows the one that another run has left: it holds all that was held before both,
and what it has claimed beyond that was claimed there for descriptors that are the same. -/
structure Follows (r₀ left r : Registry) : Prop where
  kept : ∀ e ∈ r₀.entries, e ∈ r.entries
  claimed : ∀ c ∈ r.claims, c ∈ r₀.claims ∨ ∃ c' ∈ left.claims, c'.key = c.key ∧
    Same c'.source c.source ∧ c'.source.Distinct ∧ c.source.Distinct

section Follows

variable {left : Registry} {d : Descriptor} {kind : CollectedKind} {name : String} {x : Shape}

theorem Follows.refl (left r : Registry) : Follows r left r :=
  ⟨fun _ he => he, fun _ hc => .inl hc⟩

/-- Where a descriptor means something by the claims of the other run, it is the same as whatever
has its name. -/
theorem Follows.same_source (h : Follows r₀ left r)
    (means : Means definitions options r₀ left.claims d x) (own : d.ownKey? = some (kind, name))
    {e : Registry.Entry} (found : r.find? kind name = some e) : Same e.source d := by
  obtain ⟨he, key⟩ := Registry.find?_eq_some_iff.1 found
  by_cases held : (kind, name) ∈ r₀.keys
  · obtain ⟨e', he', key', same, -⟩ := means.exists_entry own held
    rw [Registry.eq_of_key_eq he (h.kept e' he') (key.trans key'.symm)]
    exact same
  · obtain ⟨c, hc, key', same, -⟩ := means.exists_claim own held
    rcases h.claimed e.claim (List.mem_map_of_mem he) with before | ⟨c', hc', same'⟩
    · refine absurd ?_ held
      rw [← key, ← Registry.claims_keys]
      exact List.mem_map_of_mem (f := Claim.key) before
    · obtain ⟨key'', same', distinct', distinct⟩ := same'
      rw [Registry.claim_eq_of_key_eq hc' hc (key''.trans (key.trans key'.symm))] at same' distinct'
      exact Descriptor.same_trans (Descriptor.same_symm same' distinct' distinct) same

theorem Follows.push (h : Follows r₀ left r) (means : Means definitions options r₀ left.claims d x)
    (own : d.ownKey? = some (kind, name)) (distinct : d.Distinct)
    (free : r.find? kind name = none) : Follows r₀ left (r.push kind name d free) := by
  have vacant := vacant_of_kept h.kept free
  refine ⟨fun e he => List.mem_append_left _ (h.kept e he), fun c hc => ?_⟩
  rw [Registry.push_claims free] at hc
  rcases List.mem_append.1 hc with old | new
  · exact h.claimed c old
  · rw [List.mem_singleton.1 new]
    obtain ⟨c', hc', key, same, -, distinct', -⟩ := means.exists_claim own vacant
    exact .inr ⟨c', hc', key, same, distinct', distinct⟩

theorem Follows.fill (h : Follows r₀ left r) {free : r.find? kind name = none}
    (grown : (r.push kind name d free).Grows r') (h' : Follows r₀ left r') (x : Shape) :
    Follows r₀ left (r'.fill kind name x) := by
  refine ⟨fun e he => (Registry.grows_fill free grown x).mem (h.kept e he), ?_⟩
  rw [Registry.fill_claims]
  exact h'.claimed

theorem Follows.missing (h : Follows r₀ left r) (own : d.ownKey? = some (kind, name))
    (free : r.find? kind name = none) : ∀ key, d.ownKey? = some key → key ∉ r₀.keys := by
  intro key own'
  rw [own, Option.some.injEq] at own'
  exact own' ▸ vacant_of_kept h.kept free

/-- Each part of a descriptor that means something does so too. -/
theorem exists_means_part (means : Means definitions options r₀ left.claims d x) (free : d.RefFree)
    (distinct : d.Distinct) (missing : ∀ key, d.ownKey? = some key → key ∉ r₀.keys)
    {part : Descriptor} (hp : part ∈ d.parts definitions) :
    ∃ y, Means definitions options r₀ left.claims part y := by
  cases means with
  | composed _ count parts =>
    obtain ⟨y, pair⟩ := Descriptor.exists_pair_of_mem count hp
    exact ⟨y, parts (part, y) pair⟩
  | held he own => exact absurd (List.mem_map_of_mem he) (missing _ own)
  | @collected _ c _ _ _ _ same free' distinct' count parts =>
    obtain ⟨p, hp', like⟩ := Descriptor.exists_part_of_same same distinct' distinct hp
    obtain ⟨y, pair⟩ := Descriptor.exists_pair_of_mem count hp'
    rcases like with rfl | same
    · exact ⟨y, parts (p, y) pair⟩
    · exact (parts (p, y) pair).of_same same (free'.part hp') (free'.distinct_part distinct' hp')
        (free.part hp) (free.distinct_part distinct hp)

end Follows

/-- Descriptors that mean something by the claims that a run has left do not fail in another one,
and claim nothing else. -/
theorem followsLaw (definitions : List (String × Descriptor)) (options : OptionSet)
    (r₀ left : Registry) :
    Law Stock.all definitions options
      (fun d r outcome r' => d.RefFree → d.Distinct →
        (∃ x, Means definitions options r₀ left.claims d x) → Follows r₀ left r →
        Follows r₀ left r' ∧ ∀ fault, outcome ≠ .error fault)
      (fun ds r outcome r' => (∀ d ∈ ds, d.RefFree) → (∀ d ∈ ds, d.Distinct) →
        (∀ d ∈ ds, ∃ x, Means definitions options r₀ left.claims d x) → Follows r₀ left r →
        Follows r₀ left r' ∧ ∀ fault, outcome ≠ .error fault) where
  unclaimed _ _ _ _ h := ⟨h, fun fault eq => by cases eq⟩
  malformed {d r fault} _ reading _ _ means h := by
    obtain ⟨x, means⟩ := means
    cases means with
    | composed reading' => simp [reading] at reading'
    | held _ own => simp [Descriptor.reading_of_ownKey own] at reading
    | collected _ _ own => simp [Descriptor.reading_of_ownKey own] at reading
  unresolved _ _ _ _ _ h := ⟨h, fun fault eq => by cases eq⟩
  composed {d r outcome r'} _ reading parts free distinct means h := by
    obtain ⟨x, means⟩ := means
    obtain ⟨h', fine⟩ := parts (fun _ hp => free.part hp)
      (fun _ hp => free.distinct_part distinct hp)
      (fun _ hp => exists_means_part means free distinct
        (fun key own => absurd reading (Descriptor.not_composed_of_ownKey own)) hp) h
    refine ⟨h', fun fault eq => ?_⟩
    cases outcome with
    | error fault' => exact fine fault' rfl
    | ok shapes => cases eq
  conflict {d r kind name source e} _ reading found other free _ means h := by
    obtain ⟨own, rfl⟩ := free.collected reading
    obtain ⟨x, means⟩ := means
    -- the other run has come to something under this name, for what is the same as both
    have same : e.source.same source = true := h.same_source means own found
    rw [other] at same
    cases same
  known _ _ _ _ _ _ _ h := ⟨h, fun fault eq => by cases eq⟩
  built {d r kind name source shapes r'} _ reading vacant grown parts free distinct means h := by
    obtain ⟨own, rfl⟩ := free.collected reading
    obtain ⟨x, means⟩ := means
    obtain ⟨h', -⟩ := parts (fun _ hp => free.part hp) (fun _ hp => free.distinct_part distinct hp)
      (fun _ hp => exists_means_part means free distinct (h.missing own vacant) hp)
      (h.push means own distinct vacant)
    exact ⟨h.fill grown h' _, fun fault eq => by cases eq⟩
  undone {d r kind name source fault r'} _ reading vacant parts free distinct means h := by
    obtain ⟨own, rfl⟩ := free.collected reading
    obtain ⟨x, means⟩ := means
    obtain ⟨-, fine⟩ := parts (fun _ hp => free.part hp)
      (fun _ hp => free.distinct_part distinct hp)
      (fun _ hp => exists_means_part means free distinct (h.missing own vacant) hp)
      (h.push means own distinct vacant)
    exact absurd rfl (fine fault)
  nil _ _ _ h := ⟨h, fun fault eq => by cases eq⟩
  cons {d rest r shape r' outcome r''} first grown later free distinct means h := by
    obtain ⟨h', -⟩ := first (free d List.mem_cons_self) (distinct d List.mem_cons_self)
      (means d List.mem_cons_self) h
    obtain ⟨h'', fine⟩ := later (fun d hd => free d (List.mem_cons_of_mem _ hd))
      (fun d hd => distinct d (List.mem_cons_of_mem _ hd))
      (fun d hd => means d (List.mem_cons_of_mem _ hd)) h'
    refine ⟨h'', fun fault eq => ?_⟩
    cases outcome with
    | error fault' => exact fine fault' rfl
    | ok shapes => cases eq
  stop {d rest r fault r'} first free distinct means h :=
    absurd rfl ((first (free d List.mem_cons_self) (distinct d List.mem_cons_self)
      (means d List.mem_cons_self) h).2 fault)

/-! ## Members in any order -/

section Lists

variable {ds ds' : List Descriptor} {s s' : Session} {xs : List Shape}
  (rest : s.registry.AtRest) (free : ∀ d ∈ ds, d.RefFree) (distinct : ∀ d ∈ ds, d.Distinct)
  (taken : (unbounded Stock.all definitions).shapesOf options ds s = (.ok xs, s'))

include rest free distinct taken

/-- Shapes that are taken where nothing is being built are what the descriptors mean. -/
theorem means_of_shapesOf : s.registry.Grows s'.registry ∧ xs.length = ds.length ∧
    ∀ pair ∈ ds.zip xs,
      Means definitions options s.registry s'.registry.claims pair.1 pair.2 := by
  have ahead : ∀ d ∈ ds, s.registry.Ahead d := fun _ _ e he unfinished =>
    absurd unfinished (rest e he)
  have after := (meansLaw definitions options s.registry).shapes ds s free distinct ahead (.refl _)
  rw [taken] at after
  exact ⟨after.1, after.2.2 xs rfl⟩

/-- They can be taken of other descriptors that are the same as some of these, and no other names
are claimed then. -/
theorem shapesOf_follows (free' : ∀ d ∈ ds', d.RefFree) (distinct' : ∀ d ∈ ds', d.Distinct)
    (within : ∀ d' ∈ ds', ∃ d ∈ ds, Same d' d) :
    ∃ ys s'', (unbounded Stock.all definitions).shapesOf options ds' s = (.ok ys, s'') ∧
      s''.registry.keys ⊆ s'.registry.keys := by
  obtain ⟨grown, count, means⟩ := means_of_shapesOf rest free distinct taken
  have meant : ∀ d' ∈ ds', ∃ y,
      Means definitions options s.registry s'.registry.claims d' y := by
    intro d' hd'
    obtain ⟨d, hd, same⟩ := within d' hd'
    obtain ⟨x, pair⟩ := Descriptor.exists_pair_of_mem count hd
    exact (means (d, x) pair).of_same
      (Descriptor.same_symm same (distinct' d' hd') (distinct d hd)) (free d hd) (distinct d hd)
      (free' d' hd') (distinct' d' hd')
  have after := (followsLaw definitions options s.registry s'.registry).shapes ds' s free' distinct'
    meant (.refl _ _)
  rcases outcome : (unbounded Stock.all definitions).shapesOf options ds' s with ⟨fault | ys, s''⟩
  · rw [outcome] at after
    exact absurd rfl (after.2 fault)
  · rw [outcome] at after
    refine ⟨ys, s'', rfl, fun key hkey => ?_⟩
    rw [← Registry.claims_keys] at hkey ⊢
    obtain ⟨c, hc, rfl⟩ := List.mem_map.1 hkey
    rcases after.1.claimed c hc with before | ⟨c', hc', key, -⟩
    · exact List.mem_map_of_mem (grown.claims_subset before)
    · exact key ▸ List.mem_map_of_mem hc'

end Lists

section Means

variable {ds ds' : List Descriptor} {xs ys : List Shape} {claims claims' : List Claim}
  (neat : r.Neat) (free : ∀ d ∈ ds, d.RefFree) (distinct : ∀ d ∈ ds, d.Distinct)
  (free' : ∀ d ∈ ds', d.RefFree) (distinct' : ∀ d ∈ ds', d.Distinct)
  (count : xs.length = ds.length) (count' : ys.length = ds'.length)
  (means : ∀ pair ∈ ds.zip xs, Means definitions options r claims pair.1 pair.2)
  (means' : ∀ pair ∈ ds'.zip ys, Means definitions options r claims' pair.1 pair.2)

include neat free distinct count means

theorem orderly_of_means : ∀ x ∈ xs, x.Orderly := by
  intro x hx
  obtain ⟨d, pair⟩ := Descriptor.exists_pair_of_mem_shapes count hx
  have hd := (List.of_mem_zip pair).1
  exact (means (d, x) pair).orderly (free d hd) (distinct d hd) neat

include free' distinct' count' means'

/-- If each descriptor has one that is the same, so has each shape that one of them means. -/
theorem exists_same_of_means (within : ∀ d ∈ ds, ∃ d' ∈ ds', Same d d') :
    ∀ x ∈ xs, ∃ y ∈ ys, Shape.Same x y := by
  intro x hx
  obtain ⟨d, pair⟩ := Descriptor.exists_pair_of_mem_shapes count hx
  have hd := (List.of_mem_zip pair).1
  obtain ⟨d', hd', same⟩ := within d hd
  obtain ⟨y, pair'⟩ := Descriptor.exists_pair_of_mem count' hd'
  exact ⟨y, (List.of_mem_zip pair').2, (means (d, x) pair).same neat (means' (d', y) pair') same
    (free d hd) (distinct d hd) (free' d' hd') (distinct' d' hd')⟩

end Means

/-- Where the members have shapes in one order, the unions are the same in either, and the same
names are claimed. -/
theorem exists_same_unions {ds ds' : List Descriptor} {s s' : Session} {xs : List Shape}
    (rest : s.registry.AtRest) (neat : s.registry.Neat) (some : ds ≠ []) (some' : ds' ≠ [])
    (free : ∀ d ∈ ds, d.RefFree) (free' : ∀ d ∈ ds', d.RefFree)
    (distinct : ∀ d ∈ ds, d.Distinct) (distinct' : ∀ d ∈ ds', d.Distinct)
    (within : ∀ d ∈ ds, ∃ d' ∈ ds', Same d d') (within' : ∀ d' ∈ ds', ∃ d ∈ ds, Same d' d)
    (taken : (unbounded Stock.all definitions).shapesOf options ds s = (.ok xs, s')) :
    let left := (standard definitions).shape (.union ds) options s
    let right := (standard definitions).shape (.union ds') options s
    ∃ x y, left.1 = .ok x ∧ right.1 = .ok y ∧ Shape.Same x y ∧
      ∀ key, key ∈ left.2.registry.keys ↔ key ∈ right.2.registry.keys := by
  intro left right
  obtain ⟨ys, s'', taken', sub⟩ := shapesOf_follows rest free distinct taken free' distinct' within'
  obtain ⟨_, _, again, sub'⟩ := shapesOf_follows rest free' distinct' taken' free distinct within
  rw [taken] at again
  cases again
  obtain ⟨-, count, means⟩ := means_of_shapesOf rest free distinct taken
  obtain ⟨-, count', means'⟩ := means_of_shapesOf rest free' distinct' taken'
  have orderly := orderly_of_means neat free distinct count means
  have orderly' := orderly_of_means neat free' distinct' count' means'
  have elements : SameElements xs ys :=
    ⟨exists_same_of_means neat free distinct free' distinct' count count' means means' within,
      exists_same_of_means neat free' distinct' free distinct count' count means' means within'⟩
  obtain ⟨x, made, combines⟩ := exists_shape_union (Stock.covers_all _) some taken
  obtain ⟨y, made', combines'⟩ := exists_shape_union (Stock.covers_all _) some' taken'
  have made : left = (.ok x, s') := made
  have made' : right = (.ok y, s'') := made'
  rw [made, made']
  refine ⟨x, y, rfl, rfl, ?_, fun key => ⟨fun h => sub' h, fun h => sub h⟩⟩
  exact Shape.same_of_combines orderly orderly' (elements.brought orderly orderly') combines
    combines'

/-- At rest, the names of a kind in the catalog are those that have been claimed. -/
theorem mem_keys_table_iff {r : Registry} (rest : r.AtRest) {kind : CollectedKind}
    {name : String} : name ∈ Assoc.keys (r.catalog.table kind) ↔ (kind, name) ∈ r.keys := by
  rw [Registry.catalog_table]
  constructor
  · intro listed
    obtain ⟨⟨_, x⟩, entry, rfl⟩ := List.mem_map.1 listed
    obtain ⟨e, he, key, -⟩ := Registry.mem_table.1 entry
    exact key ▸ List.mem_map_of_mem he
  · intro claimed
    obtain ⟨x, found⟩ := rest.exists_get? claimed
    obtain ⟨e, he, key, finished⟩ := Registry.get?_eq_some_iff.1 found
    exact List.mem_map.2 ⟨(name, x), Registry.mem_table.2 ⟨e, he, key, finished⟩, rfl⟩

/-- **A union is of a set.**  After whatever calls of pipelines, take two unions of descriptors
without references, each of which has an element for each element of the other that is the same,
whatever their order and however often they are repeated.  Under the same options and from the same
session either both have no shape, or both have one, the two are the same, and the same names are in
the catalog afterwards. -/
theorem union_is_of_a_set {calls : List Call} (sound : ∀ c ∈ calls, c.Distinct)
    (definitions : List (String × Descriptor)) (options : OptionSet) {ds ds' : List Descriptor}
    (some : ds ≠ []) (free : ∀ d ∈ ds, d.RefFree) (free' : ∀ d ∈ ds', d.RefFree)
    (distinct : ∀ d ∈ ds, d.Distinct) (distinct' : ∀ d ∈ ds', d.Distinct)
    (within : ∀ d ∈ ds, ∃ d' ∈ ds', d.same d' = true)
    (within' : ∀ d' ∈ ds', ∃ d ∈ ds, d'.same d = true) :
    let s := sessionAfter calls
    let left := (standard definitions).shape (.union ds) options s
    let right := (standard definitions).shape (.union ds') options s
    ((∃ fault, left.1 = .error fault) ∧ ∃ fault, right.1 = .error fault) ∨
      ∃ x y, left.1 = .ok x ∧ right.1 = .ok y ∧ x.same y = true ∧
        ∀ kind name, name ∈ Assoc.keys (left.2.registry.catalog.table kind) ↔
          name ∈ Assoc.keys (right.2.registry.catalog.table kind) := by
  intro s left right
  have rest : s.registry.AtRest := atRest_sessionAfter calls
  have neat : s.registry.Neat := neat_sessionAfter sound
  have some' : ds' ≠ [] := by
    obtain ⟨d, hd⟩ := List.exists_mem_of_ne_nil ds some
    obtain ⟨d', hd', -⟩ := within d hd
    exact List.ne_nil_of_mem hd'
  rcases taken : (unbounded Stock.all definitions).shapesOf options ds s with ⟨fault | xs, s'⟩
  · rcases taken' : (unbounded Stock.all definitions).shapesOf options ds' s with ⟨fault' | ys, s''⟩
    · refine .inl ⟨⟨fault, ?_⟩, fault', ?_⟩
      · exact congrArg Prod.fst (shape_union (Stock.covers_all _) some taken)
      · exact congrArg Prod.fst (shape_union (Stock.covers_all _) some' taken')
    · obtain ⟨_, _, succeeded, -⟩ :=
        shapesOf_follows rest free' distinct' taken' free distinct within
      rw [taken] at succeeded
      cases succeeded
  · obtain ⟨x, y, made, made', same, names⟩ :=
      exists_same_unions rest neat some some' free free' distinct distinct' within within' taken
    refine .inr ⟨x, y, made, made', same, fun kind name => ?_⟩
    have after : ∀ ds, ((standard definitions).shape (.union ds) options s).2.registry.AtRest :=
      fun ds => rest.of_grows
        ((disciplined_shape Stock.all definitions options (.union ds)).growing s)
    rw [mem_keys_table_iff (after ds), mem_keys_table_iff (after ds')]
    exact names _

/-- A class that is built inside of another one in the first order, before it in the second, and a
class that is known from an earlier call under other options. -/
theorem union_is_of_a_set_of_shared :
    let int : Descriptor := .builtin "int"
    let inner : Descriptor := .classDecl "Inner" [("n", int)] []
    let outer : Descriptor := .classDecl "Outer" [("x", int), ("inner", inner)] []
    let outer' : Descriptor := .classDecl "Outer" [("inner", inner), ("x", int)] []
    let old : Descriptor := .classDecl "Old" [] []
    let o : OptionSet := .ofList [.sortFields]
    let before : Call := ⟨Stock.all, [], o, .shape old⟩
    let shape := fun ds => ((standard []).shape (.union ds) .empty (sessionAfter [before])).1
    let I : Shape := .classType "Inner" [("n", .builtin "int")] .empty
    let O : Shape := .classType "Outer" [("x", .builtin "int"), ("inner", I)] .empty
    let O' : Shape := .classType "Outer" [("inner", I), ("x", .builtin "int")] .empty
    let K : Shape := .classType "Old" [] o
    shape [outer, inner, old] = .ok (.union [O, I, K] .empty) ∧
      shape [old, inner, outer', old] = .ok (.union [K, I, O'] .empty) ∧
      (Shape.union [O, I, K] .empty).same (.union [K, I, O'] .empty) = true := by
  intro int inner outer outer' old o before shape I O O' K
  have left : shape [outer, inner, old] = .ok (.union [O, I, K] .empty) := by
    simp only [shape, before, outer, inner, old, int, O, I, K, o]
    cbv
  have right : shape [old, inner, outer', old] = .ok (.union [K, I, O'] .empty) := by
    simp only [shape, before, outer', inner, old, int, O', I, K, o]
    cbv
  have number : int.RefFree ∧ int.Distinct :=
    ⟨.of_leaf (fun _ eq => Descriptor.noConfusion eq) rfl, .of_leaf trivial rfl⟩
  have built : ∀ name fields params, (∀ c ∈ fields.map Prod.snd, c.RefFree ∧ c.Distinct) →
      Assoc.Distinct fields → (Descriptor.classDecl name fields params).RefFree ∧
        (Descriptor.classDecl name fields params).Distinct := fun name fields params each table =>
    ⟨.intro (fun _ eq => by cases eq) fun c hc => (each c hc).1,
      .intro table fun c hc => (each c hc).2⟩
  have first : inner.RefFree ∧ inner.Distinct :=
    built _ _ _ (List.forall_mem_singleton.2 number) (by simp [Assoc.Distinct, Assoc.keys])
  have second : outer.RefFree ∧ outer.Distinct :=
    built _ _ _ (List.forall_mem_cons.2 ⟨number, List.forall_mem_singleton.2 first⟩)
      (by simp [Assoc.Distinct, Assoc.keys])
  have second' : outer'.RefFree ∧ outer'.Distinct :=
    built _ _ _ (List.forall_mem_cons.2 ⟨first, List.forall_mem_singleton.2 number⟩)
      (by simp [Assoc.Distinct, Assoc.keys])
  have third : old.RefFree ∧ old.Distinct :=
    built _ _ _ (List.forall_mem_nil _) (by simp [Assoc.Distinct, Assoc.keys])
  have sound : ∀ c ∈ [before], c.Distinct :=
    List.forall_mem_singleton.2 ⟨List.forall_mem_nil _, List.forall_mem_singleton.2 third.2⟩
  have each : ∀ d ∈ [outer, inner, old], d.RefFree ∧ d.Distinct := by
    simp only [List.forall_mem_cons]
    exact ⟨second, first, third, List.forall_mem_nil _⟩
  have each' : ∀ d ∈ [old, inner, outer', old], d.RefFree ∧ d.Distinct := by
    simp only [List.forall_mem_cons]
    exact ⟨third, first, second', third, List.forall_mem_nil _⟩
  have alike : Same outer outer' ∧ Same outer' outer := by
    refine ⟨?_, ?_⟩ <;> simp only [outer, outer', inner, int] <;> cbv
  have own : Same inner inner ∧ Same old old :=
    ⟨Descriptor.same_refl _ first.2, Descriptor.same_refl _ third.2⟩
  have outcome := union_is_of_a_set sound [] .empty (List.cons_ne_nil outer [inner, old])
    (fun d hd => (each d hd).1) (fun d hd => (each' d hd).1) (fun d hd => (each d hd).2)
    (fun d hd => (each' d hd).2)
    (by
      simp only [List.forall_mem_cons]
      exact ⟨⟨outer', by simp, alike.1⟩, ⟨inner, by simp, own.1⟩, ⟨old, by simp, own.2⟩,
        List.forall_mem_nil _⟩)
    (by
      simp only [List.forall_mem_cons]
      exact ⟨⟨old, by simp, own.2⟩, ⟨inner, by simp, own.1⟩, ⟨outer, by simp, alike.2⟩,
        ⟨old, by simp, own.2⟩, List.forall_mem_nil _⟩)
  rcases outcome with ⟨⟨fault, failed⟩, -⟩ | ⟨x, y, made, made', same, -⟩
  · cases left.symm.trans failed
  · cases left.symm.trans made
    cases right.symm.trans made'
    exact ⟨left, right, same⟩

end TypeCatalog.Pipeline
