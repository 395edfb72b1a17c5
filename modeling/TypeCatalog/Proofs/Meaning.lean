import TypeCatalog.Proofs.Claims
import TypeCatalog.Proofs.RefFree
import TypeCatalog.Proofs.SameAssembly

/-!
What descriptors without references mean over a registry.

Which class is built where depends on the order in which descriptors are met: the first one that
needs it builds it, and the others find it.  `Descriptor.Means` says what the shape of a descriptor
may be without saying who builds it.  A composed descriptor is put together from what its parts
mean; a type that the registry holds already means what is held; and any other type is collected by
one of some claims, and means what is put together for the descriptor of that claim, which need only
be the same as the one at hand.

Descriptors that are the same mean the same, whichever claims either of them is collected by
(`Means.same`).  And what means something by some claims is consistent with them: all that is the
same means something by them, too (`Means.of_same`).
-/

namespace TypeCatalog

namespace Registry

variable {r r' : Registry}

theorem Grows.claims_subset (grown : r.Grows r') : r.claims ⊆ r'.claims :=
  List.map_subset _ fun _ he => grown.mem he

theorem eq_of_key_eq {e e' : Entry} (he : e ∈ r.entries) (he' : e' ∈ r.entries)
    (key : e.key = e'.key) : e = e' :=
  List.inj_on_of_nodup_map r.distinct he he' key

theorem claim_eq_of_key_eq {c c' : Claim} (hc : c ∈ r.claims) (hc' : c' ∈ r.claims)
    (key : c.key = c'.key) : c = c' := by
  have distinct : (r.claims.map Claim.key).Nodup := by
    rw [claims_keys]
    exact r.distinct
  exact List.inj_on_of_nodup_map distinct hc hc' key

end Registry

namespace Descriptor

open Shape (Orderly)

theorem ownKey?_eq_of_same {a b : Descriptor} (h : Same a b) : a.ownKey? = b.ownKey? := by
  cases same_iff.1 h <;> rfl

/-- What a descriptor may mean over a registry, by some claims. -/
inductive Means (definitions : List (String × Descriptor)) (options : OptionSet) (r : Registry)
    (claims : List Claim) : Descriptor → Shape → Prop
  | composed {d : Descriptor} {xs : List Shape} : d.reading definitions = .composed →
    xs.length = (d.parts definitions).length →
    (∀ pair ∈ (d.parts definitions).zip xs, Means definitions options r claims pair.1 pair.2) →
    Means definitions options r claims d (d.assembled definitions options xs)
  | held {d : Descriptor} {e : Registry.Entry} {x : Shape} : e ∈ r.entries →
    d.ownKey? = some e.key → Same e.source d → e.shape? = some x →
    Means definitions options r claims d x
  | collected {d : Descriptor} {c : Claim} {xs : List Shape} : c ∈ claims → c.key ∉ r.keys →
    d.ownKey? = some c.key → Same c.source d → c.source.RefFree → c.source.Distinct →
    xs.length = (c.source.parts definitions).length →
    (∀ pair ∈ (c.source.parts definitions).zip xs,
      Means definitions options r claims pair.1 pair.2) →
    Means definitions options r claims d (c.source.assembled definitions options xs)

variable {definitions : List (String × Descriptor)} {options : OptionSet} {r : Registry}
  {claims claims' : List Claim} {a b d d' : Descriptor} {x y : Shape}

/-- More claims are no less to mean something by. -/
theorem Means.mono (sub : claims ⊆ claims') (means : Means definitions options r claims d x) :
    Means definitions options r claims' d x := by
  induction means with
  | composed reading count _ ih => exact .composed reading count ih
  | held he own same finished => exact .held he own same finished
  | collected hc vacant own same free distinct count _ ih =>
    exact .collected (sub hc) vacant own same free distinct count ih

/-- What has a name of its own is not composed. -/
theorem not_composed_of_ownKey {key : CollectedKind × String} (own : d.ownKey? = some key)
    (reading : d.reading definitions = .composed) : False := by
  rw [(composed_cases reading).1] at own
  cases own

/-- A type that the registry does not hold means something by a claim of its name. -/
theorem Means.exists_claim (means : Means definitions options r claims d x)
    {key : CollectedKind × String} (own : d.ownKey? = some key) (vacant : key ∉ r.keys) :
    ∃ c ∈ claims, c.key = key ∧ Same c.source d ∧ c.source.RefFree ∧ c.source.Distinct ∧
      ∃ xs : List Shape, x = c.source.assembled definitions options xs ∧
        xs.length = (c.source.parts definitions).length ∧
        ∀ pair ∈ (c.source.parts definitions).zip xs,
          Means definitions options r claims pair.1 pair.2 := by
  cases means with
  | composed reading => exact absurd reading (not_composed_of_ownKey own)
  | @held _ e _ he own' =>
    rw [own, Option.some.injEq] at own'
    exact absurd (own' ▸ List.mem_map_of_mem he) vacant
  | @collected _ c xs hc _ own' same free distinct count parts =>
    rw [own, Option.some.injEq] at own'
    exact ⟨c, hc, own'.symm, same, free, distinct, xs, rfl, count, parts⟩

/-- A type that the registry holds means what is held. -/
theorem Means.exists_entry (means : Means definitions options r claims d x)
    {key : CollectedKind × String} (own : d.ownKey? = some key) (taken : key ∈ r.keys) :
    ∃ e ∈ r.entries, e.key = key ∧ Same e.source d ∧ e.shape? = some x := by
  cases means with
  | composed reading => exact absurd reading (not_composed_of_ownKey own)
  | @held _ e _ he own' same finished =>
    rw [own, Option.some.injEq] at own'
    exact ⟨e, he, own'.symm, same, finished⟩
  | collected _ vacant own' =>
    rw [own, Option.some.injEq] at own'
    exact absurd (own' ▸ taken) vacant

/-- Each of some descriptors has a shape among as many. -/
theorem exists_pair_of_mem {ds : List Descriptor} {xs : List Shape}
    (count : xs.length = ds.length) (hd : d ∈ ds) : ∃ x, (d, x) ∈ ds.zip xs := by
  rw [← List.map_fst_zip (Nat.le_of_eq count.symm)] at hd
  obtain ⟨⟨d, x⟩, pair, rfl⟩ := List.mem_map.1 hd
  exact ⟨x, pair⟩

/-- Each of some shapes has a descriptor among as many. -/
theorem exists_pair_of_mem_shapes {ds : List Descriptor} {xs : List Shape}
    (count : xs.length = ds.length) (hx : x ∈ xs) : ∃ d, (d, x) ∈ ds.zip xs := by
  rw [← List.map_snd_zip (Nat.le_of_eq count)] at hx
  obtain ⟨⟨d, x⟩, pair, rfl⟩ := List.mem_map.1 hx
  exact ⟨d, pair⟩

/-- Shapes that belong to the parts of a descriptor one by one have what all of them have. -/
theorem RefFree.forall_of_zip {good : Shape → Prop} {xs : List Shape} (free : d.RefFree)
    (distinct : d.Distinct) (count : xs.length = (d.parts definitions).length)
    (parts : ∀ pair ∈ (d.parts definitions).zip xs,
      pair.1.RefFree → pair.1.Distinct → good pair.2) : ∀ x ∈ xs, good x := by
  intro x hx
  obtain ⟨p, pair⟩ := exists_pair_of_mem_shapes count hx
  have part := (List.of_mem_zip pair).1
  exact parts (p, x) pair (free.part part) (free.distinct_part distinct part)

/-- What a descriptor means is orderly if all that is held is. -/
theorem Means.orderly (means : Means definitions options r claims d x) (free : d.RefFree)
    (distinct : d.Distinct) (neat : r.Neat) : Orderly x := by
  induction means with
  | composed reading count _ ih =>
    exact orderly_assembled distinct (fun fault => by simp [reading]) count
      (free.forall_of_zip distinct count ih)
  | held he _ _ finished => exact neat _ he _ finished
  | @collected d c xs _ _ own same free' distinct' count _ ih =>
    have sane : ∀ fault, c.source.reading definitions ≠ .malformed fault := by
      rw [reading_of_ownKey ((ownKey?_eq_of_same same).trans own)]
      exact fun fault eq => by cases eq
    exact orderly_assembled distinct' sane count (free'.forall_of_zip distinct' count ih)

/-- Parts that are like each other mean the same if descriptors that are the same do. -/
theorem same_assembled_of_means {xs ys : List Shape} (neat : r.Neat) (alike : Same a b)
    (free : a.RefFree) (distinct : a.Distinct) (free' : b.RefFree) (distinct' : b.Distinct)
    (count : xs.length = (a.parts definitions).length)
    (count' : ys.length = (b.parts definitions).length)
    (parts : ∀ pair ∈ (a.parts definitions).zip xs,
      Means definitions options r claims pair.1 pair.2)
    (parts' : ∀ pair ∈ (b.parts definitions).zip ys,
      Means definitions options r claims' pair.1 pair.2)
    (each : ∀ pair ∈ (a.parts definitions).zip xs, ∀ q y, Means definitions options r claims' q y →
      Same pair.1 q → pair.1.RefFree → pair.1.Distinct → q.RefFree → q.Distinct →
      Shape.Same pair.2 y) :
    Shape.Same (a.assembled definitions options xs) (b.assembled definitions options ys) := by
  have orderly : ∀ x ∈ xs, Orderly x := free.forall_of_zip distinct count fun pair hpair free' =>
    fun distinct' => (parts pair hpair).orderly free' distinct' neat
  have orderly' : ∀ y ∈ ys, Orderly y := free'.forall_of_zip distinct' count' fun pair hpair free =>
    fun distinct => (parts' pair hpair).orderly free distinct neat
  refine same_assembled alike distinct distinct' orderly orderly' ⟨count, count', ?_⟩
  intro p x q y hp hq like
  have part := (List.of_mem_zip hp).1
  have part' := (List.of_mem_zip hq).1
  have sound := free.distinct_part distinct part
  exact each (p, x) hp q y (parts' (q, y) hq) (like.same sound) (free.part part) sound
    (free'.part part') (free'.distinct_part distinct' part')

/-- Descriptors that are the same mean the same, by whichever claims. -/
theorem Means.same (neat : r.Neat) (means : Means definitions options r claims a x)
    (means' : Means definitions options r claims' b y) (alike : Same a b) (free : a.RefFree)
    (distinct : a.Distinct) (free' : b.RefFree) (distinct' : b.Distinct) : Shape.Same x y := by
  have own := ownKey?_eq_of_same alike
  induction means generalizing b y with
  | @composed a xs reading count parts ih =>
    have reading' := reading_alike alike definitions
    rw [reading] at reading'
    cases means' with
    | composed _ count' parts' =>
      exact same_assembled_of_means neat alike free distinct free' distinct' count count' parts
        parts' fun pair hpair q y means' same free distinct free' distinct' =>
          ih pair hpair means' same free distinct free' distinct' (ownKey?_eq_of_same same)
    | held _ own' => exact absurd reading'.eq_composed (not_composed_of_ownKey own')
    | collected _ _ own' => exact absurd reading'.eq_composed (not_composed_of_ownKey own')
  | @held a e x he own' same finished =>
    obtain ⟨e', he', key, -, finished'⟩ :=
      means'.exists_entry (own.symm.trans own') (List.mem_map_of_mem he)
    rw [Registry.eq_of_key_eq he' he key, finished, Option.some.injEq] at finished'
    rw [← finished']
    exact Shape.same_refl (neat e he x finished).proper
  | @collected a c xs hc vacant own' same freeSource distinctSource count parts ih =>
    obtain ⟨c', hc', key, same', freeSource', distinctSource', ys, rfl, count', parts'⟩ :=
      means'.exists_claim (own.symm.trans own') vacant
    -- two runs may have built the type for different descriptors, each the same as these two
    have together : Same c.source c'.source :=
      same_trans (same_trans same alike) (same_symm same' distinctSource' distinct')
    refine same_assembled_of_means neat together freeSource distinctSource freeSource'
      distinctSource' count count' parts parts' ?_
    intro pair hpair q y means' same free distinct free' distinct'
    exact ih pair hpair means' same free distinct free' distinct' (ownKey?_eq_of_same same)

/-- Descriptors mean something one by one if each of them does. -/
theorem exists_means {ds : List Descriptor}
    (each : ∀ d ∈ ds, ∃ x, Means definitions options r claims d x) :
    ∃ xs : List Shape, xs.length = ds.length ∧
      ∀ pair ∈ ds.zip xs, Means definitions options r claims pair.1 pair.2 := by
  induction ds with
  | nil => exact ⟨[], rfl, fun pair hpair => by cases hpair⟩
  | cons d rest ih =>
    obtain ⟨x, means⟩ := each d List.mem_cons_self
    obtain ⟨xs, count, parts⟩ := ih fun d hd => each d (List.mem_cons_of_mem _ hd)
    exact ⟨x :: xs, congrArg Nat.succ count, List.forall_mem_cons.2 ⟨means, parts⟩⟩

/-- What is the same means something if anything does. -/
theorem Means.of_same (means : Means definitions options r claims a x) (alike : Same a b)
    (free : a.RefFree) (distinct : a.Distinct) (free' : b.RefFree) (distinct' : b.Distinct) :
    ∃ y, Means definitions options r claims b y := by
  have own := ownKey?_eq_of_same alike
  induction means generalizing b with
  | @composed a xs reading count parts ih =>
    have reading' := reading_alike alike definitions
    rw [reading] at reading'
    have each : ∀ part ∈ b.parts definitions, ∃ y, Means definitions options r claims part y := by
      intro part hp
      obtain ⟨p, hp', like⟩ := exists_part_of_same alike distinct distinct' hp
      obtain ⟨x, pair⟩ := exists_pair_of_mem count hp'
      rcases like with rfl | same
      · exact ⟨x, parts (p, x) pair⟩
      · exact ih (p, x) pair same (free.part hp') (free.distinct_part distinct hp')
          (free'.part hp) (free'.distinct_part distinct' hp) (ownKey?_eq_of_same same)
    obtain ⟨ys, count', parts'⟩ := exists_means each
    exact ⟨_, .composed reading'.eq_composed count' parts'⟩
  | held he own' same finished =>
    exact ⟨_, .held he (own.symm.trans own') (same_trans same alike) finished⟩
  | collected hc vacant own' same freeSource distinctSource count parts =>
    exact ⟨_, .collected hc vacant (own.symm.trans own') (same_trans same alike) freeSource
      distinctSource count parts⟩

end Descriptor

end TypeCatalog
