import TypeCatalog.Proofs.Claims
import TypeCatalog.Proofs.Run

/-!
The walk through a document.

`Walk` is the order in which descriptors are met, told without shapes, options or failures: each
descriptor is entered part by part, and one that is collected is entered only where its name is
met for the first time.  An extraction that succeeds claims the names of the walk in the order of
the walk, each for the descriptor that it is first met with (`walkLaw`).  There is one walk
through a list of descriptors at most (`Walk.unique`).
-/

namespace TypeCatalog

/-- The walk through some descriptors, from the claims before it to those after it. -/
inductive Walk (definitions : List (String × Descriptor)) :
    List Descriptor → List Claim → List Claim → Prop
  | nil {claims} : Walk definitions [] claims claims
  | unresolved {d rest claims claims' name} : d.reading definitions = .unresolved name →
    Walk definitions rest claims claims' → Walk definitions (d :: rest) claims claims'
  | composed {d rest claims claims' claims''} : d.reading definitions = .composed →
    Walk definitions (d.parts definitions) claims claims' →
    Walk definitions rest claims' claims'' → Walk definitions (d :: rest) claims claims''
  | again {d rest claims claims' kind name source} :
    d.reading definitions = .collected kind name source →
    (kind, name) ∈ claims.map Claim.key →
    Walk definitions rest claims claims' → Walk definitions (d :: rest) claims claims'
  | first {d rest claims claims' claims'' kind name source} :
    d.reading definitions = .collected kind name source →
    (kind, name) ∉ claims.map Claim.key →
    Walk definitions (d.parts definitions) (claims ++ [⟨kind, name, source⟩]) claims' →
    Walk definitions rest claims' claims'' → Walk definitions (d :: rest) claims claims''

namespace Walk

variable {definitions : List (String × Descriptor)} {ds : List Descriptor}
  {claims claims' claims'' : List Claim}

/-- A walk has one outcome. -/
theorem unique (h : Walk definitions ds claims claims') (h' : Walk definitions ds claims claims'') :
    claims' = claims'' := by
  induction h generalizing claims'' with
  | nil =>
    cases h'
    rfl
  | unresolved reading _ ih =>
    cases h' with
    | unresolved _ later => exact ih later
    | composed reading' => simp [reading] at reading'
    | again reading' => simp [reading] at reading'
    | first reading' => simp [reading] at reading'
  | composed reading _ _ ihParts ihRest =>
    cases h' with
    | unresolved reading' => simp [reading] at reading'
    | composed _ parts later =>
      obtain rfl := ihParts parts
      exact ihRest later
    | again reading' => simp [reading] at reading'
    | first reading' => simp [reading] at reading'
  | again reading met _ ih =>
    cases h' with
    | unresolved reading' => simp [reading] at reading'
    | composed reading' => simp [reading] at reading'
    | again _ _ later => exact ih later
    | first reading' new =>
      rw [reading] at reading'
      cases reading'
      exact absurd met new
  | first reading new _ _ ihParts ihRest =>
    cases h' with
    | unresolved reading' => simp [reading] at reading'
    | composed reading' => simp [reading] at reading'
    | again reading' met =>
      rw [reading] at reading'
      cases reading'
      exact absurd met new
    | first reading' _ parts later =>
      rw [reading] at reading'
      cases reading'
      obtain rfl := ihParts parts
      exact ihRest later

end Walk

namespace Pipeline

/-- What succeeds claims names in the order of the walk. -/
theorem walkLaw (definitions : List (String × Descriptor)) (options : OptionSet) :
    Law Stock.all definitions options
      (fun d r outcome r' => ∀ x, outcome = .ok x → ∀ rest claims,
        Walk definitions rest r'.claims claims → Walk definitions (d :: rest) r.claims claims)
      (fun ds r outcome r' => ∀ xs, outcome = .ok xs →
        Walk definitions ds r.claims r'.claims) where
  unclaimed {d r} uncovered := by
    rw [Stock.covers_all] at uncovered
    cases uncovered
  malformed _ _ x eq := by cases eq
  unresolved _ reading x _ rest claims later := .unresolved reading later
  composed {d r outcome r'} _ reading parts x eq rest claims later := by
    cases outcome with
    | error fault => cases eq
    | ok shapes => exact .composed reading (parts shapes rfl) later
  conflict _ _ _ _ x eq := by cases eq
  known {d r kind name source e} _ reading found _ x _ rest claims later := by
    obtain ⟨he, key⟩ := Registry.find?_eq_some_iff.1 found
    refine .again reading ?_ later
    rw [Registry.claims_keys, ← key]
    exact List.mem_map_of_mem he
  built {d r kind name source shapes r'} _ reading free _ parts x _ rest claims later := by
    rw [Registry.fill_claims] at later
    have entered := parts shapes rfl
    rw [Registry.push_claims] at entered
    refine .first reading ?_ entered later
    rw [Registry.claims_keys]
    exact Registry.find?_eq_none_iff.1 free
  undone _ _ _ _ x eq := by cases eq
  nil xs _ := .nil
  cons {d rest r shape r' outcome r''} first _ later xs eq := by
    cases outcome with
    | error fault => cases eq
    | ok shapes => exact first shape rfl rest r''.claims (later shapes rfl)
  stop _ xs eq := by cases eq

end Pipeline

end TypeCatalog
