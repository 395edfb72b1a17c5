import TypeCatalog.Proofs.Failure
import TypeCatalog.Proofs.References

/-!
What calls leave to later calls.

Calls only add to a registry, so that each table of the catalog is carried on by every later one
(`catalog_extends`).

Between calls nothing is being built.  A descriptor that is collected then has the shape that is
kept under its name, so that taking its shape again finds the same one and changes nothing.  This is
not so inside a build, where the first answer may be a reference; but what is inside a build is not
asked for again.  `recallLaw` follows the descriptors that are met outside of builds, and
`shape_is_recalled` is what it says about a whole call.  A name without a definition is the
exception, since it is looked up in whatever has been collected, and is left out
(`Descriptor.Closed`).
-/

namespace TypeCatalog

/-! ## Tables -/

theorem Registry.table_prefix_of_grows {r r' : Registry} (grown : r.Grows r')
    (kind : CollectedKind) : r.table kind <+: r'.table kind := by
  obtain ⟨fresh, eq, -⟩ := grown
  unfold table
  rw [eq, List.filterMap_append]
  exact List.prefix_append _ _

/-! ## Names that have definitions -/

namespace Descriptor

/-- Every name in a descriptor, at any depth, has a definition. -/
inductive Closed (definitions : List (String × Descriptor)) : Descriptor → Prop
  | intro {d : Descriptor} : (∀ name, d = ref name → (Assoc.find? name definitions).isSome) →
    (∀ c ∈ d.components, Closed definitions c) → Closed definitions d

variable {definitions : List (String × Descriptor)} {d : Descriptor}

theorem Closed.of_leaf (named : ∀ name, d ≠ ref name) (leaf : d.components = []) :
    d.Closed definitions := by
  refine .intro (fun name eq => absurd eq (named name)) fun c hc => ?_
  rw [leaf] at hc
  cases hc

theorem Closed.component {c : Descriptor} (h : d.Closed definitions) (hc : c ∈ d.components) :
    c.Closed definitions := by
  cases h with
  | intro _ components => exact components c hc

theorem Closed.part {part : Descriptor} (tables : ∀ entry ∈ definitions, entry.2.Closed definitions)
    (h : d.Closed definitions) (hp : part ∈ d.parts definitions) : part.Closed definitions := by
  rcases part_cases hp with component | rfl | ⟨name, rfl, found⟩
  · exact h.component component
  · exact .of_leaf (fun name eq => by cases eq) rfl
  · exact tables _ (Assoc.mem_of_find? found)

/-- No name in a closed descriptor is looked up among what is collected. -/
theorem Closed.not_unresolved (h : d.Closed definitions) (name : String) :
    d.reading definitions ≠ .unresolved name := by
  intro reading
  obtain ⟨rfl, undefined⟩ := unresolved_cases reading
  cases h with
  | intro named _ =>
    have defined := named name rfl
    rw [undefined] at defined
    cases defined

end Descriptor

/-! ## Shapes that are taken again -/

namespace Pipeline

variable {stock : List Stock} {definitions : List (String × Descriptor)} {options : OptionSet}
  {d : Descriptor} {r : Registry}

/-- Taken again, in a registry or in one that it has grown into, a descriptor has a shape, and
nothing changes. -/
def Recalls (stock : List Stock) (definitions : List (String × Descriptor)) (options : OptionSet)
    (r : Registry) (d : Descriptor) (x : Shape) : Prop :=
  ∀ s : Session, r.Grows s.registry →
    (ofStock stock definitions).shape d options s = (.ok x, s)

/-- A descriptor that is collected is recalled once its claim is finished. -/
theorem recalls_of_finished {kind : CollectedKind} {name : String} {source : Descriptor}
    {e : Registry.Entry} {x : Shape} (covered : Stock.covers stock d = true)
    (reading : d.reading definitions = .collected kind name source) (he : e ∈ r.entries)
    (key : e.key = (kind, name)) (same : e.source.same source = true)
    (finished : e.shape? = some x) : Recalls stock definitions options r d x := by
  intro s grown
  have found : s.registry.find? kind name = some e :=
    Registry.find?_eq_some_iff.2 ⟨grown.mem he, key⟩
  rw [shape_of_known covered reading found same, Registry.Entry.known_eq finished]

/-- What is met while nothing is being built is recalled. -/
theorem recallLaw (stock : List Stock) (options : OptionSet)
    (closed : ∀ entry ∈ definitions, entry.2.Closed definitions)
    (distinct : ∀ entry ∈ definitions, entry.2.Distinct) :
    Law stock definitions options
      (fun d r outcome r' => d.Closed definitions → d.Distinct → r.AtRest →
        r'.AtRest ∧ ∀ x, outcome = .ok x → Recalls stock definitions options r' d x)
      (fun ds r outcome r' => (∀ d ∈ ds, d.Closed definitions) → (∀ d ∈ ds, d.Distinct) →
        r.AtRest → r'.AtRest ∧ ∀ xs, outcome = .ok xs → ∀ s : Session, r'.Grows s.registry →
          (unbounded stock definitions).shapesOf options ds s = (.ok xs, s)) where
  unclaimed uncovered _ _ rest := by
    refine ⟨rest, fun x eq s _ => ?_⟩
    cases eq
    exact shape_of_uncovered uncovered s
  malformed _ _ _ _ rest := ⟨rest, fun x eq => by cases eq⟩
  unresolved {d r name} _ reading named _ _ := absurd reading (named.not_unresolved name)
  composed {d r outcome r'} covered reading parts named tables rest := by
    obtain ⟨rest', again⟩ := parts (fun part hp => named.part closed hp)
      (fun part hp => tables.part distinct hp) rest
    refine ⟨rest', fun x eq s grown => ?_⟩
    cases outcome with
    | error fault => cases eq
    | ok shapes =>
      cases eq
      exact shape_of_composed covered reading (again shapes rfl s grown)
  conflict _ _ _ _ _ _ rest := ⟨rest, fun x eq => by cases eq⟩
  known {d r kind name source e} covered reading found same _ _ rest := by
    -- at rest the claim is finished, so that the answer was no reference
    obtain ⟨he, key⟩ := Registry.find?_eq_some_iff.1 found
    obtain ⟨x, finished⟩ := Option.ne_none_iff_exists'.1 (rest e he)
    refine ⟨rest, fun y eq => ?_⟩
    cases eq
    rw [Registry.Entry.known_eq finished]
    exact recalls_of_finished covered reading he key same finished
  built {d r kind name source shapes r'} covered reading free grown _ _ tables rest := by
    obtain ⟨e, he, rfl, rfl, rfl, finished⟩ := Registry.exists_filled free grown
      (d.assembled definitions options shapes)
    -- the claim is for this very descriptor, and will agree with it if it is met again
    have source : e.source.Distinct := by
      rcases Descriptor.collected_cases reading with ⟨-, eq⟩ | ⟨-, -, found, -⟩
      · exact eq ▸ tables
      · exact distinct _ (Assoc.mem_of_find? found)
    refine ⟨rest.of_grows (Registry.grows_fill free grown _), fun x eq => ?_⟩
    cases eq
    exact recalls_of_finished covered reading he rfl (Descriptor.same_refl e.source source) finished
  undone _ _ _ _ _ _ rest := ⟨rest, fun x eq => by cases eq⟩
  nil _ _ rest := ⟨rest, fun xs eq s _ => by cases eq; rfl⟩
  cons {d ds r shape r' outcome r''} first grown later named tables rest := by
    obtain ⟨rest', again⟩ :=
      first (named d List.mem_cons_self) (tables d List.mem_cons_self) rest
    obtain ⟨rest'', againLater⟩ := later (fun d' hd => named d' (List.mem_cons_of_mem _ hd))
      (fun d' hd => tables d' (List.mem_cons_of_mem _ hd)) rest'
    refine ⟨rest'', fun xs eq s grown' => ?_⟩
    cases outcome with
    | error fault => cases eq
    | ok shapes =>
      cases eq
      have now := again shape rfl s (grown.trans grown')
      exact shapesOf_cons_of_ok now (againLater shapes rfl s grown')
  stop {d ds r fault r'} first named tables rest :=
    ⟨(first (named d List.mem_cons_self) (tables d List.mem_cons_self) rest).1,
      fun xs eq => by cases eq⟩

/-! ## Whole calls -/

/-- The session that calls leave. -/
def sessionAfter (calls : List Call) : Session :=
  (serveAll calls .start).2

/-- Calls let the registry grow. -/
theorem grows_sessionAfter (calls later : List Call) :
    (sessionAfter calls).registry.Grows (sessionAfter (calls ++ later)).registry := by
  have sound := (serveAll_sound calls .start Registry.sound_empty).2.1
  unfold sessionAfter
  rw [serveAll_append]
  exact (serveAll_sound later (serveAll calls .start).2 sound).1

/-- Between calls nothing is being built. -/
theorem atRest_sessionAfter (calls : List Call) : (sessionAfter calls).registry.AtRest :=
  Registry.atRest_empty.of_grows (grows_sessionAfter [] calls)

/-- A call for a shape leaves the session that taking the shape leaves. -/
theorem sessionAfter_shape (stock : List Stock) (definitions : List (String × Descriptor))
    (options : OptionSet) (d : Descriptor) (calls : List Call) :
    sessionAfter (calls ++ [⟨stock, definitions, options, .shape d⟩]) =
      ((ofStock stock definitions).shape d options (sessionAfter calls)).2 := by
  unfold sessionAfter
  rw [serveAll_append]
  simp only [serveAll, Call.serve, Build.bind_apply]
  rcases (ofStock stock definitions).shape d options (serveAll calls .start).2 with ⟨fault | x, s⟩
  · rfl
  · rfl

/-- **The first shape that is written stays.**  Whatever is asked of stock pipelines, and however
many of the calls fail, each table of the catalog goes on with what was in it: later calls change
nothing in it, move nothing and take nothing away. -/
theorem catalog_extends (calls later : List Call) (kind : CollectedKind) :
    (catalogAfter calls).table kind <+: (catalogAfter (calls ++ later)).table kind := by
  have grown := grows_sessionAfter calls later
  unfold sessionAfter at grown
  rw [catalogAfter, catalogAfter, Registry.catalog_table, Registry.catalog_table]
  exact Registry.table_prefix_of_grows grown kind

/-- **Shapes are recalled.**  If all names in a descriptor and in the definitions have definitions,
a shape that is taken of the descriptor after some calls is taken again after whatever other calls,
with the same options, and the session stays as it is. -/
theorem shape_is_recalled (stock : List Stock) (definitions : List (String × Descriptor))
    (closed : ∀ entry ∈ definitions, entry.2.Closed definitions)
    (distinct : ∀ entry ∈ definitions, entry.2.Distinct) (d : Descriptor)
    (named : d.Closed definitions) (tables : d.Distinct) (options : OptionSet)
    (before : List Call) {x : Shape}
    (taken : ((ofStock stock definitions).shape d options (sessionAfter before)).1 = .ok x)
    (later : List Call) :
    let after := sessionAfter (before ++ ⟨stock, definitions, options, .shape d⟩ :: later)
    (ofStock stock definitions).shape d options after = (.ok x, after) := by
  intro after
  have rest := atRest_sessionAfter before
  have recalled := (recallLaw stock options closed distinct).shape d (sessionAfter before) named
    tables rest
  have left := sessionAfter_shape stock definitions options d before
  have grown := grows_sessionAfter (before ++ [⟨stock, definitions, options, .shape d⟩]) later
  rw [left, List.append_assoc, List.singleton_append] at grown
  exact recalled.2 x taken after grown

/-- An alias that names itself and a class that does: inside they are references, and yet the same
shapes are taken again, also after the class has been refused to another descriptor. -/
theorem shape_is_recalled_of_alias :
    let stock : List Stock := [.reference, .classDecl, .listLike, .union, .builtin]
    let node : Descriptor := .classDecl "Node" [("next", .ref "Node"), ("tree", .ref "Tree")] []
    let tree : Descriptor := .union [.builtin "int", .generic "list" [.ref "Tree"], .ref "Node"]
    let definitions := [("Node", node), ("Tree", tree)]
    let link : Shape := .reference "Tree" .typeAlias
    let nodeShape : Shape :=
      .classType "Node" [("next", .reference "Node" .classType), ("tree", link)] .empty
    let x : Shape :=
      .list (.union [.builtin "int", .list link .empty, nodeShape] .empty) .empty
    let d : Descriptor := .generic "list" [.ref "Tree"]
    let before : List Call := [⟨stock, definitions, .empty, .shape (.union [])⟩]
    let later : List Call :=
      [⟨stock, definitions, .empty, .shape (.classDecl "Node" [] [])⟩,
        ⟨stock, definitions, .empty, .shape (.classDecl "Other" [("tree", .ref "Tree")] [])⟩]
    let after := sessionAfter (before ++ ⟨stock, definitions, .empty, .shape d⟩ :: later)
    ((ofStock stock definitions).shape d .empty (sessionAfter before)).1 = .ok x ∧
      (ofStock stock definitions).shape d .empty after = (.ok x, after) := by
  intro stock node tree definitions link nodeShape x d before later after
  have defined : ∀ name, name = "Node" ∨ name = "Tree" →
      (Assoc.find? name definitions).isSome := by
    rintro name (rfl | rfl) <;> simp [definitions, Assoc.find?]
  have named : ∀ name, name = "Node" ∨ name = "Tree" →
      (Descriptor.ref name).Closed definitions := fun name isName =>
    .intro (fun other eq => by cases eq; exact defined name isName) fun c hc => by cases hc
  have leaf : ∀ name, (Descriptor.ref name).Distinct := fun name => .of_leaf trivial rfl
  have nodeNamed : node.Closed definitions :=
    .intro (fun name eq => by simp [node] at eq) (List.forall_mem_cons.2 ⟨named "Node" (.inl rfl),
      List.forall_mem_singleton.2 (named "Tree" (.inr rfl))⟩)
  have dNamed : d.Closed definitions :=
    .intro (fun name eq => by simp [d] at eq)
      (List.forall_mem_singleton.2 (named "Tree" (.inr rfl)))
  have treeNamed : tree.Closed definitions :=
    .intro (fun name eq => by simp [tree] at eq) (List.forall_mem_cons.2
      ⟨.of_leaf (fun name eq => by cases eq) rfl, List.forall_mem_cons.2 ⟨dNamed,
        List.forall_mem_singleton.2 (named "Node" (.inl rfl))⟩⟩)
  have nodeTables : node.Distinct :=
    .intro (by simp [node, Descriptor.TableDistinct, Assoc.Distinct, Assoc.keys])
      (List.forall_mem_cons.2 ⟨leaf "Node", List.forall_mem_singleton.2 (leaf "Tree")⟩)
  have dTables : d.Distinct := .intro trivial (List.forall_mem_singleton.2 (leaf "Tree"))
  have treeTables : tree.Distinct :=
    .intro trivial (List.forall_mem_cons.2 ⟨.of_leaf trivial rfl, List.forall_mem_cons.2
      ⟨dTables, List.forall_mem_singleton.2 (leaf "Node")⟩⟩)
  have taken : ((ofStock stock definitions).shape d .empty (sessionAfter before)).1 = .ok x := by
    have start : sessionAfter before = .start := rfl
    rw [start]
    simp only [x, nodeShape, link, d, definitions, tree, node, stock]
    cbv
  exact ⟨taken, shape_is_recalled stock definitions
    (List.forall_mem_cons.2 ⟨nodeNamed, List.forall_mem_singleton.2 treeNamed⟩)
    (List.forall_mem_cons.2 ⟨nodeTables, List.forall_mem_singleton.2 treeTables⟩)
    d dNamed dTables .empty before taken later⟩

end Pipeline

end TypeCatalog
