import TypeCatalog.Proofs.Catalog
import TypeCatalog.Proofs.Claims
import TypeCatalog.Proofs.Occurrence
import TypeCatalog.Proofs.Run

/-!
References resolve.

A reference is handed out for a name that is claimed but not finished, and a claim may be taken
back.  What saves the references is that they never outlive their claims: a shape is `Grounded`
in the names that are claimed when it is returned (`grounded_invariant`), and a claim is taken
back only together with everything that was built on its behalf.  Between two calls of a pipeline
nothing is unfinished, so that every reference then leads to a type of the catalog
(`references_resolve`).

Calls, one after another, keep whatever single shapes keep (`serveAll_keeps`).
-/

namespace TypeCatalog

namespace Shape

/-- Every reference in a shape is to one of some names. -/
def Grounded (claimed : List (CollectedKind × String)) (x : Shape) : Prop :=
  ∀ name kind, Occurs (.reference name kind) x → (kind, name) ∈ claimed

section Grounded

variable {claimed claimed' : List (CollectedKind × String)} {x : Shape}

theorem Grounded.mono (h : Grounded claimed x) (sub : claimed ⊆ claimed') : Grounded claimed' x :=
  fun name kind occurs => sub (h name kind occurs)

/-- It is a property of all that occurs in the shape. -/
theorem grounded_iff : Grounded claimed x ↔
    Throughout (fun part => ∀ name kind, part = .reference name kind → (kind, name) ∈ claimed)
      x := by
  constructor
  · rintro h part occurs name kind rfl
    exact h name kind occurs
  · intro h name kind occurs
    exact h _ occurs name kind rfl

theorem grounded_reference {name : String} {kind : CollectedKind} (h : (kind, name) ∈ claimed) :
    Grounded claimed (.reference name kind) := by
  intro name' kind' occurs
  cases occurs with
  | self => exact h
  | within hpart _ => cases hpart

theorem grounded_unknown : Grounded claimed .unknown :=
  grounded_iff.2 (throughout_of_leaf (fun _ _ eq => by cases eq) rfl)

end Grounded

end Shape

open Shape (Grounded grounded_iff) in
/-- A shape refers to nothing that the shapes it is put together from do not refer to. -/
theorem Descriptor.grounded_assembled {claimed : List (CollectedKind × String)}
    {shapes : List Shape} (definitions : List (String × Descriptor)) (options : OptionSet)
    (d : Descriptor) (h : ∀ x ∈ shapes, Grounded claimed x) :
    Grounded claimed (d.assembled definitions options shapes) := by
  rw [grounded_iff]
  refine Descriptor.throughout_assembled (fun _ _ eq => by cases eq) (fun _ _ eq => by cases eq)
    (fun x hx => grounded_iff.1 (h x hx)) definitions options d ?_
  intro made name kind eq
  exact absurd eq (made.new name kind)

/-! ## What a run keeps -/

namespace Registry

open Shape (Grounded)

variable {r r' : Registry}

/-- Every finished shape refers to claimed names only. -/
def Sound (r : Registry) : Prop :=
  ∀ e ∈ r.entries, ∀ x, e.shape? = some x → Grounded r.keys x

theorem sound_empty : Sound empty := fun _ h => absurd h List.not_mem_nil

theorem Sound.push (sound : r.Sound) {kind : CollectedKind} {name : String} (source : Descriptor)
    (free : r.find? kind name = none) : (r.push kind name source free).Sound := by
  intro e he x finished
  rw [push_entries] at he
  rcases List.mem_append.1 he with old | new
  · refine (sound e old x finished).mono ?_
    rw [push_keys]
    exact List.subset_append_left _ _
  · cases List.mem_singleton.1 new
    cases finished

theorem fill_keys (kind : CollectedKind) (name : String) (shape : Shape) :
    (r.fill kind name shape).keys = r.keys := by
  rw [← claims_keys, fill_claims, claims_keys]

theorem Sound.fill (sound : r.Sound) {kind : CollectedKind} {name : String} {shape : Shape}
    (grounded : Grounded r.keys shape) : (r.fill kind name shape).Sound := by
  intro e he x finished
  rw [fill_keys]
  rw [fill_entries] at he
  obtain ⟨e', he', rfl⟩ := List.mem_map.1 he
  split at finished
  · cases finished
    exact grounded
  · exact sound e' he' x finished

/-- What a name is known by is grounded, finished or not. -/
theorem Sound.known (sound : r.Sound) {e : Entry} (he : e ∈ r.entries) :
    Grounded r.keys e.known := by
  unfold Entry.known
  cases finished : e.shape? with
  | none => exact Shape.grounded_reference (List.mem_map_of_mem he)
  | some x => exact sound e he x finished

end Registry

namespace Pipeline

open Shape (Grounded)

/-- Shapes are grounded in the names that are claimed when they are returned. -/
theorem grounded_invariant (definitions : List (String × Descriptor)) (options : OptionSet) :
    Invariant definitions options Registry.Sound fun r x => Grounded r.keys x where
  unknown := Shape.grounded_unknown
  known sound he := sound.known he
  mono grown grounded := grounded.mono grown.keys_subset
  composed {d r shapes} _ grounded := d.grounded_assembled definitions options grounded
  push source free sound := sound.push source free
  built {d source r r' kind name shapes} _ _ _ sound grounded := by
    have assembled := d.grounded_assembled definitions options grounded
    refine ⟨sound.fill assembled, ?_⟩
    rw [Registry.fill_keys]
    exact assembled

/-! ## Calls -/

/-- What a pipeline is asked for. -/
inductive Request where
  | shape (d : Descriptor)
  | params (annotations : List (String × Descriptor)) (names : List String)

/-- A request to a pipeline of stock recognizers; it may have other recognizers and definitions
than at the call before. -/
structure Call where
  stock : List Stock
  definitions : List (String × Descriptor)
  options : OptionSet
  request : Request

/-- The shapes that a call returns. -/
def Call.serve (c : Call) : Build (List Shape) :=
  match c.request with
  | .shape d => do
    let shape ← (ofStock c.stock c.definitions).shape d c.options
    return [shape]
  | .params annotations names => do
    let table ← (ofStock c.stock c.definitions).params annotations names c.options
    return table.map Prod.snd

/-- All shapes that calls return, one call after another, and the session that they leave.  A
call that fails returns nothing. -/
def serveAll : List Call → Session → List Shape × Session
  | [], s => ([], s)
  | c :: rest, s =>
    match c.serve s with
    | (.ok shapes, s') => (shapes ++ (serveAll rest s').1, (serveAll rest s').2)
    | (.error _, s') => serveAll rest s'

/-- The shapes that calls return from the start of a session. -/
def returnedBy (calls : List Call) : List Shape :=
  (serveAll calls .start).1

/-- The catalog that calls leave from the start of a session. -/
def catalogAfter (calls : List Call) : Catalog :=
  (serveAll calls .start).2.registry.catalog

/-- The descriptors whose shapes a call takes. -/
def Call.subjects (c : Call) : List Descriptor :=
  match c.request with
  | .shape d => [d]
  | .params annotations names =>
    (Descriptor.parameterNames names).map (Recognizer.annotated annotations)

/-- What a call returns of the shapes of its subjects. -/
def Call.answers (c : Call) (shapes : List Shape) : List Shape :=
  match c.request with
  | .shape _ => shapes
  | .params _ names =>
    (Assoc.ofPairs ((Descriptor.parameterNames names).zip shapes)).map Prod.snd

theorem Call.serve_apply (c : Call) (s : Session) :
    c.serve s =
      (do
        let shapes ← (unbounded c.stock c.definitions).shapesOf c.options c.subjects
        return c.answers shapes : Build (List Shape)) s := by
  obtain ⟨stock, definitions, options, request⟩ := c
  cases request with
  | shape d =>
    simp only [serve, subjects, answers, Surroundings.shapesOf_cons, Surroundings.shapesOf_nil,
      bind_assoc, pure_bind]
    rfl
  | params annotations names =>
    simp only [serve, subjects, answers, Build.bind_apply, params_eq]
    split <;> rename_i outcome <;> split at outcome <;> simp_all

theorem Call.mem_of_mem_answers {c : Call} {shapes : List Shape} {x : Shape}
    (h : x ∈ c.answers shapes) : x ∈ shapes := by
  unfold answers at h
  split at h
  · exact h
  · exact Descriptor.mem_of_mem_ofPairs_zip h

section Keeps

variable {Inv : Registry → Prop} {Good : Registry → Shape → Prop}
  (kept : ∀ definitions options, Invariant definitions options Inv Good)

include kept

/-- A call lets the registry grow, keeps its invariant, and returns good shapes. -/
theorem Call.serve_keeps (c : Call) (s : Session) (inv : Inv s.registry) :
    s.registry.Grows (c.serve s).2.registry ∧ Inv (c.serve s).2.registry ∧
      ∀ xs, (c.serve s).1 = .ok xs → ∀ x ∈ xs, Good (c.serve s).2.registry x := by
  have grown := growing_shapes c.stock c.definitions c.options c.subjects s
  have after := ((kept c.definitions c.options).law c.stock).shapes c.subjects s inv
  rw [c.serve_apply]
  rcases outcome : (unbounded c.stock c.definitions).shapesOf c.options c.subjects s with
    ⟨fault | shapes, s'⟩
  · rw [outcome] at grown after
    rw [Build.bind_error outcome]
    exact ⟨grown, after.1, fun xs eq => by cases eq⟩
  · rw [outcome] at grown after
    rw [Build.bind_ok outcome]
    refine ⟨grown, after.1, fun xs eq x hx => ?_⟩
    cases eq
    exact after.2 shapes rfl x (Call.mem_of_mem_answers hx)

/-- So do all calls together, whether they succeed or fail. -/
theorem serveAll_keeps (calls : List Call) (s : Session) (inv : Inv s.registry) :
    s.registry.Grows (serveAll calls s).2.registry ∧ Inv (serveAll calls s).2.registry ∧
      ∀ x ∈ (serveAll calls s).1, Good (serveAll calls s).2.registry x := by
  induction calls generalizing s with
  | nil => exact ⟨.refl _, inv, fun x hx => by cases hx⟩
  | cons c rest ih =>
    obtain ⟨grown, inv', good⟩ := c.serve_keeps kept s inv
    unfold serveAll
    rcases outcome : c.serve s with ⟨fault | shapes, s'⟩
    · rw [outcome] at grown inv'
      obtain ⟨grown', inv'', goodRest⟩ := ih s' inv'
      exact ⟨grown.trans grown', inv'', goodRest⟩
    · rw [outcome] at grown inv' good
      obtain ⟨grown', inv'', goodRest⟩ := ih s' inv'
      refine ⟨grown.trans grown', inv'', fun x hx => ?_⟩
      rcases List.mem_append.1 hx with now | later
      · exact (kept c.definitions c.options).mono grown' (good shapes rfl x now)
      · exact goodRest x later

end Keeps

/-- Calls let the registry grow, keep it sound, and return grounded shapes. -/
theorem serveAll_sound (calls : List Call) (s : Session) (sound : s.registry.Sound) :
    s.registry.Grows (serveAll calls s).2.registry ∧ (serveAll calls s).2.registry.Sound ∧
      ∀ x ∈ (serveAll calls s).1, Grounded (serveAll calls s).2.registry.keys x :=
  serveAll_keeps grounded_invariant calls s sound

theorem serveAll_append (calls later : List Call) (s : Session) :
    (serveAll (calls ++ later) s).2 = (serveAll later (serveAll calls s).2).2 := by
  induction calls generalizing s with
  | nil => rfl
  | cons c rest ih =>
    simp only [List.cons_append, serveAll]
    rcases c.serve s with ⟨fault | shapes, s'⟩
    · exact ih s'
    · exact ih s'

/-- **References resolve.**  Whatever is asked of stock pipelines, and however many of the calls
fail, every reference in a shape that was returned or is in the catalog leads to a type of the
catalog, and later calls leave that type as it is. -/
theorem references_resolve (calls later : List Call) {x : Shape}
    (held : x ∈ returnedBy calls ∨
      ∃ kind name, (catalogAfter calls).get? kind name = some x)
    {kind : CollectedKind} {name : String} (occurs : Shape.Occurs (.reference name kind) x) :
    ∃ target, (catalogAfter calls).get? kind name = some target ∧
      (catalogAfter (calls ++ later)).get? kind name = some target := by
  obtain ⟨grown, sound, grounded⟩ := serveAll_sound calls .start Registry.sound_empty
  obtain ⟨grown', -, -⟩ := serveAll_sound later (serveAll calls .start).2 sound
  have claimed : (kind, name) ∈ (serveAll calls .start).2.registry.keys := by
    rcases held with returned | ⟨kind', name', collected⟩
    · exact grounded x returned name kind occurs
    · rw [catalogAfter, Registry.catalog_get?] at collected
      obtain ⟨e, he, -, finished⟩ := Registry.get?_eq_some_iff.1 collected
      exact sound e he x finished name kind occurs
  obtain ⟨target, found⟩ := (Registry.atRest_empty.of_grows grown).exists_get? claimed
  refine ⟨target, ?_, ?_⟩
  · rw [catalogAfter, Registry.catalog_get?, found]
  · rw [catalogAfter, serveAll_append, Registry.catalog_get?]
    exact Registry.get?_of_grows grown' found

/-- A failed call, then one for a class that names itself: the reference leads to the class, and
another failed call does not change that. -/
theorem reference_to_enclosing_class :
    let link : Descriptor := .classDecl "Link" [("next", .ref "Link")] []
    let failing : Call := ⟨Stock.all, [], .empty, .shape (.union [])⟩
    let asking : Call := ⟨Stock.all, [], .empty, .shape link⟩
    ∃ target, (catalogAfter [failing, asking]).get? .classType "Link" = some target ∧
      (catalogAfter ([failing, asking] ++ [failing])).get? .classType "Link" = some target := by
  intro link failing asking
  have returned : returnedBy [failing, asking] =
      [.classType "Link" [("next", .reference "Link" .classType)] .empty] := rfl
  exact references_resolve [failing, asking] [failing]
    (.inl (returned ▸ List.mem_cons_self)) (.within List.mem_cons_self .self)

end Pipeline

end TypeCatalog
