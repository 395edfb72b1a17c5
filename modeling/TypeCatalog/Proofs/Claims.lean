import TypeCatalog.Proofs.Catalog

/-!
Claims apart from what becomes of them.

`Claim` is an entry of a registry without its shape.  A registry leads to another when the other
has its claims and its finished shapes (`Registry.Leads`): every registry on the way of an
extraction leads to the one in which it ends, also while a claim is not finished yet.  What holds
of every finished claim (`Registry.Finished`) is kept by claiming a name and by finishing a claim
of which it holds.  At rest every claim is finished, and the table of a kind is made of the claims
of that kind, one by one (`Registry.forall₂_table`).
-/

namespace TypeCatalog

/-- A name that is collected, with the descriptor for which it was first met. -/
structure Claim where
  kind : CollectedKind
  name : String
  source : Descriptor

/-- What no two claims share. -/
def Claim.key (c : Claim) : CollectedKind × String :=
  (c.kind, c.name)

namespace Registry

variable {r r' final : Registry} {kind : CollectedKind} {name : String}

/-- The claim that an entry holds. -/
def Entry.claim (e : Entry) : Claim := ⟨e.kind, e.name, e.source⟩

/-- The claims of a registry in their order. -/
def claims (r : Registry) : List Claim :=
  r.entries.map Entry.claim

theorem claims_keys (r : Registry) : r.claims.map Claim.key = r.keys := by
  unfold claims keys
  rw [List.map_map]
  rfl

theorem push_claims {source : Descriptor} (free : r.find? kind name = none) :
    (r.push kind name source free).claims = r.claims ++ [⟨kind, name, source⟩] := by
  simp [claims, Entry.claim]

theorem fill_claims (shape : Shape) : (r.fill kind name shape).claims = r.claims := by
  unfold claims
  rw [fill_entries, List.map_map]
  refine List.map_congr_left fun e _ => ?_
  simp only [Function.comp]
  split <;> rfl

/-- The claims of a registry are in another, and those that are finished are finished there with
the same shapes. -/
def Leads (r final : Registry) : Prop :=
  ∀ e ∈ r.entries, ∃ e' ∈ final.entries, e'.claim = e.claim ∧
    ∀ x, e.shape? = some x → e'.shape? = some x

theorem Leads.refl (r : Registry) : r.Leads r := fun e he => ⟨e, he, rfl, fun _ eq => eq⟩

theorem Leads.of_grows (grown : r.Grows r') (leads : r'.Leads final) : r.Leads final :=
  fun e he => leads e (grown.mem he)

/-- A claim leads on to where it leads once it is finished. -/
theorem Leads.of_fill {source : Descriptor} {free : r.find? kind name = none}
    (grown : (r.push kind name source free).Grows r') {shape : Shape}
    (leads : (r'.fill kind name shape).Leads final) : r'.Leads final := by
  intro e he
  have there : (if e.key = (kind, name) then ⟨e.kind, e.name, e.source, some shape⟩ else e) ∈
      (r'.fill kind name shape).entries := by
    rw [fill_entries]
    exact List.mem_map_of_mem (f := fun e : Entry => if e.key = (kind, name) then
      ⟨e.kind, e.name, e.source, some shape⟩ else e) he
  obtain ⟨e', he', claim, shape'⟩ := leads _ there
  split at claim
  · rename_i key
    refine ⟨e', he', claim, fun x finished => ?_⟩
    have self := find?_of_grows free grown
    rw [find?_eq_some_iff.2 ⟨he, key⟩, Option.some.injEq] at self
    rw [self] at finished
    cases finished
  · rename_i other
    rw [if_neg other] at shape'
    exact ⟨e', he', claim, shape'⟩

theorem Leads.mem_claims {e : Entry} (leads : r.Leads final) (he : e ∈ r.entries) :
    e.claim ∈ final.claims := by
  obtain ⟨e', he', claim, -⟩ := leads e he
  rw [← claim]
  exact List.mem_map_of_mem he'

/-! ## Finished claims -/

/-- Something holds of every finished claim and its shape. -/
def Finished (holds : Claim → Shape → Prop) (r : Registry) : Prop :=
  ∀ e ∈ r.entries, ∀ x, e.shape? = some x → holds e.claim x

variable {holds : Claim → Shape → Prop} {source : Descriptor}

theorem Finished.push (h : r.Finished holds) (free : r.find? kind name = none) :
    (r.push kind name source free).Finished holds := by
  intro e he x finished
  rw [push_entries] at he
  rcases List.mem_append.1 he with old | new
  · exact h e old x finished
  · cases List.mem_singleton.1 new
    cases finished

theorem Finished.fill {free : r.find? kind name = none}
    (grown : (r.push kind name source free).Grows r') (h : r'.Finished holds) {shape : Shape}
    (done : holds ⟨kind, name, source⟩ shape) : (r'.fill kind name shape).Finished holds := by
  intro e he x finished
  rw [fill_entries] at he
  obtain ⟨e', he', rfl⟩ := List.mem_map.1 he
  split at finished
  · rename_i key
    have self := find?_of_grows free grown
    rw [find?_eq_some_iff.2 ⟨he', key⟩, Option.some.injEq] at self
    subst self
    cases finished
    rw [if_pos key]
    exact done
  · rename_i other
    rw [if_neg other]
    exact h e' he' x finished

/-- At rest, the table of a kind has the claims of that kind one by one, with their shapes. -/
theorem forall₂_table (rest : r.AtRest) (h : r.Finished holds) (kind : CollectedKind) :
    List.Forall₂ (fun (c : Claim) (named : String × Shape) =>
        named.1 = c.name ∧ c.kind = kind ∧ holds c named.2)
      (r.claims.filter fun c => c.kind = kind) (r.table kind) := by
  have each : ∀ e ∈ r.entries, ∃ x, e.shape? = some x ∧ holds e.claim x := by
    intro e he
    obtain ⟨x, finished⟩ := Option.ne_none_iff_exists'.1 (rest e he)
    exact ⟨x, finished, h e he x finished⟩
  unfold claims table
  generalize r.entries = entries at each
  induction entries with
  | nil => exact .nil
  | cons e later ih =>
    obtain ⟨x, finished, held⟩ := each e List.mem_cons_self
    have ih := ih fun e he => each e (List.mem_cons_of_mem _ he)
    rw [List.map_cons, List.filter_cons, List.filterMap_cons]
    by_cases same : e.kind = kind
    · simp only [Entry.claim, Entry.finished?, same, finished, decide_true, if_true,
        Option.map_some]
      exact .cons ⟨rfl, rfl, same ▸ held⟩ ih
    · simp only [Entry.claim, Entry.finished?, same, decide_false, if_false, Bool.false_eq_true]
      exact ih

end Registry

end TypeCatalog
