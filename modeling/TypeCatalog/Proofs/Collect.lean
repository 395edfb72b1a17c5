import TypeCatalog.Proofs.Build
import TypeCatalog.Proofs.Growth

/-!
Collected builds.

A build is `Growing` when it lets the registry grow in whatever session it runs.  Collecting the
result of a growing build under a name does one of four things: the name is taken for another
descriptor and there is a conflict, it is taken for the same one and recalled, or it is free and
the build succeeds or fails.  A build that succeeds leaves its claim finished
(`collect_of_ok`), one that fails leaves the registry as it was (`collect_of_error`).
-/

namespace TypeCatalog.Build

variable {α β : Type}

/-- The registry grows by what the build collects, whether it succeeds or fails. -/
def Growing (b : Build α) : Prop :=
  ∀ s : Session, s.registry.Grows (b s).2.registry

theorem growing_pure (a : α) : Growing (Pure.pure a : Build α) := fun _ => .refl _

theorem growing_fail (e : ExtractError) : Growing (Build.fail e : Build α) := fun _ => .refl _

theorem growing_registry : Growing Build.registry := fun _ => .refl _

/-- The registry grows by what one build collects and then by what the other does. -/
theorem Growing.bind {first : Build α} {next : α → Build β} (h : first.Growing)
    (h' : ∀ a, (next a).Growing) : (first >>= next).Growing := by
  intro s
  have grown := h s
  rw [bind_apply]
  rcases outcome : first s with ⟨e | a, s'⟩
  · rw [outcome] at grown
    exact grown
  · rw [outcome] at grown
    exact grown.trans (h' a s')

/-! ## Collecting -/

section Collecting

variable {kind : CollectedKind} {name : String} {source : Descriptor} {b : Build Shape}
  {s s' : Session}

/-- A name that is claimed for another descriptor is a conflict, and nothing is built. -/
theorem collect_of_conflict {e : Registry.Entry}
    (found : s.registry.find? kind name = some e) (other : e.source.same source = false) :
    collect kind name source b s = (.error (.conflict kind name), s) := by
  have claimed : Build.claim kind name source s = (.error (.conflict kind name), s) := by
    simp [claim_apply, Registry.tryClaim_taken found, other]
  exact bind_error claimed

/-- A name that is claimed for the same one is known, and nothing is built. -/
theorem collect_of_known {e : Registry.Entry}
    (found : s.registry.find? kind name = some e) (same : e.source.same source = true) :
    collect kind name source b s = (.ok e.known, s) := by
  have claimed : Build.claim kind name source s = (.ok e.status, s) := by
    simp [claim_apply, Registry.tryClaim_taken found, same]
  have key : (e.kind, e.name) = (kind, name) := (Registry.find?_eq_some_iff.1 found).2
  rw [Prod.mk.injEq] at key
  refine (bind_ok claimed).trans ?_
  cases finished : e.shape? with
  | none => simp [Registry.Entry.status, Registry.Entry.known, finished, key]
  | some shape => simp [Registry.Entry.status, Registry.Entry.known, finished]

/-- A free name is claimed, and what is built for it settles the claim. -/
theorem collect_of_free (free : s.registry.find? kind name = none) :
    collect kind name source b s =
      complete kind name b ⟨s.registry.push kind name source free, s.journal⟩ := by
  have claimed : Build.claim kind name source s =
      (.ok .vacant, ⟨s.registry.push kind name source free, s.journal⟩) := by
    simp [claim_apply, Registry.tryClaim_free free]
  exact bind_ok claimed

/-- A build that succeeds leaves its claim finished. -/
theorem collect_of_ok (growing : b.Growing) (free : s.registry.find? kind name = none)
    {shape : Shape}
    (built : b ⟨s.registry.push kind name source free, s.journal⟩ = (.ok shape, s')) :
    collect kind name source b s =
      (.ok shape, ⟨s'.registry.fill kind name shape, s'.journal⟩) := by
  have grown := growing ⟨s.registry.push kind name source free, s.journal⟩
  rw [built] at grown
  rw [collect_of_free free, complete, built]
  simp only [finalize_apply, Registry.tryFinalize_of_grows free grown]

/-- A build that fails leaves the registry as it was before the claim. -/
theorem collect_of_error (growing : b.Growing) (free : s.registry.find? kind name = none)
    {e : ExtractError}
    (failed : b ⟨s.registry.push kind name source free, s.journal⟩ = (.error e, s')) :
    collect kind name source b s = (.error e, ⟨s.registry, s'.journal⟩) := by
  have grown := growing ⟨s.registry.push kind name source free, s.journal⟩
  rw [failed] at grown
  rw [collect_of_free free, complete, failed]
  simp only [Registry.abandon_of_grows free grown]

/-- A collected build leaves its own claim finished behind it, or none. -/
theorem Growing.collect (growing : b.Growing) : (collect kind name source b).Growing := by
  intro s
  cases found : s.registry.find? kind name with
  | some e =>
    cases same : e.source.same source with
    | false =>
      rw [collect_of_conflict found same]
      exact .refl _
    | true =>
      rw [collect_of_known found same]
      exact .refl _
  | none =>
    have grown := growing ⟨s.registry.push kind name source found, s.journal⟩
    rcases outcome : b ⟨s.registry.push kind name source found, s.journal⟩ with ⟨e | shape, s'⟩
    · rw [collect_of_error growing found outcome]
      exact .refl _
    · rw [outcome] at grown
      rw [collect_of_ok growing found outcome]
      exact Registry.grows_fill found grown shape

end Collecting

end TypeCatalog.Build
