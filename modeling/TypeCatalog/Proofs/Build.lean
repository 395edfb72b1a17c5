import TypeCatalog.Recognizer

/-!
The laws of builds.

Builds are a lawful monad, so that a build written step by step can be regrouped.  The lemmas
ending in `_apply` say what a build does in a session; `bind_ok` and `bind_error` follow a build
of two steps through the outcome of the first.
-/

namespace TypeCatalog.Build

variable {α β γ : Type}

/-! ## Steps in a session -/

@[simp] theorem pure_apply (a : α) (s : Session) : (Pure.pure a : Build α) s = (.ok a, s) := rfl

@[simp] theorem fail_apply (e : ExtractError) (s : Session) :
    (Build.fail e : Build α) s = (.error e, s) := rfl

@[simp] theorem registry_apply (s : Session) : Build.registry s = (.ok s.registry, s) := rfl

/-- A claim changes the registry, granted or not, and leaves the journal. -/
theorem claim_apply (kind : CollectedKind) (name : String) (source : Descriptor) (s : Session) :
    Build.claim kind name source s =
      ((s.registry.tryClaim kind name source).1,
        ⟨(s.registry.tryClaim kind name source).2, s.journal⟩) := rfl

/-- So does finishing one. -/
theorem finalize_apply (kind : CollectedKind) (name : String) (shape : Shape) (s : Session) :
    Build.finalize kind name shape s =
      ((s.registry.tryFinalize kind name shape).1,
        ⟨(s.registry.tryFinalize kind name shape).2, s.journal⟩) := rfl

/-- The second step sees what the first leaves, and is left out if the first fails. -/
theorem bind_apply (first : Build α) (next : α → Build β) (s : Session) :
    (first >>= next) s =
      match first s with
      | (.ok a, s') => next a s'
      | (.error e, s') => (.error e, s') := rfl

/-- A first step that succeeds hands its value and its session on. -/
theorem bind_ok {first : Build α} {next : α → Build β} {s s' : Session} {a : α}
    (h : first s = (.ok a, s')) : (first >>= next) s = next a s' := by
  rw [bind_apply, h]

/-- A first step that fails is the end, in the session that it leaves. -/
theorem bind_error {first : Build α} {next : α → Build β} {s s' : Session} {e : ExtractError}
    (h : first s = (.error e, s')) : (first >>= next) s = (.error e, s') := by
  rw [bind_apply, h]

/-- A value that is put in the place of an error leaves the session as the error did. -/
theorem orElse_session (first : Build α) (a : α) (s : Session) :
    (first.orElse a s).2 = (first s).2 := by
  unfold Build.orElse
  rcases first s with ⟨_ | _, _⟩ <;> rfl

/-! ## Monad laws -/

/-- Changing nothing about the value of a build changes nothing. -/
private theorem id_map_build (x : Build α) : id <$> x = x := by
  funext s
  show (x >>= fun a => Pure.pure (id a)) s = x s
  rw [bind_apply]
  rcases x s with ⟨_ | _, _⟩ <;> rfl

private theorem pure_bind_build (a : α) (f : α → Build β) : Pure.pure a >>= f = f a := rfl

/-- Three steps are the same however they are grouped: the first that fails ends them. -/
private theorem bind_assoc_build (x : Build α) (f : α → Build β) (g : β → Build γ) :
    x >>= f >>= g = x >>= fun a => f a >>= g := by
  funext s
  simp only [bind_apply]
  rcases x s with ⟨_ | _, _⟩ <;> rfl

instance : LawfulMonad Build :=
  LawfulMonad.mk' Build id_map_build pure_bind_build bind_assoc_build

end TypeCatalog.Build
