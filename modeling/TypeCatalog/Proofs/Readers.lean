import TypeCatalog.Json.Reader

/-!
What readers yield.

The lemmas of the first section say once what it takes for a reader that is put together from others
to succeed.  A reader yields values with a property when whatever it takes off the front of a text
has it (`Reader.Yields`).  An object is read member by member, so what each member keeps holds in
the end (`yields_members`, `yields_object`), and the same goes for arrays.
-/

namespace TypeCatalog.Json

variable {φ α β σ : Type}

/-! ## What it takes to succeed -/

section Success

variable {c c' : Cursor} {s s' : σ} {a : α} {b : β}

theorem onto_eq_ok_iff {read : Reader φ α} {f : α → σ} :
    read.onto f c = .ok (s, c') ↔ ∃ a, read c = .ok (a, c') ∧ s = f a := by
  unfold Reader.onto
  split
  · rename_i e failed
    simp [failed]
  · rename_i a c₁ taken
    simp only [taken, Except.ok.injEq, Prod.mk.injEq]
    constructor
    · rintro ⟨rfl, rfl⟩
      exact ⟨a, ⟨rfl, rfl⟩, rfl⟩
    · rintro ⟨_, ⟨rfl, rfl⟩, rfl⟩
      exact ⟨rfl, rfl⟩

/-- Members are read until there is no next key. -/
theorem members_eq_ok {step : σ → String → Except φ (Reader φ σ)} {fuel : Nat} {first : Bool}
    (h : members step (fuel + 1) first s c = .ok (s', c')) :
    (nextKey first c = .ok (none, c') ∧ s' = s) ∨
      ∃ key c₁ read c₂ s₁ c₃, nextKey first c = .ok (some key, c₁) ∧ step s key = .ok read ∧
        colon c₁ = .ok c₂ ∧ read c₂ = .ok (s₁, c₃) ∧
        members step fuel false s₁ c₃ = .ok (s', c') := by
  unfold members at h
  split at h
  · cases h
  · rename_i c₁ next
    cases h
    exact .inl ⟨next, rfl⟩
  · rename_i key c₁ next
    split at h
    · cases h
    · rename_i read wanted
      split at h
      · cases h
      · rename_i c₂ behind
        split at h
        · cases h
        · rename_i s₁ c₃ taken
          exact .inr ⟨key, c₁, read, c₂, s₁, c₃, next, wanted, behind, taken, h⟩

/-- An object is read by its members, what is made of them, and a brace. -/
theorem object_eq_ok {step : σ → String → Except φ (Reader φ σ)} {finish : σ → Except φ β}
    (h : object step s finish c = .ok (b, c')) :
    ∃ s' c₁, members step (c.rest.length + 1) true s c = .ok (s', c₁) ∧ finish s' = .ok b ∧
      closeObject c₁ = .ok c' := by
  unfold object at h
  split at h
  · cases h
  · rename_i s' c₁ taken
    split at h
    · cases h
    · rename_i b' finished
      split at h
      · cases h
      · rename_i c₂ close
        cases h
        exact ⟨s', c₁, taken, finished, close⟩

/-- Elements are read until none is wanted or there is no next one. -/
theorem elements_eq_ok {step : σ → Nat → Option (Reader φ σ)} {fuel i : Nat}
    (h : elements step (fuel + 1) i s c = .ok (s', c')) :
    (step s i = none ∧ s' = s ∧ c' = c) ∨
      ∃ read, step s i = some read ∧
        ((nextElement (i == 0) c = .ok (false, c') ∧ s' = s) ∨
          ∃ c₁ s₁ c₂, nextElement (i == 0) c = .ok (true, c₁) ∧ read c₁ = .ok (s₁, c₂) ∧
            elements step fuel (i + 1) s₁ c₂ = .ok (s', c')) := by
  unfold elements at h
  split at h
  · rename_i surplus
    cases h
    exact .inl ⟨surplus, rfl, rfl⟩
  · rename_i read wanted
    refine .inr ⟨read, wanted, ?_⟩
    split at h
    · cases h
    · rename_i c₁ next
      cases h
      exact .inl ⟨next, rfl⟩
    · rename_i c₁ next
      split at h
      · cases h
      · rename_i s₁ c₂ taken
        exact .inr ⟨c₁, s₁, c₂, next, taken, h⟩

/-- An array is read by its elements, what is made of them, and a bracket. -/
theorem array_eq_ok {step : σ → Nat → Option (Reader φ σ)} {finish : σ → Except φ β}
    (h : array step s finish c = .ok (b, c')) :
    ∃ s' c₁, elements step (c.rest.length + 1) 0 s c = .ok (s', c₁) ∧ finish s' = .ok b ∧
      closeArray c₁ = .ok c' := by
  unfold array at h
  split at h
  · cases h
  · rename_i s' c₁ taken
    split at h
    · cases h
    · rename_i b' finished
      split at h
      · cases h
      · rename_i c₂ close
        cases h
        exact ⟨s', c₁, taken, finished, close⟩

/-- A value is an array, an object or a scalar by its first character. -/
theorem dispatch_eq_ok {onScalar : Json → Except φ α} {onArray onObject : Opening φ α}
    (h : dispatch onScalar onArray onObject c = .ok (a, c')) :
    (∃ rest, c.skipBlanks.rest = '[' :: rest ∧
      onArray.read ⟨c.skipBlanks.position.skip 1, rest⟩ c.skipBlanks = .ok (a, c')) ∨
    (∃ rest, c.skipBlanks.rest = '\x7b' :: rest ∧
      onObject.read ⟨c.skipBlanks.position.skip 1, rest⟩ c.skipBlanks = .ok (a, c')) ∨
    ((∀ rest, c.skipBlanks.rest ≠ '[' :: rest) ∧ (∀ rest, c.skipBlanks.rest ≠ '\x7b' :: rest) ∧
      ∃ v, scalar c.skipBlanks = .ok (v, c') ∧ onScalar v = .ok a) := by
  unfold dispatch at h
  dsimp only at h
  split at h
  · rename_i rest first
    exact .inl ⟨rest, first, h⟩
  · rename_i rest first
    exact .inr (.inl ⟨rest, first, h⟩)
  · rename_i noArray noObject
    split at h
    · cases h
    · rename_i v c₁ taken
      split at h
      · cases h
      · rename_i a' accepted
        cases h
        exact .inr (.inr ⟨noArray, noObject, v, taken, accepted⟩)

end Success

/-! ## Values with a property -/

/-- What a reader takes off the front of a text has a property. -/
def Reader.Yields (read : Reader φ α) (holds : α → Prop) : Prop :=
  ∀ c a c', read c = .ok (a, c') → holds a

theorem Reader.Yields.onto {read : Reader φ α} {holds : α → Prop} {kept : σ → Prop} {f : α → σ}
    (h : read.Yields holds) (put : ∀ a, holds a → kept (f a)) : (read.onto f).Yields kept := by
  intro c s c' eq
  obtain ⟨a, taken, rfl⟩ := onto_eq_ok_iff.1 eq
  exact put a (h c a c' taken)

/-! ## Objects and arrays -/

/-- What every member keeps holds behind the last one. -/
theorem yields_members {step : σ → String → Except φ (Reader φ σ)} {kept : σ → Prop}
    (each : ∀ s key read, kept s → step s key = .ok read → read.Yields kept) (fuel : Nat)
    (first : Bool) (s : σ) (start : kept s) : (members step fuel first s).Yields kept := by
  induction fuel generalizing first s with
  | zero =>
    intro c s' c' eq
    cases eq
  | succ fuel ih =>
    intro c s' c' eq
    rcases members_eq_ok eq with ⟨-, rfl⟩ |
      ⟨key, c₁, read, c₂, next, c₃, -, wanted, -, taken, more⟩
    · exact start
    · have later : kept next := each s key read start wanted c₂ next c₃ taken
      exact ih false next later c₃ s' c' more

/-- What the members keep, step by step, is good for what an object makes of them. -/
theorem yields_object (kept : σ → Prop) {step : σ → String → Except φ (Reader φ σ)}
    {holds : β → Prop} {begin : σ} {finish : σ → Except φ β} (start : kept begin)
    (each : ∀ s key read, kept s → step s key = .ok read → read.Yields kept)
    (done : ∀ s b, kept s → finish s = .ok b → holds b) :
    (object step begin finish).Yields holds := by
  intro c b c' eq
  obtain ⟨s, c₁, taken, finished, -⟩ := object_eq_ok eq
  exact done s b (yields_members each _ _ begin start c s c₁ taken) finished

/-- What every element keeps holds behind the last one. -/
theorem yields_elements {step : σ → Nat → Option (Reader φ σ)} {kept : σ → Prop}
    (each : ∀ s index read, kept s → step s index = some read → read.Yields kept) (fuel : Nat)
    (index : Nat) (s : σ) (start : kept s) : (elements step fuel index s).Yields kept := by
  induction fuel generalizing index s with
  | zero =>
    intro c s' c' eq
    cases eq
  | succ fuel ih =>
    intro c s' c' eq
    rcases elements_eq_ok eq with ⟨-, rfl, -⟩ |
      ⟨read, wanted, ⟨-, rfl⟩ | ⟨c₁, next, c₂, -, taken, more⟩⟩
    · exact start
    · exact start
    · have later : kept next := each s index read start wanted c₁ next c₂ taken
      exact ih (index + 1) next later c₂ s' c' more

/-- So it is for an array and its elements. -/
theorem yields_array (kept : σ → Prop) {step : σ → Nat → Option (Reader φ σ)}
    {holds : β → Prop} {begin : σ} {finish : σ → Except φ β} (start : kept begin)
    (each : ∀ s index read, kept s → step s index = some read → read.Yields kept)
    (done : ∀ s b, kept s → finish s = .ok b → holds b) :
    (array step begin finish).Yields holds := by
  intro c b c' eq
  obtain ⟨s, c₁, taken, finished, -⟩ := array_eq_ok eq
  exact done s b (yields_elements each _ _ begin start c s c₁ taken) finished

/-- The members of an object whose values all have a property. -/
theorem yields_objectOf {read : Reader φ α} {holds : α → Prop} {holds' : β → Prop}
    {finish : List (String × α) → Except φ β} (h : read.Yields holds)
    (done : ∀ table b, (∀ entry ∈ table, holds entry.2) → finish table = .ok b → holds' b) :
    (objectOf read finish).Yields holds' := by
  unfold objectOf
  refine yields_object (fun entries => ∀ entry ∈ entries, holds entry.2) ?_ ?_ ?_
  · intro entry mem
    cases mem
  · intro entries key wanted kept eq
    cases eq
    refine h.onto fun v hv entry mem => ?_
    rcases List.mem_cons.1 mem with rfl | old
    · exact hv
    · exact kept entry old
  · intro entries b kept eq
    exact done _ b (fun entry mem => kept entry (List.mem_reverse.1 mem)) eq

/-! ## Values by their first character -/

/-- What a reader takes off a text behind an opening bracket has a property. -/
def Opening.Yields (o : Opening φ α) (holds : α → Prop) : Prop :=
  ∀ behind, (o.read behind).Yields holds

theorem Opening.yields_refused (fault : φ) (holds : α → Prop) :
    (Opening.refused fault : Opening φ α).Yields holds := by
  intro behind c a c' eq
  cases eq

theorem Opening.yields_atDepth {read : Nat → Reader φ α} {holds : α → Prop}
    (h : ∀ depth, (read depth).Yields holds) (depth : Nat) :
    (Opening.atDepth read depth).Yields holds := by
  intro behind c a c' eq
  cases depth with
  | zero => cases eq
  | succ depth => exact h depth behind a c' eq

/-- A value has a property if it has it as a scalar, as an array and as an object. -/
theorem yields_dispatch {onScalar : Json → Except φ α} {onArray onObject : Opening φ α}
    {holds : α → Prop} (scalars : ∀ v a, onScalar v = .ok a → holds a)
    (arrays : onArray.Yields holds) (objects : onObject.Yields holds) :
    (dispatch onScalar onArray onObject).Yields holds := by
  intro c a c' eq
  rcases dispatch_eq_ok eq with ⟨_, -, taken⟩ | ⟨_, -, taken⟩ | ⟨-, -, v, -, accepted⟩
  · exact arrays _ _ a c' taken
  · exact objects _ _ a c' taken
  · exact scalars v a accepted

end TypeCatalog.Json
