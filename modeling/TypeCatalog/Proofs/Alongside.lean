import TypeCatalog.Proofs.Skipping

/-!
Readers side by side.

A reader that knows what it wants and the reader of plain values go through a text in the same way:
where both succeed, they end in the same place, and what they read is related (`Reader.Beside`).
For each way of putting readers together there is a rule: an object is related to the plain object
if each member keeps the relation of what has been read (`beside_objectOf`), an array to the plain
array if each element does (`beside_arrayOf`), also if it wants no more elements before the array
ends, and readers that look at the first character if their cases are related (`beside_dispatch`).
-/

namespace TypeCatalog.Json

variable {φ ψ α β γ σ : Type}

/-- Where both readers succeed, they end in the same place and have read what is related. -/
def Reader.Beside (read : Reader φ α) (plain : Reader ψ β) (rel : α → β → Prop) : Prop :=
  ∀ c a c₁ b c₂, read c = .ok (a, c₁) → plain c = .ok (b, c₂) → c₁ = c₂ ∧ rel a b

theorem Reader.Beside.onto {read : Reader φ α} {plain : Reader ψ β} {rel : α → β → Prop}
    {rel' : σ → β → Prop} {f : α → σ} (beside : read.Beside plain rel)
    (put : ∀ a b, rel a b → rel' (f a) b) : (read.onto f).Beside plain rel' := by
  intro c s c₁ b c₂ h h'
  obtain ⟨a, taken, rfl⟩ := onto_eq_ok_iff.1 h
  obtain ⟨same, related⟩ := beside c a c₁ b c₂ taken h'
  exact ⟨same, put a b related⟩

/-! ## Objects -/

section Objects

variable {step : σ → String → Except φ (Reader φ σ)} {plain : Reader ψ γ}
  {rel : σ → List (String × γ) → Prop}
  (each : ∀ s entries key read, rel s entries → step s key = .ok read →
    read.Beside plain fun s' v => rel s' ((key, v) :: entries))

include each

/-- Members are read alongside each other, key by key, if their values are. -/
theorem beside_members {fuel fuel' : Nat} {first : Bool} {s : σ} {entries : List (String × γ)}
    (start : rel s entries) :
    (members step fuel first s).Beside
      (members (fun entries key => .ok (plain.onto fun v => (key, v) :: entries)) fuel' first
        entries) rel := by
  induction fuel generalizing fuel' first s entries with
  | zero =>
    intro c s' c₁ entries' c₂ h
    cases h
  | succ fuel ih =>
    intro c s' c₁ entries' c₂ h h'
    cases fuel' with
    | zero => cases h'
    | succ fuel' =>
      rcases members_eq_ok h with ⟨next, rfl⟩ |
        ⟨key, c₃, read, c₄, s₁, c₅, next, wanted, behind, taken, more⟩
      · rcases members_eq_ok h' with ⟨next', rfl⟩ | ⟨_, _, _, _, _, _, next', -⟩
        · rw [next] at next'
          cases next'
          exact ⟨rfl, start⟩
        · rw [next] at next'
          cases next'
      · rcases members_eq_ok h' with ⟨next', -⟩ |
          ⟨key', c₃', read', c₄', entries₁, c₆, next', wanted', behind', taken', more'⟩
        · rw [next] at next'
          cases next'
        · rw [next] at next'
          cases next'
          rw [behind] at behind'
          cases behind'
          cases wanted'
          obtain ⟨v, plainly, rfl⟩ := onto_eq_ok_iff.1 taken'
          obtain ⟨rfl, related⟩ := each s entries key read start wanted _ _ _ _ _ taken plainly
          exact ih related c₅ s' c₁ entries' c₂ more more'

variable (rel) in
/-- An object is read alongside the list of its members. -/
theorem beside_objectOf {begin : σ} {finish : σ → Except φ α}
    {finish' : List (String × γ) → Except ψ β} {rel' : α → β → Prop} (start : rel begin [])
    (done : ∀ s entries a b, rel s entries → finish s = .ok a → finish' entries.reverse = .ok b →
      rel' a b) :
    (object step begin finish).Beside (objectOf plain finish') rel' := by
  intro c a c₁ b c₂ h h'
  obtain ⟨s, c₃, taken, finished, close⟩ := object_eq_ok h
  obtain ⟨entries, c₄, taken', finished', close'⟩ := object_eq_ok h'
  obtain ⟨rfl, related⟩ := beside_members each start c s c₃ entries c₄ taken taken'
  rw [close] at close'
  cases close'
  exact ⟨rfl, done s entries a b related finished finished'⟩

end Objects

/-! ## Arrays -/

/-- An array ends with a bracket behind the blanks. -/
theorem closeArray_eq_ok {c c' : Cursor} (h : closeArray c = .ok c') :
    ∃ rest, c.skipBlanks.rest = ']' :: rest ∧ c' = ⟨c.skipBlanks.position.skip 1, rest⟩ := by
  unfold closeArray at h
  dsimp only at h
  split at h
  · cases h
  · rename_i rest last
    cases h
    exact ⟨rest, last, rfl⟩
  · split at h <;> cases h
  · cases h

theorem closeArray_skipBlanks (c : Cursor) : closeArray c.skipBlanks = closeArray c := by
  simp only [closeArray, skipBlanks_skipBlanks]

section Arrays

variable {step : σ → Nat → Option (Reader φ σ)} {plain : Reader ψ γ}
  {rel : Nat → σ → List γ → Prop}
  (each : ∀ i s items read, rel i s items → step s i = some read →
    read.Beside plain fun s' v => rel (i + 1) s' (v :: items))

include each

/-- A reader that wants no more elements stands where the array is closed, and so no element is left
for the reader of all. -/
theorem beside_elements {fuel fuel' i : Nat} {s s' : σ} {items items' : List γ}
    {c c₁ c₂ c₃ c₄ : Cursor} (start : rel i s items)
    (h : elements step fuel i s c = .ok (s', c₁))
    (h' : elements (fun items _ => some (plain.onto (· :: items))) fuel' i items c =
      .ok (items', c₂))
    (close : closeArray c₁ = .ok c₃) (close' : closeArray c₂ = .ok c₄) :
    c₃ = c₄ ∧ ∃ j, rel j s' items' := by
  induction fuel generalizing fuel' i s items c with
  | zero => cases h
  | succ fuel ih =>
    cases fuel' with
    | zero => cases h'
    | succ fuel' =>
      rcases elements_eq_ok h' with ⟨surplus, -⟩ | ⟨read', wanted', plainly⟩
      · cases surplus
      cases wanted'
      rcases elements_eq_ok h with ⟨-, rfl, rfl⟩ |
        ⟨read, wanted, ⟨next, rfl⟩ | ⟨c₅, s₁, c₆, next, taken, more⟩⟩
      · obtain ⟨rest, last, rfl⟩ := closeArray_eq_ok close
        rcases plainly with ⟨next', rfl⟩ | ⟨_, _, _, next', -⟩
        · rcases nextElement_cases next' with ⟨-, rfl, -⟩ | ⟨eq, -⟩ | ⟨eq, -⟩
          · rw [closeArray_skipBlanks, close] at close'
            exact ⟨Except.ok.inj close', i, start⟩
          · cases eq
          · cases eq
        · rcases nextElement_cases next' with ⟨eq, -⟩ | ⟨-, -, -, ch, rest', solid, notLast⟩ |
            ⟨-, -, rest', comma, -⟩
          · cases eq
          · rw [last] at solid
            cases solid
            exact absurd rfl notLast
          · rw [last] at comma
            cases comma
      · rcases plainly with ⟨next', rfl⟩ | ⟨_, _, _, next', -⟩
        · rw [next] at next'
          cases next'
          rw [close] at close'
          exact ⟨Except.ok.inj close', i, start⟩
        · rw [next] at next'
          cases next'
      · rcases plainly with ⟨next', -⟩ | ⟨_, items₁, c₇, next', taken', more'⟩
        · rw [next] at next'
          cases next'
        · rw [next] at next'
          cases next'
          obtain ⟨v, read', rfl⟩ := onto_eq_ok_iff.1 taken'
          obtain ⟨rfl, related⟩ := each i s items read start wanted _ _ _ _ _ taken read'
          exact ih related more more'

variable (rel) in
/-- An array is read alongside the list of its elements. -/
theorem beside_arrayOf {begin : σ} {finish : σ → Except φ α} {finish' : List γ → Except ψ β}
    {rel' : α → β → Prop} (start : rel 0 begin [])
    (done : ∀ i s items a b, rel i s items → finish s = .ok a → finish' items.reverse = .ok b →
      rel' a b) :
    (array step begin finish).Beside (arrayOf plain finish') rel' := by
  intro c a c₁ b c₂ h h'
  obtain ⟨s, c₃, taken, finished, close⟩ := array_eq_ok h
  obtain ⟨items, c₄, taken', finished', close'⟩ := array_eq_ok h'
  obtain ⟨rfl, j, related⟩ := beside_elements each start taken taken' close close'
  exact ⟨rfl, done j s items a b related finished finished'⟩

end Arrays

/-! ## Values by their first character -/

/-- Where both readers go through the bracket, they are side by side. -/
def Opening.Beside (o : Opening φ α) (plain : Opening ψ β) (rel : α → β → Prop) : Prop :=
  ∀ behind, (o.read behind).Beside (plain.read behind) rel

theorem Opening.beside_refused (fault : φ) (plain : Opening ψ β) (rel : α → β → Prop) :
    (Opening.refused fault).Beside plain rel := by
  intro behind c a c₁ b c₂ h
  cases h

theorem Opening.beside_atDepth {read : Nat → Reader φ α} {plain : Nat → Reader ψ β}
    {rel : α → β → Prop} {depth : Nat}
    (beside : ∀ d, depth = d + 1 → (read d).Beside (plain d) rel) :
    (Opening.atDepth read depth).Beside (Opening.atDepth plain depth) rel := by
  intro behind c a c₁ b c₂ h h'
  cases depth with
  | zero => cases h
  | succ d => exact beside d rfl behind a c₁ b c₂ h h'

/-- The first character tells both readers the same. -/
theorem beside_dispatch {onScalar : Json → Except φ α} {onScalar' : Json → Except ψ β}
    {onArray onObject : Opening φ α} {onArray' onObject' : Opening ψ β} {rel : α → β → Prop}
    (scalars : ∀ v a b, onScalar v = .ok a → onScalar' v = .ok b → rel a b)
    (arrays : onArray.Beside onArray' rel) (objects : onObject.Beside onObject' rel) :
    (dispatch onScalar onArray onObject).Beside (dispatch onScalar' onArray' onObject') rel := by
  intro c a c₁ b c₂ h h'
  rcases dispatch_eq_ok h with ⟨rest, first, taken⟩ | ⟨rest, first, taken⟩ |
    ⟨noArray, noObject, v, taken, accepted⟩
  · rcases dispatch_eq_ok h' with ⟨rest', first', taken'⟩ | ⟨rest', first', -⟩ | ⟨noArray, -⟩
    · rw [first] at first'
      cases first'
      exact arrays _ _ a c₁ b c₂ taken taken'
    · rw [first] at first'
      cases first'
    · exact absurd first (noArray rest)
  · rcases dispatch_eq_ok h' with ⟨rest', first', -⟩ | ⟨rest', first', taken'⟩ | ⟨-, noObject, -⟩
    · rw [first] at first'
      cases first'
    · rw [first] at first'
      cases first'
      exact objects _ _ a c₁ b c₂ taken taken'
    · exact absurd first (noObject rest)
  · rcases dispatch_eq_ok h' with ⟨rest, first, -⟩ | ⟨rest, first, -⟩ |
      ⟨-, -, v', taken', accepted'⟩
    · exact absurd first (noArray rest)
    · exact absurd first (noObject rest)
    · rw [taken] at taken'
      cases taken'
      exact ⟨rfl, scalars v a b accepted accepted'⟩

/-! ## Values -/

/-- A value is read by its first character, whatever depth is left. -/
theorem value_eq (depth : Nat) : (value depth : Reader φ Json) =
    dispatch .ok (.atDepth (fun d => arrayOf (value d) fun items => .ok (.arr items)) depth)
      (.atDepth (fun d => objectOf (value d) fun entries => .ok (.obj entries)) depth) := by
  cases depth <;> rfl

/-- Values are read in the same way whatever a rejection would be. -/
theorem beside_value (depth : Nat) :
    (value depth : Reader φ Json).Beside (value depth : Reader ψ Json) Eq := by
  induction depth using Nat.strongRecOn with
  | ind depth ih =>
    rw [value_eq, value_eq]
    refine beside_dispatch (fun v a b h h' => ?_) (Opening.beside_atDepth fun d eq => ?_)
      (Opening.beside_atDepth fun d eq => ?_)
    · cases h
      cases h'
      rfl
    · have deeper := ih d (by omega)
      refine beside_arrayOf (fun _ items items' => items = items')
        (fun i s items read same wanted => ?_) rfl fun i s items a b same h h' => ?_
      · cases wanted
        subst same
        exact deeper.onto fun v w eq => by rw [eq]
      · cases h
        cases h'
        rw [same]
    · have deeper := ih d (by omega)
      refine beside_objectOf (fun entries entries' => entries = entries')
        (fun s entries key read same wanted => ?_) rfl fun s entries a b same h h' => ?_
      · cases wanted
        subst same
        exact deeper.onto fun v w eq => by rw [eq]
      · cases h
        cases h'
        rw [same]

/-- Passing over a value ends where it is read. -/
theorem beside_skipValue (depth : Nat) :
    (skipValue : Reader φ Unit).Beside (value depth : Reader ψ Json) fun _ _ => True := by
  intro c a c₁ v c₂ h h'
  have passed : (skipValue : Reader φ Unit) c = .ok ((), c₂) := skipValue_of_value h'
  rw [passed] at h
  cases h
  exact ⟨rfl, trivial⟩

end TypeCatalog.Json
