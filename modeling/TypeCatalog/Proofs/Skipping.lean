import TypeCatalog.Proofs.Readers
import TypeCatalog.Proofs.Tokens

/-!
Passing over values.

Where a value is read, passing over it ends in the same place (`skipValue_of_value`), although
`skipValue` keeps the open brackets on a stack and knows no depth: a value takes it from one state
of its stack to the same state behind the value, in no more steps than there are characters between
(`Skips`).  The other way round this fails, since a number may be out of range and a value too
deep.
-/

namespace TypeCatalog.Json

/-! ## From stack to stack -/

/-- A value stands between two places: passing over it leads from one to the other under any open
brackets, in fewer steps than there are characters. -/
def Skips (c c' : Cursor) : Prop :=
  ∃ k, k + c'.rest.length < c.rest.length ∧
    ∀ n m around, m = n + k + 1 → skipWithin m around c = skipOut n around c'

/-- From behind a value, the end of the innermost bracket is reached in another place. -/
def Ends (b : Bracket) (c c' : Cursor) : Prop :=
  ∃ k, k + c'.rest.length < c.rest.length ∧
    ∀ n m around, m = n + k + 1 → skipOut m (b :: around) c = skipOut n around c'

section Skips

variable {c c₁ c₂ c₃ c₄ : Cursor} {rest rest' : List Char}

/-- Blanks before a value are passed over with it. -/
theorem Skips.of_skipBlanks (skips : Skips c.skipBlanks c₁) : Skips c c₁ := by
  obtain ⟨k, steps, passes⟩ := skips
  have blanks := length_skipBlanks c
  refine ⟨k, by omega, fun n m around eq => ?_⟩
  rw [← passes n m around eq, eq]
  simp only [skipWithin, skipBlanks_skipBlanks]

/-- A value that opens no bracket and no brace is skipped by itself. -/
theorem skips_scalar {v : Json} (noArray : ∀ rest, c.skipBlanks.rest ≠ '[' :: rest)
    (noObject : ∀ rest, c.skipBlanks.rest ≠ '\x7b' :: rest)
    (read : scalar c.skipBlanks = .ok (v, c₁)) : Skips c c₁ := by
  obtain ⟨passed, shorter⟩ := skipScalar_of_scalar read
  have blanks := length_skipBlanks c
  refine ⟨0, by omega, fun n m around eq => ?_⟩
  subst eq
  unfold skipWithin
  dsimp only
  split
  · rename_i rest first
    exact absurd first (noArray rest)
  · rename_i rest first
    exact absurd first (noObject rest)
  · rw [passed]

/-! ## Arrays -/

/-- A bracket ends the array that is open. -/
theorem ends_square (last : c.skipBlanks.rest = ']' :: rest) :
    Ends .square c ⟨c.skipBlanks.position.skip 1, rest⟩ := by
  have blanks := length_skipBlanks c
  rw [last, List.length_cons] at blanks
  refine ⟨0, by dsimp only; omega, fun n m around eq => ?_⟩
  subst eq
  simp only [skipOut, last]

/-- Behind a comma there is a value more. -/
theorem Ends.of_comma (comma : c.skipBlanks.rest = ',' :: rest)
    (skips : Skips ⟨c.skipBlanks.position.skip 1, rest⟩ c₁) (ends : Ends .square c₁ c₂) :
    Ends .square c c₂ := by
  obtain ⟨k, steps, passes⟩ := skips
  obtain ⟨k', steps', passes'⟩ := ends
  have blanks := length_skipBlanks c
  rw [comma, List.length_cons] at blanks
  dsimp only at steps
  refine ⟨k' + k + 2, by omega, fun n m around eq => ?_⟩
  subst eq
  rw [← passes' n (n + k' + 1) around rfl,
    ← passes (n + k' + 1) (n + (k' + k + 2)) (.square :: around) (by omega)]
  simp only [skipOut, comma]

/-- An empty array is skipped. -/
theorem skips_emptyArray (first : c.skipBlanks.rest = '[' :: rest)
    (start : (Cursor.mk (c.skipBlanks.position.skip 1) rest).skipBlanks = c₁)
    (last : c₁.rest = ']' :: rest') : Skips c ⟨c₁.position.skip 1, rest'⟩ := by
  have blanks := length_skipBlanks c
  have blanks' := length_skipBlanks ⟨c.skipBlanks.position.skip 1, rest⟩
  rw [first, List.length_cons] at blanks
  rw [start, last, List.length_cons] at blanks'
  dsimp only at blanks'
  refine ⟨0, by dsimp only; omega, fun n m around eq => ?_⟩
  subst eq
  simp only [skipWithin, first, start, last]

/-- An array is skipped by its first element and whatever ends it. -/
theorem Skips.array (first : c.skipBlanks.rest = '[' :: rest)
    (start : (Cursor.mk (c.skipBlanks.position.skip 1) rest).skipBlanks = c₁)
    {ch : Char} (more : c₁.rest = ch :: rest') (notLast : ch ≠ ']')
    (skips : Skips c₁ c₂) (ends : Ends .square c₂ c₃) : Skips c c₃ := by
  obtain ⟨k, steps, passes⟩ := skips
  obtain ⟨k', steps', passes'⟩ := ends
  have blanks := length_skipBlanks c
  have blanks' := length_skipBlanks ⟨c.skipBlanks.position.skip 1, rest⟩
  rw [first, List.length_cons] at blanks
  rw [start] at blanks'
  dsimp only at blanks'
  refine ⟨k' + k + 2, by omega, fun n m around eq => ?_⟩
  subst eq
  rw [← passes' n (n + k' + 1) around rfl,
    ← passes (n + k' + 1) (n + (k' + k + 2)) (.square :: around) (by omega)]
  rw [skipWithin]
  simp only [first, start, more]

/-! ## Objects -/

/-- A brace ends the object that is open. -/
theorem ends_curly (last : c.skipBlanks.rest = '\x7d' :: rest) :
    Ends .curly c ⟨c.skipBlanks.position.skip 1, rest⟩ := by
  have blanks := length_skipBlanks c
  rw [last, List.length_cons] at blanks
  refine ⟨0, by dsimp only; omega, fun n m around eq => ?_⟩
  subst eq
  simp only [skipOut, last]

/-- Behind a comma there is a member more. -/
theorem Ends.of_member (comma : c.skipBlanks.rest = ',' :: rest)
    (key : skipKey ⟨c.skipBlanks.position.skip 1, rest⟩ = .ok c₁)
    (shorter : c₁.rest.length < rest.length) (skips : Skips c₁ c₂) (ends : Ends .curly c₂ c₃) :
    Ends .curly c c₃ := by
  obtain ⟨k, steps, passes⟩ := skips
  obtain ⟨k', steps', passes'⟩ := ends
  have blanks := length_skipBlanks c
  rw [comma, List.length_cons] at blanks
  refine ⟨k' + k + 2, by omega, fun n m around eq => ?_⟩
  subst eq
  rw [← passes' n (n + k' + 1) around rfl,
    ← passes (n + k' + 1) (n + (k' + k + 2)) (.curly :: around) (by omega)]
  simp only [skipOut, comma, key]

theorem skips_emptyObject (first : c.skipBlanks.rest = '\x7b' :: rest)
    (start : (Cursor.mk (c.skipBlanks.position.skip 1) rest).skipBlanks = c₁)
    (last : c₁.rest = '\x7d' :: rest') : Skips c ⟨c₁.position.skip 1, rest'⟩ := by
  have blanks := length_skipBlanks c
  have blanks' := length_skipBlanks ⟨c.skipBlanks.position.skip 1, rest⟩
  rw [first, List.length_cons] at blanks
  rw [start, last, List.length_cons] at blanks'
  dsimp only at blanks'
  refine ⟨0, by dsimp only; omega, fun n m around eq => ?_⟩
  subst eq
  simp only [skipWithin, first, start, last]

/-- An object is skipped by its first key, the value there and whatever ends it. -/
theorem Skips.object (first : c.skipBlanks.rest = '\x7b' :: rest)
    (start : (Cursor.mk (c.skipBlanks.position.skip 1) rest).skipBlanks = c₁)
    (quote : c₁.rest = '"' :: rest') (key : skipKey c₁ = .ok c₂)
    (shorter : c₂.rest.length < c₁.rest.length) (skips : Skips c₂ c₃) (ends : Ends .curly c₃ c₄) :
    Skips c c₄ := by
  obtain ⟨k, steps, passes⟩ := skips
  obtain ⟨k', steps', passes'⟩ := ends
  have blanks := length_skipBlanks c
  have blanks' := length_skipBlanks ⟨c.skipBlanks.position.skip 1, rest⟩
  rw [first, List.length_cons] at blanks
  rw [start] at blanks'
  dsimp only at blanks'
  refine ⟨k' + k + 2, by omega, fun n m around eq => ?_⟩
  subst eq
  rw [← passes' n (n + k' + 1) around rfl,
    ← passes (n + k' + 1) (n + (k' + k + 2)) (.curly :: around) (by omega)]
  rw [skipWithin]
  simp only [first, start, quote, key]
  rfl

end Skips

/-! ## Readers -/

section Readers

variable {φ α β σ : Type}

/-- Whatever a reader takes off the front of a text, it stands where passing over a value leads. -/
def Reader.Passes (read : Reader φ α) : Prop :=
  ∀ c a c', read c = .ok (a, c') → Skips c c'

/-- What becomes of a value makes no difference to where it ends. -/
theorem Reader.Passes.onto {read : Reader φ α} (passes : read.Passes) (f : α → σ) :
    (read.onto f).Passes := by
  intro c s c' h
  obtain ⟨a, taken, rfl⟩ := onto_eq_ok_iff.1 h
  exact passes c a c' taken

section Arrays

variable {step : σ → Nat → Option (Reader φ σ)}
  (each : ∀ s i, ∃ read, step s i = some read ∧ read.Passes)

include each

/-- Elements that can be read, and a bracket, end an array. -/
theorem ends_elements {fuel i : Nat} {s s' : σ} {c c₁ c₂ : Cursor}
    (h : elements step fuel (i + 1) s c = .ok (s', c₁)) (close : closeArray c₁ = .ok c₂) :
    Ends .square c c₂ := by
  induction fuel generalizing i s c with
  | zero => cases h
  | succ fuel ih =>
    obtain ⟨read, wanted, passes⟩ := each s (i + 1)
    rcases elements_eq_ok h with ⟨surplus, -⟩ |
      ⟨read', wanted', ⟨next, rfl⟩ | ⟨c₃, s₁, c₄, next, taken, more⟩⟩
    · rw [wanted] at surplus
      cases surplus
    · rcases nextElement_cases next with ⟨-, rfl, rest, last⟩ | ⟨eq, -⟩ | ⟨eq, -⟩
      · rw [closeArray_of_rest (by rw [skipBlanks_skipBlanks]; exact last),
          skipBlanks_skipBlanks] at close
        cases close
        exact ends_square last
      · cases eq
      · cases eq
    · rw [wanted] at wanted'
      cases wanted'
      rcases nextElement_cases next with ⟨eq, -⟩ | ⟨-, eq, -⟩ | ⟨-, -, rest, comma, rfl⟩
      · cases eq
      · cases eq
      · exact .of_comma comma (.of_skipBlanks (passes _ _ _ taken)) (ih more)

/-- Where an array is read, passing over it ends in the same place. -/
theorem skips_array {start : σ} {finish : σ → Except φ β} {c c' : Cursor} {rest : List Char} {b : β}
    (first : c.skipBlanks.rest = '[' :: rest)
    (h : array step start finish ⟨c.skipBlanks.position.skip 1, rest⟩ = .ok (b, c')) :
    Skips c c' := by
  obtain ⟨s, c₁, taken, -, close⟩ := array_eq_ok h
  obtain ⟨read, wanted, passes⟩ := each start 0
  rcases elements_eq_ok taken with ⟨surplus, -⟩ |
    ⟨read', wanted', ⟨next, rfl⟩ | ⟨c₂, s₁, c₃, next, taken', more⟩⟩
  · rw [wanted] at surplus
    cases surplus
  · rcases nextElement_cases next with ⟨-, rfl, rest', last⟩ | ⟨eq, -⟩ | ⟨eq, -⟩
    · rw [closeArray_of_rest (by rw [skipBlanks_skipBlanks]; exact last),
        skipBlanks_skipBlanks] at close
      cases close
      exact skips_emptyArray first rfl last
    · cases eq
    · cases eq
  · rw [wanted] at wanted'
    cases wanted'
    rcases nextElement_cases next with ⟨eq, -⟩ | ⟨-, -, rfl, ch, rest', solid, notLast⟩ |
      ⟨-, eq, -⟩
    · cases eq
    · exact .array first rfl solid notLast (passes _ _ _ taken') (ends_elements each more close)
    · cases eq

end Arrays

section Objects

variable {step : σ → String → Except φ (Reader φ σ)}
  (each : ∀ s key read, step s key = .ok read → read.Passes)

include each

/-- Members that can be read, and a brace, end an object. -/
theorem ends_members {fuel : Nat} {s s' : σ} {c c₁ c₂ : Cursor}
    (h : members step fuel false s c = .ok (s', c₁)) (close : closeObject c₁ = .ok c₂) :
    Ends .curly c c₂ := by
  induction fuel generalizing s c with
  | zero => cases h
  | succ fuel ih =>
    rcases members_eq_ok h with ⟨next, rfl⟩ |
      ⟨key, c₃, read, c₄, s₁, c₅, next, wanted, behind, taken, more⟩
    · rcases nextKey_cases next with ⟨-, rfl, rest, last⟩ | ⟨eq, -⟩ | ⟨-, _, _, _, eq, -⟩
      · rw [closeObject_of_rest (by rw [skipBlanks_skipBlanks]; exact last),
          skipBlanks_skipBlanks] at close
        cases close
        exact ends_curly last
      · cases eq
      · cases eq
    · rcases nextKey_cases next with ⟨eq, -⟩ | ⟨eq, -⟩ |
        ⟨-, key', rest, rest', eq, comma, quote, string⟩
      · cases eq
      · cases eq
      · obtain ⟨passed, shorter⟩ := skipKey_of_string quote string behind
        exact .of_member comma passed shorter (each _ _ _ wanted _ _ _ taken) (ih more)

/-- Where an object is read, passing over it ends in the same place. -/
theorem skips_object {start : σ} {finish : σ → Except φ β} {c c' : Cursor} {rest : List Char}
    {b : β} (first : c.skipBlanks.rest = '\x7b' :: rest)
    (h : object step start finish ⟨c.skipBlanks.position.skip 1, rest⟩ = .ok (b, c')) :
    Skips c c' := by
  obtain ⟨s, c₁, taken, -, close⟩ := object_eq_ok h
  rcases members_eq_ok taken with ⟨next, rfl⟩ |
    ⟨key, c₂, read, c₃, s₁, c₄, next, wanted, behind, taken', more⟩
  · rcases nextKey_cases next with ⟨-, rfl, rest', last⟩ | ⟨-, _, _, eq, -⟩ | ⟨eq, -⟩
    · rw [closeObject_of_rest (by rw [skipBlanks_skipBlanks]; exact last),
        skipBlanks_skipBlanks] at close
      cases close
      exact skips_emptyObject first rfl last
    · cases eq
    · cases eq
  · rcases nextKey_cases next with ⟨eq, -⟩ | ⟨-, key', rest', eq, quote, string⟩ | ⟨eq, -⟩
    · cases eq
    · obtain ⟨passed, shorter⟩ := skipKey_of_string (by rw [skipBlanks_skipBlanks]; exact quote)
        (by rw [skipBlanks_skipBlanks]; exact string) behind
      exact .object first rfl quote passed shorter (each _ _ _ wanted _ _ _ taken')
        (ends_members each more close)
    · cases eq

end Objects

theorem passes_dispatch {onScalar : Json → Except φ α} {onArray onObject : Opening φ α}
    (arrays : ∀ c rest a c', c.skipBlanks.rest = '[' :: rest →
      onArray.read ⟨c.skipBlanks.position.skip 1, rest⟩ c.skipBlanks = .ok (a, c') → Skips c c')
    (objects : ∀ c rest a c', c.skipBlanks.rest = '\x7b' :: rest →
      onObject.read ⟨c.skipBlanks.position.skip 1, rest⟩ c.skipBlanks = .ok (a, c') → Skips c c') :
    (dispatch onScalar onArray onObject).Passes := by
  intro c a c' h
  rcases dispatch_eq_ok h with ⟨rest, first, taken⟩ | ⟨rest, first, taken⟩ |
    ⟨noArray, noObject, v, taken, -⟩
  · exact arrays c rest a c' first taken
  · exact objects c rest a c' first taken
  · exact skips_scalar noArray noObject taken

end Readers

/-! ## Values -/

/-- A value that can be read is skipped to the same place, at any depth. -/
theorem passes_value {φ : Type} (depth : Nat) : (value depth : Reader φ Json).Passes := by
  induction depth with
  | zero =>
    exact passes_dispatch (fun c rest a c' _ h => by cases h) (fun c rest a c' _ h => by cases h)
  | succ depth ih =>
    refine passes_dispatch (fun c rest a c' first h => ?_) (fun c rest a c' first h => ?_)
    · have h : arrayOf (value depth) (fun items => .ok (.arr items))
          ⟨c.skipBlanks.position.skip 1, rest⟩ = .ok (a, c') := h
      exact skips_array (fun s i => ⟨_, rfl, ih.onto _⟩) first h
    · have h : objectOf (value depth) (fun entries => .ok (.obj entries))
          ⟨c.skipBlanks.position.skip 1, rest⟩ = .ok (a, c') := h
      refine skips_object (fun s key read wanted => ?_) first h
      cases wanted
      exact ih.onto _

/-- **Where a value is read, passing over it ends in the same place.** -/
theorem skipValue_of_value {φ ψ : Type} {depth : Nat} {c c' : Cursor} {v : Json}
    (h : (value depth : Reader φ Json) c = .ok (v, c')) :
    (skipValue : Reader ψ Unit) c = .ok ((), c') := by
  obtain ⟨k, steps, passes⟩ := passes_value depth c v c' h
  have fuel : 2 * c.rest.length + 2 = (2 * c.rest.length + 1 - k) + k + 1 := by omega
  have arrived : ∀ n, skipOut n [] c' = .ok c' := fun n => by cases n <;> rfl
  simp only [skipValue, passes _ _ [] fuel, arrived]

end TypeCatalog.Json
