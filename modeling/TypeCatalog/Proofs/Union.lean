import TypeCatalog.Recognizer.Union

/-!
Unions of shapes.

`Shape.members` lists what some shapes bring into a union: optional types opened, unions spliced,
repetitions dropped.  No two of them are the same (`firsts_pairwise`), each comes out of one of
the shapes (`mem_brought_of_mem_members`), and all that comes out of them is among the members
(`exists_member_of_mem_brought`).  `Combines` says what `Shape.combine` makes of
them, which it always does (`combine_eq_some`).
-/

namespace TypeCatalog.Shape

/-! ## Dropping repetitions -/

theorem among_iff {a : Shape} {shapes : List Shape} :
    a.among shapes = true ↔ ∃ b ∈ shapes, b.same a = true := by
  induction shapes with
  | nil => simp [among]
  | cons b rest ih => simp [among, ih]

theorem mem_of_mem_foldl_pushNew {a : Shape} {shapes : List Shape} :
    ∀ {seen : List Shape}, a ∈ shapes.foldl pushNew seen → a ∈ seen ∨ a ∈ shapes := by
  induction shapes with
  | nil => exact fun h => .inl h
  | cons b rest ih =>
    intro seen h
    rcases ih h with pushed | later
    · unfold pushNew at pushed
      split at pushed
      · exact .inl pushed
      · rcases List.mem_append.1 pushed with old | new
        · exact .inl old
        · exact .inr (List.mem_cons.2 (.inl (List.mem_singleton.1 new)))
    · exact .inr (List.mem_cons_of_mem b later)

/-- Dropping repetitions leaves elements that were there. -/
theorem mem_of_mem_firsts {a : Shape} {shapes : List Shape} (h : a ∈ firsts shapes) :
    a ∈ shapes := by
  rcases mem_of_mem_foldl_pushNew h with seen | listed
  · cases seen
  · exact listed

/-- A shape is put behind the others only if it is the same as none of them. -/
theorem pairwise_foldl_pushNew {shapes : List Shape} :
    ∀ {seen : List Shape}, (seen.Pairwise fun a b => a.same b = false) →
      (shapes.foldl pushNew seen).Pairwise fun a b => a.same b = false := by
  induction shapes with
  | nil => exact fun h => h
  | cons b rest ih =>
    intro seen h
    apply ih
    unfold pushNew
    split
    · exact h
    · rename_i fresh
      rw [List.pairwise_append]
      refine ⟨h, List.pairwise_singleton _ _, ?_⟩
      intro a ha c hc
      rw [List.mem_singleton] at hc
      subst hc
      exact Bool.eq_false_iff.2 fun same => fresh (among_iff.2 ⟨a, ha, same⟩)

/-- No two of the first shapes are the same. -/
theorem firsts_pairwise (shapes : List Shape) :
    (firsts shapes).Pairwise fun a b => a.same b = false :=
  pairwise_foldl_pushNew .nil

theorem mem_pushNew {a b : Shape} {seen : List Shape} (h : b ∈ seen) : b ∈ pushNew seen a := by
  unfold pushNew
  split
  · exact h
  · exact List.mem_append_left _ h

/-- Each shape has the first of its group, itself or one that is the same. -/
theorem exists_first_of_mem {a : Shape} {shapes : List Shape} (h : a ∈ shapes) :
    ∃ b ∈ firsts shapes, a = b ∨ b.same a = true := by
  suffices ∀ {seen : List Shape}, (∃ b ∈ seen, a = b ∨ b.same a = true) ∨ a ∈ shapes →
      ∃ b ∈ shapes.foldl pushNew seen, a = b ∨ b.same a = true from this (.inr h)
  clear h
  induction shapes with
  | nil => exact fun h => h.resolve_right List.not_mem_nil
  | cons c rest ih =>
    rintro seen (⟨b, hb, alike⟩ | listed)
    · exact ih (.inl ⟨b, mem_pushNew hb, alike⟩)
    · rcases List.mem_cons.1 listed with rfl | later
      · apply ih
        left
        unfold pushNew
        split
        · rename_i among
          obtain ⟨b, hb, same⟩ := among_iff.1 among
          exact ⟨b, hb, .inr same⟩
        · exact ⟨a, List.mem_append_right _ List.mem_cons_self, .inl rfl⟩
      · exact ih (.inr later)

/-! ## Members of a union -/

/-- What some shapes bring into a union. -/
def members (shapes : List Shape) : List Shape :=
  firsts (splice (shapes.flatMap reopened))

/-- The shapes that a shape brings into a union, opened and spliced. -/
def brought (x : Shape) : List Shape :=
  x.reopened.flatMap spliced

/-- A member of a union was brought in by one of its shapes. -/
theorem mem_brought_of_mem_members {a : Shape} {shapes : List Shape}
    (h : a ∈ members shapes) : ∃ x ∈ shapes, a ∈ x.brought := by
  obtain ⟨y, hy, ha⟩ := List.mem_flatMap.1 (mem_of_mem_firsts h)
  obtain ⟨x, hx, hyx⟩ := List.mem_flatMap.1 hy
  exact ⟨x, hx, List.mem_flatMap.2 ⟨y, hyx, ha⟩⟩

/-- What a shape brings in is a member, or one that came before is the same. -/
theorem exists_member_of_mem_brought {a x : Shape} {shapes : List Shape} (hx : x ∈ shapes)
    (h : a ∈ x.brought) : ∃ b ∈ members shapes, a = b ∨ b.same a = true := by
  obtain ⟨y, hy, ha⟩ := List.mem_flatMap.1 h
  exact exists_first_of_mem (List.mem_flatMap.2 ⟨y, List.mem_flatMap.2 ⟨x, hx, hy⟩, ha⟩)

/-- What the union of some shapes is: a single member is itself, a member and the absent value
are an optional type under `collapseOptional`, and all else is a union of its members. -/
inductive Combines (options : OptionSet) (shapes : List Shape) : Shape → Prop
  | single {only : Shape} : members shapes = [only] → Combines options shapes only
  | optional {inner : Shape} : options.collapseOptional = true → inner ≠ .none →
      members shapes = [inner, .none] ∨ members shapes = [.none, inner] →
      Combines options shapes (.optional inner options)
  | union : (∀ only, members shapes ≠ [only]) →
      (∀ inner, options.collapseOptional = true →
        members shapes ≠ [inner, .none] ∧ members shapes ≠ [.none, inner]) →
      Combines options shapes (.union (members shapes) options)

section Pair

variable {inner : Shape} {shapes : List Shape}
  (listed : members shapes = [inner, .none] ∨ members shapes = [.none, inner])

include listed

/-- The members of an optional type are the absent value and what it is about, in either order. -/
theorem pair_perm_members : [inner, .none].Perm (members shapes) := by
  rcases listed with listed | listed
  · rw [listed]
  · rw [listed]
    exact .swap none inner []

theorem mem_members_of_pair : inner ∈ members shapes :=
  (pair_perm_members listed).subset List.mem_cons_self

end Pair

theorem isNone_iff {a : Shape} : a.isNone = true ↔ a = .none := by
  cases a <;> simp [isNone]

theorem isNone_eq_false_iff {a : Shape} : a.isNone = false ↔ a ≠ .none := by
  rw [Bool.eq_false_iff, Ne, isNone_iff]

/-- The union of some shapes is always there. -/
theorem combine_eq_some (options : OptionSet) (shapes : List Shape) :
    ∃ x, combine options shapes = some x ∧ Combines options shapes x := by
  have apart : (members shapes).Pairwise fun a b => a.same b = false := firsts_pairwise _
  have brought : firsts (splice (shapes.flatMap reopened)) = members shapes := rfl
  simp only [combine, brought]
  rcases listed : members shapes with _ | ⟨a, _ | ⟨b, _ | ⟨c, rest⟩⟩⟩
  · refine ⟨_, rfl, ?_⟩
    rw [← listed]
    exact .union (by simp [listed]) (by simp [listed])
  · exact ⟨a, rfl, .single listed⟩
  · rw [listed, List.pairwise_cons] at apart
    have ne : a.same b = false := apart.1 b List.mem_cons_self
    cases collapse : options.collapseOptional with
    | false =>
      refine ⟨_, rfl, ?_⟩
      rw [← listed]
      exact .union (by simp [listed]) (by simp [collapse])
    | true =>
      by_cases aNone : a = .none <;> by_cases bNone : b = .none
      · subst aNone bNone
        simp [same] at ne
      · refine ⟨.optional b options, ?_, .optional collapse bNone (.inr (aNone ▸ listed))⟩
        simp [aNone, bNone, isNone_iff]
      · refine ⟨.optional a options, ?_, .optional collapse aNone (.inl (bNone ▸ listed))⟩
        simp [aNone, bNone, isNone_iff, isNone_eq_false_iff]
      · refine ⟨.union [a, b] options, ?_, ?_⟩
        · simp [aNone, bNone, isNone_iff]
        · rw [← listed]
          exact .union (by simp [listed]) (by simp [listed, aNone, bNone])
  · refine ⟨_, rfl, ?_⟩
    rw [← listed]
    exact .union (by simp [listed]) (by simp [listed])

end TypeCatalog.Shape
