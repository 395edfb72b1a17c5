import TypeCatalog.Proofs.Failure
import TypeCatalog.Proofs.Members

/-!
Decoded documents.

Every document that is decoded from a value (`distinct_of_ofJson`) or read from text
(`distinct_of_parse`) is one whose tables are maps.
-/

namespace TypeCatalog.Document

/-! ## Sections -/

/-- The tables in the sections that are read are maps. -/
def Sections.Distinct (s : Sections) : Prop :=
  (∀ table, s.definitions = some table → Descriptor.DistinctTable table) ∧
    ∀ table, s.roots = some table → Descriptor.DistinctTable table

theorem Sections.distinct_none : Sections.none.Distinct :=
  ⟨fun table eq => (by cases eq), fun table eq => (by cases eq)⟩

theorem Sections.Distinct.withDefinitions {s : Sections} (h : s.Distinct)
    {table : List (String × Descriptor)} (distinct : Descriptor.DistinctTable table) :
    Sections.Distinct ⟨some table, s.roots⟩ :=
  ⟨fun _ eq => Option.some.inj eq ▸ distinct, h.2⟩

theorem Sections.Distinct.withRoots {s : Sections} (h : s.Distinct)
    {table : List (String × Descriptor)} (distinct : Descriptor.DistinctTable table) :
    Sections.Distinct ⟨s.definitions, some table⟩ :=
  ⟨h.1, fun _ eq => Option.some.inj eq ▸ distinct⟩

/-- A section that is left out is empty, and no less a map for that. -/
theorem Sections.Distinct.document {s : Sections} (h : s.Distinct) : s.document.Distinct := by
  obtain ⟨definitions, roots⟩ := s
  refine ⟨fun entry mem => ?_, fun entry mem => ?_⟩
  · cases roots with
    | none => cases mem
    | some table => exact (h.2 table rfl).2 entry mem
  · cases definitions with
    | none => cases mem
    | some table => exact (h.1 table rfl).2 entry mem

/-! ## Documents in values -/

/-- Whatever member comes next, the sections that are there stay maps. -/
theorem Sections.Distinct.take {s s' : Sections} (h : s.Distinct) {entry : String × Json}
    (taken : s.take entry = .ok s') : s'.Distinct := by
  obtain ⟨name, v⟩ := entry
  by_cases mem : name ∈ ["definitions", "roots"]
  · rcases List.mem_pair.1 mem with rfl | rfl
    · obtain ⟨-, table, read, rfl⟩ := take_definitions_iff.1 taken
      exact h.withDefinitions (Descriptor.distinctTable_of_outerJson read)
    · obtain ⟨-, table, read, rfl⟩ := take_roots_iff.1 taken
      exact h.withRoots (Descriptor.distinctTable_of_outerJson read)
  · rw [take_other mem] at taken
    cases taken
    exact h

theorem distinct_of_sectionsOfMembers {members : List (String × Json)} {s s' : Sections}
    (distinct : s.Distinct) (h : sectionsOfMembers s members = .ok s') : s'.Distinct := by
  rw [sectionsOfMembers_eq] at h
  induction members generalizing s with
  | nil =>
    cases h
    exact distinct
  | cons entry rest ih =>
    obtain ⟨t, first, later⟩ := foldlM_cons_eq_ok_iff.1 h
    exact ih (distinct.take first) later

/-- So they do if the sections are told by place. -/
theorem distinct_of_ofValues {values : List Json} {doc : Document}
    (h : ofValues values = .ok doc) : doc.Distinct := by
  have none := Sections.distinct_none
  rcases ofValues_eq_ok_iff.1 h with ⟨-, rfl⟩ | ⟨v, definitions, -, read, rfl⟩ |
    ⟨v, w, definitions, roots, -, read, read', rfl⟩
  · exact none.document
  · exact (none.withDefinitions (Descriptor.distinctTable_of_outerJson read)).document
  · exact ((none.withDefinitions (Descriptor.distinctTable_of_outerJson read)).withRoots
      (Descriptor.distinctTable_of_outerJson read')).document

/-- The tables in a document that is decoded from a value are maps. -/
theorem distinct_of_ofJson {v : Json} {doc : Document} (h : ofJson v = .ok doc) :
    doc.Distinct := by
  cases v with
  | obj members =>
    simp only [ofJson] at h
    cases read : sectionsOfMembers .none members with
    | error r =>
      rw [read] at h
      cases h
    | ok s =>
      rw [read] at h
      cases h
      exact (distinct_of_sectionsOfMembers Sections.distinct_none read).document
  | arr values => exact distinct_of_ofValues h
  | _ => cases h

/-! ## Documents in text -/

/-- In text as well, a section that is read is a map. -/
theorem yields_memberReader {depth : Nat} {s : Sections} {key : String}
    {read : Json.Reader Fault Sections} (distinct : s.Distinct)
    (h : memberReader depth s key = .ok read) : read.Yields Sections.Distinct := by
  unfold memberReader at h
  split at h
  · split at h
    · cases h
    · cases h
      exact (Descriptor.yields_tableReader depth).onto fun _ => distinct.withDefinitions
  · split at h
    · split at h
      · cases h
      · cases h
        exact (Descriptor.yields_tableReader depth).onto fun _ => distinct.withRoots
    · cases h
      have passed : (Json.skipValue : Json.Reader Fault Unit).Yields fun _ => True :=
        fun _ _ _ _ => trivial
      exact passed.onto fun _ _ => distinct

theorem yields_elementReader {depth : Nat} {s : Sections} {index : Nat}
    {read : Json.Reader Fault Sections} (distinct : s.Distinct)
    (h : elementReader depth s index = some read) : read.Yields Sections.Distinct := by
  unfold elementReader at h
  split at h
  · cases h
    exact (Descriptor.yields_tableReader depth).onto fun _ => distinct.withDefinitions
  · split at h
    · cases h
      exact (Descriptor.yields_tableReader depth).onto fun _ => distinct.withRoots
    · cases h

/-- A document that is read from text has maps for sections. -/
theorem yields_reader (depth : Nat) : (reader depth).Yields Document.Distinct := by
  have done : ∀ (s : Sections) (doc : Document), s.Distinct →
      (Except.ok s.document : Except Fault Document) = .ok doc → doc.Distinct := by
    intro s doc distinct eq
    cases eq
    exact distinct.document
  unfold reader
  refine Json.yields_dispatch (fun v doc h => by cases h)
    (Json.Opening.yields_atDepth (fun depth => ?_) depth)
    (Json.Opening.yields_atDepth (fun depth => ?_) depth)
  · exact Json.yields_array Sections.Distinct Sections.distinct_none
      (fun _ _ _ distinct wanted => yields_elementReader distinct wanted) done
  · exact Json.yields_object Sections.Distinct Sections.distinct_none
      (fun _ _ _ distinct wanted => yields_memberReader distinct wanted) done

/-- The tables in a document that is read from text are maps. -/
theorem distinct_of_parse {text : String} {doc : Document} (h : parse text = .ok doc) :
    doc.Distinct := by
  unfold parse at h
  cases read : reader Json.depthLimit (.ofText text) with
  | error f =>
    rw [read] at h
    cases h
  | ok taken =>
    obtain ⟨doc', rest⟩ := taken
    rw [read] at h
    cases h
    exact yields_reader Json.depthLimit _ _ _ read

end TypeCatalog.Document
