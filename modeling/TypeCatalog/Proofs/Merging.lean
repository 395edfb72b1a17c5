import TypeCatalog.Proofs.Members

/-!
Merged values.

What is decoded from a value is decoded from the merged value as well, in which every object has
each of its keys once (`Merges`): a key that a descriptor or a document wants was there once anyway,
a key that it does not want is passed over, and in a table a repeated name is counted once whether
its descriptors are decoded before that or after.  The converse fails: merging may repair what has a
key twice.

The main results are `merges` for descriptors inside others, `ofJson_merged` for outermost ones and
`Document.ofJson_merged`.
-/

namespace TypeCatalog

/-! ## Lists and tables of values -/

namespace Json

/-- The elements of an array are merged one by one. -/
theorem mergedItems_eq (items : List Json) : mergedItems items = items.map merged := by
  induction items with
  | nil => rfl
  | cons v rest ih => rw [mergedItems, ih, List.map_cons]

theorem mergedMembers_eq (members : List (String × Json)) :
    mergedMembers members = Assoc.mapValues merged members := by
  induction members with
  | nil => rfl
  | cons entry rest ih =>
    obtain ⟨name, v⟩ := entry
    rw [mergedMembers, ih]
    rfl

end Json

/-- What is read from a value is read from the merged value. -/
def Survives {ε α : Type} (read : Json → Except ε α) (v : Json) : Prop :=
  ∀ x, read v = .ok x → read v.merged = .ok x

section Survives

variable {ε α σ : Type} {read : Json → Except ε α} {items : List Json} {xs : List α}
  {entries : List (String × Json)} {table : List (String × α)}

/-- Elements that survive merging are read alike afterwards. -/
theorem map_read_merged (each : ∀ v ∈ items, Survives read v)
    (h : items.map read = xs.map .ok) : (Json.mergedItems items).map read = xs.map .ok := by
  rw [Json.mergedItems_eq]
  induction items generalizing xs with
  | nil => exact h
  | cons v rest ih =>
    cases xs with
    | nil => cases h
    | cons x xs =>
      simp only [List.map_cons, List.cons.injEq] at h ⊢
      exact ⟨each v List.mem_cons_self x h.1,
        ih (fun w hw => each w (List.mem_cons_of_mem _ hw)) h.2⟩

/-- In a table a repeated name is counted once, before its values are read or after. -/
theorem mapValues_read_merged (each : ∀ v ∈ entries.map Prod.snd, Survives read v)
    (h : Assoc.mapValues read entries = Assoc.mapValues .ok table) :
    Assoc.mapValues read (Assoc.ofPairs (Json.mergedMembers entries)) =
      Assoc.mapValues .ok (Assoc.ofPairs table) := by
  have read_merged : Assoc.mapValues read (Json.mergedMembers entries) =
      Assoc.mapValues .ok table := by
    rw [Json.mergedMembers_eq]
    induction entries generalizing table with
    | nil => exact h
    | cons entry rest ih =>
      cases table with
      | nil => cases h
      | cons entry' table =>
        simp only [Assoc.mapValues, List.map_cons, List.cons.injEq, Prod.mk.injEq] at h ih ⊢
        exact ⟨⟨h.1.1, each entry.2 List.mem_cons_self entry'.2 h.1.2⟩,
          ih (fun w hw => each w (List.mem_cons_of_mem _ hw)) h.2⟩
  rw [Assoc.mapValues_ofPairs, Assoc.mapValues_ofPairs, read_merged]

/-- Members that are taken one by one are taken as well from the merged object. -/
theorem foldlM_merged {step : σ → String × Json → Except ε σ} {names : List String}
    {given : σ → String → Prop} (once : Once step names given)
    (each : ∀ entry ∈ entries, ∀ s s', step s entry = .ok s' →
      step s (entry.1, entry.2.merged) = .ok s')
    {s s' : σ} (h : entries.foldlM step s = .ok s') :
    (Assoc.ofPairs (Json.mergedMembers entries)).foldlM step s = .ok s' := by
  apply once.foldlM_ofPairs
  rw [Json.mergedMembers_eq]
  induction entries generalizing s with
  | nil => exact h
  | cons entry rest ih =>
    obtain ⟨t, first, later⟩ := foldlM_cons_eq_ok_iff.1 h
    refine foldlM_cons_eq_ok_iff.2 ⟨t, each entry List.mem_cons_self s t first, ?_⟩
    exact ih (fun entry' mem => each entry' (List.mem_cons_of_mem _ mem)) later

end Survives

/-! ## Values of fields -/

/-- What tells a kind has nothing to merge. -/
theorem Kind.merged_of_ofJson {v : Json} {k : Kind} (h : Kind.ofJson v = .ok k) :
    v.merged = v := by
  cases v with
  | str word => rfl
  | _ => cases h

theorem Kind.merged_of_ofNestedJson {v : Json} {k : Kind} (h : Kind.ofNestedJson v = .ok k) :
    v.merged = v := by
  cases v with
  | str word => rfl
  | int i => rfl
  | _ => cases h

/-- A text has nothing to merge. -/
theorem survives_readText (v : Json) : Survives readText v := by
  intro s h
  cases v with
  | str s => exact h
  | _ => cases h

/-- Neither has a value that is no array and no object. -/
theorem survives_readScalar (v : Json) : Survives readScalar v := by
  intro s h
  cases v with
  | arr | obj => cases h
  | _ => exact h

/-- A table of values is a map, so that it is merged as it is read: the last of a name counts. -/
theorem survives_readScalarTable (v : Json) : Survives readScalarTable v := by
  intro x h
  cases v with
  | obj entries =>
    simp only [Json.merged, readScalarTable] at h ⊢
    split at h
    · cases h
    · rename_i table taken
      cases h
      have each := mapValues_read_merged (fun w _ => survives_readScalar w)
        (readsTable_readNamedScalar.eq_ok_iff.1 taken)
      rw [readsTable_readNamedScalar.eq_ok_iff.2 each]
      exact congrArg Except.ok (Assoc.ofPairs_of_distinct (Assoc.distinct_ofPairs table))
  | _ => cases h

namespace Descriptor

/-- A bound that is not null is a descriptor. -/
theorem optional_eq_ok_iff {v : Json} (present : v ≠ .null) {x : Option Descriptor} :
    FieldType.optional.ofJson v = .ok x ↔ ∃ d, ofNestedJson v = .ok d ∧ x = some d := by
  have read : FieldType.optional.ofJson v = (ofNestedJson v).map some := by
    cases v with
    | null => exact absurd rfl present
    | _ =>
      simp only [FieldType.ofJson, FieldType.read]
      cases ofNestedJson _ <;> rfl
  rw [read]
  cases ofNestedJson v with
  | error fault => simp [Except.map]
  | ok d =>
    constructor
    · intro h
      exact ⟨d, rfl, (Except.ok.inj h).symm⟩
    · rintro ⟨_, h, rfl⟩
      cases h
      rfl

/-- Whatever descriptors a value is decoded to, the merged value is decoded to. -/
structure Merges (v : Json) : Prop where
  one : Survives ofNestedJson v
  many : Survives listOfJson v
  named : Survives tableOfJson v

/-- A field survives merging, whatever its type. -/
theorem Merges.field {v : Json} (merges : Merges v) (t : FieldType) : Survives t.ofJson v := by
  intro x h
  cases t with
  | text => exact survives_readText v x h
  | flag =>
    cases v with
    | bool b => exact h
    | _ => cases h
  | texts =>
    cases v with
    | arr items =>
      have each := (reads_readEach _).eq_ok_iff.1 h
      exact (reads_readEach _).eq_ok_iff.2 (map_read_merged (fun w _ => survives_readText w) each)
    | _ => cases h
  | scalars =>
    cases v with
    | arr items =>
      have each := (reads_readEach _).eq_ok_iff.1 h
      exact (reads_readEach _).eq_ok_iff.2
        (map_read_merged (fun w _ => survives_readScalar w) each)
    | _ => cases h
  | scalarTable => exact survives_readScalarTable v x h
  | descriptor => exact merges.one x h
  | optional =>
    by_cases absent : v = .null
    · subst absent
      exact h
    · obtain ⟨d, taken, rfl⟩ := (optional_eq_ok_iff absent).1 h
      have present : v.merged ≠ .null := by
        cases v with
        | null => exact absurd rfl absent
        | _ => exact fun eq => Json.noConfusion eq
      exact (optional_eq_ok_iff present).2 ⟨d, merges.one d taken, rfl⟩
  | descriptors => exact merges.many x h
  | descriptorTable => exact merges.named x h

/-! ## Descriptors -/

/-- An object that is read has no field twice, so that merging takes none of them away. -/
theorem ofMembers_merged {kind : Kind} {members : List (String × Json)} {d : Descriptor}
    (each : ∀ v ∈ members.map Prod.snd, Merges v) (h : ofMembers kind members = .ok d) :
    ofMembers kind (Assoc.ofPairs (Json.mergedMembers members)) = .ok d := by
  unfold ofMembers at h ⊢
  rw [draftOfMembers_eq] at h ⊢
  split at h
  · cases h
  · rename_i draft filled
    have once := Draft.take_once (List.nodup_cons.1 kind.distinct_fields).2
    have merged := foldlM_merged once (fun entry mem s s' taken =>
      Draft.put_of_read ((each entry.2 (List.mem_map_of_mem mem)).field) taken) filled
    rw [merged]
    exact h

/-- An array of fields is read alike when its elements are merged. -/
theorem recordOfValues_merged {kind : Kind} {given : Nat} {fs : List Field} {values : List Json}
    (each : ∀ v ∈ values, Merges v) {record : Record fs}
    (h : recordOfValues kind given fs values = .ok record) :
    recordOfValues kind given fs (Json.mergedItems values) = .ok record := by
  induction values generalizing given fs with
  | nil => exact h
  | cons v rest ih =>
    cases fs with
    | nil =>
      simp only [recordOfValues] at h
      cases h
    | cons f fs =>
      simp only [recordOfValues] at h
      split at h
      · cases h
      · rename_i x read
        split at h
        · cases h
        · rename_i others later
          have read' : FieldType.read v.merged (fun _ => ofNestedJson v.merged)
              (fun _ => listOfJson v.merged) (fun _ => tableOfJson v.merged) f.type = .ok x :=
            (each v List.mem_cons_self).field f.type x read
          have later' := ih (fun w hw => each w (List.mem_cons_of_mem _ hw)) later
          simp only [Json.mergedItems, recordOfValues, read', later']
          exact h

theorem ofValues_merged {kind : Kind} {values : List Json} {d : Descriptor}
    (each : ∀ v ∈ values, Merges v) (h : ofValues kind values = .ok d) :
    ofValues kind (Json.mergedItems values) = .ok d := by
  unfold ofValues at h ⊢
  split at h
  · cases h
  · rename_i record read
    rw [recordOfValues_merged each read]
    exact h

/-- An object that tells its kind does so once, and tells the same when merged. -/
theorem kindOfMembers_merged {read : Json → Except Fault Kind}
    (plain : ∀ v k, read v = .ok k → v.merged = v) {members : List (String × Json)} {k : Kind}
    (h : Kind.ofMembers read .none members = .ok k) :
    Kind.ofMembers read .none (Assoc.ofPairs (Json.mergedMembers members)) = .ok k := by
  rw [Kind.ofMembers_eq_ok_iff] at h ⊢
  refine foldlM_merged (Kind.take_once read) (fun entry mem s s' taken => ?_) h
  obtain ⟨name, v⟩ := entry
  by_cases eq : name = "kind"
  · subst eq
    obtain ⟨rfl, k, first, rfl⟩ := Kind.take_eq_ok_iff.1 taken
    exact Kind.take_eq_ok_iff.2 ⟨rfl, k, by rw [plain v k first]; exact first, rfl⟩
  · have absent : name ∉ ["kind"] := fun mem => eq (List.mem_singleton.1 mem)
    rw [(Kind.take_once read).other v absent] at taken
    exact ((Kind.take_once read).other v.merged absent).trans taken

/-- Merging a value loses nothing that is decoded from it. -/
theorem merges (v : Json) : Merges v := by
  induction v using Json.inner_induction with
  | step v ih =>
    refine ⟨fun d h => ?_, fun ds h => ?_, fun table h => ?_⟩
    · cases v with
      | obj members =>
        simp only [Json.merged, ofNestedJson] at h ⊢
        split at h
        · cases h
        · rename_i kind first
          rw [kindOfMembers_merged (fun _ _ => Kind.merged_of_ofNestedJson) first]
          exact ofMembers_merged ih h
      | arr items =>
        cases items with
        | nil => cases h
        | cons first values =>
          simp only [ofNestedJson] at h
          split at h
          · cases h
          · rename_i kind read
            simp only [Json.merged, Json.mergedItems, ofNestedJson,
              Kind.merged_of_ofNestedJson read, read]
            exact ofValues_merged (fun w hw => ih w (List.mem_cons_of_mem _ hw)) h
      | _ => cases h
    · cases v with
      | arr items =>
        simp only [Json.merged, listOfJson] at h ⊢
        rw [reads_listOfItems.eq_ok_iff] at h ⊢
        exact map_read_merged (fun w hw => (ih w hw).one) h
      | _ => cases h
    · cases v with
      | obj entries =>
        simp only [Json.merged, tableOfJson] at h ⊢
        split at h
        · cases h
        · rename_i pairs read
          cases h
          have each := mapValues_read_merged (fun w hw => (ih w hw).one)
            (readsTable_tableOfEntries.eq_ok_iff.1 read)
          rw [readsTable_tableOfEntries.eq_ok_iff.2 each]
          exact congrArg Except.ok (Assoc.ofPairs_of_distinct (Assoc.distinct_ofPairs pairs))
      | _ => cases h

/-- A value that holds a descriptor holds the same one when merged, at any depth. -/
theorem ofJson_merged (v : Json) : Survives ofJson v := by
  intro d h
  cases v with
  | obj members =>
    simp only [Json.merged, ofJson] at h ⊢
    split at h
    · cases h
    · rename_i kind first
      rw [kindOfMembers_merged (fun _ _ => Kind.merged_of_ofJson) first]
      split at h
      · cases h
      · rename_i d' built
        simp only [ofMembers_merged (fun w _ => merges w) built]
        exact h
  | arr items =>
    cases items with
    | nil => cases h
    | cons first values =>
      simp only [ofJson] at h
      split at h
      · cases h
      · rename_i kind read
        split at h
        · cases h
        · rename_i d' built
          simp only [Json.merged, Json.mergedItems, ofJson, Kind.merged_of_ofJson read, read,
            ofValues_merged (fun w _ => merges w) built]
          exact h
  | _ => cases h

/-- So does a table of descriptors. -/
theorem tableOfOuterJson_merged (v : Json) : Survives tableOfOuterJson v := by
  intro table h
  cases v with
  | obj entries =>
    simp only [Json.merged, tableOfOuterJson] at h ⊢
    split at h
    · cases h
    · rename_i pairs read
      cases h
      have each := mapValues_read_merged (fun w _ => ofJson_merged w)
        (readsTable_tableOfOuterEntries.eq_ok_iff.1 read)
      rw [readsTable_tableOfOuterEntries.eq_ok_iff.2 each]
      exact congrArg Except.ok (Assoc.ofPairs_of_distinct (Assoc.distinct_ofPairs pairs))
  | _ => cases h

end Descriptor

/-! ## Documents -/

namespace Document

open Descriptor (tableOfOuterJson tableOfOuterJson_merged)

/-- A section is taken alike when it is merged. -/
theorem Sections.take_merged {s s' : Sections} {entry : String × Json}
    (h : s.take entry = .ok s') : s.take (entry.1, entry.2.merged) = .ok s' := by
  obtain ⟨name, v⟩ := entry
  by_cases mem : name ∈ ["definitions", "roots"]
  · rcases List.mem_pair.1 mem with rfl | rfl
    · obtain ⟨free, table, read, rfl⟩ := take_definitions_iff.1 h
      exact take_definitions_iff.2 ⟨free, table, tableOfOuterJson_merged v table read, rfl⟩
    · obtain ⟨free, table, read, rfl⟩ := take_roots_iff.1 h
      exact take_roots_iff.2 ⟨free, table, tableOfOuterJson_merged v table read, rfl⟩
  · rw [take_other mem] at h ⊢
    exact h

theorem ofValues_merged {values : List Json} {doc : Document} (h : ofValues values = .ok doc) :
    ofValues (Json.mergedItems values) = .ok doc := by
  rw [ofValues_eq_ok_iff] at h ⊢
  rcases h with ⟨rfl, rfl⟩ | ⟨v, definitions, rfl, read, rfl⟩ |
    ⟨v, w, definitions, roots, rfl, read, read', rfl⟩
  · exact .inl ⟨rfl, rfl⟩
  · exact .inr (.inl ⟨v.merged, definitions, rfl, tableOfOuterJson_merged v _ read, rfl⟩)
  · exact .inr (.inr ⟨v.merged, w.merged, definitions, roots, rfl,
      tableOfOuterJson_merged v _ read, tableOfOuterJson_merged w _ read', rfl⟩)

/-- Merging a value loses nothing of a document that is decoded from it. -/
theorem ofJson_merged (v : Json) : Survives ofJson v := by
  intro doc h
  cases v with
  | obj members =>
    simp only [Json.merged, ofJson, sectionsOfMembers_eq] at h ⊢
    cases read : members.foldlM Sections.take .none with
    | error r =>
      rw [read] at h
      cases h
    | ok s =>
      rw [foldlM_merged Sections.take_once (fun _ _ _ _ => Sections.take_merged) read]
      rw [read] at h
      exact h
  | arr values => exact ofValues_merged h
  | _ => cases h

end Document

end TypeCatalog
