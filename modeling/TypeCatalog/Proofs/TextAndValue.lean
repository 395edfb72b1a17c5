import Mathlib
import TypeCatalog.CommandLine.Run
import TypeCatalog.Proofs.Alongside
import TypeCatalog.Proofs.Merging

/-!
Documents in text and in values.

A document is read from a text in one pass, or decoded from the value that the text holds.  The
first meets repeated keys where they stand and passes over what it does not want, the second sees
every key once.  Whatever the first yields the second yields too: the reader of documents goes
alongside the reader of plain values (`beside_reader`), and what is decoded from a plain value is
decoded from the merged one (`ofJson_of_parse`).
-/

namespace TypeCatalog

open Json (beside_dispatch beside_arrayOf beside_objectOf beside_value beside_skipValue value_eq
  Reader)
open Json.Opening (beside_atDepth beside_refused)

variable {ψ : Type}

/-! ## Descriptors -/

theorem Kind.beside_reader (depth : Nat) :
    Kind.reader.Beside (Json.value depth : Reader ψ Json) fun kind v =>
      Kind.ofJson v = .ok kind := by
  unfold Kind.reader
  rw [value_eq]
  refine beside_dispatch (fun v kind w h h' => ?_) (beside_refused _ _ _) (beside_refused _ _ _)
  cases h'
  exact h

namespace Descriptor

/-- A value is of a kind and has a body: its members but for the kind, or its values behind the
kind. -/
def Body.Of (kind : Kind) (v : Json) : Body → Prop
  | members ms => ∃ entries, v = .obj entries ∧
      entries.foldlM (Kind.take Kind.ofJson) Option.none = .ok (some kind) ∧
      ms = entries.filter fun entry => entry.1 ≠ "kind"
  | values vs => ∃ first, v = .arr (first :: vs) ∧ Kind.ofJson first = .ok kind

/-- What is no field makes no difference to the descriptor of some members. -/
theorem ofMembers_filter (kind : Kind) (members : List (String × Json)) :
    ofMembers kind (members.filter fun entry => entry.1 ≠ "kind") = ofMembers kind members := by
  have distinct := List.nodup_cons.1 kind.distinct_fields
  have once := Draft.take_once distinct.2
  have same : Assoc.under (kind.fields.map Field.name)
      (members.filter fun entry => entry.1 ≠ "kind") =
        Assoc.under (kind.fields.map Field.name) members := by
    unfold Assoc.under
    rw [List.filter_filter]
    refine List.filter_congr fun entry _ => ?_
    have field : entry.1 ∈ kind.fields.map Field.name → entry.1 ≠ "kind" := by
      intro mem eq
      exact distinct.1 (eq ▸ mem)
    by_cases mem : entry.1 ∈ kind.fields.map Field.name
    · simp [mem, field mem]
    · simp [mem]
  unfold ofMembers
  rw [draftOfMembers_eq, draftOfMembers_eq, ← once.foldlM_under, same, once.foldlM_under]

theorem ofJson_of_body {kind : Kind} {body : Body} {v : Json} {d : Descriptor}
    (of : body.Of kind v) (built : ofBody kind body = .ok d) : ofJson v = .ok d := by
  cases body with
  | members ms =>
    obtain ⟨entries, rfl, taken, rfl⟩ := of
    have built : ofMembers kind (entries.filter fun entry => entry.1 ≠ "kind") = .ok d := built
    rw [ofMembers_filter] at built
    simp only [ofJson, Kind.ofMembers_eq_ok_iff.2 taken, built]
  | values vs =>
    obtain ⟨first, rfl, taken⟩ := of
    have built : ofValues kind vs = .ok d := built
    simp only [ofJson, taken, built]

theorem beside_bodyReader (depth : Nat) :
    (bodyReader depth).Beside (Json.value depth : Reader ψ Json) fun read v =>
      read.2.Of read.1 v := by
  unfold bodyReader
  rw [value_eq]
  refine beside_dispatch (fun v a w h => by cases h) (beside_atDepth fun d _ => ?_)
    (beside_atDepth fun d _ => ?_)
  · refine beside_arrayOf (fun i read items =>
      (i = 0 ∧ read = (.none, []) ∧ items = []) ∨
        (i ≠ 0 ∧ ∃ kind first, read.1 = some kind ∧ items = read.2 ++ [first] ∧
          Kind.ofJson first = .ok kind)) (fun i read items reader related wanted => ?_)
      (.inl ⟨rfl, rfl, rfl⟩) fun i read items a v related h h' => ?_
    · rcases related with ⟨rfl, rfl, rfl⟩ | ⟨later, kind, first, some, rfl, taken⟩
      · cases wanted
        exact (Kind.beside_reader d).onto fun kind v taken =>
          .inr ⟨by omega, kind, v, rfl, rfl, taken⟩
      · rw [valueReader, if_neg later] at wanted
        cases wanted
        refine (beside_value d).onto fun v w eq =>
          .inr ⟨by omega, kind, first, some, ?_, taken⟩
        rw [eq]
        rfl
    · rcases related with ⟨rfl, rfl, rfl⟩ | ⟨-, kind, first, some, rfl, taken⟩
      · cases h
      · rw [opened, some] at h
        cases h
        cases h'
        exact ⟨first, by simp, taken⟩
  · refine beside_objectOf (fun read entries =>
      entries.reverse.foldlM (Kind.take Kind.ofJson) Option.none = .ok read.1 ∧
        read.2 = entries.filter fun entry => entry.1 ≠ "kind")
      (fun read entries key reader related wanted => ?_) ⟨rfl, rfl⟩
      fun read entries a v related h h' => ?_
    · obtain ⟨taken, rest⟩ := related
      unfold memberReader at wanted
      split at wanted
      · rename_i isKind
        subst isKind
        split at wanted
        · cases wanted
        · rename_i unseen
          cases wanted
          refine (Kind.beside_reader d).onto fun kind v isOf => ⟨?_, ?_⟩
          · rw [List.reverse_cons]
            refine foldlM_concat taken ?_
            rw [unseen]
            exact Kind.take_eq_ok_iff.2 ⟨rfl, kind, isOf, rfl⟩
          · rw [rest]
            exact (List.filter_cons_of_neg (by simp)).symm
      · rename_i other
        cases wanted
        refine (beside_value d).onto fun v w eq => ⟨?_, ?_⟩
        · rw [List.reverse_cons]
          refine foldlM_concat taken ((Kind.take_once _).other w ?_)
          exact fun mem => other (List.mem_singleton.1 mem)
        · rw [rest, eq]
          exact (List.filter_cons_of_pos (by simpa using other)).symm
    · obtain ⟨taken, rest⟩ := related
      unfold opened at h
      split at h
      · cases h
      · rename_i kind seen
        cases h
        cases h'
        refine ⟨entries.reverse, rfl, seen ▸ taken, ?_⟩
        rw [rest, List.filter_reverse]

/-- A descriptor is read where its value is. -/
theorem beside_reader (depth : Nat) :
    (reader depth).Beside (Json.value depth : Reader ψ Json) fun d v => ofJson v = .ok d := by
  intro c d c₁ v c₂ h h'
  unfold reader at h
  split at h
  · cases h
  · rename_i kind body c₃ taken
    obtain ⟨same, of⟩ := beside_bodyReader depth c _ _ v c₂ taken h'
    split at h
    · cases h
    · rename_i d' built
      cases h
      exact ⟨same, ofJson_of_body of built⟩

theorem beside_tableReader (depth : Nat) :
    (tableReader depth).Beside (Json.value depth : Reader ψ Json) fun table v =>
      tableOfOuterJson v = .ok table := by
  unfold tableReader
  rw [value_eq]
  refine beside_dispatch (fun v a w h => by cases h) (beside_refused _ _ _)
    (beside_atDepth fun d _ => ?_)
  refine beside_objectOf (fun table entries =>
    Assoc.mapValues ofJson entries = Assoc.mapValues .ok table)
    (fun table entries key read related wanted => ?_) rfl fun table entries a v related h h' => ?_
  · cases wanted
    refine (beside_reader d).onto fun one v taken => ?_
    show (key, ofJson v) :: Assoc.mapValues ofJson entries = _ :: Assoc.mapValues .ok table
    rw [related, taken]
  · cases h
    cases h'
    have read : tableOfOuterEntries entries.reverse = .ok table.reverse := by
      rw [readsTable_tableOfOuterEntries.eq_ok_iff]
      simp only [Assoc.mapValues, List.map_reverse] at related ⊢
      rw [related]
    simp only [tableOfOuterJson, read]

end Descriptor

/-! ## Documents -/

namespace Document

open Descriptor (beside_tableReader tableOfOuterJson)

/-- A document is read where its value is. -/
theorem beside_reader (depth : Nat) :
    (reader depth).Beside (Json.value depth : Reader ψ Json) fun doc v =>
      ofJson v = .ok doc := by
  unfold reader
  rw [value_eq]
  refine beside_dispatch (fun v a w h => by cases h) (beside_atDepth fun d _ => ?_)
    (beside_atDepth fun d _ => ?_)
  · refine beside_arrayOf (fun i s items =>
      (i = 0 ∧ s = .none ∧ items = []) ∨
        (i = 1 ∧ ∃ v definitions, items = [v] ∧ tableOfOuterJson v = .ok definitions ∧
          s = ⟨some definitions, .none⟩) ∨
        (i = 2 ∧ ∃ v w definitions roots, items = [w, v] ∧
          tableOfOuterJson v = .ok definitions ∧ tableOfOuterJson w = .ok roots ∧
          s = ⟨some definitions, some roots⟩)) (fun i s items read related wanted => ?_)
      (.inl ⟨rfl, rfl, rfl⟩) fun i s items a v related h h' => ?_
    · rcases related with ⟨rfl, rfl, rfl⟩ | ⟨rfl, v, definitions, rfl, first, rfl⟩ | ⟨rfl, -⟩
      · cases wanted
        exact (beside_tableReader d).onto fun table v taken =>
          .inr (.inl ⟨rfl, v, table, rfl, taken, rfl⟩)
      · cases wanted
        exact (beside_tableReader d).onto fun table w taken =>
          .inr (.inr ⟨rfl, v, w, definitions, table, rfl, first, taken, rfl⟩)
      · cases wanted
    · cases h
      cases h'
      show ofValues items.reverse = .ok s.document
      rw [ofValues_eq_ok_iff]
      rcases related with ⟨-, rfl, rfl⟩ | ⟨-, v, definitions, rfl, first, rfl⟩ |
        ⟨-, v, w, definitions, roots, rfl, first, second, rfl⟩
      · exact .inl ⟨rfl, rfl⟩
      · exact .inr (.inl ⟨v, definitions, rfl, first, rfl⟩)
      · exact .inr (.inr ⟨v, w, definitions, roots, rfl, first, second, rfl⟩)
  · refine beside_objectOf (fun s entries =>
      entries.reverse.foldlM Sections.take .none = .ok s)
      (fun s entries key read related wanted => ?_) rfl fun s entries a v related h h' => ?_
    · unfold memberReader at wanted
      split at wanted
      · rename_i isDefinitions
        subst isDefinitions
        split at wanted
        · cases wanted
        · rename_i unread
          cases wanted
          refine (beside_tableReader d).onto fun table v taken => ?_
          rw [List.reverse_cons]
          exact foldlM_concat related
            (Sections.take_definitions_iff.2 ⟨unread, table, taken, rfl⟩)
      · rename_i noDefinitions
        split at wanted
        · rename_i isRoots
          subst isRoots
          split at wanted
          · cases wanted
          · rename_i unread
            cases wanted
            refine (beside_tableReader d).onto fun table v taken => ?_
            rw [List.reverse_cons]
            exact foldlM_concat related (Sections.take_roots_iff.2 ⟨unread, table, taken, rfl⟩)
        · rename_i noRoots
          cases wanted
          refine (beside_skipValue _).onto fun _ v _ => ?_
          rw [List.reverse_cons]
          refine foldlM_concat related (Sections.take_other fun mem => ?_)
          exact (List.mem_pair.1 mem).elim noDefinitions noRoots
    · cases h
      cases h'
      simp only [ofJson, sectionsOfMembers_eq, related]
      rfl

/-- What a text is read as is decoded from the value that it holds. -/
theorem ofJson_of_parse {text : String} {v : Json} {doc : Document}
    (whole : Json.parse text = .ok v) (h : parse text = .ok doc) : ofJson v = .ok doc := by
  unfold parse at h
  unfold Json.parse Json.parseWithin at whole
  cases read : reader Json.depthLimit (.ofText text) with
  | error f =>
    rw [read] at h
    cases h
  | ok first =>
    obtain ⟨doc', c⟩ := first
    rw [read] at h
    cases h
    split at whole
    · cases whole
    · cases whole
    · rename_i raw c' plain
      have decoded := (beside_reader Json.depthLimit _ _ _ _ _ read plain).2
      dsimp only at whole
      split at whole
      · cases whole
        exact ofJson_merged raw doc' decoded
      · cases whole

/-- **Text and value agree**: a document that is read from a text is decoded from the value that the
text holds, and so a file without a pointer is extracted as the document in its text is. -/
theorem text_and_value_agree {text : String} {v : Json} {doc : Document}
    (whole : Json.parse text = .ok v) (h : parse text = .ok doc) :
    ofJson v = .ok doc ∧
      ∀ i : CommandLine.Inputs, i.pointer = none →
        i.extractText text = (doc.extract (.ofList i.options)).mapError .failed := by
  have decoded := ofJson_of_parse whole h
  refine ⟨decoded, fun i noPointer => ?_⟩
  simp only [CommandLine.Inputs.extractText, whole, CommandLine.Inputs.selected, noPointer,
    decoded]

set_option maxRecDepth 4000 in
/-- A text with a member that no document has and with a table that repeats a key, once written with
an escape: the second root takes the place of the first, though its descriptor is an array. -/
theorem text_and_value_agree_of_repeated :
    let text := "\x7b\"v\": [], \"roots\": \x7b\"a\": \x7b\"kind\": \"none\"\x7d, " ++
      "\"\\u0061\": [\"literal\", [\"x\"]]\x7d\x7d"
    let v : Json := .obj
      [("v", .arr []), ("roots", .obj [("a", .arr [.str "literal", .arr [.str "x"]])])]
    let doc : Document := ⟨[], [("a", .literal [.str "x"])]⟩
    Json.parse text = .ok v ∧ parse text = .ok doc ∧ ofJson v = .ok doc ∧
      CommandLine.Inputs.extractText ⟨none, [], []⟩ text =
        .ok ⟨[("a", .literal [.str "x"])], ⟨[], [], [], []⟩⟩ := by
  intro text v doc
  have whole : Json.parse text = .ok v := by
    cbv
  have read : parse text = .ok doc := by
    cbv
  obtain ⟨decoded, extracted⟩ := text_and_value_agree whole read
  refine ⟨whole, read, decoded, (extracted ⟨none, [], []⟩ rfl).trans ?_⟩
  cbv

end Document

end TypeCatalog
