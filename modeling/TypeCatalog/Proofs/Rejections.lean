import TypeCatalog.Proofs.Forms

/-!
Rejected documents.

A document is decoded table by table and entry by entry, and it is rejected for the first entry that
is no descriptor (`refusal?_ofJson`).  The rejection names the table and the entry, and it goes on
only to the kind of the entry, if it has one that is none (`tailText_of_ofJson`): wherever else the
fault is, and however deep inside, it is laid to the entry as a whole.
-/

namespace TypeCatalog

/-- Why something is refused, if it is. -/
def refusal? {ε α : Type} : Except ε α → Option ε
  | .error e => some e
  | .ok _ => none

section Refusals

variable {ε α : Type} {x : Except ε α} {e : ε}

theorem refusal?_eq_some_iff : refusal? x = some e ↔ x = .error e := by
  cases x <;> simp [refusal?]

theorem exists_error_iff : (∃ e, x = .error e) ↔ refusal? x ≠ none := by
  cases x <;> simp [refusal?]

variable {σ : Type} {step : σ → α → Except ε σ} {s s' : σ} {a : α} {rest : List α}

theorem refusal?_foldlM_of_error (first : step s a = .error e) :
    refusal? ((a :: rest).foldlM step s) = some e := by
  rw [List.foldlM_cons, first]
  rfl

theorem refusal?_foldlM_of_ok (first : step s a = .ok s') :
    refusal? ((a :: rest).foldlM step s) = refusal? (rest.foldlM step s') := by
  rw [List.foldlM_cons, first]
  rfl

end Refusals

/-! ## Faults of one value -/

/-- Whether a value is the word for a kind. -/
def Json.isKindName : Json → Bool
  | .str word => Kind.all.any fun k => k.name == word
  | _ => false

/-- Where inside a value that is no descriptor the fault is reported: at its kind, if it has one
that is none, or else nowhere inside. -/
def Json.faultSuffix : Json → String
  | .obj members =>
    match Assoc.find? "kind" members with
    | some w => if w.isKindName then "" else ".kind"
    | none => ""
  | .arr (w :: _) => if w.isKindName then "" else "[0]"
  | _ => ""

namespace Json

variable {w : Json} {name : String} {rest : List (String × Json)}

theorem faultSuffix_kind_cons :
    (obj (("kind", w) :: rest)).faultSuffix = if w.isKindName then "" else ".kind" := by
  simp [faultSuffix, Assoc.find?]

theorem faultSuffix_cons_of_ne (other : name ≠ "kind") :
    (obj ((name, w) :: rest)).faultSuffix = (obj rest).faultSuffix := by
  simp [faultSuffix, Assoc.find?, other]

/-- The kinds that are read are the words for kinds. -/
theorem isKindName_iff : w.isKindName = true ↔ ∃ k, Kind.ofJson w = .ok k := by
  cases w with
  | str word =>
    simp only [Kind.ofJson, isKindName, Kind.ofName?, List.any_eq_true]
    cases found : Kind.all.find? fun k => k.name == word with
    | none =>
      have absent := List.find?_eq_none.1 found
      simpa using absent
    | some k =>
      have named := List.find?_some (p := fun k : Kind => k.name == word) found
      exact iff_of_true ⟨k, List.mem_of_find?_eq_some found, named⟩ ⟨k, rfl⟩
  | _ => simp [Kind.ofJson, isKindName]

theorem isKindName_of_ok {k : Kind} (read : Kind.ofJson w = .ok k) : w.isKindName = true :=
  isKindName_iff.2 ⟨k, read⟩

theorem isKindName_of_error {fault : Fault} (refused : Kind.ofJson w = .error fault) :
    w.isKindName = false := by
  rw [Bool.eq_false_iff, Ne, isKindName_iff, refused]
  simp

end Json

namespace Kind

variable {members : List (String × Json)} {k : Kind} {r : Rejection}

/-- A second kind is a fault of the whole object. -/
theorem trail_of_seen (h : Kind.ofMembers Kind.ofJson (some k) members = .error r) :
    r.trail = [] := by
  induction members with
  | nil => cases h
  | cons entry rest ih =>
    obtain ⟨name, v⟩ := entry
    by_cases eq : name = "kind"
    · simp only [Kind.ofMembers, if_pos eq] at h
      cases h
      rfl
    · simp only [Kind.ofMembers, if_neg eq] at h
      exact ih h

/-- A kind that is not read is at fault itself, if there is one. -/
theorem tailText_of_ofMembers_error (h : Kind.ofMembers Kind.ofJson .none members = .error r) :
    r.trail.tailText = (Json.obj members).faultSuffix := by
  induction members with
  | nil =>
    cases h
    rfl
  | cons entry rest ih =>
    obtain ⟨name, v⟩ := entry
    by_cases eq : name = "kind"
    · subst eq
      simp only [Kind.ofMembers, if_true] at h
      rw [Json.faultSuffix_kind_cons]
      cases read : Kind.ofJson v with
      | error fault =>
        rw [read] at h
        cases h
        rw [Json.isKindName_of_error read]
        rfl
      | ok k =>
        rw [read] at h
        rw [trail_of_seen h, Json.isKindName_of_ok read]
        rfl
    · simp only [Kind.ofMembers, if_neg eq] at h
      rw [Json.faultSuffix_cons_of_ne eq]
      exact ih h

/-- No fault is at the kind once it is read. -/
theorem faultSuffix_of_ofMembers_ok (h : Kind.ofMembers Kind.ofJson .none members = .ok k) :
    (Json.obj members).faultSuffix = "" := by
  obtain ⟨w, alone, read⟩ := Kind.ofMembers_iff.1 h
  cases found : Assoc.find? "kind" members with
  | none => simp only [Json.faultSuffix, found]
  | some u =>
    have same : u = w := Assoc.eq_of_under_eq_singleton alone (Assoc.mem_of_find? found)
    simp only [Json.faultSuffix, found, same, Json.isKindName_of_ok read, if_true]

end Kind

/-- **The place of a fault.**  What is no descriptor is rejected as a whole or for its kind. -/
theorem Descriptor.tailText_of_ofJson {v : Json} {r : Rejection} (h : ofJson v = .error r) :
    r.trail.tailText = v.faultSuffix := by
  cases v with
  | obj members =>
    simp only [ofJson] at h
    split at h
    · rename_i refused
      cases h
      exact Kind.tailText_of_ofMembers_error refused
    · rename_i k read
      rw [Kind.faultSuffix_of_ofMembers_ok read]
      split at h
      · cases h
        rfl
      · cases h
  | arr values =>
    rcases values with _ | ⟨w, values⟩
    · cases h
      rfl
    · simp only [ofJson] at h
      simp only [Json.faultSuffix]
      split at h
      · rename_i refused
        cases h
        rw [Json.isKindName_of_error refused]
        rfl
      · rename_i read
        rw [Json.isKindName_of_ok read]
        split at h
        · cases h
          rfl
        · cases h
  | _ =>
    cases h
    rfl

/-! ## Entries of a document -/

namespace Document

/-- What is to be a descriptor, in a table of a document. -/
structure Entry where
  table : String
  name : String
  value : Json

/-- An entry that is no descriptor. -/
def Entry.Faulty (e : Entry) : Prop :=
  ∃ r, Descriptor.ofJson e.value = .error r

/-- The path under which the fault of an entry is reported. -/
def Entry.path (e : Entry) : String :=
  e.table ++ "." ++ e.name ++ e.value.faultSuffix

/-- The entries of a table. -/
def entriesOf (table : String) : Json → List Entry
  | .obj entries => entries.map fun (name, v) => ⟨table, name, v⟩
  | _ => []

/-- The entries of the tables of a document, in the order of its members and of theirs. -/
def entries (members : List (String × Json)) : List Entry :=
  (Assoc.under ["definitions", "roots"] members).flatMap fun (table, v) => entriesOf table v

/-- The tables of a document are tables. -/
def Tabled (members : List (String × Json)) : Prop :=
  ∀ member ∈ Assoc.under ["definitions", "roots"] members, ∃ entries, member.2 = .obj entries

/-- Why a document is rejected for an entry, if it is. -/
def Entry.rejection? (e : Entry) : Option Rejection :=
  (refusal? (Descriptor.ofJson e.value)).map fun r =>
    ⟨.key e.table :: .key e.name :: r.trail, r.fault⟩

variable {members : List (String × Json)} {s : Sections} {e : Entry} {own : Rejection}

theorem Entry.rejection?_eq_none_iff : e.rejection? = none ↔ ¬e.Faulty := by
  rw [Entry.Faulty, exists_error_iff, not_not, Entry.rejection?, Option.map_eq_none_iff]

theorem Entry.rejection?_of_error (refused : Descriptor.ofJson e.value = .error own) :
    e.rejection? = some ⟨.key e.table :: .key e.name :: own.trail, own.fault⟩ := by
  rw [Entry.rejection?, refusal?_eq_some_iff.2 refused, Option.map_some]

/-- The wording of a rejection for an entry. -/
theorem Entry.message (refused : Descriptor.ofJson e.value = .error own) :
    Rejection.message ⟨.key e.table :: .key e.name :: own.trail, own.fault⟩ =
      "at JSON path " ++ e.path ++ " → " ++ own.fault.message := by
  have tail : Json.Trail.tailText (.key e.name :: own.trail) =
      "." ++ e.name ++ e.value.faultSuffix := by
    rw [← Descriptor.tailText_of_ofJson refused]
    rfl
  change "at JSON path " ++ (e.table ++ Json.Trail.tailText (.key e.name :: own.trail)) ++ " → " ++
    own.fault.message = _
  rw [tail, Entry.path]
  simp only [String.append_assoc]

/-- A table is rejected for the first of its entries that is no descriptor. -/
theorem refusal?_inSection (table : String) (listed : List (String × Json)) :
    refusal? (inSection (.key table) (Descriptor.tableOfOuterJson (.obj listed))) =
      (entriesOf table (.obj listed)).findSome? Entry.rejection? := by
  have each : ((refusal? (Descriptor.tableOfOuterEntries listed)).map fun r =>
      (⟨.key table :: r.trail, r.fault⟩ : Rejection)) =
        (entriesOf table (.obj listed)).findSome? Entry.rejection? := by
    induction listed with
    | nil => rfl
    | cons entry rest ih =>
      obtain ⟨name, v⟩ := entry
      rw [entriesOf, List.map_cons, List.findSome?_cons]
      rw [entriesOf] at ih
      rw [← ih, Descriptor.tableOfOuterEntries]
      cases read : Descriptor.ofJson v with
      | error r => rw [Entry.rejection?_of_error (e := ⟨table, name, v⟩) read]; rfl
      | ok d =>
        have fine : Entry.rejection? ⟨table, name, v⟩ = none := by
          rw [Entry.rejection?, read]
          rfl
        rw [fine]
        cases Descriptor.tableOfOuterEntries rest <;> rfl
  rw [← each, Descriptor.tableOfOuterJson]
  cases Descriptor.tableOfOuterEntries listed <;> rfl

theorem entries_cons_of_mem {table : String} (wanted : table ∈ ["definitions", "roots"])
    (v : Json) : entries ((table, v) :: members) = entriesOf table v ++ entries members := by
  rw [entries, Assoc.under_cons_of_mem wanted, List.flatMap_cons]
  rfl

theorem entries_cons_of_not_mem {table : String} (other : table ∉ ["definitions", "roots"])
    (v : Json) : entries ((table, v) :: members) = entries members := by
  rw [entries, Assoc.under_cons_of_not_mem other]
  rfl

/-- A table that is not read yet is read. -/
theorem Sections.take_of_free {table : String} (wanted : table ∈ ["definitions", "roots"])
    (free : ¬s.Given table) (v : Json) :
    ∃ f, s.take (table, v) =
      (inSection (.key table) (Descriptor.tableOfOuterJson v)).map f := by
  obtain ⟨definitions, roots⟩ := s
  rcases List.mem_pair.1 wanted with rfl | rfl
  · cases definitions with
    | none => exact ⟨_, rfl⟩
    | some table => exact absurd (.inl ⟨rfl, rfl⟩) free
  · cases roots with
    | none => exact ⟨_, rfl⟩
    | some table => exact absurd (.inr ⟨rfl, rfl⟩) free

/-- No other table is read. -/
theorem Sections.Given.of_take {s' : Sections} {table name : String} {v : Json}
    (taken : s.take (table, v) = .ok s') (given : s'.Given name) : s.Given name ∨ name = table := by
  by_cases wanted : table ∈ ["definitions", "roots"]
  · rcases List.mem_pair.1 wanted with rfl | rfl
    · obtain ⟨-, read, -, rfl⟩ := take_definitions_iff.1 taken
      exact given.elim (fun own => .inr own.1) fun roots => .inl (.inr roots)
    · obtain ⟨-, read, -, rfl⟩ := take_roots_iff.1 taken
      exact given.elim (fun definitions => .inl (.inl definitions)) fun own => .inr own.1
  · rw [take_other wanted] at taken
    cases taken
    exact .inl given

/-- The members are rejected for the first of their entries that is no descriptor. -/
theorem refusal?_foldlM_take (tabled : Tabled members) (distinct : Assoc.Distinct members)
    (free : ∀ name ∈ Assoc.keys members, ¬s.Given name) :
    refusal? (members.foldlM Sections.take s) = (entries members).findSome? Entry.rejection? := by
  induction members generalizing s with
  | nil => rfl
  | cons member rest ih =>
    obtain ⟨table, v⟩ := member
    obtain ⟨absent, distinctRest⟩ := List.nodup_cons.1 distinct
    obtain ⟨freeTable, freeRest⟩ := List.forall_mem_cons.1 free
    by_cases wanted : table ∈ ["definitions", "roots"]
    · rw [Tabled, Assoc.under_cons_of_mem wanted] at tabled
      obtain ⟨⟨listed, eq⟩, tabledRest⟩ := List.forall_mem_cons.1 tabled
      dsimp only at eq
      subst eq
      rw [entries_cons_of_mem wanted, List.findSome?_append, ← refusal?_inSection]
      obtain ⟨f, take⟩ := Sections.take_of_free wanted freeTable (.obj listed)
      cases read : inSection (.key table) (Descriptor.tableOfOuterJson (.obj listed)) with
      | error r =>
        rw [read] at take
        exact refusal?_foldlM_of_error take
      | ok entries =>
        rw [read] at take
        rw [refusal?_foldlM_of_ok take]
        refine ih tabledRest distinctRest fun name mem given => ?_
        rcases given.of_take take with before | rfl
        · exact freeRest name mem before
        · exact absent mem
    · rw [Tabled, Assoc.under_cons_of_not_mem wanted] at tabled
      rw [entries_cons_of_not_mem wanted, refusal?_foldlM_of_ok (Sections.take_other wanted)]
      exact ih tabled distinctRest freeRest

/-- An object is rejected for the first of its entries that is no descriptor. -/
theorem refusal?_ofJson (tabled : Tabled members) (distinct : Assoc.Distinct members) :
    refusal? (ofJson (.obj members)) = (entries members).findSome? Entry.rejection? := by
  have free : ∀ name ∈ Assoc.keys members, ¬Sections.none.Given name := by
    rintro name - (⟨-, given⟩ | ⟨-, given⟩) <;> cases given
  rw [← refusal?_foldlM_take tabled distinct free, ofJson, sectionsOfMembers_eq]
  cases members.foldlM Sections.take Sections.none <;> rfl

/-- **Rejections name the entry at fault.**  An object with every key once, whose tables are tables,
is rejected just in case one of its entries is no descriptor.  The rejection is for the first entry
that is none, with the fault that the entry has by itself, under the path of the entry. -/
theorem rejected_for_first_faulty_entry (distinct : Assoc.Distinct members)
    (tabled : Tabled members) :
    ((∃ r, ofJson (.obj members) = .error r) ↔ ∃ e ∈ entries members, e.Faulty) ∧
      ∀ before e after own, entries members = before ++ e :: after →
        (∀ b ∈ before, ¬b.Faulty) → Descriptor.ofJson e.value = .error own →
          ∃ r, ofJson (.obj members) = .error r ∧ r.fault = own.fault ∧
            r.message = "at JSON path " ++ e.path ++ " → " ++ own.fault.message := by
  have decided := refusal?_ofJson tabled distinct
  constructor
  · rw [exists_error_iff, decided, Ne, List.findSome?_eq_none_iff]
    simp only [Entry.rejection?_eq_none_iff]
    push Not
    rfl
  · intro before e after own split fine refused
    have passed : before.findSome? Entry.rejection? = none :=
      List.findSome?_eq_none_iff.2 fun b mem => Entry.rejection?_eq_none_iff.2 (fine b mem)
    rw [split, List.findSome?_append, passed, Option.none_or, List.findSome?_cons,
      Entry.rejection?_of_error refused] at decided
    exact ⟨_, refusal?_eq_some_iff.1 decided, rfl, Entry.message refused⟩

/-- One document with a root that is fine, one that is at fault deep inside and a definition whose
kind is none: the fault deep inside is the first and is laid to the whole root.  With the sound root
alone the definition is at fault, for its kind. -/
theorem rejected_for_first_faulty_entry_of_three :
    let sound : String × Json := ("a", .obj [("kind", .str "any")])
    let deep : String × Json :=
      ("b", .arr [.str "union", .arr [.obj [("kind", .str "builtin")]]])
    let odd : String × Json := ("D", .obj [("name", .str "D"), ("kind", .null)])
    let members (roots : List (String × Json)) : List (String × Json) :=
      [("note", .null), ("roots", .obj roots), ("definitions", .obj [odd])]
    (∃ r, ofJson (.obj (members [sound, deep])) = .error r ∧
      r.message = "at JSON path roots.b → missing field `name`") ∧
    ∃ r, ofJson (.obj (members [sound])) = .error r ∧
      r.message = "at JSON path definitions.D.kind → invalid type: null, " ++
        "expected variant identifier" := by
  intro sound deep odd members
  have tabled (roots : List (String × Json)) : Tabled (members roots) := by
    rintro ⟨table, v⟩ mem
    obtain ⟨-, rfl⟩ | ⟨-, rfl⟩ : (table = "roots" ∧ v = .obj roots) ∨
        (table = "definitions" ∧ v = .obj [odd]) := by
      simpa [members, Assoc.under] using mem
    · exact ⟨_, rfl⟩
    · exact ⟨_, rfl⟩
  have distinct (roots : List (String × Json)) : Assoc.Distinct (members roots) := by
    simp [members, Assoc.Distinct, Assoc.keys]
  have soundRoot : ¬Entry.Faulty ⟨"roots", sound.1, sound.2⟩ := by
    rintro ⟨r, refused⟩
    cases refused
  constructor
  · obtain ⟨-, first⟩ := rejected_for_first_faulty_entry (distinct [sound, deep]) (tabled _)
    obtain ⟨r, refused, -, message⟩ := first [⟨"roots", sound.1, sound.2⟩]
      ⟨"roots", deep.1, deep.2⟩ [⟨"definitions", odd.1, odd.2⟩]
      ⟨[], .missingField "name"⟩ rfl (by simpa using soundRoot) rfl
    exact ⟨r, refused, message⟩
  · obtain ⟨-, first⟩ := rejected_for_first_faulty_entry (distinct [sound]) (tabled _)
    obtain ⟨r, refused, -, message⟩ := first [⟨"roots", sound.1, sound.2⟩]
      ⟨"definitions", odd.1, odd.2⟩ [] ⟨[.key "kind"], .wrongType .null .kind⟩
      rfl (by simpa using soundRoot) rfl
    exact ⟨r, refused, message⟩

end Document

end TypeCatalog
