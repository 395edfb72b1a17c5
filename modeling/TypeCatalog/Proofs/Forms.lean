import TypeCatalog.Proofs.Members

/-!
The forms of a descriptor.

A descriptor is an object with its kind and its fields under their names, or an array with its kind
first and its fields behind it.  `Descriptor.Form` says so without telling how they are read: of an
object it only matters what is under the kind and under each field (`Field.GivenBy`), so neither the
order of its members does nor any other member.  What a value is decoded as are the descriptors that
it is a form of, inside another descriptor (`ofNestedJson_eq_ok_iff`) and by itself
(`ofJson_eq_ok_iff`).
-/

namespace TypeCatalog

open Assoc (under under_cons_of_mem under_cons_of_not_mem)

theorem ok_pair_iff {ε α β : Type} {a a' : α} {b b' : β} :
    (Except.ok (a, b) : Except ε (α × β)) = .ok (a', b') ↔ a = a' ∧ b = b' := by
  rw [Except.ok.injEq, Prod.mk.injEq]

/-! ## What is under one name -/

namespace Assoc

variable {α : Type} {name other : String} {v w : α} {before after table table' : List (String × α)}

/-- What is under some names is found part by part. -/
theorem under_append (names : List String) (table table' : List (String × α)) :
    under names (table ++ table') = under names table ++ under names table' :=
  List.filter_append ..

/-- A member of another name may stand anywhere. -/
theorem under_insert_of_ne (ne : other ≠ name) :
    under [name] (before ++ (other, v) :: after) = under [name] (before ++ after) := by
  rw [under_append, under_append, under_cons_of_not_mem (mt List.mem_singleton.1 ne)]

/-- A member is by itself under its name just in case no other member has the name. -/
theorem under_insert_eq_singleton_iff :
    under [name] (before ++ (name, v) :: after) = [(name, w)] ↔
      v = w ∧ under [name] (before ++ after) = [] := by
  rw [under_append, under_append, under_cons_of_mem (List.mem_singleton.2 rfl),
    List.append_eq_singleton_iff, List.append_eq_nil_iff]
  simp [and_left_comm]

/-- A name with one member has no other. -/
theorem eq_of_under_eq_singleton (alone : under [name] table = [(name, w)])
    (mem : (name, v) ∈ table) : v = w := by
  have listed : (name, v) ∈ under [name] table :=
    List.mem_filter.2 ⟨mem, decide_eq_true (List.mem_singleton.2 rfl)⟩
  rw [alone] at listed
  exact (Prod.mk.inj (List.mem_singleton.1 listed)).2

/-- The only member of a name is so in any order of the members. -/
theorem under_eq_singleton_of_perm (perm : table.Perm table') {names : List String}
    {entry : String × α} (alone : under names table = [entry]) :
    under names table' = [entry] := by
  have listed : (under names table').Perm (under names table) := perm.symm.filter _
  rw [alone] at listed
  exact List.perm_singleton.1 listed

theorem not_mem_of_under_eq_nil (none : under [name] table = []) : (name, v) ∉ table := by
  intro mem
  have listed : (name, v) ∈ under [name] table :=
    List.mem_filter.2 ⟨mem, decide_eq_true (List.mem_singleton.2 rfl)⟩
  rw [none] at listed
  cases listed

theorem under_eq_nil_of_not_mem_keys (absent : name ∉ keys table) : under [name] table = [] := by
  refine List.filter_eq_nil_iff.2 fun entry mem listed => absent ?_
  rw [← List.mem_singleton.1 (of_decide_eq_true listed)]
  exact List.mem_map_of_mem mem

end Assoc

/-- A step takes what is under one name, and that only once. -/
structure TakesOne {ε α : Type} (step : Option α → String × Json → Except ε (Option α))
    (name : String) (reads : Json → α → Prop) : Prop where
  own {s s' v} : step s (name, v) = .ok s' ↔ s = none ∧ ∃ x, reads v x ∧ s' = some x
  other {s n} (v : Json) : n ≠ name → step s (n, v) = .ok s

namespace TakesOne

variable {ε α : Type} {step : Option α → String × Json → Except ε (Option α)} {name : String}
  {reads : Json → α → Prop} {members : List (String × Json)} {s s' : Option α}

/-- A member of another name may be left out. -/
theorem passed (takes : TakesOne step name reads) {n : String} (other : n ≠ name) (v : Json)
    (rest : List (String × Json)) :
    ((n, v) :: rest).foldlM step s = .ok s' ↔ rest.foldlM step s = .ok s' := by
  rw [foldlM_cons_eq_ok_iff, takes.other v other]
  constructor
  · rintro ⟨_, same, later⟩
    cases same
    exact later
  · exact fun later => ⟨s, rfl, later⟩

/-- Once something is taken, nothing else may be under the name. -/
theorem foldlM_some (takes : TakesOne step name reads) {x : α} :
    members.foldlM step (some x) = .ok s' ↔ under [name] members = [] ∧ s' = some x := by
  induction members with
  | nil =>
    constructor
    · intro h
      cases h
      exact ⟨rfl, rfl⟩
    · rintro ⟨-, rfl⟩
      rfl
  | cons entry rest ih =>
    obtain ⟨n, v⟩ := entry
    by_cases eq : n = name
    · subst eq
      rw [foldlM_cons_eq_ok_iff, under_cons_of_mem (List.mem_singleton.2 rfl)]
      constructor
      · rintro ⟨t, taken, -⟩
        cases (takes.own.1 taken).1
      · rintro ⟨none, -⟩
        cases none
    · rw [takes.passed eq, under_cons_of_not_mem (mt List.mem_singleton.1 eq), ih]

/-- What is taken is under the name by itself, and nothing is taken if nothing is there. -/
theorem foldlM_none (takes : TakesOne step name reads) :
    members.foldlM step none = .ok s' ↔
      (∃ v x, under [name] members = [(name, v)] ∧ reads v x ∧ s' = some x) ∨
        (under [name] members = [] ∧ s' = none) := by
  induction members with
  | nil =>
    constructor
    · intro h
      cases h
      exact .inr ⟨rfl, rfl⟩
    · rintro (⟨v, x, listed, -⟩ | ⟨-, rfl⟩)
      · cases listed
      · rfl
  | cons entry rest ih =>
    obtain ⟨n, v⟩ := entry
    by_cases eq : n = name
    · subst eq
      rw [foldlM_cons_eq_ok_iff, under_cons_of_mem (List.mem_singleton.2 rfl)]
      constructor
      · rintro ⟨t, taken, later⟩
        obtain ⟨-, x, read, rfl⟩ := takes.own.1 taken
        obtain ⟨alone, rfl⟩ := takes.foldlM_some.1 later
        exact .inl ⟨v, x, by rw [alone], read, rfl⟩
      · rintro (⟨w, x, listed, read, rfl⟩ | ⟨none, -⟩)
        · obtain ⟨first, alone⟩ := List.cons.inj listed
          cases first
          exact ⟨some x, takes.own.2 ⟨rfl, x, read, rfl⟩, takes.foldlM_some.2 ⟨alone, rfl⟩⟩
        · cases none
    · rw [takes.passed eq, under_cons_of_not_mem (mt List.mem_singleton.1 eq), ih]

end TakesOne

/-! ## Kinds -/

/-- The kind of an object is told by one member. -/
theorem Kind.takesOne (read : Json → Except Fault Kind) :
    TakesOne (Kind.take read) "kind" fun v k => read v = .ok k where
  own := Kind.take_eq_ok_iff
  other _ other := if_neg other

/-- The kind of an object is what is under its name by itself. -/
theorem Kind.ofMembers_iff {read : Json → Except Fault Kind} {members : List (String × Json)}
    {k : Kind} :
    Kind.ofMembers read .none members = .ok k ↔
      ∃ v, under ["kind"] members = [("kind", v)] ∧ read v = .ok k := by
  rw [Kind.ofMembers_eq_ok_iff, (Kind.takesOne read).foldlM_none]
  constructor
  · rintro (⟨v, k', alone, taken, same⟩ | ⟨-, absent⟩)
    · cases same
      exact ⟨v, alone, taken⟩
    · cases absent
  · rintro ⟨v, alone, taken⟩
    exact .inl ⟨v, k, alone, taken, rfl⟩

/-! ## Fields -/

/-- What some members say of a field: what the only member of its name is read as or, when there is
none, the value that it takes when it is left out. -/
def Field.GivenBy (f : Field) (members : List (String × Json)) (x : f.type.Value) : Prop :=
  (∃ v, under [f.name] members = [(f.name, v)] ∧ f.type.ofJson v = .ok x) ∨
    (under [f.name] members = [] ∧ f.default? = some x)

/-- The record that some members give field by field. -/
def Record.GivenBy : (fs : List Field) → Record fs → List (String × Json) → Prop
  | [], _, _ => True
  | f :: fs, (x, rest), members => f.GivenBy members x ∧ Record.GivenBy fs rest members

/-- The record that some values give in the order of the fields; those that are left out at the end
take their defaults. -/
def Record.ListedBy : (fs : List Field) → Record fs → List Json → Prop
  | [], _, values => values = []
  | f :: fs, (x, rest), [] => f.default? = some x ∧ Record.ListedBy fs rest []
  | f :: fs, (x, rest), v :: values => f.type.ofJson v = .ok x ∧ Record.ListedBy fs rest values

namespace Draft

variable {f : Field} {fs : List Field} {members : List (String × Json)}

/-- Take the value of one field. -/
def takeField (f : Field) (value : Option f.type.Value) (entry : String × Json) :
    Except Fault (Option f.type.Value) :=
  if entry.1 = f.name then
    match value with
    | some _ => .error (.duplicateField f.name)
    | none => (f.type.ofJson entry.2).map some
  else .ok value

/-- A field is given by one member. -/
theorem takeField_takesOne (f : Field) :
    TakesOne (takeField f) f.name fun v x => f.type.ofJson v = .ok x where
  own {s s' v} := by
    cases s with
    | some x => simp [takeField]
    | none => cases read : f.type.ofJson v <;> simp [takeField, read, Except.map, eq_comm]
  other _ other := if_neg other

/-- Fields of different names are taken apart from each other. -/
theorem take_cons_eq_ok_iff (fresh : f.name ∉ fs.map Field.name)
    {value value' : Option f.type.Value} {rest rest' : Draft fs} {entry : String × Json} :
    take (f :: fs) (value, rest) entry = .ok (value', rest') ↔
      takeField f value entry = .ok value' ∧ take fs rest entry = .ok rest' := by
  obtain ⟨name, v⟩ := entry
  refine put_cons_eq_ok_iff.trans ?_
  by_cases eq : name = f.name
  · subst eq
    have passed : take fs rest (f.name, v) = .ok rest := put_of_not_mem fresh rest
    rw [(takeField_takesOne f).own, passed]
    constructor
    · rintro (⟨-, free, x, read, same⟩ | ⟨ne, -⟩)
      · cases same
        exact ⟨⟨free, x, read, rfl⟩, rfl⟩
      · exact absurd rfl ne
    · rintro ⟨⟨free, x, read, rfl⟩, same⟩
      cases same
      exact .inl ⟨rfl, free, x, read, rfl⟩
  · rw [(takeField_takesOne f).other v eq]
    constructor
    · rintro (⟨same, -⟩ | ⟨-, later, taken, same⟩)
      · exact absurd same.symm eq
      · cases same
        exact ⟨rfl, taken⟩
    · rintro ⟨same, taken⟩
      cases same
      exact .inr ⟨Ne.symm eq, rest', taken, rfl⟩

/-- Fields of different names are taken independently of each other. -/
theorem foldlM_take_cons (fresh : f.name ∉ fs.map Field.name)
    {value value' : Option f.type.Value} {rest rest' : Draft fs} :
    members.foldlM (take (f :: fs)) (value, rest) = .ok (value', rest') ↔
      members.foldlM (takeField f) value = .ok value' ∧
        members.foldlM (take fs) rest = .ok rest' := by
  induction members generalizing value rest with
  | nil =>
    exact ok_pair_iff.trans (and_congr (Except.ok.injEq ..).to_iff.symm
      (Except.ok.injEq ..).to_iff.symm)
  | cons entry others ih =>
    refine foldlM_cons_eq_ok_iff.trans ?_
    rw [foldlM_cons_eq_ok_iff, foldlM_cons_eq_ok_iff]
    constructor
    · rintro ⟨⟨t, u⟩, taken, later⟩
      obtain ⟨first, second⟩ := (take_cons_eq_ok_iff fresh).1 taken
      obtain ⟨firsts, seconds⟩ := ih.1 later
      exact ⟨⟨t, first, firsts⟩, ⟨u, second, seconds⟩⟩
    · rintro ⟨⟨t, first, firsts⟩, ⟨u, second, seconds⟩⟩
      exact ⟨(t, u), (take_cons_eq_ok_iff fresh).2 ⟨first, second⟩, ih.2 ⟨firsts, seconds⟩⟩

/-- A field is what was given, or else its default. -/
theorem finish_cons_eq_ok_iff {value : Option f.type.Value} {rest : Draft fs} {x : f.type.Value}
    {record : Record fs} :
    finish (f :: fs) (value, rest) = .ok (x, record) ↔
      (value.orElse fun _ => f.default?) = some x ∧ rest.finish = .ok record := by
  simp only [finish]
  cases value.orElse fun _ => f.default? with
  | none => simp
  | some y =>
    cases rest.finish with
    | error fault => simp
    | ok others =>
      rw [Option.some.injEq, Except.ok.injEq]
      exact ok_pair_iff

/-- Members fill in a record just in case they give it field by field. -/
theorem exists_filled_iff (distinct : (fs.map Field.name).Nodup) {record : Record fs} :
    (∃ draft, members.foldlM (take fs) (blank fs) = .ok draft ∧ draft.finish = .ok record) ↔
      Record.GivenBy fs record members := by
  induction fs with
  | nil =>
    have filled : ∀ draft : Draft [], members.foldlM (take []) draft = .ok draft := by
      induction members with
      | nil => exact fun draft => rfl
      | cons entry others ih => exact fun draft => foldlM_cons_eq_ok_iff.2 ⟨draft, rfl, ih draft⟩
    exact iff_of_true ⟨(), filled (), rfl⟩ trivial
  | cons f fs ih =>
    obtain ⟨x, rest⟩ := record
    rw [List.map_cons, List.nodup_cons] at distinct
    have takes := takeField_takesOne f
    constructor
    · rintro ⟨⟨value, later⟩, filled, finished⟩
      obtain ⟨own, others⟩ := (foldlM_take_cons distinct.1).1 filled
      obtain ⟨taken, completed⟩ := finish_cons_eq_ok_iff.1 finished
      refine ⟨?_, (ih distinct.2).1 ⟨later, others, completed⟩⟩
      rcases takes.foldlM_none.1 own with ⟨v, y, alone, read, rfl⟩ | ⟨absent, rfl⟩
      · cases taken
        exact .inl ⟨v, alone, read⟩
      · exact .inr ⟨absent, taken⟩
    · rintro ⟨own, others⟩
      obtain ⟨later, filled, finished⟩ := (ih distinct.2).2 others
      rcases own with ⟨v, alone, read⟩ | ⟨absent, left⟩
      · have taken := takes.foldlM_none.2 (.inl ⟨v, x, alone, read, rfl⟩)
        exact ⟨(some x, later), (foldlM_take_cons distinct.1).2 ⟨taken, filled⟩,
          finish_cons_eq_ok_iff.2 ⟨rfl, finished⟩⟩
      · have passed := takes.foldlM_none.2 (.inr ⟨absent, rfl⟩)
        exact ⟨(none, later), (foldlM_take_cons distinct.1).2 ⟨passed, filled⟩,
          finish_cons_eq_ok_iff.2 ⟨left, finished⟩⟩

end Draft

/-- Where no values are listed, every field has its default. -/
theorem Record.ofDefaults_eq_ok_iff {kind : Kind} {given : Nat} {fs : List Field}
    {record : Record fs} :
    Record.ofDefaults kind given fs = .ok record ↔ Record.ListedBy fs record [] := by
  induction fs generalizing given with
  | nil => exact iff_of_true rfl rfl
  | cons f fs ih =>
    obtain ⟨x, rest⟩ := record
    rw [Record.ofDefaults, Record.ListedBy, ← ih]
    cases f.default? with
    | none => simp
    | some y =>
      cases Record.ofDefaults kind (given + 1) fs with
      | error fault => simp
      | ok others =>
        rw [Option.some.injEq, Except.ok.injEq]
        exact ok_pair_iff

namespace Descriptor

/-- A record is read off an array just in case the array lists it. -/
theorem recordOfValues_eq_ok_iff {kind : Kind} {given : Nat} {fs : List Field}
    {values : List Json} {record : Record fs} :
    recordOfValues kind given fs values = .ok record ↔ Record.ListedBy fs record values := by
  induction values generalizing given fs with
  | nil =>
    simp only [recordOfValues]
    exact Record.ofDefaults_eq_ok_iff
  | cons v rest ih =>
    cases fs with
    | nil => simp [recordOfValues, Record.ListedBy]
    | cons f fs =>
      obtain ⟨x, others⟩ := record
      rw [recordOfValues, ← FieldType.ofJson, Record.ListedBy, ← ih]
      cases f.type.ofJson v with
      | error fault => simp
      | ok y =>
        cases recordOfValues kind (given + 1) fs rest with
        | error fault => simp
        | ok later =>
          rw [Except.ok.injEq, Except.ok.injEq]
          exact ok_pair_iff

/-! ## Forms -/

/-- A value is a form of a descriptor whose kind is read by `kindOf`: an object in which the kind is
under its name and that gives the record of the descriptor, or an array of the kind and the
record. -/
inductive Form (kindOf : Json → Except Fault Kind) : Json → Descriptor → Prop
  | object {members : List (String × Json)} {w : Json} {k : Kind} {record : Record k.fields} :
    under ["kind"] members = [("kind", w)] → kindOf w = .ok k →
      Record.GivenBy k.fields record members → Form kindOf (.obj members) (k.build record)
  | array {w : Json} {values : List Json} {k : Kind} {record : Record k.fields} :
    kindOf w = .ok k → Record.ListedBy k.fields record values →
      Form kindOf (.arr (w :: values)) (k.build record)

/-- A descriptor is read off an object just in case the members give its fields. -/
theorem ofMembers_eq_ok_iff {k : Kind} {members : List (String × Json)} {d : Descriptor} :
    ofMembers k members = .ok d ↔
      ∃ record, Record.GivenBy k.fields record members ∧ d = k.build record := by
  have filled : ∀ record, _ ↔ Record.GivenBy k.fields record members := fun record =>
    Draft.exists_filled_iff (List.nodup_cons.1 k.distinct_fields).2
  unfold ofMembers
  rw [draftOfMembers_eq]
  constructor
  · intro h
    split at h
    · cases h
    · rename_i draft taken
      split at h
      · cases h
      · rename_i record finished
        cases h
        exact ⟨record, (filled record).1 ⟨draft, taken, finished⟩, rfl⟩
  · rintro ⟨record, given, rfl⟩
    obtain ⟨draft, taken, finished⟩ := (filled record).2 given
    rw [taken]
    simp only [finished]

/-- A descriptor is read off an array just in case the elements list its fields. -/
theorem ofValues_eq_ok_iff {k : Kind} {values : List Json} {d : Descriptor} :
    ofValues k values = .ok d ↔
      ∃ record, Record.ListedBy k.fields record values ∧ d = k.build record := by
  unfold ofValues
  constructor
  · intro h
    split at h
    · cases h
    · rename_i record taken
      cases h
      exact ⟨record, recordOfValues_eq_ok_iff.1 taken, rfl⟩
  · rintro ⟨record, listed, rfl⟩
    rw [recordOfValues_eq_ok_iff.2 listed]

/-- Decoding by way of the kind accepts the forms of descriptors and nothing else. -/
theorem form_iff {kindOf : Json → Except Fault Kind} {v : Json} {d : Descriptor} :
    Form kindOf v d ↔
      (∃ members k, v = .obj members ∧ Kind.ofMembers kindOf .none members = .ok k ∧
        ofMembers k members = .ok d) ∨
      ∃ w values k, v = .arr (w :: values) ∧ kindOf w = .ok k ∧ ofValues k values = .ok d := by
  constructor
  · rintro (⟨alone, read, given⟩ | ⟨read, listed⟩)
    · exact .inl ⟨_, _, rfl, Kind.ofMembers_iff.2 ⟨_, alone, read⟩,
        ofMembers_eq_ok_iff.2 ⟨_, given, rfl⟩⟩
    · exact .inr ⟨_, _, _, rfl, read, ofValues_eq_ok_iff.2 ⟨_, listed, rfl⟩⟩
  · rintro (⟨members, k, rfl, taken, built⟩ | ⟨w, values, k, rfl, read, built⟩)
    · obtain ⟨w, alone, read⟩ := Kind.ofMembers_iff.1 taken
      obtain ⟨record, given, rfl⟩ := ofMembers_eq_ok_iff.1 built
      exact .object alone read given
    · obtain ⟨record, listed, rfl⟩ := ofValues_eq_ok_iff.1 built
      exact .array read listed

/-- A value inside a descriptor is decoded as the descriptors that it is a form of. -/
theorem ofNestedJson_eq_ok_iff {v : Json} {d : Descriptor} :
    ofNestedJson v = .ok d ↔ Form Kind.ofNestedJson v d := by
  rw [form_iff]
  constructor
  · intro h
    cases v with
    | obj members =>
      simp only [ofNestedJson] at h
      split at h
      · cases h
      · rename_i k taken
        exact .inl ⟨members, k, rfl, taken, h⟩
    | arr values =>
      cases values with
      | nil => cases h
      | cons w values =>
        simp only [ofNestedJson] at h
        split at h
        · cases h
        · rename_i k read
          exact .inr ⟨w, values, k, rfl, read, h⟩
    | _ => cases h
  · rintro (⟨members, k, rfl, taken, built⟩ | ⟨w, values, k, rfl, read, built⟩)
    · simp only [ofNestedJson, taken]
      exact built
    · simp only [ofNestedJson, read]
      exact built

/-- An outermost value is decoded as the descriptors that it is a form of. -/
theorem ofJson_eq_ok_iff {v : Json} {d : Descriptor} :
    ofJson v = .ok d ↔ Form Kind.ofJson v d := by
  rw [form_iff]
  constructor
  · intro h
    cases v with
    | obj members =>
      simp only [ofJson] at h
      split at h
      · cases h
      · rename_i k taken
        split at h
        · cases h
        · rename_i built
          cases h
          exact .inl ⟨members, k, rfl, taken, built⟩
    | arr values =>
      cases values with
      | nil => cases h
      | cons w values =>
        simp only [ofJson] at h
        split at h
        · cases h
        · rename_i k read
          split at h
          · cases h
          · rename_i built
            cases h
            exact .inr ⟨w, values, k, rfl, read, built⟩
    | _ => cases h
  · rintro (⟨members, k, rfl, taken, built⟩ | ⟨w, values, k, rfl, read, built⟩)
    · simp only [ofJson, taken, built]
    · simp only [ofJson, read, built]

end Descriptor

end TypeCatalog
