import TypeCatalog.Document
import TypeCatalog.Proofs.RoundTrip

/-!
Members that are taken one by one.

The kind of a descriptor, its fields and the sections of a document are gathered from the members of
an object in the same way: a member under a name that is wanted is taken once, a second one is
refused, and any other member is passed over (`Once`).  So the members that were wanted all had
names of their own, and it makes no difference whether the members are read as they were written or
as a map of them (`Once.foldlM_ofPairs`).
-/

namespace TypeCatalog

/-! ## Steps that may fail -/

section Steps

variable {ε σ α : Type} {step : σ → α → Except ε σ} {s s' : σ} {x : α} {rest : List α}

/-- Steps over a list succeed if the first does and the others do from where it leads. -/
theorem foldlM_cons_eq_ok_iff :
    (x :: rest).foldlM step s = .ok s' ↔
      ∃ t, step s x = .ok t ∧ rest.foldlM step t = .ok s' := by
  rw [List.foldlM_cons]
  cases step s x with
  | error e =>
    constructor
    · intro h
      cases h
    · rintro ⟨_, h, -⟩
      cases h
  | ok t =>
    constructor
    · exact fun h => ⟨t, rfl, h⟩
    · rintro ⟨_, h, later⟩
      cases h
      exact later

/-- One more step at the end. -/
theorem foldlM_concat {t : σ} (h : rest.foldlM step s = .ok t) (last : step t x = .ok s') :
    (rest ++ [x]).foldlM step s = .ok s' := by
  rw [List.foldlM_append, h]
  exact foldlM_cons_eq_ok_iff.2 ⟨s', last, rfl⟩

end Steps

/-! ## Maps of members -/

namespace Assoc

variable {α : Type} {names : List String}

/-- The entries under some names. -/
def under (names : List String) (table : List (String × α)) : List (String × α) :=
  table.filter fun entry => decide (entry.1 ∈ names)

theorem under_cons_of_mem {name : String} (h : name ∈ names) (v : α)
    (rest : List (String × α)) : under names ((name, v) :: rest) = (name, v) :: under names rest :=
  List.filter_cons_of_pos (decide_eq_true h)

theorem under_cons_of_not_mem {name : String} (h : name ∉ names) (v : α)
    (rest : List (String × α)) : under names ((name, v) :: rest) = under names rest :=
  List.filter_cons_of_neg (by simpa using h)

/-- A member that is looked at may be written before or after the others are left out. -/
theorem under_put_of_mem {name : String} (h : name ∈ names) (v : α) (table : List (String × α)) :
    under names (put name v table) = put name v (under names table) := by
  induction table with
  | nil => exact under_cons_of_mem h v []
  | cons entry rest ih =>
    obtain ⟨k, w⟩ := entry
    by_cases eq : k = name
    · subst eq
      simp only [put, if_pos, under_cons_of_mem h]
    · by_cases mem : k ∈ names
      · simp only [put, if_neg eq, under_cons_of_mem mem, ih]
      · simp only [put, if_neg eq, under_cons_of_not_mem mem, ih]

/-- A member that is not looked at may be written without being noticed. -/
theorem under_put_of_not_mem {name : String} (h : name ∉ names) (v : α)
    (table : List (String × α)) : under names (put name v table) = under names table := by
  induction table with
  | nil => exact under_cons_of_not_mem h v []
  | cons entry rest ih =>
    obtain ⟨k, w⟩ := entry
    by_cases eq : k = name
    · subst eq
      simp only [put, if_pos, under_cons_of_not_mem h]
    · by_cases mem : k ∈ names
      · simp only [put, if_neg eq, under_cons_of_mem mem, ih]
      · simp only [put, if_neg eq, under_cons_of_not_mem mem, ih]

/-- Entries may be left out before they are written or after. -/
theorem under_ofPairs (names : List String) (pairs : List (String × α)) :
    under names (ofPairs pairs) = ofPairs (under names pairs) := by
  suffices ∀ table, under names (putAll table pairs) =
      putAll (under names table) (under names pairs) from this []
  induction pairs with
  | nil => exact fun table => rfl
  | cons entry rest ih =>
    intro table
    obtain ⟨k, v⟩ := entry
    by_cases mem : k ∈ names
    · rw [under_cons_of_mem mem, putAll, putAll, ih, under_put_of_mem mem]
    · rw [under_cons_of_not_mem mem, putAll, ih, under_put_of_not_mem mem]

end Assoc

/-! ## Names that are taken once -/

open Assoc (under under_cons_of_mem under_cons_of_not_mem)

/-- A step takes what is under some names, each of them once, and passes over the rest; `given` are
the names that have been taken. -/
structure Once {ε σ α : Type} (step : σ → String × α → Except ε σ) (names : List String)
    (given : σ → String → Prop) : Prop where
  other {s name} (v : α) : name ∉ names → step s (name, v) = .ok s
  fresh {s s' name v} : name ∈ names → step s (name, v) = .ok s' → ¬given s name
  taken {s s' name v} : name ∈ names → step s (name, v) = .ok s' → given s' name
  kept {s s' name v n} : step s (name, v) = .ok s' → given s n → given s' n

namespace Once

variable {ε σ α : Type} {step : σ → String × α → Except ε σ} {names : List String}
  {given : σ → String → Prop} {s s' : σ} {members : List (String × α)}

/-- Only what is under the names matters. -/
theorem foldlM_under (once : Once step names given) (members : List (String × α)) (s : σ) :
    (under names members).foldlM step s = members.foldlM step s := by
  induction members generalizing s with
  | nil => rfl
  | cons entry rest ih =>
    obtain ⟨name, v⟩ := entry
    by_cases mem : name ∈ names
    · rw [under_cons_of_mem mem, List.foldlM_cons, List.foldlM_cons]
      exact bind_congr ih
    · rw [under_cons_of_not_mem mem, List.foldlM_cons, once.other v mem, ih]
      rfl

/-- Members that are taken have names of their own, which were not taken before. -/
theorem distinct_under (once : Once step names given) (h : members.foldlM step s = .ok s') :
    Assoc.Distinct (under names members) ∧ ∀ n ∈ Assoc.keys (under names members), ¬given s n := by
  induction members generalizing s with
  | nil => exact ⟨.nil, fun n hn => by cases hn⟩
  | cons entry rest ih =>
    obtain ⟨name, v⟩ := entry
    obtain ⟨t, first, later⟩ := foldlM_cons_eq_ok_iff.1 h
    obtain ⟨distinct, unused⟩ := ih later
    by_cases mem : name ∈ names
    · rw [under_cons_of_mem mem]
      refine ⟨List.nodup_cons.2 ⟨fun again => unused name again (once.taken mem first), distinct⟩,
        fun n hn used => ?_⟩
      rcases List.mem_cons.1 hn with rfl | hn
      · exact once.fresh mem first used
      · exact unused n hn (once.kept first used)
    · rw [under_cons_of_not_mem mem]
      exact ⟨distinct, fun n hn used => unused n hn (once.kept first used)⟩

/-- **A map of the members does as well as the members.** -/
theorem foldlM_ofPairs (once : Once step names given) (h : members.foldlM step s = .ok s') :
    (Assoc.ofPairs members).foldlM step s = .ok s' := by
  have distinct := (once.distinct_under h).1
  rw [← once.foldlM_under, Assoc.under_ofPairs, Assoc.ofPairs_of_distinct distinct,
    once.foldlM_under]
  exact h

end Once

/-! ## Kinds -/

namespace Kind

variable {read : Json → Except Fault Kind}

/-- Take the kind. -/
def take (read : Json → Except Fault Kind) (seen : Option Kind) (entry : String × Json) :
    Except Rejection (Option Kind) :=
  if entry.1 = "kind" then
    match seen with
    | some _ => .error ⟨[], .duplicateField "kind"⟩
    | .none =>
      match read entry.2 with
      | .error fault => .error ⟨[.key "kind"], fault⟩
      | .ok k => .ok (some k)
  else .ok seen

/-- The member that tells the kind is taken once. -/
theorem take_eq_ok_iff {seen : Option Kind} {v : Json} {s : Option Kind} :
    take read seen ("kind", v) = .ok s ↔ seen = .none ∧ ∃ k, read v = .ok k ∧ s = some k := by
  cases seen with
  | some k => simp [take]
  | none => cases taken : read v <;> simp [take, taken, eq_comm]

/-- The kind of an object is that of the members taken one by one. -/
theorem ofMembers_eq_ok_iff {seen : Option Kind} {members : List (String × Json)} {k : Kind} :
    ofMembers read seen members = .ok k ↔ members.foldlM (take read) seen = .ok (some k) := by
  induction members generalizing seen with
  | nil => cases seen <;> simp [ofMembers, pure, Except.pure]
  | cons entry rest ih =>
    obtain ⟨name, v⟩ := entry
    rw [foldlM_cons_eq_ok_iff]
    by_cases eq : name = "kind"
    · subst eq
      cases seen with
      | some k => simp [ofMembers, take]
      | none => cases taken : read v <;> simp [ofMembers, take, taken, ih]
    · have passed : ofMembers read seen ((name, v) :: rest) = ofMembers read seen rest := by
        cases seen <;> exact if_neg eq
      rw [passed, ih]
      simp [take, eq]

/-- The kind is told once at most. -/
theorem take_once (read : Json → Except Fault Kind) :
    Once (take read) ["kind"] fun seen _ => seen.isSome = true where
  other v absent := if_neg fun eq => absurd (List.mem_singleton.2 eq) absent
  fresh mem h := by
    cases List.mem_singleton.1 mem
    obtain ⟨rfl, -⟩ := take_eq_ok_iff.1 h
    simp
  taken mem h := by
    cases List.mem_singleton.1 mem
    obtain ⟨-, k, -, rfl⟩ := take_eq_ok_iff.1 h
    rfl
  kept {s s' name v n} h used := by
    by_cases eq : name = "kind"
    · subst eq
      obtain ⟨rfl, -⟩ := take_eq_ok_iff.1 h
      cases used
    · have passed : take read s (name, v) = .ok s := if_neg eq
      rw [passed] at h
      cases h
      exact used

end Kind

/-! ## Fields -/

namespace Draft

variable {name : String} {read read' : (t : FieldType) → Except Fault t.Value}

/-- Take the value of a field. -/
def take (fs : List Field) (draft : Draft fs) (entry : String × Json) : Except Fault (Draft fs) :=
  draft.put entry.1 fun t => t.ofJson entry.2

/-- A field of a draft has a value. -/
def Given : (fs : List Field) → Draft fs → String → Prop
  | [], _, _ => False
  | f :: fs, (value, rest), name => f.name = name ∧ value.isSome = true ∨ Given fs rest name

theorem Given.mem {fs : List Field} {draft : Draft fs} (h : Given fs draft name) :
    name ∈ fs.map Field.name := by
  induction fs with
  | nil => cases h
  | cons f fs ih =>
    obtain ⟨value, rest⟩ := draft
    rcases h with ⟨rfl, -⟩ | later
    · exact List.mem_cons_self
    · exact List.mem_cons_of_mem _ (ih later)

/-- What it takes for the value of a field to be put into a draft. -/
theorem put_cons_eq_ok_iff {f : Field} {fs : List Field} {value : Option f.type.Value}
    {rest : Draft fs} {draft : Draft (f :: fs)} :
    put name read (f :: fs) (value, rest) = .ok draft ↔
      (f.name = name ∧ value = none ∧ ∃ x, read f.type = .ok x ∧ draft = (some x, rest)) ∨
        (f.name ≠ name ∧ ∃ rest', rest.put name read = .ok rest' ∧ draft = (value, rest')) := by
  by_cases eq : f.name = name
  · subst eq
    cases value with
    | some x => simp [put]
    | none =>
      cases taken : read f.type with
      | error fault => simp [put, taken]
      | ok x =>
        have first := put_first taken rest
        constructor
        · intro h
          exact .inl ⟨rfl, rfl, x, rfl, Except.ok.inj (h.symm.trans first)⟩
        · rintro (⟨-, -, _, same, rfl⟩ | ⟨ne, -⟩)
          · cases same
            exact first
          · exact absurd rfl ne
  · cases taken : rest.put name read with
    | error fault => simp [put, eq, taken]
    | ok rest' =>
      have later := put_later eq value taken
      constructor
      · intro h
        exact .inr ⟨eq, rest', rfl, Except.ok.inj (h.symm.trans later)⟩
      · rintro (⟨same, -⟩ | ⟨-, _, same, rfl⟩)
        · exact absurd same eq
        · cases same
          exact later

/-- Only how the value is read matters. -/
theorem put_of_read {fs : List Field} {draft draft' : Draft fs}
    (same : ∀ t x, read t = .ok x → read' t = .ok x) (h : draft.put name read = .ok draft') :
    draft.put name read' = .ok draft' := by
  induction fs with
  | nil => exact h
  | cons f fs ih =>
    obtain ⟨value, rest⟩ := draft
    rcases put_cons_eq_ok_iff.1 h with ⟨eq, free, x, taken, rfl⟩ | ⟨ne, rest', later, rfl⟩
    · exact put_cons_eq_ok_iff.2 (.inl ⟨eq, free, x, same _ x taken, rfl⟩)
    · exact put_cons_eq_ok_iff.2 (.inr ⟨ne, rest', ih later, rfl⟩)

/-- A field is given once a member has been put there. -/
theorem given_of_put {fs : List Field} {draft draft' : Draft fs}
    (h : draft.put name read = .ok draft') (mem : name ∈ fs.map Field.name) :
    Given fs draft' name := by
  induction fs with
  | nil => cases mem
  | cons f fs ih =>
    obtain ⟨value, rest⟩ := draft
    rcases put_cons_eq_ok_iff.1 h with ⟨eq, -, x, -, rfl⟩ | ⟨ne, rest', later, rfl⟩
    · exact .inl ⟨eq, rfl⟩
    · exact .inr (ih later ((List.mem_cons.1 mem).resolve_left (Ne.symm ne)))

/-- A field that is given stays so. -/
theorem Given.put {fs : List Field} {draft draft' : Draft fs} {n : String}
    (given : Given fs draft n) (h : draft.put name read = .ok draft') : Given fs draft' n := by
  induction fs with
  | nil => cases given
  | cons f fs ih =>
    obtain ⟨value, rest⟩ := draft
    rcases put_cons_eq_ok_iff.1 h with ⟨-, rfl, x, -, rfl⟩ | ⟨-, rest', later, rfl⟩
    · rcases given with ⟨-, some⟩ | given
      · cases some
      · exact .inr given
    · rcases given with first | given
      · exact .inl first
      · exact .inr (ih given later)

/-- A field is put into a draft that does not have it. -/
theorem not_given_of_put {fs : List Field} (distinct : (fs.map Field.name).Nodup)
    {draft draft' : Draft fs} (h : draft.put name read = .ok draft') : ¬Given fs draft name := by
  induction fs with
  | nil => exact fun given => given
  | cons f fs ih =>
    obtain ⟨value, rest⟩ := draft
    rw [List.map_cons, List.nodup_cons] at distinct
    rcases put_cons_eq_ok_iff.1 h with ⟨rfl, rfl, -⟩ | ⟨ne, rest', later, -⟩
    · rintro (⟨-, some⟩ | given)
      · cases some
      · exact distinct.1 given.mem
    · rintro (⟨eq, -⟩ | given)
      · exact ne eq
      · exact ih distinct.2 later given

/-- A field is given once at most. -/
theorem take_once {fs : List Field} (distinct : (fs.map Field.name).Nodup) :
    Once (take fs) (fs.map Field.name) (Given fs) where
  other _ absent := put_of_not_mem absent _
  fresh _ h := not_given_of_put distinct h
  taken mem h := given_of_put h mem
  kept h given := given.put h

end Draft

/-- The draft of an object takes its members one by one. -/
theorem Descriptor.draftOfMembers_eq {fs : List Field} (draft : Draft fs)
    (members : List (String × Json)) :
    draftOfMembers fs draft members = members.foldlM (Draft.take fs) draft := by
  induction members generalizing draft with
  | nil => simp only [draftOfMembers, List.foldlM_nil, pure, Except.pure]
  | cons entry rest ih =>
    obtain ⟨name, v⟩ := entry
    rw [List.foldlM_cons]
    simp only [draftOfMembers]
    split <;> rename_i put
    · have taken : Draft.take fs draft (name, v) = .error _ := put
      rw [taken]
      rfl
    · have taken : Draft.take fs draft (name, v) = .ok _ := put
      rw [taken, ih]
      rfl

/-! ## Sections -/

namespace Document

/-- Take a section. -/
def Sections.take (s : Sections) (entry : String × Json) : Except Rejection Sections :=
  if entry.1 = "definitions" then
    match s.definitions with
    | some _ => .error ⟨[], .duplicateField entry.1⟩
    | .none => (inSection (.key entry.1) (Descriptor.tableOfOuterJson entry.2)).map
        fun table => ⟨some table, s.roots⟩
  else if entry.1 = "roots" then
    match s.roots with
    | some _ => .error ⟨[], .duplicateField entry.1⟩
    | .none => (inSection (.key entry.1) (Descriptor.tableOfOuterJson entry.2)).map
        fun table => ⟨s.definitions, some table⟩
  else .ok s

/-- A section is read. -/
def Sections.Given (s : Sections) (name : String) : Prop :=
  name = "definitions" ∧ s.definitions.isSome = true ∨ name = "roots" ∧ s.roots.isSome = true

variable {s s' : Sections} {v : Json}

theorem inSection_map_eq_ok_iff {α β : Type} {segment : Json.Segment} {x : Except Rejection α}
    {f : α → β} {b : β} :
    (inSection segment x).map f = .ok b ↔ ∃ a, x = .ok a ∧ b = f a := by
  cases x with
  | error r => simp [inSection, Except.map]
  | ok a => simp [inSection, Except.map, eq_comm]

/-- A section of a document is taken once, and read as a table. -/
theorem Sections.take_definitions_iff :
    s.take ("definitions", v) = .ok s' ↔ s.definitions = .none ∧
      ∃ table, Descriptor.tableOfOuterJson v = .ok table ∧ s' = ⟨some table, s.roots⟩ := by
  obtain ⟨definitions, roots⟩ := s
  cases definitions with
  | some table => simp [take]
  | none => simp [take, inSection_map_eq_ok_iff]

theorem Sections.take_roots_iff :
    s.take ("roots", v) = .ok s' ↔ s.roots = .none ∧
      ∃ table, Descriptor.tableOfOuterJson v = .ok table ∧ s' = ⟨s.definitions, some table⟩ := by
  obtain ⟨definitions, roots⟩ := s
  cases roots with
  | some table => simp [take]
  | none => simp [take, inSection_map_eq_ok_iff]

/-- Members that are no section are passed over. -/
theorem Sections.take_other {name : String} (other : name ∉ ["definitions", "roots"]) :
    s.take (name, v) = .ok s := by
  simp only [List.mem_cons, List.not_mem_nil, or_false, not_or] at other
  simp [take, other.1, other.2]

/-- The sections of a document are taken one by one. -/
theorem sectionsOfMembers_eq (s : Sections) (members : List (String × Json)) :
    sectionsOfMembers s members = members.foldlM Sections.take s := by
  induction members generalizing s with
  | nil => rfl
  | cons entry rest ih =>
    obtain ⟨name, v⟩ := entry
    obtain ⟨definitions, roots⟩ := s
    rw [List.foldlM_cons]
    unfold sectionsOfMembers Sections.take
    by_cases first : name = "definitions"
    · simp only [if_pos first]
      cases definitions with
      | some table => rfl
      | none =>
        cases inSection (.key name) (Descriptor.tableOfOuterJson v) with
        | error r => rfl
        | ok table => exact ih _
    · by_cases second : name = "roots"
      · simp only [if_neg first, if_pos second]
        cases roots with
        | some table => rfl
        | none =>
          cases inSection (.key name) (Descriptor.tableOfOuterJson v) with
          | error r => rfl
          | ok table => exact ih _
      · simp only [if_neg first, if_neg second]
        exact ih _

/-- The sections in an array are the first two of its values, and there are no others. -/
theorem ofValues_eq_ok_iff {values : List Json} {doc : Document} :
    ofValues values = .ok doc ↔
      (values = [] ∧ doc = ⟨[], []⟩) ∨
      (∃ v definitions, values = [v] ∧ Descriptor.tableOfOuterJson v = .ok definitions ∧
        doc = ⟨definitions, []⟩) ∨
      ∃ v w definitions roots, values = [v, w] ∧ Descriptor.tableOfOuterJson v = .ok definitions ∧
        Descriptor.tableOfOuterJson w = .ok roots ∧ doc = ⟨definitions, roots⟩ := by
  rcases values with _ | ⟨first, rest⟩
  · simp [ofValues, @eq_comm _ doc]
  · cases read : Descriptor.tableOfOuterJson first with
    | error r => simp [ofValues, read, inSection]
    | ok definitions =>
      rcases rest with _ | ⟨second, surplus⟩
      · simp [ofValues, read, inSection, @eq_comm _ doc]
      · cases read' : Descriptor.tableOfOuterJson second with
        | error r => simp [ofValues, read, read', inSection]
        | ok roots => cases surplus <;> simp [ofValues, read, read', inSection, @eq_comm _ doc]

theorem Sections.take_once : Once Sections.take ["definitions", "roots"] Sections.Given where
  other _ absent := Sections.take_other absent
  fresh {s s' name v} mem h := by
    rcases List.mem_pair.1 mem with rfl | rfl
    · rintro (⟨-, some⟩ | ⟨eq, -⟩)
      · rw [(Sections.take_definitions_iff.1 h).1] at some
        cases some
      · exact absurd eq (by decide)
    · rintro (⟨eq, -⟩ | ⟨-, some⟩)
      · exact absurd eq (by decide)
      · rw [(Sections.take_roots_iff.1 h).1] at some
        cases some
  taken {s s' name v} mem h := by
    rcases List.mem_pair.1 mem with rfl | rfl
    · obtain ⟨-, table, -, rfl⟩ := Sections.take_definitions_iff.1 h
      exact .inl ⟨rfl, rfl⟩
    · obtain ⟨-, table, -, rfl⟩ := Sections.take_roots_iff.1 h
      exact .inr ⟨rfl, rfl⟩
  kept {s s' name v n} h given := by
    by_cases mem : name ∈ ["definitions", "roots"]
    · rcases List.mem_pair.1 mem with rfl | rfl
      · obtain ⟨-, table, -, rfl⟩ := Sections.take_definitions_iff.1 h
        exact given.imp (fun ⟨eq, _⟩ => ⟨eq, rfl⟩) id
      · obtain ⟨-, table, -, rfl⟩ := Sections.take_roots_iff.1 h
        exact given.imp id fun ⟨eq, _⟩ => ⟨eq, rfl⟩
    · rw [Sections.take_other mem] at h
      cases h
      exact given

end Document

end TypeCatalog
