import TypeCatalog.Proofs.Elementwise
import TypeCatalog.Proofs.Readers
import TypeCatalog.Proofs.Sameness

/-!
Decoded descriptors.

Whoever decodes a table keeps one entry for each name.  So the tables in the fields of a decoded
descriptor are maps, and in the descriptors inside it too (`decodes`), whether it is decoded from a
value (`distinct_of_ofJson`) or read from text (`yields_reader`).
-/

namespace TypeCatalog

/-! ## Values in values -/

/-- The values that are directly in a value. -/
def Json.inner : Json → List Json
  | .arr items => items
  | .obj members => members.map Prod.snd
  | _ => []

/-- What is inside a value is smaller, which makes an induction over values. -/
theorem Json.sizeOf_lt_of_mem_inner {v w : Json} (h : w ∈ v.inner) : sizeOf w < sizeOf v := by
  cases v with
  | arr items =>
    have := List.sizeOf_lt_of_mem (show w ∈ items from h)
    simp only [Json.arr.sizeOf_spec]
    omega
  | obj members =>
    obtain ⟨⟨name, w⟩, mem, rfl⟩ := List.mem_map.1 h
    have := List.sizeOf_lt_of_mem mem
    simp only [Json.obj.sizeOf_spec, Prod.mk.sizeOf_spec] at this ⊢
    omega
  | _ => cases h

/-- What holds of a value whenever it holds of those in it holds of all. -/
theorem Json.inner_induction {motive : Json → Prop}
    (step : ∀ v, (∀ w ∈ v.inner, motive w) → motive v) (v : Json) : motive v := by
  induction size : sizeOf v using Nat.strongRecOn generalizing v with
  | ind n ih =>
    subst size
    exact step v fun w hw => ih (sizeOf w) (Json.sizeOf_lt_of_mem_inner hw) w rfl

/-! ## Values of fields -/

/-- The tables in each of the descriptors are maps. -/
def Descriptor.DistinctList (ds : List Descriptor) : Prop :=
  ∀ d ∈ ds, d.Distinct

/-- Each name is once in a table of descriptors whose own tables are maps. -/
def Descriptor.DistinctTable (table : List (String × Descriptor)) : Prop :=
  Assoc.Distinct table ∧ ∀ entry ∈ table, entry.2.Distinct

/-- The tables in the value of a field are maps. -/
def FieldType.Distinct : (t : FieldType) → t.Value → Prop
  | .scalarTable, table => Assoc.Distinct (α := Scalar) table
  | .descriptor, d => Descriptor.Distinct d
  | .optional, bound => Descriptor.DistinctList (Option.toList bound)
  | .descriptors, ds => Descriptor.DistinctList ds
  | .descriptorTable, table => Descriptor.DistinctTable table
  | _, _ => True

/-- The tables in a record are maps. -/
def Record.Distinct : (fs : List Field) → Record fs → Prop
  | [], _ => True
  | f :: fs, (v, rest) => f.type.Distinct v ∧ Record.Distinct fs rest

/-- The tables in a draft, as far as it is filled in, are maps. -/
def Draft.Distinct : (fs : List Field) → Draft fs → Prop
  | [], _ => True
  | f :: fs, (value, rest) => (∀ v, value = some v → f.type.Distinct v) ∧ Draft.Distinct fs rest

/-- The tables in the values that fields take when they are left out are maps. -/
def Field.DefaultsDistinct (fs : List Field) : Prop :=
  ∀ f ∈ fs, ∀ v, f.default? = some v → f.type.Distinct v

theorem Field.defaultsDistinct_cons {f : Field} {fs : List Field}
    (first : ∀ v, f.default? = some v → f.type.Distinct v) (rest : Field.DefaultsDistinct fs) :
    Field.DefaultsDistinct (f :: fs) := by
  intro g mem
  rcases List.mem_cons.1 mem with rfl | later
  · exact first
  · exact rest g later

/-- What a field takes when it is left out holds no table with a name in it twice. -/
theorem Kind.defaultsDistinct (k : Kind) : Field.DefaultsDistinct k.fields := by
  have required : ∀ {name type fs}, Field.DefaultsDistinct fs →
      Field.DefaultsDistinct (Kind.required name type :: fs) := fun rest =>
    Field.defaultsDistinct_cons (fun v eq => by cases eq) rest
  have descriptors : ∀ {name fs}, Field.DefaultsDistinct fs →
      Field.DefaultsDistinct (⟨name, .descriptors, some []⟩ :: fs) := by
    refine fun rest => Field.defaultsDistinct_cons (fun v eq => ?_) rest
    cases eq
    exact fun d mem => by cases mem
  have table : ∀ {name fs}, Field.DefaultsDistinct fs →
      Field.DefaultsDistinct (⟨name, .descriptorTable, some []⟩ :: fs) := by
    refine fun rest => Field.defaultsDistinct_cons (fun v eq => ?_) rest
    cases eq
    exact ⟨List.nodup_nil, fun entry mem => by cases mem⟩
  have bound : ∀ {name fs}, Field.DefaultsDistinct fs →
      Field.DefaultsDistinct (⟨name, .optional, some .none⟩ :: fs) := by
    refine fun rest => Field.defaultsDistinct_cons (fun v eq => ?_) rest
    cases eq
    exact fun d mem => by cases mem
  have nothing : Field.DefaultsDistinct [] := fun f mem => by cases mem
  cases k with
  | empty | none | any | ellipsis => exact nothing
  | unclassified | builtin | union | literal | ref => exact required nothing
  | enum | newType | parameterized => exact required (required nothing)
  | generic => exact required (descriptors nothing)
  | typeVar => exact required (bound (descriptors nothing))
  | classDecl | typedDict | function =>
    exact required (table (Field.defaultsDistinct_cons (fun _ _ => trivial) nothing))

/-- A descriptor that is built from fields has maps for tables if the fields do. -/
theorem Kind.distinct_build {k : Kind} {record : Record k.fields}
    (h : Record.Distinct k.fields record) : (k.build record).Distinct := by
  cases k with
  | generic =>
    obtain ⟨origin, args, rest⟩ := record
    exact .intro trivial h.2.1
  | union =>
    obtain ⟨members, rest⟩ := record
    exact .intro trivial h.1
  | enum =>
    obtain ⟨name, members, rest⟩ := record
    exact .of_leaf h.2.1 rfl
  | typeVar =>
    obtain ⟨name, bound, constraints, rest⟩ := record
    refine .intro trivial fun c hc => ?_
    rcases List.mem_append.1 hc with isBound | isConstraint
    · exact h.2.1 c isBound
    · exact h.2.2.1 c isConstraint
  | classDecl =>
    obtain ⟨name, fields, typeParams, rest⟩ := record
    refine .intro h.2.1.1 fun c hc => ?_
    obtain ⟨entry, mem, rfl⟩ := List.mem_map.1 hc
    exact h.2.1.2 entry mem
  | typedDict =>
    obtain ⟨name, fields, total, rest⟩ := record
    refine .intro h.2.1.1 fun c hc => ?_
    obtain ⟨entry, mem, rfl⟩ := List.mem_map.1 hc
    exact h.2.1.2 entry mem
  | newType =>
    obtain ⟨name, supertype, rest⟩ := record
    refine .intro trivial fun c hc => ?_
    obtain rfl := List.mem_singleton.1 hc
    exact h.2.1
  | parameterized =>
    obtain ⟨base, args, rest⟩ := record
    refine .intro trivial fun c hc => ?_
    rcases List.mem_cons.1 hc with rfl | isArg
    · exact h.1
    · exact h.2.1 c isArg
  | function =>
    obtain ⟨name, annotations, paramNames, rest⟩ := record
    refine .intro h.2.1.1 fun c hc => ?_
    obtain ⟨entry, mem, rfl⟩ := List.mem_map.1 hc
    exact h.2.1.2 entry mem
  | _ => exact .of_leaf trivial rfl

/-! ## Drafts and records -/

theorem FieldType.distinct_of_read {v : Json} {one : Unit → Except Fault Descriptor}
    {many : Unit → Except Fault (List Descriptor)}
    {named : Unit → Except Fault (List (String × Descriptor))}
    (hone : ∀ d, one () = .ok d → d.Distinct)
    (hmany : ∀ ds, many () = .ok ds → Descriptor.DistinctList ds)
    (hnamed : ∀ table, named () = .ok table → Descriptor.DistinctTable table) {t : FieldType}
    {x : t.Value} (h : FieldType.read v one many named t = .ok x) : t.Distinct x := by
  cases t with
  | scalarTable =>
    have h : readScalarTable v = .ok x := h
    unfold readScalarTable at h
    split at h
    · split at h
      · cases h
      · cases h
        exact Assoc.distinct_ofPairs _
    · cases h
  | descriptor => exact hone x h
  | optional =>
    simp only [FieldType.read] at h
    split at h
    · cases h
      exact fun d mem => by cases mem
    · split at h
      · cases h
      · rename_i d read
        cases h
        intro d' mem
        cases List.mem_singleton.1 mem
        exact hone d read
  | descriptors => exact hmany x h
  | descriptorTable => exact hnamed x h
  | _ => trivial

theorem Draft.distinct_blank (fs : List Field) : Draft.Distinct fs (Draft.blank fs) := by
  induction fs with
  | nil => trivial
  | cons f fs ih => exact ⟨fun v eq => (by cases eq), ih⟩

/-- Filling a field in keeps the tables of a draft maps. -/
theorem Draft.distinct_put {name : String} {read : (t : FieldType) → Except Fault t.Value}
    (each : ∀ t x, read t = .ok x → FieldType.Distinct t x) {fs : List Field}
    {draft draft' : Draft fs} (distinct : Draft.Distinct fs draft)
    (h : Draft.put name read fs draft = .ok draft') : Draft.Distinct fs draft' := by
  induction fs with
  | nil => trivial
  | cons f fs ih =>
    obtain ⟨value, rest⟩ := draft
    simp only [Draft.put] at h
    split at h
    · split at h
      · cases h
      · split at h
        · cases h
        · rename_i x taken
          cases h
          exact ⟨fun v eq => Option.some.inj eq ▸ each f.type x taken, distinct.2⟩
    · split at h
      · cases h
      · rename_i rest' put
        cases h
        exact ⟨distinct.1, ih distinct.2 put⟩

/-- So does filling in the defaults of what was left out. -/
theorem Draft.distinct_finish {fs : List Field} (defaults : Field.DefaultsDistinct fs)
    {draft : Draft fs} {record : Record fs} (distinct : Draft.Distinct fs draft)
    (h : Draft.finish fs draft = .ok record) : Record.Distinct fs record := by
  induction fs with
  | nil => trivial
  | cons f fs ih =>
    obtain ⟨value, rest⟩ := draft
    have defaults' : Field.DefaultsDistinct fs := fun g mem =>
      defaults g (List.mem_cons_of_mem _ mem)
    simp only [Draft.finish] at h
    split at h
    · cases h
    · rename_i v there
      split at h
      · cases h
      · rename_i record' finished
        cases h
        refine ⟨?_, ih defaults' distinct.2 finished⟩
        cases value with
        | none => exact defaults f List.mem_cons_self v there
        | some given => exact distinct.1 v there

/-- A record of nothing but defaults has maps for tables. -/
theorem Record.distinct_of_ofDefaults {kind : Kind} {given : Nat} {fs : List Field}
    (defaults : Field.DefaultsDistinct fs) {record : Record fs}
    (h : Record.ofDefaults kind given fs = .ok record) : Record.Distinct fs record := by
  induction fs generalizing given with
  | nil => trivial
  | cons f fs ih =>
    have defaults' : Field.DefaultsDistinct fs := fun g mem =>
      defaults g (List.mem_cons_of_mem _ mem)
    unfold Record.ofDefaults at h
    split at h
    · cases h
    · rename_i v left
      split at h
      · cases h
      · rename_i record' eq
        cases h
        exact ⟨defaults f List.mem_cons_self v left, ih defaults' eq⟩

/-! ## Descriptors in values -/

namespace Descriptor

/-- Whatever descriptors a value is decoded to, their tables are maps. -/
structure Decodes (v : Json) : Prop where
  one : ∀ d, ofNestedJson v = .ok d → d.Distinct
  many : ∀ ds, listOfJson v = .ok ds → DistinctList ds
  named : ∀ table, tableOfJson v = .ok table → DistinctTable table

/-- A field that is read has a map for a table, whatever its type. -/
theorem Decodes.field {v : Json} (h : Decodes v) {t : FieldType} {x : t.Value}
    (eq : FieldType.read v (fun _ => ofNestedJson v) (fun _ => listOfJson v)
      (fun _ => tableOfJson v) t = .ok x) : t.Distinct x :=
  FieldType.distinct_of_read h.one h.many h.named eq

/-- The members of an object fill a draft in whose tables are maps. -/
theorem distinct_of_draftOfMembers {fs : List Field} {members : List (String × Json)}
    (each : ∀ w ∈ members.map Prod.snd, Decodes w) {draft draft' : Draft fs}
    (distinct : Draft.Distinct fs draft) (h : draftOfMembers fs draft members = .ok draft') :
    Draft.Distinct fs draft' := by
  induction members generalizing draft with
  | nil =>
    simp only [draftOfMembers] at h
    cases h
    exact distinct
  | cons entry rest ih =>
    obtain ⟨name, v⟩ := entry
    simp only [draftOfMembers] at h
    split at h
    · cases h
    · rename_i next put
      have here : Decodes v := each v List.mem_cons_self
      refine ih (fun w hw => each w (List.mem_cons_of_mem _ hw)) ?_ h
      exact Draft.distinct_put (fun t x read => here.field read) distinct put

/-- So do the elements of an array, read by place. -/
theorem distinct_of_recordOfValues {kind : Kind} {given : Nat} {fs : List Field}
    (defaults : Field.DefaultsDistinct fs) {values : List Json} (each : ∀ w ∈ values, Decodes w)
    {record : Record fs} (h : recordOfValues kind given fs values = .ok record) :
    Record.Distinct fs record := by
  induction values generalizing given fs with
  | nil =>
    simp only [recordOfValues] at h
    exact Record.distinct_of_ofDefaults defaults h
  | cons v rest ih =>
    cases fs with
    | nil => trivial
    | cons f fs =>
      simp only [recordOfValues] at h
      split at h
      · cases h
      · rename_i x read
        split at h
        · cases h
        · rename_i record' later
          cases h
          refine ⟨(each v List.mem_cons_self).field read, ih ?_ ?_ later⟩
          · exact fun g mem => defaults g (List.mem_cons_of_mem _ mem)
          · exact fun w hw => each w (List.mem_cons_of_mem _ hw)

/-- A map of descriptors that is written from pairs is one throughout. -/
theorem distinctTable_ofPairs {pairs : List (String × Descriptor)}
    (each : ∀ entry ∈ pairs, entry.2.Distinct) : DistinctTable (Assoc.ofPairs pairs) :=
  ⟨Assoc.distinct_ofPairs pairs, fun entry mem => each entry (Assoc.mem_of_mem_ofPairs mem)⟩

theorem distinct_of_ofMembers {kind : Kind} {members : List (String × Json)} {d : Descriptor}
    (each : ∀ w ∈ members.map Prod.snd, Decodes w) (h : ofMembers kind members = .ok d) :
    d.Distinct := by
  unfold ofMembers at h
  split at h
  · cases h
  · rename_i draft filled
    split at h
    · cases h
    · rename_i record finished
      cases h
      have draftDistinct := distinct_of_draftOfMembers each (Draft.distinct_blank _) filled
      exact Kind.distinct_build
        (Draft.distinct_finish kind.defaultsDistinct draftDistinct finished)

theorem distinct_of_ofValues {kind : Kind} {values : List Json} {d : Descriptor}
    (each : ∀ w ∈ values, Decodes w) (h : ofValues kind values = .ok d) : d.Distinct := by
  unfold ofValues at h
  split at h
  · cases h
  · rename_i record read
    cases h
    exact Kind.distinct_build (distinct_of_recordOfValues kind.defaultsDistinct each read)

/-- A descriptor inside another is decoded from its members or values as an outermost one is. -/
theorem ofNestedJson_cases {v : Json} {d : Descriptor} (h : ofNestedJson v = .ok d) :
    (∃ kind members, v = .obj members ∧ ofMembers kind members = .ok d) ∨
      ∃ kind first values, v = .arr (first :: values) ∧ ofValues kind values = .ok d := by
  cases v with
  | obj members =>
    simp only [ofNestedJson] at h
    split at h
    · cases h
    · rename_i kind _
      exact .inl ⟨kind, members, rfl, h⟩
  | arr values =>
    cases values with
    | nil => cases h
    | cons first values =>
      simp only [ofNestedJson] at h
      split at h
      · cases h
      · rename_i kind _
        exact .inr ⟨kind, first, values, rfl, h⟩
  | _ => cases h

/-- The tables in everything that is decoded are maps. -/
theorem decodes (v : Json) : Decodes v := by
  induction v using Json.inner_induction with
  | step v ih =>
    refine ⟨fun d h => ?_, fun ds h => ?_, fun table h => ?_⟩
    · rcases ofNestedJson_cases h with
        ⟨kind, members, rfl, built⟩ | ⟨kind, first, values, rfl, built⟩
      · exact distinct_of_ofMembers ih built
      · exact distinct_of_ofValues (fun w hw => ih w (List.mem_cons_of_mem _ hw)) built
    · cases v with
      | arr items =>
        simp only [listOfJson] at h
        exact reads_listOfItems.forall_mem (fun w hw => (ih w hw).one) h
      | _ => cases h
    · cases v with
      | obj entries =>
        simp only [tableOfJson] at h
        split at h
        · cases h
        · rename_i pairs read
          cases h
          exact distinctTable_ofPairs
            (readsTable_tableOfEntries.forall_mem (fun w hw => (ih w hw).one) read)
      | _ => cases h

/-- Tables in what is decoded from a value are maps, at any depth. -/
theorem distinct_of_ofJson {v : Json} {d : Descriptor} (h : ofJson v = .ok d) : d.Distinct := by
  cases v with
  | obj members =>
    simp only [ofJson] at h
    split at h
    · cases h
    · split at h
      · cases h
      · rename_i built
        cases h
        exact distinct_of_ofMembers (fun w _ => decodes w) built
  | arr values =>
    cases values with
    | nil => cases h
    | cons first values =>
      simp only [ofJson] at h
      split at h
      · cases h
      · split at h
        · cases h
        · rename_i built
          cases h
          exact distinct_of_ofValues (fun w _ => decodes w) built
  | _ => cases h

theorem distinctTable_of_outerJson {v : Json} {table : List (String × Descriptor)}
    (h : tableOfOuterJson v = .ok table) : DistinctTable table := by
  cases v with
  | obj entries =>
    simp only [tableOfOuterJson] at h
    split at h
    · cases h
    · rename_i pairs read
      cases h
      exact distinctTable_ofPairs
        (readsTable_tableOfOuterEntries.forall_mem (fun _ _ _ => distinct_of_ofJson) read)
  | _ => cases h

/-! ## Descriptors in text -/

/-- The same for descriptors that are read from text, without a value in between. -/
theorem yields_reader (depth : Nat) : (reader depth).Yields Descriptor.Distinct := by
  intro c d c' h
  unfold reader at h
  split at h
  · cases h
  · rename_i kind body rest read
    split at h
    · cases h
    · rename_i built
      cases h
      cases body with
      | members members => exact distinct_of_ofMembers (fun w _ => decodes w) built
      | values values => exact distinct_of_ofValues (fun w _ => decodes w) built

theorem yields_tableReader (depth : Nat) : (tableReader depth).Yields DistinctTable := by
  unfold tableReader
  refine Json.yields_dispatch (fun v table h => by cases h) (Json.Opening.yields_refused _ _) ?_
  refine Json.Opening.yields_atDepth (fun depth => ?_) depth
  refine Json.yields_objectOf (yields_reader depth) fun entries table each h => ?_
  cases h
  exact distinctTable_ofPairs each

end Descriptor

end TypeCatalog
