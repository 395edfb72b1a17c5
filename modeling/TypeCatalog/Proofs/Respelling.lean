import Mathlib.Logic.Relation
import TypeCatalog.Proofs.Forms
import TypeCatalog.Proofs.Merging

/-!
Descriptors that are spelled in different ways.

`Respells` says how one descriptor object in a value may be spelled in another way, at any depth:
its keys in another order, with a key that is no field of its kind, without a field that holds its
default, or as an array.  Such a value is decoded as the same descriptor, and so is every value that
is respelled again and again (`spellings_decode_alike`).

The annotations of a function are in no order.  If they are put in another order, as
`Respells true` allows, what is decoded is the same descriptor but for that order (`EqualBut`).  All
other tables are decoded with their names in the order of the keys.

The forms of a descriptor tell what a step does: either no field of an object changes, whatever
becomes of its members (`keeps_of_respells`), or one field of an object or an array has another
value that is decoded alike (`keeps_of_exchanges`).
-/

namespace TypeCatalog

open Assoc (under)

/-! ## Respelled values -/

/-- The kind of the descriptor that some members spell. -/
def Kind.IsOf (k : Kind) (members : List (String × Json)) : Prop :=
  ∃ w, ("kind", w) ∈ members ∧ Kind.ofNestedJson w = .ok k

/-- A value says of a field what the field takes when it is left out. -/
def Field.HoldsDefault (f : Field) (v : Json) : Prop :=
  ∃ x, f.default? = some x ∧ f.type.ofJson v = .ok x

/-- The fields of an object in their order, as an array has them: one that the object leaves out is
spelled out, unless it is among the last ones and all of those hold their defaults. -/
inductive Enumerates (members : List (String × Json)) : List Field → List Json → Prop
  | given {f : Field} {fs : List Field} {v : Json} {values : List Json} :
    (f.name, v) ∈ members → Enumerates members fs values →
      Enumerates members (f :: fs) (v :: values)
  | spelledOut {f : Field} {fs : List Field} {v : Json} {values : List Json} :
    f.name ∉ Assoc.keys members → f.HoldsDefault v → Enumerates members fs values →
      Enumerates members (f :: fs) (v :: values)
  | leftOut {fs : List Field} :
    (∀ f ∈ fs, f.default?.isSome = true ∧ ∀ v, (f.name, v) ∈ members → f.HoldsDefault v) →
      Enumerates members fs []

/-- In a descriptor, spelled as an object or as an array, one field has another value. -/
inductive Exchanges (f : Field) (v v' : Json) : Json → Json → Prop
  | member {k : Kind} {before after : List (String × Json)} :
    k.IsOf (before ++ (f.name, v) :: after) → f ∈ k.fields →
      Exchanges f v v' (.obj (before ++ (f.name, v) :: after))
        (.obj (before ++ (f.name, v') :: after))
  | value {k : Kind} {w : Json} {before after : List Json} :
    Kind.ofNestedJson w = .ok k → k.fields[before.length]? = some f →
      Exchanges f v v' (.arr (w :: (before ++ v :: after))) (.arr (w :: (before ++ v' :: after)))

/-- In the value of a field, one descriptor is spelled in another way. -/
inductive Holds (u u' : Json) : FieldType → Json → Json → Prop
  | descriptor : Holds u u' .descriptor u u'
  | optional : Holds u u' .optional u u'
  | element {before after : List Json} :
    Holds u u' .descriptors (.arr (before ++ u :: after)) (.arr (before ++ u' :: after))
  | entry {name : String} {before after : List (String × Json)} :
    Holds u u' .descriptorTable (.obj (before ++ (name, u) :: after))
      (.obj (before ++ (name, u') :: after))

/-- One descriptor in a value is spelled in another way.  If the order of annotations is given up,
those of one function may be put in another. -/
inductive Respells (unordered : Bool) : Json → Json → Prop
  | permute {members members' : List (String × Json)} :
    members.Perm members' → Respells unordered (.obj members) (.obj members')
  | add {k : Kind} {before after : List (String × Json)} {name : String} (v : Json) :
    k.IsOf (before ++ after) → name ≠ "kind" → name ∉ k.fields.map Field.name →
      Respells unordered (.obj (before ++ after)) (.obj (before ++ (name, v) :: after))
  | leaveOut {k : Kind} {f : Field} {before after : List (String × Json)} {v : Json} :
    k.IsOf (before ++ (f.name, v) :: after) → f ∈ k.fields → f.HoldsDefault v →
      Respells unordered (.obj (before ++ (f.name, v) :: after)) (.obj (before ++ after))
  | array {k : Kind} {members : List (String × Json)} {w : Json} {values : List Json} :
    ("kind", w) ∈ members → Kind.ofNestedJson w = .ok k → Enumerates members k.fields values →
      Respells unordered (.obj members) (.arr (w :: values))
  | inside {f : Field} {u u' v v' w w' : Json} :
    Exchanges f v v' w w' → Holds u u' f.type v v' → Respells unordered u u' →
      Respells unordered w w'
  | annotations {f : Field} {entries entries' : List (String × Json)} {w w' : Json} :
    unordered = true → f.name = "annotations" → f.type = .descriptorTable →
      entries.Perm entries' → Assoc.Distinct entries →
      Exchanges f (.obj entries) (.obj entries') w w' → Respells unordered w w'

/-- Descriptors in a value are spelled in other ways, one after another. -/
abbrev Respelled (unordered : Bool) : Json → Json → Prop :=
  Relation.ReflTransGen (Respells unordered)

/-! ## Equality but for an order -/

/-- Two things that are equal once they are put in order, and equal as they are unless their order
is given up. -/
def EqualBut (unordered : Bool) {α : Type} (order : α → α) (x x' : α) : Prop :=
  order x = order x' ∧ (unordered = false → x = x')

namespace EqualBut

variable {unordered : Bool} {α β : Type} {order : α → α} {order' : β → β} {x y z : α}

theorem refl : EqualBut unordered order x x :=
  ⟨rfl, fun _ => rfl⟩

theorem trans (h : EqualBut unordered order x y) (h' : EqualBut unordered order y z) :
    EqualBut unordered order x z :=
  ⟨h.1.trans h'.1, fun kept => (h.2 kept).trans (h'.2 kept)⟩

/-- What is put together from equal things is equal, if its order comes from theirs. -/
theorem map {f g : α → β} (commutes : ∀ x, order' (f x) = g (order x))
    (h : EqualBut unordered order x y) : EqualBut unordered order' (f x) (f y) :=
  ⟨by rw [commutes, commutes, h.1], fun kept => by rw [h.2 kept]⟩

end EqualBut

/-- The value of a field with all annotations in it by their names, and by their names itself if it
is a table of annotations. -/
def FieldType.byName (annotations : Bool) : (t : FieldType) → t.Value → t.Value
  | .descriptor, d => Descriptor.byName d
  | .optional, bound => Descriptor.byNameOption bound
  | .descriptors, ds => Descriptor.byNameList ds
  | .descriptorTable, table =>
    if annotations then Assoc.sortKeys (Descriptor.byNameTable table)
    else Descriptor.byNameTable table
  | _, x => x

/-- A field's value with the annotations in it by their names. -/
def Field.byName (f : Field) : f.type.Value → f.type.Value :=
  f.type.byName (f.name == "annotations")

/-- A record with the annotations in it by their names. -/
def Record.byName : (fs : List Field) → Record fs → Record fs
  | [], record => record
  | f :: fs, (x, rest) => (f.byName x, Record.byName fs rest)

theorem Kind.byName_build (k : Kind) (record : Record k.fields) :
    (k.build record).byName = k.build (Record.byName k.fields record) := by
  cases k <;> rfl

/-! ## Records that change in one field -/

section Records

variable {unordered : Bool} {fs : List Field} {record : Record fs}
  {members members' : List (String × Json)}

theorem Field.givenBy_congr {f : Field} (same : under [f.name] members = under [f.name] members')
    {x : f.type.Value} (given : f.GivenBy members x) : f.GivenBy members' x := by
  unfold Field.GivenBy at given ⊢
  rwa [← same]

/-- Members that say of each field what others say give the same record, but for an order. -/
theorem Record.GivenBy.exists_equal (given : Record.GivenBy fs record members)
    (each : ∀ f ∈ fs, ∀ x, f.GivenBy members x →
      ∃ x', f.GivenBy members' x' ∧ EqualBut unordered f.byName x x') :
    ∃ record', Record.GivenBy fs record' members' ∧
      EqualBut unordered (Record.byName fs) record record' := by
  induction fs with
  | nil => exact ⟨record, trivial, .refl⟩
  | cons f fs ih =>
    obtain ⟨x, rest⟩ := record
    obtain ⟨x', first, equal⟩ := each f List.mem_cons_self x given.1
    obtain ⟨rest', givenRest, equalRest⟩ :=
      ih given.2 fun g mem => each g (List.mem_cons_of_mem _ mem)
    refine ⟨(x', rest'), ⟨first, givenRest⟩, ?_, fun kept => ?_⟩
    · exact congrArg₂ Prod.mk equal.1 equalRest.1
    · exact congrArg₂ Prod.mk (equal.2 kept) (equalRest.2 kept)

/-- Members that say the same of each field give the same record. -/
theorem Record.GivenBy.congr (given : Record.GivenBy fs record members)
    (each : ∀ f ∈ fs, ∀ x, f.GivenBy members x → f.GivenBy members' x) :
    Record.GivenBy fs record members' := by
  induction fs with
  | nil => trivial
  | cons f fs ih =>
    exact ⟨each f List.mem_cons_self _ given.1,
      ih given.2 fun g mem => each g (List.mem_cons_of_mem _ mem)⟩

/-- Values of which one is exchanged list the same record, but for an order, if its field is. -/
theorem Record.ListedBy.exists_equal {f : Field} {v v' : Json} {before after : List Json}
    (listed : Record.ListedBy fs record (before ++ v :: after))
    (here : fs[before.length]? = some f)
    (field : ∀ x, f.type.ofJson v = .ok x →
      ∃ x', f.type.ofJson v' = .ok x' ∧ EqualBut unordered f.byName x x') :
    ∃ record', Record.ListedBy fs record' (before ++ v' :: after) ∧
      EqualBut unordered (Record.byName fs) record record' := by
  induction before generalizing fs with
  | nil =>
    cases fs with
    | nil => cases here
    | cons g fs =>
      cases here
      obtain ⟨x, rest⟩ := record
      obtain ⟨read, later⟩ := listed
      obtain ⟨x', read', equal⟩ := field x read
      exact ⟨(x', rest), ⟨read', later⟩, congrArg₂ Prod.mk equal.1 rfl,
        fun kept => congrArg₂ Prod.mk (equal.2 kept) rfl⟩
  | cons u before ih =>
    cases fs with
    | nil => cases here
    | cons g fs =>
      obtain ⟨x, rest⟩ := record
      obtain ⟨read, later⟩ := listed
      obtain ⟨rest', listed', equal⟩ := ih later here
      exact ⟨(x, rest'), ⟨read, listed'⟩, congrArg₂ Prod.mk rfl equal.1,
        fun kept => congrArg₂ Prod.mk rfl (equal.2 kept)⟩

/-- The values of the fields in order list the record that the members give. -/
theorem Enumerates.listedBy {values : List Json} (given : Record.GivenBy fs record members)
    (enumerates : Enumerates members fs values) : Record.ListedBy fs record values := by
  induction enumerates with
  | @given f fs v values mem _ ih =>
    obtain ⟨x, rest⟩ := record
    refine ⟨?_, ih given.2⟩
    rcases given.1 with ⟨w, alone, read⟩ | ⟨none, -⟩
    · rw [Assoc.eq_of_under_eq_singleton alone mem]
      exact read
    · exact absurd mem (Assoc.not_mem_of_under_eq_nil none)
  | @spelledOut f fs v values absent holds _ ih =>
    obtain ⟨x, rest⟩ := record
    refine ⟨?_, ih given.2⟩
    obtain ⟨y, left, read⟩ := holds
    have none := Assoc.under_eq_nil_of_not_mem_keys absent
    rcases given.1 with ⟨w, alone, -⟩ | ⟨-, left'⟩
    · rw [none] at alone
      cases alone
    · cases left.symm.trans left'
      exact read
  | @leftOut fs each =>
    induction fs with
    | nil => rfl
    | cons f fs ih =>
      obtain ⟨x, rest⟩ := record
      refine ⟨?_, ih (fun g mem => each g (List.mem_cons_of_mem _ mem)) given.2⟩
      obtain ⟨-, holds⟩ := each f List.mem_cons_self
      rcases given.1 with ⟨w, alone, read⟩ | ⟨-, left⟩
      · have mem : (f.name, w) ∈ members :=
          List.mem_of_mem_filter (alone ▸ List.mem_singleton.2 rfl)
        obtain ⟨y, left, read'⟩ := holds w mem
        cases read.symm.trans read'
        exact left
      · exact left

end Records

/-! ## One step -/

namespace Descriptor

/-- What is a form of a descriptor stays one, but for an order, whoever reads the kind. -/
def Keeps (unordered : Bool) (v v' : Json) : Prop :=
  ∀ kindOf : Json → Except Fault Kind, (∀ w k, kindOf w = .ok k → Kind.ofNestedJson w = .ok k) →
    ∀ d, Form kindOf v d → ∃ d', Form kindOf v' d' ∧ EqualBut unordered byName d d'

variable {unordered : Bool}

theorem Keeps.nested {v v' : Json} (keeps : Keeps unordered v v') {d : Descriptor}
    (h : ofNestedJson v = .ok d) :
    ∃ d', ofNestedJson v' = .ok d' ∧ EqualBut unordered byName d d' := by
  obtain ⟨d', form, equal⟩ := keeps _ (fun _ _ read => read) d (ofNestedJson_eq_ok_iff.1 h)
  exact ⟨d', ofNestedJson_eq_ok_iff.2 form, equal⟩

theorem exists_equal_list {u u' : Json} (keeps : Keeps unordered u u') {before after : List Json}
    {ds : List Descriptor} (h : listOfJson (.arr (before ++ u :: after)) = .ok ds) :
    ∃ ds', listOfJson (.arr (before ++ u' :: after)) = .ok ds' ∧
      EqualBut unordered byNameList ds ds' := by
  simp only [listOfJson] at h ⊢
  obtain ⟨earlier, d, later, taken, rfl, exchanged⟩ := reads_listOfItems.exchange h
  obtain ⟨d', taken', equal⟩ := keeps.nested taken
  refine ⟨earlier ++ d' :: later, exchanged u' d' taken', ?_⟩
  refine equal.map (f := fun d => earlier ++ d :: later)
    (g := fun d => byNameList earlier ++ d :: byNameList later) fun d => ?_
  simp only [byNameList_eq, List.map_append, List.map_cons]

theorem exists_equal_table {u u' : Json} (keeps : Keeps unordered u u') {name : String}
    {before after : List (String × Json)} {table : List (String × Descriptor)}
    (h : tableOfJson (.obj (before ++ (name, u) :: after)) = .ok table) :
    ∃ table', tableOfJson (.obj (before ++ (name, u') :: after)) = .ok table' ∧
      EqualBut unordered byNameTable table table' := by
  simp only [tableOfJson] at h ⊢
  split at h
  · cases h
  · rename_i pairs read
    cases h
    obtain ⟨earlier, d, later, taken, rfl, exchanged⟩ := readsTable_tableOfEntries.exchange read
    obtain ⟨d', taken', equal⟩ := keeps.nested taken
    refine ⟨Assoc.ofPairs (earlier ++ (name, d') :: later), by rw [exchanged u' d' taken'], ?_⟩
    refine equal.map (f := fun d => Assoc.ofPairs (earlier ++ (name, d) :: later))
      (g := fun d => Assoc.ofPairs (byNameTable earlier ++ (name, d) :: byNameTable later))
      fun d => ?_
    simp only [byNameTable_eq, Assoc.mapValues_ofPairs]
    simp only [Assoc.mapValues, List.map_append, List.map_cons]

/-- The value of a field stays what it is, but for an order, if a descriptor in it does. -/
theorem exists_equal_of_holds {u u' v v' : Json} {t : FieldType} (holds : Holds u u' t v v')
    (present : u ≠ .null) (keeps : Keeps unordered u u') (annotations : Bool) {x : t.Value}
    (h : t.ofJson v = .ok x) :
    ∃ x', t.ofJson v' = .ok x' ∧ EqualBut unordered (t.byName annotations) x x' := by
  cases holds with
  | descriptor => exact keeps.nested h
  | optional =>
    obtain ⟨d, taken, rfl⟩ := (optional_eq_ok_iff present).1 h
    obtain ⟨d', taken', equal⟩ := keeps.nested taken
    have present' : u' ≠ .null := by
      rintro rfl
      cases taken'
    exact ⟨some d', (optional_eq_ok_iff present').2 ⟨d', taken', rfl⟩,
      equal.map (f := some) (g := some) fun _ => rfl⟩
  | element => exact exists_equal_list keeps h
  | entry =>
    obtain ⟨table, taken, equal⟩ := exists_equal_table keeps h
    refine ⟨table, taken, ?_⟩
    cases annotations with
    | false => exact equal
    | true => exact equal.map (f := id) (g := Assoc.sortKeys) fun _ => rfl

/-- Annotations in another order are the same but for that. -/
theorem exists_equal_of_perm {entries entries' : List (String × Json)}
    (perm : entries.Perm entries') (distinct : Assoc.Distinct entries)
    {table : List (String × Descriptor)} (h : tableOfJson (.obj entries) = .ok table) :
    ∃ table', tableOfJson (.obj entries') = .ok table' ∧
      Assoc.sortKeys (byNameTable table) = Assoc.sortKeys (byNameTable table') := by
  simp only [tableOfJson] at h ⊢
  split at h
  · cases h
  · rename_i pairs read
    cases h
    obtain ⟨pairs', read', permuted⟩ := readsTable_tableOfEntries.perm perm read
    have keys : Assoc.keys pairs = Assoc.keys entries := readsTable_tableOfEntries.keys_eq read
    have distinctPairs : Assoc.Distinct pairs := by
      unfold Assoc.Distinct
      rwa [keys]
    refine ⟨Assoc.ofPairs pairs', by rw [read'], ?_⟩
    rw [Assoc.ofPairs_of_distinct distinctPairs,
      Assoc.ofPairs_of_distinct (distinctPairs.perm permuted.symm), byNameTable_eq, byNameTable_eq]
    refine Assoc.sortKeys_eq_of_perm ?_ (permuted.map _)
    unfold Assoc.Distinct
    rwa [Assoc.keys_mapValues]

end Descriptor

namespace Kind

variable {k k' : Kind} {f g : Field} {members : List (String × Json)} {w : Json}

theorem IsOf.eq (isOf : k.IsOf members) (alone : under ["kind"] members = [("kind", w)])
    (read : Kind.ofNestedJson w = .ok k') : k = k' := by
  obtain ⟨w', mem, read'⟩ := isOf
  rw [Assoc.eq_of_under_eq_singleton alone mem, read] at read'
  exact (Except.ok.inj read').symm

theorem ne_kind_of_mem (mem : f ∈ k.fields) : f.name ≠ "kind" := by
  intro eq
  have listed : "kind" ∈ k.fields.map Field.name := eq ▸ List.mem_map_of_mem mem
  exact (List.nodup_cons.1 k.distinct_fields).1 listed

theorem field_eq (hf : f ∈ k.fields) (hg : g ∈ k.fields) (same : g.name = f.name) : g = f :=
  List.inj_on_of_nodup_map (List.nodup_cons.1 k.distinct_fields).2 hg hf same

end Kind

theorem Field.GivenBy.perm {f : Field} {members members' : List (String × Json)}
    (perm : members.Perm members') {x : f.type.Value} (given : f.GivenBy members x) :
    f.GivenBy members' x := by
  rcases given with ⟨v, alone, read⟩ | ⟨none, left⟩
  · exact .inl ⟨v, Assoc.under_eq_singleton_of_perm perm alone, read⟩
  · exact .inr ⟨List.perm_nil.1 (none ▸ (perm.filter _).symm), left⟩

namespace Descriptor

variable {unordered : Bool}

/-- Where the value of one field stays what it is, so does the descriptor. -/
theorem keeps_of_exchanges {f : Field} {v v' w w' : Json} (exchanges : Exchanges f v v' w w')
    (field : ∀ x, f.type.ofJson v = .ok x →
      ∃ x', f.type.ofJson v' = .ok x' ∧ EqualBut unordered f.byName x x') :
    Keeps unordered w w' := by
  intro kindOf refines d form
  cases exchanges with
  | @member k before after isOf mem =>
    cases form with
    | @object _ u k' record alone read given =>
      obtain rfl := isOf.eq alone (refines u k' read)
      have other := k.ne_kind_of_mem mem
      have each : ∀ g ∈ k.fields, ∀ x, g.GivenBy (before ++ (f.name, v) :: after) x →
          ∃ x', g.GivenBy (before ++ (f.name, v') :: after) x' ∧
            EqualBut unordered g.byName x x' := by
        intro g hg x givenField
        by_cases same : g.name = f.name
        · obtain rfl := Kind.field_eq mem hg same
          rcases givenField with ⟨u, aloneField, readField⟩ | ⟨none, -⟩
          · obtain ⟨rfl, others⟩ := Assoc.under_insert_eq_singleton_iff.1 aloneField
            obtain ⟨x', read', equal⟩ := field x readField
            exact ⟨x', .inl ⟨v', Assoc.under_insert_eq_singleton_iff.2 ⟨rfl, others⟩, read'⟩,
              equal⟩
          · exact absurd (by simp) (Assoc.not_mem_of_under_eq_nil (v := v) none)
        · refine ⟨x, Field.givenBy_congr ?_ givenField, .refl⟩
          rw [Assoc.under_insert_of_ne (Ne.symm same), Assoc.under_insert_of_ne (Ne.symm same)]
      obtain ⟨record', given', equal⟩ := given.exists_equal each
      rw [Assoc.under_insert_of_ne other] at alone
      have alone' : under ["kind"] (before ++ (f.name, v') :: after) = [("kind", u)] := by
        rwa [Assoc.under_insert_of_ne other]
      exact ⟨_, .object alone' read given', equal.map k.byName_build⟩
  | @value k u before after read here =>
    cases form with
    | @array _ _ k' record read' listed =>
      have same := (refines u k' read').symm.trans read
      cases same
      obtain ⟨record', listed', equal⟩ := listed.exists_equal here field
      exact ⟨_, .array read' listed', equal.map k.byName_build⟩

theorem ne_null_of_respells {v v' : Json} (respells : Respells unordered v v') : v ≠ .null := by
  rintro rfl
  generalize null : Json.null = v at respells
  induction respells with
  | inside exchanges _ _ _ => cases exchanges <;> cases null
  | annotations _ _ _ _ _ exchanges => cases exchanges <;> cases null
  | _ => cases null

/-- **One step.**  A descriptor of which one part is spelled in another way is the same descriptor,
but for the order of annotations where that is given up. -/
theorem keeps_of_respells {v v' : Json} (respells : Respells unordered v v') :
    Keeps unordered v v' := by
  induction respells with
  | @permute members members' perm =>
    intro kindOf refines d form
    cases form with
    | object alone read given =>
      have alone' := Assoc.under_eq_singleton_of_perm perm alone
      exact ⟨_, .object alone' read (given.congr fun f _ x => Field.GivenBy.perm perm), .refl⟩
  | @add k before after name v isOf other absent =>
    intro kindOf refines d form
    cases form with
    | @object _ u k' record alone read given =>
      obtain rfl := isOf.eq alone (refines u k' read)
      have alone' : under ["kind"] (before ++ (name, v) :: after) = [("kind", u)] := by
        rwa [Assoc.under_insert_of_ne other]
      refine ⟨_, .object alone' read (given.congr fun f mem x => Field.givenBy_congr ?_), .refl⟩
      have ne : name ≠ f.name := fun eq => absent (eq ▸ List.mem_map_of_mem mem)
      rw [Assoc.under_insert_of_ne ne]
  | @leaveOut k f before after v isOf mem holds =>
    intro kindOf refines d form
    cases form with
    | @object _ u k' record alone read given =>
      obtain rfl := isOf.eq alone (refines u k' read)
      rw [Assoc.under_insert_of_ne (k.ne_kind_of_mem mem)] at alone
      refine ⟨_, .object alone read (given.congr fun g hg x givenField => ?_), .refl⟩
      by_cases same : g.name = f.name
      · obtain rfl := Kind.field_eq mem hg same
        obtain ⟨y, left, read'⟩ := holds
        rcases givenField with ⟨w, aloneField, readField⟩ | ⟨none, left'⟩
        · obtain ⟨rfl, others⟩ := Assoc.under_insert_eq_singleton_iff.1 aloneField
          cases readField.symm.trans read'
          exact .inr ⟨others, left⟩
        · exact absurd (by simp) (Assoc.not_mem_of_under_eq_nil (v := v) none)
      · refine Field.givenBy_congr ?_ givenField
        rw [Assoc.under_insert_of_ne (Ne.symm same)]
  | @array k members w values mem read enumerates =>
    intro kindOf refines d form
    cases form with
    | @object _ u k' record alone read' given =>
      obtain rfl := Assoc.eq_of_under_eq_singleton alone mem
      cases (refines w k' read').symm.trans read
      exact ⟨_, .array read' (enumerates.listedBy given), .refl⟩
  | inside exchanges holds respells ih =>
    exact keeps_of_exchanges exchanges fun x read =>
      exists_equal_of_holds holds (ne_null_of_respells respells) ih _ read
  | @annotations f entries entries' w w' free named table perm distinct exchanges =>
    refine keeps_of_exchanges exchanges fun x read => ?_
    obtain ⟨name, type, default?⟩ := f
    dsimp only at named table
    subst named table
    obtain ⟨x', read', same⟩ := exists_equal_of_perm perm distinct read
    exact ⟨x', read', same, fun kept => by rw [free] at kept; cases kept⟩

theorem keeps_of_respelled {v v' : Json} (respelled : Respelled unordered v v') :
    Keeps unordered v v' := by
  induction respelled with
  | refl => exact fun kindOf _ d form => ⟨d, form, .refl⟩
  | tail _ last ih =>
    intro kindOf refines d form
    obtain ⟨d', form', equal⟩ := ih kindOf refines d form
    obtain ⟨d'', form'', equal'⟩ := keeps_of_respells last kindOf refines d' form'
    exact ⟨d'', form'', equal.trans equal'⟩

/-! ## All spellings -/

theorem keys_of_descriptorTable {entries : List (String × Json)}
    {table : List (String × Descriptor)}
    (h : FieldType.descriptorTable.ofJson (.obj entries) = .ok table) :
    Assoc.keys table = (Assoc.keys entries).eraseDups := by
  have h : tableOfJson (.obj entries) = .ok table := h
  simp only [tableOfJson] at h
  split at h
  · cases h
  · rename_i pairs read
    cases h
    rw [Assoc.keys_ofPairs, readsTable_tableOfEntries.keys_eq read]

theorem keys_of_scalarTable {entries : List (String × Json)} {table : List (String × Scalar)}
    (h : FieldType.scalarTable.ofJson (.obj entries) = .ok table) :
    Assoc.keys table = (Assoc.keys entries).eraseDups := by
  have h : readScalarTable (.obj entries) = .ok table := h
  simp only [readScalarTable] at h
  split at h
  · cases h
  · rename_i pairs read
    cases h
    rw [Assoc.keys_ofPairs, readsTable_readNamedScalar.keys_eq read]

theorem same_of_byName_eq {d d' : Descriptor} (distinct : d.Distinct) (distinct' : d'.Distinct)
    (h : d.byName = d'.byName) : Same d d' := by
  have left : Same d d'.byName := h ▸ same_byName d distinct
  -- a descriptor by name is what the descriptor is read back as
  have ordered : d'.byName.Distinct := (decodes d'.toJson).one _ (returns d' distinct')
  exact same_trans left (same_symm (same_byName d' distinct') distinct' ordered)

/-- **Spellings decode alike.**  However the descriptors in a value are respelled, it is decoded as
the descriptor that it was, and as the same descriptor if annotations are put in another order, with
everything else where it was.  Of other tables the order of the keys is decoded: they have their
names in that order. -/
theorem spellings_decode_alike {v v' : Json} {d : Descriptor} (decoded : ofJson v = .ok d) :
    (Respelled false v v' → ofJson v' = .ok d) ∧
      (Respelled true v v' →
        ∃ d', ofJson v' = .ok d' ∧ d'.byName = d.byName ∧ d.same d' = true) ∧
      (∀ entries table, FieldType.descriptorTable.ofJson (.obj entries) = .ok table →
        Assoc.keys table = (Assoc.keys entries).eraseDups) ∧
      ∀ entries table, FieldType.scalarTable.ofJson (.obj entries) = .ok table →
        Assoc.keys table = (Assoc.keys entries).eraseDups := by
  have refines : ∀ w k, Kind.ofJson w = .ok k → Kind.ofNestedJson w = .ok k := by
    intro w k read
    cases w with
    | str word => exact read
    | _ => cases read
  have form := ofJson_eq_ok_iff.1 decoded
  refine ⟨fun respelled => ?_, fun respelled => ?_, fun _ _ => keys_of_descriptorTable,
    fun _ _ => keys_of_scalarTable⟩
  · obtain ⟨d', form', -, equal⟩ := keeps_of_respelled respelled _ refines d form
    rw [equal rfl]
    exact ofJson_eq_ok_iff.2 form'
  · obtain ⟨d', form', order, -⟩ := keeps_of_respelled respelled _ refines d form
    have decoded' := ofJson_eq_ok_iff.2 form'
    exact ⟨d', decoded', order.symm,
      same_of_byName_eq (distinct_of_ofJson decoded) (distinct_of_ofJson decoded') order⟩

/-- A class that is spelled anew: a type variable in it becomes an array without its bound, which is
null, the class gets a key that it does not know, and its own keys change places.  The function in
it may have its annotations in another order besides. -/
theorem spellings_decode_alike_of_nested :
    let kind : String × Json := ("kind", .str "class")
    let name : String × Json := ("name", .str "C")
    let long : Json := .obj [("kind", .str "type_var"), ("bound", .null), ("name", .str "T")]
    let short : Json := .arr [.str "type_var", .str "T"]
    let a : String × Json := ("a", .obj [("kind", .str "none")])
    let b : String × Json := ("b", .obj [("kind", .str "any")])
    let function (annotations : List (String × Json)) : Json :=
      .obj [("kind", .str "function"), ("name", .str "f"), ("annotations", .obj annotations)]
    let v : Json := .obj [kind, name, ("fields", .obj [("x", long), ("f", function [a, b])])]
    let w (annotations : List (String × Json)) : Json := .obj [("doc", .null), kind,
      ("fields", .obj [("x", short), ("f", function annotations)]), name]
    let d : Descriptor := .classDecl "C"
      [("x", .typeVar "T" .none []), ("f", .function "f" [("a", .none), ("b", .any)] [])] []
    ofJson v = .ok d ∧ ofJson (w [a, b]) = .ok d ∧
      ∃ d', ofJson (w [b, a]) = .ok d' ∧ d'.byName = d.byName := by
  intro kind name long short a b function v w d
  have decoded : ofJson v = .ok d := by
    cbv
  have isClass {members : List (String × Json)} (mem : kind ∈ members) :
      Kind.classDecl.IsOf members := ⟨_, mem, rfl⟩
  have fields : ⟨"fields", .descriptorTable, some []⟩ ∈ Kind.classDecl.fields := by
    simp [Kind.fields]
  have annotations : ⟨"annotations", .descriptorTable, some []⟩ ∈ Kind.function.fields := by
    simp [Kind.fields]
  have shortened (unordered : Bool) : Respells unordered long short := by
    refine .array (k := .typeVar) List.mem_cons_self rfl (.given (by simp [Kind.required]) ?_)
    refine .leftOut (List.forall_mem_cons.2 ⟨⟨rfl, fun u mem => ⟨.none, rfl, ?_⟩⟩,
      List.forall_mem_singleton.2 ⟨rfl, fun u mem => by simp at mem⟩⟩)
    obtain rfl : u = .null := by simpa using mem
    rfl
  have respelled (unordered : Bool) : Respelled unordered v (w [a, b]) := by
    have inside : Respells unordered
        (.obj ([kind, name] ++
          ("fields", .obj ([] ++ ("x", long) :: [("f", function [a, b])])) :: []))
        (.obj ([kind, name] ++
          ("fields", .obj ([] ++ ("x", short) :: [("f", function [a, b])])) :: [])) :=
      .inside (.member (isClass List.mem_cons_self) fields) .entry (shortened unordered)
    have added : Respells unordered
        (.obj ([] ++ [kind, name, ("fields", .obj [("x", short), ("f", function [a, b])])]))
        (.obj ([] ++ ("doc", .null) ::
          [kind, name, ("fields", .obj [("x", short), ("f", function [a, b])])])) :=
      .add .null (isClass List.mem_cons_self) (by decide) (by decide)
    exact ((Relation.ReflTransGen.single inside).tail added).tail
      (.permute ((List.Perm.swap ..).cons _ |>.cons _))
  have reordered : Respells true (w [a, b]) (w [b, a]) := by
    have inner : Respells true
        (.obj ([("kind", .str "function"), ("name", .str "f")] ++
          ("annotations", .obj [a, b]) :: []))
        (.obj ([("kind", .str "function"), ("name", .str "f")] ++
          ("annotations", .obj [b, a]) :: [])) :=
      .annotations rfl rfl rfl (.swap ..) (by simp [a, b, Assoc.Distinct, Assoc.keys])
        (.member ⟨_, List.mem_cons_self, rfl⟩ annotations)
    have outer : Respells true
        (.obj ([("doc", .null), kind] ++
          ("fields", .obj ([("x", short)] ++ ("f", function [a, b]) :: [])) :: [name]))
        (.obj ([("doc", .null), kind] ++
          ("fields", .obj ([("x", short)] ++ ("f", function [b, a]) :: [])) :: [name])) :=
      .inside (.member (isClass (by simp)) fields) .entry inner
    exact outer
  obtain ⟨same, -⟩ := spellings_decode_alike decoded
  obtain ⟨-, but, -⟩ := spellings_decode_alike decoded
  obtain ⟨d', read, order, -⟩ := but ((respelled true).tail reordered)
  exact ⟨decoded, same (respelled false), d', read, order⟩

end Descriptor

end TypeCatalog
