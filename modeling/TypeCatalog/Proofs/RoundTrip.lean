import TypeCatalog.Descriptor.Encode
import TypeCatalog.Proofs.Decoding

/-!
Descriptors written and read again.

The proof has two halves that meet at `Record.Written`: the members of an object write a record if
they are its fields, each under its name and in order, and each is read back as its value there.
Reading members that write a record gives the record, whatever the fields are
(`draftOfMembers_of_written`), and a descriptor is written as its kind and members that write its
record, provided that the descriptors in it are read back (`exists_written`).  The annotations of a
function are in no order and are written by name, so what is read is the descriptor with its
annotations in that order (`byName`), which is the same descriptor (`same_byName`).
-/

namespace TypeCatalog

/-! ## Annotations in order -/

namespace Descriptor

mutual

/-- A descriptor with the annotations of all functions in it by their names.  Everything else stays
where it is. -/
def byName : Descriptor → Descriptor
  | generic origin args => .generic origin (byNameList args)
  | union members => .union (byNameList members)
  | typeVar name bound constraints =>
    .typeVar name (byNameOption bound) (byNameList constraints)
  | classDecl name fields typeParams => .classDecl name (byNameTable fields) typeParams
  | typedDict name fields total => .typedDict name (byNameTable fields) total
  | newType name supertype => .newType name supertype.byName
  | parameterized base args => .parameterized base.byName (byNameList args)
  | function name annotations paramNames =>
    .function name (Assoc.sortKeys (byNameTable annotations)) paramNames
  | other => other

/-- `byName` on an optional descriptor. -/
def byNameOption : Option Descriptor → Option Descriptor
  | .none => .none
  | some d => some d.byName

/-- `byName` on every descriptor of a list. -/
def byNameList : List Descriptor → List Descriptor
  | [] => []
  | d :: rest => d.byName :: byNameList rest

/-- `byName` on every descriptor of a table. -/
def byNameTable : List (String × Descriptor) → List (String × Descriptor)
  | [] => []
  | (name, d) :: rest => (name, d.byName) :: byNameTable rest

end

theorem byNameList_eq (ds : List Descriptor) : byNameList ds = ds.map byName := by
  induction ds with
  | nil => rfl
  | cons d rest ih => rw [byNameList, ih, List.map_cons]

theorem byNameTable_eq (table : List (String × Descriptor)) :
    byNameTable table = Assoc.mapValues byName table := by
  induction table with
  | nil => rfl
  | cons entry rest ih =>
    obtain ⟨name, d⟩ := entry
    rw [byNameTable, ih]
    rfl

theorem listToJson_eq (ds : List Descriptor) : listToJson ds = ds.map toJson := by
  induction ds with
  | nil => rfl
  | cons d rest ih => rw [listToJson, ih, List.map_cons]

theorem tableToJson_eq (table : List (String × Descriptor)) :
    tableToJson table = Assoc.mapValues toJson table := by
  induction table with
  | nil => rfl
  | cons entry rest ih =>
    obtain ⟨name, d⟩ := entry
    rw [tableToJson, ih]
    rfl

end Descriptor

/-! ## Members that write a record -/

/-- The value of a field that a JSON value gives. -/
def FieldType.ofJson (t : FieldType) (v : Json) : Except Fault t.Value :=
  FieldType.read v (fun _ => Descriptor.ofNestedJson v) (fun _ => Descriptor.listOfJson v)
    (fun _ => Descriptor.tableOfJson v) t

/-- Members are the fields of a record, in order, and each is read back as its value. -/
def Record.Written : (fs : List Field) → Record fs → List (String × Json) → Prop
  | [], _, members => members = []
  | f :: fs, (x, rest), members =>
    ∃ v later, members = (f.name, v) :: later ∧ f.type.ofJson v = .ok x ∧
      Record.Written fs rest later

/-- The draft in which every field has its value. -/
def Draft.full : (fs : List Field) → Record fs → Draft fs
  | [], _ => ()
  | _ :: fs, (x, rest) => (some x, Draft.full fs rest)

/-- A record is written field by field, each where it is declared. -/
theorem Record.Written.cons {f : Field} {fs : List Field} {x : f.type.Value} {rest : Record fs}
    {v : Json} {later : List (String × Json)} (read : f.type.ofJson v = .ok x)
    (written : Record.Written fs rest later) :
    Record.Written (f :: fs) (x, rest) ((f.name, v) :: later) :=
  ⟨v, later, rfl, read, written⟩

theorem Record.Written.names {fs : List Field} {record : Record fs} {members : List (String × Json)}
    (h : Record.Written fs record members) : members.map Prod.fst = fs.map Field.name := by
  induction fs generalizing members with
  | nil =>
    have empty : members = [] := h
    rw [empty]
    rfl
  | cons f fs ih =>
    obtain ⟨x, rest⟩ := record
    obtain ⟨v, later, rfl, -, written⟩ := h
    rw [List.map_cons, List.map_cons, ih written]

/-- A draft that is full is a record as it stands. -/
theorem Draft.finish_full (fs : List Field) (record : Record fs) :
    (Draft.full fs record).finish = .ok record := by
  induction fs with
  | nil => rfl
  | cons f fs ih =>
    obtain ⟨x, rest⟩ := record
    simp only [full, finish, ih]
    rfl

section Put

variable {name : String} {read : (t : FieldType) → Except Fault t.Value} {f : Field}
  {fs : List Field}

/-- The member of the first field goes there. -/
theorem Draft.put_first {x : f.type.Value} (taken : read f.type = .ok x) (rest : Draft fs) :
    Draft.put f.name read (f :: fs) (none, rest) = .ok (some x, rest) := by
  simp only [put, if_pos, taken]

/-- The member of a later field passes the first one by. -/
theorem Draft.put_later (other : f.name ≠ name) (value : Option f.type.Value)
    {rest rest' : Draft fs} (h : rest.put name read = .ok rest') :
    Draft.put name read (f :: fs) (value, rest) = .ok (value, rest') := by
  simp only [put, if_neg other, h]

/-- What is no field of a table is passed over. -/
theorem Draft.put_of_not_mem (absent : name ∉ fs.map Field.name) (draft : Draft fs) :
    draft.put name read = .ok draft := by
  induction fs with
  | nil => rfl
  | cons f fs ih =>
    obtain ⟨value, rest⟩ := draft
    rw [List.map_cons, List.mem_cons, not_or] at absent
    exact put_later (Ne.symm absent.1) value (ih absent.2 rest)

end Put

namespace Descriptor

/-- A member that is taken is one member less to read. -/
theorem draftOfMembers_put {fs : List Field} {draft draft' : Draft fs} {name : String} {v : Json}
    (h : draft.put name (fun t => t.ofJson v) = .ok draft') (rest : List (String × Json)) :
    draftOfMembers fs draft ((name, v) :: rest) = draftOfMembers fs draft' rest := by
  have put : draft.put name (FieldType.read v (fun _ => ofNestedJson v) (fun _ => listOfJson v)
      (fun _ => tableOfJson v)) = .ok draft' := h
  simp only [draftOfMembers, put]

/-- Members that are not the first field of a table fill in the other fields. -/
theorem draftOfMembers_later {f : Field} {fs : List Field} {members : List (String × Json)}
    (other : f.name ∉ members.map Prod.fst) (value : Option f.type.Value)
    {draft draft' : Draft fs} (h : draftOfMembers fs draft members = .ok draft') :
    draftOfMembers (f :: fs) (value, draft) members = .ok (value, draft') := by
  induction members generalizing draft with
  | nil =>
    simp only [draftOfMembers] at h ⊢
    cases h
    rfl
  | cons entry rest ih =>
    obtain ⟨name, v⟩ := entry
    rw [List.map_cons, List.mem_cons, not_or] at other
    simp only [draftOfMembers] at h
    split at h
    · cases h
    · rename_i next put
      rw [draftOfMembers_put (Draft.put_later other.1 value put)]
      exact ih other.2 h

/-- **Reading what was written.**  Members that write a record fill in all its fields. -/
theorem draftOfMembers_of_written {fs : List Field} (distinct : (fs.map Field.name).Nodup)
    {record : Record fs} {members : List (String × Json)}
    (written : Record.Written fs record members) :
    draftOfMembers fs (Draft.blank fs) members = .ok (Draft.full fs record) := by
  induction fs generalizing members with
  | nil =>
    have empty : members = [] := written
    rw [empty]
    rfl
  | cons f fs ih =>
    obtain ⟨x, rest⟩ := record
    obtain ⟨v, later, rfl, read, writtenLater⟩ := written
    rw [List.map_cons, List.nodup_cons] at distinct
    -- the first member fills in the first field, and no later member has its name
    have other : f.name ∉ later.map Prod.fst := by
      rw [writtenLater.names]
      exact distinct.1
    have first : Draft.put f.name (fun t => t.ofJson v) (f :: fs) (Draft.blank (f :: fs)) =
        .ok (some x, Draft.blank fs) := Draft.put_first read _
    rw [draftOfMembers_put first]
    exact draftOfMembers_later other _ (ih distinct.2 writtenLater)

end Descriptor

/-! ## Kinds -/

namespace Kind

theorem ofName?_name (k : Kind) : ofName? k.name = some k := by
  cases k <;> rfl

theorem ofJson_name (k : Kind) : Kind.ofJson (.str k.name) = .ok k := by
  simp only [Kind.ofJson, ofName?_name]

theorem ofNestedJson_name (k : Kind) : Kind.ofNestedJson (.str k.name) = .ok k :=
  k.ofJson_name

/-- No two fields of a kind have one name, and none has the name of the kind's own member. -/
theorem distinct_fields (k : Kind) : ("kind" :: k.fields.map Field.name).Nodup := by
  cases k <;> decide

variable {read : Json → Except Fault Kind} {k : Kind}

/-- Members that do not tell the kind leave the one that is known. -/
theorem ofMembers_of_not_mem {members : List (String × Json)}
    (absent : "kind" ∉ members.map Prod.fst) : Kind.ofMembers read (some k) members = .ok k := by
  induction members with
  | nil => rfl
  | cons entry rest ih =>
    obtain ⟨name, v⟩ := entry
    rw [List.map_cons, List.mem_cons, not_or] at absent
    rw [Kind.ofMembers, if_neg (Ne.symm absent.1), ih absent.2]

/-- The kind is read where it is written. -/
theorem ofMembers_of_first {members : List (String × Json)} {v : Json} (first : read v = .ok k)
    (absent : "kind" ∉ members.map Prod.fst) :
    Kind.ofMembers read .none (("kind", v) :: members) = .ok k := by
  rw [Kind.ofMembers, if_pos rfl]
  simp only [first]
  exact ofMembers_of_not_mem absent

end Kind

/-! ## Descriptors -/

namespace Descriptor

/-- Behind its kind, members that write the record of a descriptor are read as the descriptor. -/
theorem ofMembers_of_written {k : Kind} {record : Record k.fields} {members : List (String × Json)}
    (written : Record.Written k.fields record members) (v : Json) :
    ofMembers k (("kind", v) :: members) = .ok (k.build record) := by
  have distinct := List.nodup_cons.1 k.distinct_fields
  have passed : draftOfMembers k.fields (Draft.blank k.fields) (("kind", v) :: members) =
      draftOfMembers k.fields (Draft.blank k.fields) members :=
    draftOfMembers_put (Draft.put_of_not_mem distinct.1 _) members
  unfold ofMembers
  rw [passed, draftOfMembers_of_written distinct.2 written]
  simp only [Draft.finish_full]

/-- What an object with a kind and the members of its record is read as, inside another descriptor
and by itself. -/
theorem of_written {k : Kind} {record : Record k.fields} {members : List (String × Json)}
    (written : Record.Written k.fields record members) :
    ofNestedJson (.obj (("kind", .str k.name) :: members)) = .ok (k.build record) ∧
      ofJson (.obj (("kind", .str k.name) :: members)) = .ok (k.build record) := by
  have absent : "kind" ∉ members.map Prod.fst := by
    rw [written.names]
    exact (List.nodup_cons.1 k.distinct_fields).1
  have built := ofMembers_of_written written (.str k.name)
  constructor
  · have kind := Kind.ofMembers_of_first k.ofNestedJson_name absent
    unfold ofMembers at built
    simp only [ofNestedJson, kind]
    exact built
  · have kind := Kind.ofMembers_of_first k.ofJson_name absent
    simp only [ofJson, kind, built]

/-! ## Values of fields -/

theorem readScalar_toJson (v : Scalar) : readScalar v.toJson = .ok v := by
  simp only [readScalar, v.ofJson?_toJson]

/-- Texts are read as they are written. -/
theorem readTexts_map (texts : List String) : readTexts (.arr (texts.map .str)) = .ok texts := by
  have each : readEach readText (texts.map .str) = .ok (texts.map id) :=
    (reads_readEach _).map fun _ _ => rfl
  rwa [List.map_id] at each

theorem readScalars_map (values : List Scalar) :
    readScalars (.arr (values.map Scalar.toJson)) = .ok values := by
  have each : readEach readScalar (values.map Scalar.toJson) = .ok (values.map id) :=
    (reads_readEach _).map fun v _ => readScalar_toJson v
  rwa [List.map_id] at each

/-- A table of values is read as it is written, since it has each key once. -/
theorem readScalarTable_mapValues {table : List (String × Scalar)}
    (distinct : Assoc.Distinct table) :
    readScalarTable (.obj (Assoc.mapValues Scalar.toJson table)) = .ok table := by
  have each : readEach readNamedScalar (Assoc.mapValues Scalar.toJson table) = .ok table := by
    have values : readEach readNamedScalar (Assoc.mapValues Scalar.toJson table) =
        .ok (Assoc.mapValues id table) :=
      readsTable_readNamedScalar.mapValues fun v _ => readScalar_toJson v
    rw [values]
    simp [Assoc.mapValues]
  simp only [readScalarTable, each, Assoc.ofPairs_of_distinct distinct]

/-- A descriptor inside another is read back, its annotations by their names. -/
def Returns (d : Descriptor) : Prop :=
  ofNestedJson d.toJson = .ok d.byName

/-- Descriptors that are returned one by one are returned in a list. -/
theorem listOfJson_listToJson {ds : List Descriptor} (each : ∀ d ∈ ds, Returns d) :
    listOfJson (.arr (listToJson ds)) = .ok (byNameList ds) := by
  rw [listOfJson, listToJson_eq, byNameList_eq]
  exact reads_listOfItems.map each

/-- So are those in a table, which has each key once. -/
theorem tableOfJson_mapValues {table : List (String × Descriptor)} (distinct : Assoc.Distinct table)
    (each : ∀ d ∈ table.map Prod.snd, Returns d) :
    tableOfJson (.obj (Assoc.mapValues toJson table)) = .ok (Assoc.mapValues byName table) := by
  have entries : tableOfEntries (Assoc.mapValues toJson table) =
      .ok (Assoc.mapValues byName table) := readsTable_tableOfEntries.mapValues each
  have distinct' : Assoc.Distinct (Assoc.mapValues byName table) := by
    unfold Assoc.Distinct
    rwa [Assoc.keys_mapValues]
  simp only [tableOfJson, entries, Assoc.ofPairs_of_distinct distinct']

theorem tableOfJson_tableToJson {table : List (String × Descriptor)}
    (distinct : Assoc.Distinct table) (each : ∀ d ∈ table.map Prod.snd, Returns d) :
    tableOfJson (.obj (tableToJson table)) = .ok (byNameTable table) := by
  rw [tableToJson_eq, byNameTable_eq]
  exact tableOfJson_mapValues distinct each

/-- Annotations are written in the order of their names, and read in that order. -/
theorem tableOfJson_sortKeys {table : List (String × Descriptor)} (distinct : Assoc.Distinct table)
    (each : ∀ d ∈ table.map Prod.snd, Returns d) :
    tableOfJson (.obj (Assoc.sortKeys (tableToJson table))) =
      .ok (Assoc.sortKeys (byNameTable table)) := by
  have perm := Assoc.sortKeys_perm table
  rw [tableToJson_eq, byNameTable_eq, Assoc.sortKeys_mapValues, Assoc.sortKeys_mapValues]
  exact tableOfJson_mapValues (distinct.perm perm) fun d hd => each d ((perm.map _).mem_iff.1 hd)

/-- Only a bound that is absent is written as null: every descriptor is written as an object. -/
theorem ofJson_optionToJson {bound : Option Descriptor} (each : ∀ d ∈ bound.toList, Returns d) :
    FieldType.optional.ofJson (optionToJson bound) = .ok (byNameOption bound) := by
  cases bound with
  | none => rfl
  | some d =>
    have read : ofNestedJson d.toJson = .ok d.byName := each d List.mem_cons_self
    obtain ⟨members, written⟩ : ∃ members, d.toJson = .obj members := by
      cases d <;> exact ⟨_, rfl⟩
    rw [written] at read
    have given : optionToJson (some d) = .obj members := written
    rw [given]
    simp only [FieldType.ofJson, FieldType.read, read]
    rfl

/-! ## The round trip -/

/-- **Writing.**  A descriptor is written as its kind and members that write its record, if the
descriptors in it are read back. -/
theorem exists_written (d : Descriptor) (distinct : d.TableDistinct)
    (each : ∀ c ∈ d.components, Returns c) :
    ∃ members record, d.toJson = .obj (("kind", .str d.kind.name) :: members) ∧
      Record.Written d.kind.fields record members ∧ d.kind.build record = d.byName := by
  cases d with
  | empty | none | any | ellipsis => exact ⟨[], (), rfl, rfl, rfl⟩
  | unclassified repr => exact ⟨_, (repr, ()), rfl, .cons rfl rfl, rfl⟩
  | builtin name => exact ⟨_, (name, ()), rfl, .cons rfl rfl, rfl⟩
  | ref name => exact ⟨_, (name, ()), rfl, .cons rfl rfl, rfl⟩
  | generic origin args =>
    exact ⟨_, (origin, byNameList args, ()), rfl,
      .cons rfl (.cons (listOfJson_listToJson each) rfl), rfl⟩
  | union members =>
    exact ⟨_, (byNameList members, ()), rfl, .cons (listOfJson_listToJson each) rfl, rfl⟩
  | literal values => exact ⟨_, (values, ()), rfl, .cons (readScalars_map values) rfl, rfl⟩
  | enum name members =>
    exact ⟨_, (name, members, ()), rfl,
      .cons rfl (.cons (readScalarTable_mapValues distinct) rfl), rfl⟩
  | typeVar name bound constraints =>
    have ofBound := ofJson_optionToJson fun c hc => each c (List.mem_append_left _ hc)
    have ofConstraints := listOfJson_listToJson fun c hc => each c (List.mem_append_right _ hc)
    exact ⟨_, (name, byNameOption bound, byNameList constraints, ()), rfl,
      .cons rfl (.cons ofBound (.cons ofConstraints rfl)), rfl⟩
  | classDecl name fields typeParams =>
    have ofFields := tableOfJson_tableToJson distinct each
    exact ⟨_, (name, byNameTable fields, typeParams, ()), rfl,
      .cons rfl (.cons ofFields (.cons (readTexts_map typeParams) rfl)), rfl⟩
  | typedDict name fields total =>
    have ofFields := tableOfJson_tableToJson distinct each
    exact ⟨_, (name, byNameTable fields, total, ()), rfl,
      .cons rfl (.cons ofFields (.cons rfl rfl)), rfl⟩
  | newType name supertype =>
    have ofSupertype : ofNestedJson supertype.toJson = .ok supertype.byName :=
      each supertype List.mem_cons_self
    exact ⟨_, (name, supertype.byName, ()), rfl, .cons rfl (.cons ofSupertype rfl), rfl⟩
  | parameterized base args =>
    have ofBase : ofNestedJson base.toJson = .ok base.byName := each base List.mem_cons_self
    have ofArgs := listOfJson_listToJson fun c hc => each c (List.mem_cons_of_mem _ hc)
    exact ⟨_, (base.byName, byNameList args, ()), rfl, .cons ofBase (.cons ofArgs rfl), rfl⟩
  | function name annotations paramNames =>
    have ofAnnotations := tableOfJson_sortKeys distinct each
    exact ⟨_, (name, Assoc.sortKeys (byNameTable annotations), paramNames, ()), rfl,
      .cons rfl (.cons ofAnnotations (.cons (readTexts_map paramNames) rfl)), rfl⟩

/-- Every descriptor is read back inside others. -/
theorem returns (d : Descriptor) (distinct : d.Distinct) : Returns d := by
  induction d using components_induction with
  | step d ih =>
    obtain ⟨members, record, written, writes, built⟩ :=
      exists_written d distinct.table fun c hc => ih c hc (distinct.component hc)
    unfold Returns
    rw [written, ← built]
    exact (of_written writes).1

/-- The order of annotations is nothing to a descriptor. -/
theorem same_byName (d : Descriptor) (distinct : d.Distinct) : Same d d.byName := by
  induction d using components_induction with
  | step d ih =>
    have ih : ∀ c ∈ d.components, Same c c.byName :=
      fun c hc => ih c hc (distinct.component hc)
    have table := distinct.table
    -- parts in a row and parts by name, whichever kinds have them
    have list {ds : List Descriptor} (each : ∀ c ∈ ds, Same c c.byName) :
        List.Forall₂ Same ds (byNameList ds) := by
      rw [byNameList_eq, List.forall₂_map_right_iff]
      exact List.forall₂_same.2 each
    have fields {entries : List (String × Descriptor)} (distinct : Assoc.Distinct entries)
        (each : ∀ c ∈ entries.map Prod.snd, Same c c.byName) :
        Assoc.Agree Same entries (byNameTable entries) := by
      have whole : Assoc.mapValues id entries = entries := List.map_id entries
      have mapped :
          Assoc.Agree Same (Assoc.mapValues id entries) (Assoc.mapValues byName entries) :=
        Assoc.agree_mapValues_iff.2 (.refl distinct fun entry mem =>
          each _ (List.mem_map_of_mem (f := Prod.snd) mem))
      rwa [whole, ← byNameTable_eq] at mapped
    rw [same_iff]
    cases d with
    | generic origin args => exact .generic (list ih)
    | union members => exact .union (list ih)
    | typeVar name bound constraints =>
      have ofConstraints := list fun c hc => ih c (List.mem_append_right _ hc)
      cases bound with
      | none => exact .typeVar .nil ofConstraints
      | some bound => exact .typeVar (.cons (ih bound List.mem_cons_self) .nil) ofConstraints
    | classDecl name fields' typeParams => exact .classDecl (fields table ih)
    | typedDict name fields' total => exact .typedDict (fields table ih)
    | newType name supertype => exact .newType (ih supertype List.mem_cons_self)
    | parameterized base args =>
      exact .parameterized (ih base List.mem_cons_self)
        (list fun c hc => ih c (List.mem_cons_of_mem _ hc))
    | function name annotations paramNames =>
      have perm := Assoc.sortKeys_perm (byNameTable annotations)
      have table' : Assoc.Distinct (byNameTable annotations) := by
        rw [byNameTable_eq]
        unfold Assoc.Distinct
        rwa [Assoc.keys_mapValues]
      exact .function ((fields table ih).perm_right perm.symm (table'.perm perm))
    | _ => exact same_iff.1 (same_refl _ distinct)

/-- **The round trip.**  A descriptor whose tables are maps, written as a JSON value, is read back
from the value as the same descriptor: all fields, members, arguments and values are in the order
that they had, and the annotations of functions, which are in none, are by name. -/
theorem ofJson_toJson (d : Descriptor) (distinct : d.Distinct) :
    ofJson d.toJson = .ok d.byName ∧ d.same d.byName = true := by
  obtain ⟨members, record, written, writes, built⟩ :=
    exists_written d distinct.table fun c hc => returns c (distinct.component hc)
  refine ⟨?_, same_byName d distinct⟩
  rw [written, ← built]
  exact (of_written writes).2

/-- A function with its annotations out of order: a bound that is the absent type stays a bound, a
whole number past 63 bits stays whole, and the negative zero and the one of binary64 stay what they
are. -/
theorem ofJson_toJson_of_function :
    let bounded : Descriptor := .typeVar "T" (some .none) []
    let values : Descriptor := .literal [.uint ⟨9223372036854775808, by decide⟩,
      .float ⟨true, 0, by decide⟩, .float ⟨false, 0x3FF0000000000000, by decide⟩]
    let d : Descriptor := .function "f" [("b", bounded), ("a", values)] ["b", "a"]
    let read : Descriptor := .function "f" [("a", values), ("b", bounded)] ["b", "a"]
    d.Distinct ∧ ofJson d.toJson = .ok read ∧ d.same read = true := by
  intro bounded values d read
  have absent : Distinct none := .of_leaf trivial rfl
  have distinct : d.Distinct := by
    refine .intro ?_ (List.forall_mem_cons.2 ⟨?_, List.forall_mem_singleton.2 ?_⟩)
    · simp [d, TableDistinct, Assoc.Distinct, Assoc.keys]
    · exact .intro trivial (List.forall_mem_singleton.2 absent)
    · exact .of_leaf trivial rfl
  have ordered : d.byName = read := by
    simp [d, read, bounded, values, byName, byNameTable, byNameOption, byNameList, Assoc.sortKeys,
      List.mergeSort]
  exact ⟨distinct, ordered ▸ ofJson_toJson d distinct⟩

end Descriptor

end TypeCatalog
