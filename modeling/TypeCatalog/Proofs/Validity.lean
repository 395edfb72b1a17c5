import TypeCatalog.Schema
import Mathlib.Data.List.Count

/-!
Which values a schema admits.

`Schema.admits` is the standard reading of the keywords that schemas are written with.  A schema
without keywords admits every value, titles and encodings are remarks, `oneOf` asks for exactly one
of its schemas, and a keyword about arrays or objects is content with all that is none.  What a
pointer admits is not for a schema to say, so the reading takes that from outside.

Numbers are compared as numbers: a whole number and the binary64 number of that value are the same
to `enum`, and both are integers.

`Schema.allows` reads a schema for the sorts of values alone, and over-estimates: a value is of a
sort that is allowed by whatever admits it (`allows_of_admits`).  Two schemas that allow no sort in
common have no value in common (`not_admits_of_apart`).
-/

namespace TypeCatalog

/-! ## Sorts of values -/

/-- The sorts of JSON values, each value being of one. -/
inductive ValueSort where
  | null
  | boolean
  | whole
  | fraction
  | string
  | array
  | object
deriving DecidableEq

/-- All sorts. -/
def ValueSort.all : List ValueSort :=
  [null, boolean, whole, fraction, string, array, object]

theorem ValueSort.mem_all (sort : ValueSort) : sort ∈ all := by
  cases sort <;> decide

namespace Json

/-- A number in steps of `2 ^ -1074`, the smallest that there is between two numbers. -/
def amount? : Json → Option Int
  | int i => some (i * Nat.pow 2 1074)
  | float x =>
    some (if x.negative then -(Binary64.units x.magnitude : Int) else Binary64.units x.magnitude)
  | _ => none

/-- The sort of a number. -/
def sortOfAmount (amount : Int) : ValueSort :=
  if amount % Nat.pow 2 1074 = 0 then .whole else .fraction

/-- The sort of a value. -/
def sort : Json → ValueSort
  | null => .null
  | bool _ => .boolean
  | int i => sortOfAmount (i * Nat.pow 2 1074)
  | float x =>
    sortOfAmount (if x.negative then -(Binary64.units x.magnitude : Int)
      else Binary64.units x.magnitude)
  | str _ => .string
  | arr _ => .array
  | obj _ => .object

theorem sort_of_amount {v : Json} {amount : Int} (h : v.amount? = some amount) :
    v.sort = sortOfAmount amount := by
  cases v <;> cases h <;> rfl

/-- A whole number is a number, and a whole one. -/
theorem sort_int (i : Int) : (int i).sort = .whole :=
  if_pos (Int.mul_emod_left i _)

theorem sort_eq_null_iff {v : Json} : v.sort = .null ↔ v = .null := by
  have number : ∀ amount, sortOfAmount amount ≠ .null := by
    intro amount
    unfold sortOfAmount
    split <;> exact ValueSort.noConfusion
  cases v with
  | null => exact iff_of_true rfl rfl
  | int i => exact iff_of_false (number _) (fun eq => by cases eq)
  | float x => exact iff_of_false (number _) (fun eq => by cases eq)
  | _ => exact iff_of_false (fun eq => by cases eq) (fun eq => by cases eq)

/-- The elements of a value that is an array. -/
def itemsOf : Json → List Json
  | arr items => items
  | _ => []

/-- The members of a value that is an object. -/
def membersOf : Json → List (String × Json)
  | obj members => members
  | _ => []

/-- Whether a value has so many elements, if it is an array. -/
def counts (bound : Nat → Bool) : Json → Bool
  | arr items => bound items.length
  | _ => true

/-- Whether a value has a member of a name, if it is an object. -/
def provides (name : String) : Json → Bool
  | obj members => (Assoc.keys members).contains name
  | _ => true

end Json

/-- Whether a type of JSON values holds values of a sort. -/
def JsonType.holds : JsonType → ValueSort → Bool
  | null, .null => true
  | boolean, .boolean => true
  | integer, .whole => true
  | number, .whole => true
  | number, .fraction => true
  | string, .string => true
  | array, .array => true
  | object, .object => true
  | _, _ => false

/-- Whether a value is one that is listed. -/
def Scalar.denotes (listed : Scalar) (v : Json) : Bool :=
  match listed.toJson.amount?, v.amount? with
  | some a, some b => a == b
  | none, none => Scalar.ofJson? v == some listed
  | _, _ => false

theorem Scalar.sort_of_denotes {listed : Scalar} {v : Json} (h : listed.denotes v = true) :
    listed.toJson.sort = v.sort := by
  unfold denotes at h
  split at h
  · rename_i a b left right
    rw [Json.sort_of_amount left, Json.sort_of_amount right, eq_of_beq h]
  · rename_i left right
    cases v with
    | int => cases right
    | float => cases right
    | _ => cases eq_of_beq h <;> rfl
  · cases h

/-! ## The reading of a schema -/

namespace Schema

/-- How many elements of an array have schemas of their own. -/
def prefixLength : Schema → Nat
  | [] => 0
  | .prefixItems schemas :: _ => schemas.length
  | _ :: rest => prefixLength rest

/-- The members of an object that have schemas of their own. -/
def propertyNames : Schema → List String
  | [] => []
  | .properties schemas :: _ => Assoc.keys schemas
  | _ :: rest => propertyNames rest

end Schema

mutual

/-- Whether a keyword, among those around it, admits a value. -/
def Keyword.admits (pointed : String → Json → Bool) : Keyword → Schema → Json → Bool
  | .type t, _, v => t.holds v.sort
  | .title _, _, _ => true
  | .contentEncoding _, _, _ => true
  | .enum values, _, v => values.any fun listed => listed.denotes v
  | .ref target, _, v => pointed target v
  | .items schema, around, v =>
    (v.itemsOf.drop (Schema.prefixLength around)).all
      fun element => Schema.admitsAll pointed schema schema element
  | .prefixItems schemas, _, v => Schema.admitsEach pointed schemas v.itemsOf
  | .minItems n, _, v => v.counts fun length => n ≤ length
  | .maxItems n, _, v => v.counts fun length => length ≤ n
  | .additionalProperties schema, around, v =>
    v.membersOf.all fun (name, value) =>
      (Schema.propertyNames around).contains name || Schema.admitsAll pointed schema schema value
  | .oneOf schemas, _, v => Schema.countAdmitting pointed schemas v == 1
  | .properties schemas, _, v => Schema.admitsTable pointed schemas v.membersOf
  | .required names, _, v => names.all fun name => v.provides name
  | .defs _, _, _ => true

/-- Whether all of some keywords admit a value. -/
def Schema.admitsAll (pointed : String → Json → Bool) : List Keyword → Schema → Json → Bool
  | [], _, _ => true
  | keyword :: rest, around, v =>
    keyword.admits pointed around v && Schema.admitsAll pointed rest around v

/-- Whether schemas admit the values at their places, as far as there are both. -/
def Schema.admitsEach (pointed : String → Json → Bool) : List (List Keyword) → List Json → Bool
  | schema :: schemas, v :: rest =>
    Schema.admitsAll pointed schema schema v && Schema.admitsEach pointed schemas rest
  | _, _ => true

/-- Whether schemas admit the values of the members that have their names. -/
def Schema.admitsTable (pointed : String → Json → Bool) :
    List (String × List Keyword) → List (String × Json) → Bool
  | [], _ => true
  | (name, schema) :: rest, members =>
    (members.all fun (key, value) => key != name || Schema.admitsAll pointed schema schema value) &&
      Schema.admitsTable pointed rest members

/-- How many of some schemas admit a value. -/
def Schema.countAdmitting (pointed : String → Json → Bool) : List (List Keyword) → Json → Nat
  | [], _ => 0
  | schema :: rest, v =>
    (if Schema.admitsAll pointed schema schema v then 1 else 0) +
      Schema.countAdmitting pointed rest v

end

namespace Schema

variable {pointed : String → Json → Bool}

/-- Whether a schema admits a value, given what its pointers do. -/
def admits (pointed : String → Json → Bool) (schema : Schema) (v : Json) : Bool :=
  admitsAll pointed schema schema v

theorem countAdmitting_eq (schemas : List Schema) (v : Json) :
    countAdmitting pointed schemas v = schemas.countP fun schema => schema.admits pointed v := by
  induction schemas with
  | nil => rfl
  | cons schema rest ih =>
    rw [countAdmitting, List.countP_cons, ih, Nat.add_comm]
    rfl

theorem admits_oneOf (schemas : List Schema) (v : Json) :
    admits pointed [.oneOf schemas] v =
      (schemas.countP (fun schema => schema.admits pointed v) == 1) := by
  simp only [admits, admitsAll, Keyword.admits, Bool.and_true]
  rw [countAdmitting_eq]
  rfl

theorem admits_type (t : JsonType) (v : Json) :
    admits pointed [.type t] v = t.holds v.sort := by
  simp only [admits, admitsAll, Keyword.admits, Bool.and_true]

end Schema

/-! ## Schemas read for sorts -/

mutual

/-- Whether a keyword allows values of a sort. -/
def Keyword.allows (pointed : String → ValueSort → Bool) : Keyword → ValueSort → Bool
  | .type t, sort => t.holds sort
  | .enum values, sort => values.any fun listed => listed.toJson.sort == sort
  | .ref target, sort => pointed target sort
  | .oneOf schemas, sort => Schema.allowedBySome pointed schemas sort
  | _, _ => true

/-- Whether a schema allows values of a sort. -/
def Schema.allows (pointed : String → ValueSort → Bool) : List Keyword → ValueSort → Bool
  | [], _ => true
  | keyword :: rest, sort => keyword.allows pointed sort && Schema.allows pointed rest sort

/-- Whether one of some schemas allows values of a sort. -/
def Schema.allowedBySome (pointed : String → ValueSort → Bool) :
    List (List Keyword) → ValueSort → Bool
  | [], _ => false
  | schema :: rest, sort =>
    Schema.allows pointed schema sort || Schema.allowedBySome pointed rest sort

end

/-- Whatever a pointer admits is of a sort that is allowed for it. -/
def Schema.Bounds (bound : String → ValueSort → Bool) (pointed : String → Json → Bool) : Prop :=
  ∀ target v, pointed target v = true → bound target v.sort = true

variable {pointed : String → Json → Bool} {bound : String → ValueSort → Bool}

mutual

/-- A keyword allows the sort of whatever it admits. -/
theorem Keyword.allows_of_admits (bounded : Schema.Bounds bound pointed) {keyword : Keyword}
    {around : Schema} {v : Json} (h : keyword.admits pointed around v = true) :
    keyword.allows bound v.sort = true := by
  cases keyword with
  | type t => simpa only [Keyword.admits, Keyword.allows] using h
  | enum values =>
    simp only [Keyword.admits, Keyword.allows, List.any_eq_true] at h ⊢
    obtain ⟨listed, mem, denotes⟩ := h
    exact ⟨listed, mem, beq_iff_eq.2 (Scalar.sort_of_denotes denotes)⟩
  | ref target =>
    simp only [Keyword.admits, Keyword.allows] at h ⊢
    exact bounded target v h
  | oneOf schemas =>
    simp only [Keyword.admits, Keyword.allows] at h ⊢
    have one : Schema.countAdmitting pointed schemas v ≠ 0 := by
      rw [eq_of_beq h]
      decide
    exact Schema.allowedBySome_of_countAdmitting bounded one
  | _ => simp only [Keyword.allows]

theorem Schema.allows_of_admitsAll (bounded : Schema.Bounds bound pointed)
    {schema around : List Keyword} {v : Json}
    (h : Schema.admitsAll pointed schema around v = true) :
    Schema.allows bound schema v.sort = true := by
  cases schema with
  | nil => rfl
  | cons keyword rest =>
    simp only [Schema.admitsAll, Schema.allows, Bool.and_eq_true] at h ⊢
    exact ⟨Keyword.allows_of_admits bounded h.1, Schema.allows_of_admitsAll bounded h.2⟩

theorem Schema.allowedBySome_of_countAdmitting (bounded : Schema.Bounds bound pointed)
    {schemas : List (List Keyword)} {v : Json} (h : Schema.countAdmitting pointed schemas v ≠ 0) :
    Schema.allowedBySome bound schemas v.sort = true := by
  cases schemas with
  | nil => exact absurd rfl h
  | cons schema rest =>
    simp only [Schema.countAdmitting, Schema.allowedBySome, Bool.or_eq_true] at h ⊢
    by_cases admitted : Schema.admitsAll pointed schema schema v = true
    · exact .inl (Schema.allows_of_admitsAll bounded admitted)
    · rw [if_neg admitted, Nat.zero_add] at h
      exact .inr (Schema.allowedBySome_of_countAdmitting bounded h)

end

namespace Schema

/-- Two schemas allow no sort in common. -/
def apart (bound : String → ValueSort → Bool) (schema other : Schema) : Bool :=
  ValueSort.all.all fun sort => !(allows bound schema sort && allows bound other sort)

/-- Schemas that allow no sort in common have no value in common. -/
theorem not_admits_of_apart (bounded : Schema.Bounds bound pointed) {schema other : Schema}
    (separate : apart bound schema other = true) {v : Json}
    (one : schema.admits pointed v = true) : other.admits pointed v = false := by
  refine Bool.eq_false_iff.2 fun two => ?_
  have none := List.all_eq_true.1 separate v.sort (ValueSort.mem_all v.sort)
  rw [allows_of_admitsAll bounded one, allows_of_admitsAll bounded two] at none
  cases none

end Schema

end TypeCatalog
