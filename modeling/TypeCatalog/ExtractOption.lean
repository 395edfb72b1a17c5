import TypeCatalog.Json

/-!
Options of an extraction, and sets of them.

A set keeps the two stock options as flags and the callers' own in strictly increasing order,
so that a set has one form: two sets are equal when they hold the same options.
-/

namespace TypeCatalog

/-- An option of an extraction. -/
inductive ExtractOption where
  /-- A union of a type and the absent value is an optional type. -/
  | collapseOptional
  /-- Fields of classes and records are ordered by name. -/
  | sortFields
  /-- A flag of the caller's; shapes record it and nothing else looks at it. -/
  | custom (name : String)
deriving DecidableEq

namespace ExtractOption

/-- The option of a word. -/
def ofName (word : String) : ExtractOption :=
  if word = "collapse-optional" ∨ word = "collapse_optional" then collapseOptional
  else if word = "sort-fields" ∨ word = "sort_fields" then sortFields
  else custom word

/-- The word for an option. -/
def name : ExtractOption → String
  | collapseOptional => "collapse-optional"
  | sortFields => "sort-fields"
  | custom name => name

/-- An option in JSON. -/
def toJson : ExtractOption → Json
  | collapseOptional => .str "collapse_optional"
  | sortFields => .str "sort_fields"
  | custom name => .obj [("custom", .str name)]

end ExtractOption

/-- Put a name in its place among names in increasing order. -/
def insertName (name : String) : List String → List String
  | [] => [name]
  | first :: rest =>
    if name < first then name :: first :: rest
    else if name = first then first :: rest
    else first :: insertName name rest

theorem mem_insertName {name other : String} {names : List String} :
    other ∈ insertName name names ↔ other = name ∨ other ∈ names := by
  induction names with
  | nil => simp [insertName]
  | cons first rest ih =>
    unfold insertName
    split
    · simp
    · split
      · rename_i eq
        subst eq
        simp
      · simp only [List.mem_cons, ih]
        constructor
        · rintro (h | h | h) <;> simp [h]
        · rintro (h | h | h) <;> simp [h]

theorem increasing_insertName {name : String} {names : List String}
    (h : names.Pairwise (· < ·)) : (insertName name names).Pairwise (· < ·) := by
  induction names with
  | nil => simp [insertName]
  | cons first rest ih =>
    rw [List.pairwise_cons] at h
    unfold insertName
    split
    · rename_i less
      refine List.pairwise_cons.2 ⟨?_, List.pairwise_cons.2 h⟩
      intro other m
      rcases List.mem_cons.1 m with rfl | m
      · exact less
      · exact String.lt_trans less (h.1 other m)
    · split
      · exact List.pairwise_cons.2 h
      · rename_i notLess ne
        refine List.pairwise_cons.2 ⟨?_, ih h.2⟩
        intro other m
        rcases mem_insertName.1 m with rfl | m
        · have le : first ≤ other := notLess
          exact Decidable.byContradiction fun notLess' =>
            ne (String.le_antisymm notLess' le)
        · exact h.1 other m

/-- A set of options. -/
structure OptionSet where
  collapseOptional : Bool
  sortFields : Bool
  custom : List String
  increasing : custom.Pairwise (· < ·)
deriving DecidableEq

namespace OptionSet

/-- No options. -/
def empty : OptionSet := ⟨false, false, [], .nil⟩

instance : Inhabited OptionSet := ⟨empty⟩

/-- Add an option. -/
def insert (option : ExtractOption) (s : OptionSet) : OptionSet :=
  match option with
  | .collapseOptional => ⟨true, s.sortFields, s.custom, s.increasing⟩
  | .sortFields => ⟨s.collapseOptional, true, s.custom, s.increasing⟩
  | .custom name =>
    ⟨s.collapseOptional, s.sortFields, insertName name s.custom,
      increasing_insertName s.increasing⟩

/-- Whether a set holds an option. -/
def contains (option : ExtractOption) (s : OptionSet) : Bool :=
  match option with
  | .collapseOptional => s.collapseOptional
  | .sortFields => s.sortFields
  | .custom name => s.custom.contains name

/-- The set of the options in a list. -/
def ofList (options : List ExtractOption) : OptionSet :=
  options.foldl (fun s o => s.insert o) empty

/-- The options of a set: the stock ones first, the others by name. -/
def toList (s : OptionSet) : List ExtractOption :=
  (if s.collapseOptional then [.collapseOptional] else []) ++
    ((if s.sortFields then [.sortFields] else []) ++ s.custom.map .custom)

/-- The number of options. -/
def size (s : OptionSet) : Nat :=
  s.toList.length

/-- Whether a set holds no options. -/
def isEmpty (s : OptionSet) : Bool :=
  s.toList.isEmpty

/-- A set in JSON. -/
def toJson (s : OptionSet) : Json :=
  .arr (s.toList.map ExtractOption.toJson)

theorem mem_toList {option : ExtractOption} {s : OptionSet} :
    option ∈ s.toList ↔ s.contains option = true := by
  cases option <;> cases hc : s.collapseOptional <;> cases hs : s.sortFields <;>
    simp [toList, contains, hc, hs]

end OptionSet

end TypeCatalog
