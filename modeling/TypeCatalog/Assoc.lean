/-!
Insertion-ordered maps, kept as lists of pairs.

A key keeps the place where it was first written and the value that was written last
(`put`), so a table of fields, roots or definitions reads in the order of its discovery.
`find?_put_self` and `find?_put_of_ne` say what a write does to look-ups, and `keys_put`
that it moves no key.
-/

namespace TypeCatalog.Assoc

variable {α : Type} {β : Type}

/-- The value written under a key. -/
def find? (key : String) : List (String × α) → Option α
  | [] => none
  | (k, v) :: rest => if k = key then some v else find? key rest

/-- Write a value: in place when the key is there, at the end otherwise. -/
def put (key : String) (value : α) : List (String × α) → List (String × α)
  | [] => [(key, value)]
  | (k, v) :: rest => if k = key then (k, value) :: rest else (k, v) :: put key value rest

/-- Write a run of pairs, first to last. -/
def putAll (table : List (String × α)) : List (String × α) → List (String × α)
  | [] => table
  | (k, v) :: rest => putAll (put k v table) rest

/-- The map that a run of pairs writes. -/
def ofPairs (pairs : List (String × α)) : List (String × α) :=
  putAll [] pairs

/-- The keys in order. -/
def keys (table : List (String × α)) : List String :=
  table.map Prod.fst

/-- Change every value and no key. -/
def mapValues (f : α → β) (table : List (String × α)) : List (String × β) :=
  table.map fun (k, v) => (k, f v)

/-- The entries by their keys, in the order of code points. -/
def sortKeys (table : List (String × α)) : List (String × α) :=
  table.mergeSort fun a b => decide (a.1 ≤ b.1)

/-- Every key is written once. -/
def Distinct (table : List (String × α)) : Prop :=
  (keys table).Nodup

theorem find?_put_self (key : String) (value : α) (table : List (String × α)) :
    find? key (put key value table) = some value := by
  induction table with
  | nil => simp [put, find?]
  | cons entry rest ih =>
    obtain ⟨k, v⟩ := entry
    by_cases h : k = key <;> simp [put, find?, h, ih]

theorem find?_put_of_ne {key other : String} (value : α) (table : List (String × α))
    (ne : key ≠ other) : find? other (put key value table) = find? other table := by
  induction table with
  | nil => simp [put, find?, ne]
  | cons entry rest ih =>
    obtain ⟨k, v⟩ := entry
    by_cases h : k = key
    · subst h; simp [put, find?, ne]
    · by_cases h' : k = other
      · subst h'; simp [put, find?, h]
      · simp [put, find?, h, h', ih]

theorem sizeOf_lt_of_find? [SizeOf α] {key : String} {value : α} {table : List (String × α)}
    (found : find? key table = some value) : sizeOf value < sizeOf table := by
  induction table with
  | nil => cases found
  | cons entry rest ih =>
    obtain ⟨k, v⟩ := entry
    simp only [List.cons.sizeOf_spec, Prod.mk.sizeOf_spec]
    unfold find? at found
    split at found
    · cases found
      omega
    · have later := ih found
      omega

theorem keys_put (key : String) (value : α) (table : List (String × α)) :
    keys (put key value table) =
      if key ∈ keys table then keys table else keys table ++ [key] := by
  induction table with
  | nil => simp [put, keys]
  | cons entry rest ih =>
    obtain ⟨k, v⟩ := entry
    by_cases h : k = key
    · subst h; simp [put, keys]
    · have h' : ¬ key = k := fun e => h e.symm
      simp only [keys] at ih
      simp only [put, h, keys, List.map_cons, List.mem_cons, h', false_or, if_false, ih]
      by_cases m : key ∈ List.map Prod.fst rest <;> simp [m]

theorem distinct_put {key : String} {value : α} {table : List (String × α)}
    (h : Distinct table) : Distinct (put key value table) := by
  unfold Distinct at *
  rw [keys_put]
  split
  · exact h
  · rename_i absent
    rw [List.nodup_append]
    refine ⟨h, by simp, ?_⟩
    intro a ha b hb
    rw [List.mem_singleton] at hb
    subst hb
    exact fun e => absent (e ▸ ha)

theorem distinct_putAll {table : List (String × α)} (pairs : List (String × α))
    (h : Distinct table) : Distinct (putAll table pairs) := by
  induction pairs generalizing table with
  | nil => exact h
  | cons entry rest ih => exact ih (distinct_put h)

theorem distinct_ofPairs (pairs : List (String × α)) : Distinct (ofPairs pairs) :=
  distinct_putAll pairs (by simp [Distinct, keys])

end TypeCatalog.Assoc
