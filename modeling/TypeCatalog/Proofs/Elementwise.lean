import TypeCatalog.Descriptor.Text
import TypeCatalog.Proofs.Tables

/-!
Lists and tables that are read element by element.

Lists of texts, scalars and descriptors and tables of scalars and descriptors are read alike: each
element by itself, and the whole if nothing fails (`Reads`, `ReadsTable`).  Hence a list is read as
another one just in case its elements are read as the elements of that (`eq_ok_iff`), and what holds
of whatever an element is read as holds of all that is read (`Reads.forall_mem`).  One element may
be exchanged for another that is read (`exchange`), and a table may be put in another order
(`ReadsTable.perm`).
-/

namespace TypeCatalog

variable {α β γ ε ε' : Type} {read : α → Except ε β}

/-! ## Lists -/

/-- A reading of a list whose elements are read by `read`, all of them. -/
structure Reads (read : α → Except ε β) (all : List α → Except ε' (List β)) : Prop where
  nil {ys : List β} : all [] = .ok ys ↔ ys = []
  cons {x : α} {rest : List α} {ys : List β} :
    all (x :: rest) = .ok ys ↔ ∃ y zs, read x = .ok y ∧ all rest = .ok zs ∧ ys = y :: zs

namespace Reads

variable {all : List α → Except ε' (List β)}

/-- All are read just in case each of them is, and what comes of each stands at its place. -/
theorem eq_ok_iff (reads : Reads read all) {xs : List α} {ys : List β} :
    all xs = .ok ys ↔ xs.map read = ys.map .ok := by
  induction xs generalizing ys with
  | nil => cases ys <;> simp [reads.nil]
  | cons x rest ih =>
    rw [reads.cons]
    constructor
    · rintro ⟨y, zs, first, later, rfl⟩
      rw [List.map_cons, List.map_cons, first, ih.1 later]
    · intro h
      cases ys with
      | nil => cases h
      | cons y zs =>
        obtain ⟨first, later⟩ := List.cons.inj h
        exact ⟨y, zs, first, ih.2 later, rfl⟩

/-- What holds of each that is read holds of all. -/
theorem forall_mem (reads : Reads read all) {holds : β → Prop} {xs : List α} {ys : List β}
    (each : ∀ x ∈ xs, ∀ y, read x = .ok y → holds y) (h : all xs = .ok ys) :
    ∀ y ∈ ys, holds y := by
  intro y hy
  have taken : .ok y ∈ xs.map read := reads.eq_ok_iff.1 h ▸ List.mem_map_of_mem hy
  obtain ⟨x, hx, eq⟩ := List.mem_map.1 taken
  exact each x hx y eq

/-- A list is read just in case each of its elements is. -/
theorem exists_ok_iff (reads : Reads read all) {xs : List α} :
    (∃ ys, all xs = .ok ys) ↔ ∀ x ∈ xs, ∃ y, read x = .ok y := by
  induction xs with
  | nil => exact iff_of_true ⟨[], reads.nil.2 rfl⟩ (List.forall_mem_nil _)
  | cons x rest ih =>
    rw [List.forall_mem_cons, ← ih]
    constructor
    · rintro ⟨ys, h⟩
      obtain ⟨y, zs, first, later, -⟩ := reads.cons.1 h
      exact ⟨⟨y, first⟩, zs, later⟩
    · rintro ⟨⟨y, first⟩, zs, later⟩
      exact ⟨y :: zs, reads.cons.2 ⟨y, zs, first, later, rfl⟩⟩

/-- Elements that are each read back are read back together. -/
theorem map (reads : Reads read all) {f : γ → α} {g : γ → β} {xs : List γ}
    (each : ∀ x ∈ xs, read (f x) = .ok (g x)) : all (xs.map f) = .ok (xs.map g) := by
  rw [reads.eq_ok_iff, List.map_map, List.map_map]
  exact List.map_congr_left each

/-- A list that is read has an element that is read, and is read if that is exchanged. -/
theorem exchange (reads : Reads read all)
    {before after : List α} {x : α} {ys : List β} (h : all (before ++ x :: after) = .ok ys) :
    ∃ earlier y later, read x = .ok y ∧ ys = earlier ++ y :: later ∧
      ∀ x' y', read x' = .ok y' → all (before ++ x' :: after) = .ok (earlier ++ y' :: later) := by
  induction before generalizing ys with
  | nil =>
    obtain ⟨y, zs, first, later, rfl⟩ := reads.cons.1 h
    exact ⟨[], y, zs, first, rfl, fun x' y' read' => reads.cons.2 ⟨y', zs, read', later, rfl⟩⟩
  | cons w before ih =>
    obtain ⟨z, zs, first, later, rfl⟩ := reads.cons.1 h
    obtain ⟨earlier, y, rest, taken, rfl, exchanged⟩ := ih later
    exact ⟨z :: earlier, y, rest, taken, rfl, fun x' y' read' =>
      reads.cons.2 ⟨z, _, first, exchanged x' y' read', rfl⟩⟩

end Reads

/-! ## Tables -/

/-- A reading of a table whose values are read by `read`, all of them. -/
structure ReadsTable (read : α → Except ε β)
    (all : List (String × α) → Except ε' (List (String × β))) : Prop where
  nil {table : List (String × β)} : all [] = .ok table ↔ table = []
  cons {name : String} {v : α} {rest : List (String × α)} {table : List (String × β)} :
    all ((name, v) :: rest) = .ok table ↔
      ∃ x others, read v = .ok x ∧ all rest = .ok others ∧ table = (name, x) :: others

namespace ReadsTable

variable {all : List (String × α) → Except ε' (List (String × β))}

/-- All are read just in case each of them is, and what comes of each stands at its place. -/
theorem eq_ok_iff (reads : ReadsTable read all) {entries : List (String × α)}
    {table : List (String × β)} :
    all entries = .ok table ↔ Assoc.mapValues read entries = Assoc.mapValues .ok table := by
  induction entries generalizing table with
  | nil => cases table <;> simp [reads.nil, Assoc.mapValues]
  | cons entry rest ih =>
    obtain ⟨name, v⟩ := entry
    rw [reads.cons]
    constructor
    · rintro ⟨x, others, first, later, rfl⟩
      have later := ih.1 later
      simp only [Assoc.mapValues, List.map_cons, first] at later ⊢
      rw [later]
    · intro h
      cases table with
      | nil => cases h
      | cons entry' others =>
        obtain ⟨first, later⟩ := List.cons.inj h
        obtain ⟨rfl, taken⟩ := Prod.mk.inj first
        exact ⟨entry'.2, others, taken, ih.2 later, rfl⟩

/-- What holds of each that is read holds of all. -/
theorem forall_mem (reads : ReadsTable read all) {holds : β → Prop}
    {entries : List (String × α)} {table : List (String × β)}
    (each : ∀ v ∈ entries.map Prod.snd, ∀ x, read v = .ok x → holds x)
    (h : all entries = .ok table) : ∀ entry ∈ table, holds entry.2 := by
  intro entry mem
  have taken : (entry.1, .ok entry.2) ∈ Assoc.mapValues read entries :=
    reads.eq_ok_iff.1 h ▸ List.mem_map_of_mem mem
  obtain ⟨⟨name, v⟩, hv, eq⟩ := List.mem_map.1 taken
  exact each v (List.mem_map_of_mem hv) entry.2 (Prod.mk.inj eq).2

/-- Values that are each read back are read back together. -/
theorem mapValues (reads : ReadsTable read all) {f : γ → α} {g : γ → β}
    {table : List (String × γ)} (each : ∀ x ∈ table.map Prod.snd, read (f x) = .ok (g x)) :
    all (Assoc.mapValues f table) = .ok (Assoc.mapValues g table) := by
  rw [reads.eq_ok_iff]
  simp only [Assoc.mapValues, List.map_map]
  refine List.map_congr_left fun entry mem => ?_
  exact congrArg (Prod.mk entry.1) (each entry.2 (List.mem_map_of_mem mem))

/-- A table is read under the keys that it has. -/
theorem keys_eq (reads : ReadsTable read all) {entries : List (String × α)}
    {table : List (String × β)} (h : all entries = .ok table) :
    Assoc.keys table = Assoc.keys entries := by
  have each := congrArg Assoc.keys (reads.eq_ok_iff.1 h)
  rw [Assoc.keys_mapValues, Assoc.keys_mapValues] at each
  exact each.symm

/-- A table that is read has a value that is read, and is read if that is exchanged. -/
theorem exchange (reads : ReadsTable read all) {before after : List (String × α)}
    {name : String} {x : α} {table : List (String × β)}
    (h : all (before ++ (name, x) :: after) = .ok table) :
    ∃ earlier y later, read x = .ok y ∧ table = earlier ++ (name, y) :: later ∧
      ∀ x' y', read x' = .ok y' →
        all (before ++ (name, x') :: after) = .ok (earlier ++ (name, y') :: later) := by
  induction before generalizing table with
  | nil =>
    obtain ⟨y, others, first, later, rfl⟩ := reads.cons.1 h
    exact ⟨[], y, others, first, rfl, fun x' y' read' =>
      reads.cons.2 ⟨y', others, read', later, rfl⟩⟩
  | cons entry before ih =>
    obtain ⟨key, w⟩ := entry
    obtain ⟨z, others, first, later, rfl⟩ := reads.cons.1 h
    obtain ⟨earlier, y, rest, taken, rfl, exchanged⟩ := ih later
    exact ⟨(key, z) :: earlier, y, rest, taken, rfl, fun x' y' read' =>
      reads.cons.2 ⟨z, _, first, exchanged x' y' read', rfl⟩⟩

/-- A table in another order is read in that order. -/
theorem perm (reads : ReadsTable read all) {entries entries' : List (String × α)}
    (perm : entries.Perm entries') {table : List (String × β)} (h : all entries = .ok table) :
    ∃ table', all entries' = .ok table' ∧ table.Perm table' := by
  induction perm generalizing table with
  | nil => exact ⟨table, h, .refl _⟩
  | cons entry _ ih =>
    obtain ⟨x, others, first, later, rfl⟩ := reads.cons.1 h
    obtain ⟨others', later', perm⟩ := ih later
    exact ⟨_, reads.cons.2 ⟨x, others', first, later', rfl⟩, perm.cons _⟩
  | swap entry entry' rest =>
    obtain ⟨x, _, first, later, rfl⟩ := reads.cons.1 h
    obtain ⟨y, others, second, last, rfl⟩ := reads.cons.1 later
    exact ⟨_, reads.cons.2 ⟨y, _, second, reads.cons.2 ⟨x, others, first, last, rfl⟩, rfl⟩,
      .swap ..⟩
  | trans _ _ ih ih' =>
    obtain ⟨middle, taken, perm⟩ := ih h
    obtain ⟨table', taken', perm'⟩ := ih' taken
    exact ⟨table', taken', perm.trans perm'⟩

end ReadsTable

/-! ## What is read so -/

theorem reads_readEach (read : α → Except Fault β) : Reads read (readEach read) where
  nil := by simp [readEach, eq_comm]
  cons {x rest ys} := by
    cases first : read x with
    | error fault => simp [readEach, first]
    | ok y => cases later : readEach read rest <;> simp [readEach, first, later, eq_comm]

theorem readsTable_readNamedScalar : ReadsTable readScalar (readEach readNamedScalar) where
  nil := (reads_readEach _).nil
  cons {name v rest table} := by
    rw [(reads_readEach _).cons]
    cases first : readScalar v <;> simp [readNamedScalar, first]

namespace Descriptor

theorem reads_listOfItems : Reads ofNestedJson listOfItems where
  nil := by simp [listOfItems, eq_comm]
  cons {x rest ys} := by
    cases first : ofNestedJson x with
    | error fault => simp [listOfItems, first]
    | ok y => cases later : listOfItems rest <;> simp [listOfItems, first, later, eq_comm]

theorem readsTable_tableOfEntries : ReadsTable ofNestedJson tableOfEntries where
  nil := by simp [tableOfEntries, eq_comm]
  cons {name v rest table} := by
    cases first : ofNestedJson v with
    | error fault => simp [tableOfEntries, first]
    | ok d => cases later : tableOfEntries rest <;> simp [tableOfEntries, first, later, eq_comm]

theorem readsTable_tableOfOuterEntries : ReadsTable ofJson tableOfOuterEntries where
  nil := by simp [tableOfOuterEntries, eq_comm]
  cons {name v rest table} := by
    cases first : ofJson v with
    | error r => simp [tableOfOuterEntries, first]
    | ok d =>
      cases later : tableOfOuterEntries rest <;>
        simp [tableOfOuterEntries, first, later, eq_comm]

end Descriptor

end TypeCatalog
