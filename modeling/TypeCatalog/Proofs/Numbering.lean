import TypeCatalog.Proofs.Growth
import Mathlib.Logic.Function.Basic

/-!
Claims that are numbered.

A registry can also be kept as a table for each kind, in which every row has the number of its
claim, counted over all tables.  A claim is then undone by its number alone: whatever has the same
number or a later one is dropped, from every table.  Nothing is moved back, and the counter is not
set back either.

`Keeps` says when such tables hold what a registry holds: the numbers follow the order of the
claims and are below the counter, and each table has the claims of its kind in that order.  Every
operation answers alike on both, a refusal included, and leaves tables that keep the registry that
it leaves (`claim_alike`, `finalize_alike`, `keeps_abandon`), and so does every sequence of
operations, nested as those of a build are or not (`serveAll_alike`).  So the list of claims, cut
where a claim stands, says what the numbers say.
-/

namespace TypeCatalog

open Registry (Entry Status)

/-! ## Tables with numbers -/

/-- A row in the table of a kind. -/
structure Numbered.Row where
  name : String
  source : Descriptor
  shape? : Option Shape
  /-- The place in the order of all claims that were ever made. -/
  number : Nat

/-- A table for each kind, and the number of the next claim. -/
structure Numbered where
  next : Nat
  table : CollectedKind → List Numbered.Row

namespace Numbered

/-- No claims. -/
def empty : Numbered := ⟨0, fun _ => []⟩

/-- The entry that a row of a table stands for. -/
def Row.entry (kind : CollectedKind) (row : Row) : Entry :=
  ⟨kind, row.name, row.source, row.shape?⟩

/-- The row of a name. -/
def find? (t : Numbered) (kind : CollectedKind) (name : String) : Option Row :=
  (t.table kind).find? fun row => row.name == name

/-- Put another table in the place of that of a kind. -/
def withTable (t : Numbered) (kind : CollectedKind) (rows : List Row) : Numbered :=
  ⟨t.next, Function.update t.table kind rows⟩

@[simp] theorem withTable_self (t : Numbered) (kind : CollectedKind) (rows : List Row) :
    (t.withTable kind rows).table kind = rows := by
  simp [withTable]

@[simp] theorem withTable_of_ne (t : Numbered) {kind other : CollectedKind} (ne : other ≠ kind)
    (rows : List Row) : (t.withTable kind rows).table other = t.table other := by
  simp [withTable, ne]

/-- Claim a name for a descriptor, under the next number if it is free. -/
def claim (t : Numbered) (kind : CollectedKind) (name : String) (source : Descriptor) :
    Except ExtractError Status × Numbered :=
  match t.find? kind name with
  | none =>
    let claimed := t.withTable kind (t.table kind ++ [⟨name, source, none, t.next⟩])
    (.ok .vacant, ⟨t.next + 1, claimed.table⟩)
  | some row =>
    if row.source.same source then (.ok (row.entry kind).status, t)
    else (.error (.conflict kind name), t)

/-- Write a shape into the row of a name. -/
def fill (t : Numbered) (kind : CollectedKind) (name : String) (shape : Shape) : Numbered :=
  t.withTable kind <| (t.table kind).map fun row =>
    if row.name = name then ⟨row.name, row.source, some shape, row.number⟩ else row

/-- Finish a claim. -/
def finalize (t : Numbered) (kind : CollectedKind) (name : String) (shape : Shape) :
    Except ExtractError Shape × Numbered :=
  match t.find? kind name with
  | none => (.error (.unclaimed kind name), t)
  | some row =>
    match row.shape? with
    | none => (.ok shape, t.fill kind name shape)
    | some known =>
      if known.same shape then (.ok known, t) else (.error (.conflict kind name), t)

/-- What a name stands for. -/
def status (t : Numbered) (kind : CollectedKind) (name : String) : Status :=
  match t.find? kind name with
  | none => .vacant
  | some row => (row.entry kind).status

/-- What is numbered below a cutoff, in every table. -/
def below (t : Numbered) (cutoff : Nat) : Numbered :=
  ⟨t.next, fun kind => (t.table kind).filter fun row => row.number < cutoff⟩

theorem below_table (t : Numbered) (cutoff : Nat) (kind : CollectedKind) :
    (t.below cutoff).table kind = (t.table kind).filter fun row => row.number < cutoff := rfl

/-- Undo an unfinished claim and all that have later numbers. -/
def abandon (t : Numbered) (kind : CollectedKind) (name : String) : Numbered :=
  match t.find? kind name with
  | none => t
  | some row =>
    match row.shape? with
    | none => t.below row.number
    | some _ => t

/-! ## Tables that keep a registry -/

/-- The row of an entry that has a number, if it belongs to the table of a kind. -/
def row? (kind : CollectedKind) (p : Entry × Nat) : Option Row :=
  if p.1.kind = kind then some ⟨p.1.name, p.1.source, p.1.shape?, p.2⟩ else none

/-- The entries of a registry have numbers, by which they stand in the tables. -/
structure Stamps (stamped : List (Entry × Nat)) (t : Numbered) (r : Registry) : Prop where
  entries : stamped.map Prod.fst = r.entries
  increasing : stamped.Pairwise fun p q => p.2 < q.2
  bounded : ∀ p ∈ stamped, p.2 < t.next
  tables : ∀ kind, t.table kind = stamped.filterMap (row? kind)

/-- Tables hold the claims of a registry, numbered in their order. -/
def Keeps (t : Numbered) (r : Registry) : Prop :=
  ∃ stamped, Stamps stamped t r

theorem keeps_empty : empty.Keeps .empty :=
  ⟨[], ⟨rfl, .nil, fun _ hp => absurd hp List.not_mem_nil, fun _ => rfl⟩⟩

variable {t : Numbered} {r : Registry} {stamped : List (Entry × Nat)} {kind : CollectedKind}
  {name : String}

theorem row?_of_key {p : Entry × Nat} (key : p.1.key = (kind, name)) :
    row? kind p = some ⟨name, p.1.source, p.1.shape?, p.2⟩ := by
  obtain ⟨rfl, rfl⟩ := Prod.mk.inj key
  exact if_pos rfl

/-- An entry is put down under its own number. -/
theorem number_of_row? {p : Entry × Nat} {row : Row} (h : row? kind p = some row) :
    row.number = p.2 := by
  unfold row? at h
  split at h
  · cases h
    rfl
  · cases h

/-- A row stands under a name if its entry does. -/
theorem any_row? (p : Entry × Nat) :
    (row? kind p).any (fun row => row.name == name) = (p.1.key == (kind, name)) := by
  unfold row? Entry.key
  by_cases same : p.1.kind = kind <;> simp [same]

/-- A name is found in both or in neither. -/
theorem Stamps.find?_cases (stamps : Stamps stamped t r) (kind : CollectedKind) (name : String) :
    (t.find? kind name = none ∧ r.find? kind name = none) ∨
      ∃ e n, (e, n) ∈ stamped ∧ e.key = (kind, name) ∧ r.find? kind name = some e ∧
        t.find? kind name = some ⟨name, e.source, e.shape?, n⟩ := by
  have rows : t.find? kind name =
      (stamped.find? fun p => p.1.key == (kind, name)).bind (row? kind) := by
    unfold find?
    rw [stamps.tables, List.find?_filterMap]
    simp only [any_row?]
  have entries : r.find? kind name =
      (stamped.find? fun p => p.1.key == (kind, name)).map Prod.fst := by
    unfold Registry.find?
    rw [← stamps.entries, List.find?_map]
    rfl
  cases found : stamped.find? fun p => p.1.key == (kind, name) with
  | none =>
    rw [found] at rows entries
    exact .inl ⟨rows, entries⟩
  | some p =>
    rw [found] at rows entries
    have key : p.1.key = (kind, name) := by simpa using List.find?_some found
    exact .inr ⟨p.1, p.2, List.mem_of_find?_eq_some found, key, entries,
      rows.trans (row?_of_key key)⟩

/-! ## Operations -/

/-- The same answer or refusal, and states that agree. -/
structure Alike {α : Type} (a : α × Numbered) (b : α × Registry) : Prop where
  answer : a.1 = b.1
  keeps : a.2.Keeps b.2

/-- A new claim has a later number than all others. -/
theorem Stamps.push {source : Descriptor} (stamps : Stamps stamped t r)
    (free : r.find? kind name = none) :
    Stamps (stamped ++ [(⟨kind, name, source, none⟩, t.next)])
      ⟨t.next + 1, (t.withTable kind (t.table kind ++ [⟨name, source, none, t.next⟩])).table⟩
      (r.push kind name source free) where
  entries := by rw [List.map_append, stamps.entries, Registry.push_entries]; rfl
  increasing := by
    refine List.pairwise_append.2 ⟨stamps.increasing, List.pairwise_singleton _ _, ?_⟩
    intro p hp q hq
    cases List.mem_singleton.1 hq
    exact stamps.bounded p hp
  bounded p hp := by
    rcases List.mem_append.1 hp with old | new
    · exact Nat.lt_succ_of_lt (stamps.bounded p old)
    · cases List.mem_singleton.1 new
      exact Nat.lt_succ_self t.next
  tables other := by
    rw [List.filterMap_append, ← stamps.tables other]
    by_cases same : other = kind
    · subst same
      simp [row?]
    · simp [row?, same, Ne.symm same]

/-- A name is claimed alike: the next number is later than all others, so that the new row stands
last. -/
theorem claim_alike (keeps : t.Keeps r) (kind : CollectedKind) (name : String)
    (source : Descriptor) : Alike (t.claim kind name source) (r.tryClaim kind name source) := by
  obtain ⟨stamped, stamps⟩ := keeps
  rcases stamps.find?_cases kind name with ⟨absent, free⟩ | ⟨e, n, -, key, found, row⟩
  · rw [Registry.tryClaim_free free, claim, absent]
    exact ⟨rfl, _, stamps.push free⟩
  · rw [Registry.tryClaim_taken found, claim, row]
    cases same : e.source.same source with
    | true => exact ⟨by simp [same, Row.entry, Entry.status], by simpa [same] using ⟨_, stamps⟩⟩
    | false => exact ⟨by simp [same], by simpa [same] using ⟨_, stamps⟩⟩

/-- Writing a shape changes no number. -/
theorem Stamps.fill (stamps : Stamps stamped t r) (shape : Shape) :
    Stamps (stamped.map fun p =>
        (if p.1.key = (kind, name) then ⟨p.1.kind, p.1.name, p.1.source, some shape⟩ else p.1, p.2))
      (t.fill kind name shape) (r.fill kind name shape) where
  entries := by
    rw [Registry.fill_entries, ← stamps.entries, List.map_map, List.map_map]
    rfl
  increasing := List.pairwise_map.2 stamps.increasing
  bounded p hp := by
    obtain ⟨q, hq, rfl⟩ := List.mem_map.1 hp
    exact stamps.bounded q hq
  tables other := by
    rw [List.filterMap_map]
    by_cases same : other = kind
    · subst same
      rw [Numbered.fill, withTable_self, stamps.tables, List.map_filterMap]
      refine List.filterMap_congr fun p _ => ?_
      by_cases isKind : p.1.kind = other <;> by_cases named : p.1.name = name <;>
        simp [row?, Entry.key, isKind, named]
    · rw [Numbered.fill, withTable_of_ne t same, stamps.tables]
      refine List.filterMap_congr fun p _ => ?_
      by_cases filled : p.1.key = (kind, name)
      · obtain ⟨rfl, rfl⟩ := Prod.mk.inj filled
        simp [row?, Entry.key, Ne.symm same]
      · simp [row?, filled]

/-- A claim is finished alike, in whatever table it stands. -/
theorem finalize_alike (keeps : t.Keeps r) (kind : CollectedKind) (name : String)
    (shape : Shape) : Alike (t.finalize kind name shape) (r.tryFinalize kind name shape) := by
  obtain ⟨stamped, stamps⟩ := keeps
  rcases stamps.find?_cases kind name with ⟨absent, free⟩ | ⟨e, n, -, key, found, row⟩
  · rw [finalize, absent, Registry.tryFinalize, free]
    exact ⟨rfl, stamped, stamps⟩
  · obtain ⟨kind', name', source, _ | known⟩ := e
    · simp only [finalize, row, Registry.tryFinalize, found]
      exact ⟨rfl, _, stamps.fill shape⟩
    · simp only [finalize, row, Registry.tryFinalize, found]
      cases known.same shape with
      | true => exact ⟨rfl, stamped, stamps⟩
      | false => exact ⟨rfl, stamped, stamps⟩

/-- A name stands for the same thing in both. -/
theorem status_eq (keeps : t.Keeps r) (kind : CollectedKind) (name : String) :
    t.status kind name = r.status kind name := by
  obtain ⟨stamped, stamps⟩ := keeps
  unfold status Registry.status
  rcases stamps.find?_cases kind name with ⟨absent, free⟩ | ⟨e, n, -, key, found, row⟩
  · rw [absent, free]
  · rw [row, found]
    rfl

/-- What has a number below that of a claim was claimed before. -/
theorem Stamps.below {before after : List (Entry × Nat)} {e : Entry} {n : Nat}
    (stamps : Stamps (before ++ (e, n) :: after) t r) (key : e.key = (kind, name)) :
    Stamps before (t.below n) (r.before kind name) where
  entries := by
    have split : r.entries = before.map Prod.fst ++ e :: after.map Prod.fst := by
      rw [← stamps.entries, List.map_append, List.map_cons]
    exact (Registry.before_entries_of_split split key).symm
  increasing := (List.pairwise_append.1 stamps.increasing).1
  bounded p hp := stamps.bounded p (List.mem_append_left _ hp)
  tables other := by
    -- numbers increase along all tables at once, so that the cutoff separates just these two parts
    obtain ⟨-, onward, earlier⟩ := List.pairwise_append.1 stamps.increasing
    have later : ∀ p ∈ (e, n) :: after, n ≤ p.2 := by
      intro p hp
      rcases List.mem_cons.1 hp with rfl | hp
      · exact Nat.le_refl n
      · exact Nat.le_of_lt ((List.pairwise_cons.1 onward).1 p hp)
    have kept : ∀ row ∈ before.filterMap (row? other), decide (row.number < n) = true := by
      intro row hrow
      obtain ⟨p, hp, eq⟩ := List.mem_filterMap.1 hrow
      rw [number_of_row? eq]
      exact decide_eq_true (earlier p hp (e, n) List.mem_cons_self)
    have dropped : ∀ row ∈ ((e, n) :: after).filterMap (row? other),
        ¬decide (row.number < n) = true := by
      intro row hrow
      obtain ⟨p, hp, eq⟩ := List.mem_filterMap.1 hrow
      rw [number_of_row? eq, decide_eq_true_iff]
      exact Nat.not_lt.2 (later p hp)
    rw [below_table, stamps.tables, List.filterMap_append, List.filter_append,
      List.filter_eq_self.2 kept, List.filter_eq_nil_iff.2 dropped, List.append_nil]

/-- What has a later number than a claim stands behind it, so that both are undone alike. -/
theorem keeps_abandon (keeps : t.Keeps r) (kind : CollectedKind) (name : String) :
    (t.abandon kind name).Keeps (r.abandon kind name) := by
  obtain ⟨stamped, stamps⟩ := keeps
  rcases stamps.find?_cases kind name with ⟨absent, free⟩ | ⟨e, n, mem, key, found, row⟩
  · simp only [abandon, absent, Registry.abandon, Registry.status, free]
    exact ⟨stamped, stamps⟩
  · obtain ⟨kind', name', source, _ | known⟩ := e
    · simp only [abandon, row, Registry.abandon, Registry.status, found, Entry.status]
      obtain ⟨before, after, rfl⟩ := List.append_of_mem mem
      exact ⟨before, stamps.below key⟩
    · simp only [abandon, row, Registry.abandon, Registry.status, found, Entry.status]
      exact ⟨stamped, stamps⟩

/-! ## What is read off the tables -/

/-- The tables have the claims of a registry in its order. -/
theorem Keeps.rows (keeps : t.Keeps r) (kind : CollectedKind) :
    (t.table kind).map (Row.entry kind) = r.entries.filter fun e => e.kind = kind := by
  obtain ⟨stamped, stamps⟩ := keeps
  rw [stamps.tables, ← stamps.entries, List.map_filterMap, List.filter_map,
    ← List.filterMap_eq_filter, List.map_filterMap]
  refine List.filterMap_congr fun p _ => ?_
  by_cases same : p.1.kind = kind
  · subst same
    simp [row?, Row.entry, Option.guard]
  · simp [row?, Option.guard, same]

/-- The finished types in the table of a kind, in the order of their claims. -/
def finished (t : Numbered) (kind : CollectedKind) : List (String × Shape) :=
  (t.table kind).filterMap fun row => row.shape?.map (row.name, ·)

/-- All finished types. -/
def catalog (t : Numbered) : Catalog :=
  ⟨t.finished .function, t.finished .classType, t.finished .record, t.finished .typeAlias⟩

/-- The finished types are read off a table in the order of their claims. -/
theorem Keeps.finished (keeps : t.Keeps r) (kind : CollectedKind) :
    t.finished kind = r.table kind := by
  have rows := congrArg (List.filterMap fun e => e.shape?.map (e.name, ·)) (keeps.rows kind)
  rw [List.filterMap_map, List.filterMap_filter] at rows
  simp only [decide_eq_true_eq] at rows
  exact rows

theorem Keeps.catalog (keeps : t.Keeps r) : t.catalog = r.catalog := by
  simp only [Numbered.catalog, Registry.catalog, keeps.finished]

end Numbered

/-! ## Operations in any order -/

/-- A call to a registry. -/
inductive Registry.Operation where
  | claim (kind : CollectedKind) (name : String) (source : Descriptor)
  | finalize (kind : CollectedKind) (name : String) (shape : Shape)
  | abandon (kind : CollectedKind) (name : String)
  | lookup (kind : CollectedKind) (name : String)

/-- What a call is replied with. -/
abbrev Registry.Operation.Reply : Registry.Operation → Type
  | .claim _ _ _ => Except ExtractError Status
  | .finalize _ _ _ => Except ExtractError Shape
  | .abandon _ _ => Unit
  | .lookup _ _ => Status

/-- The replies to all calls. -/
inductive Registry.Answer where
  | status (status : Status)
  | shape (shape : Shape)
  | done
  | refused (fault : ExtractError)

/-- A reply among those to all calls. -/
def Registry.Operation.answer : (op : Registry.Operation) → op.Reply → Registry.Answer
  | .claim _ _ _, .ok status => .status status
  | .claim _ _ _, .error fault => .refused fault
  | .finalize _ _ _, .ok shape => .shape shape
  | .finalize _ _ _, .error fault => .refused fault
  | .abandon _ _, () => .done
  | .lookup _ _, status => .status status

/-- How states of some sort serve the calls to a registry.  A call that is refused leaves a state
as well. -/
structure Registry.Interface (σ : Type) where
  perform : (op : Registry.Operation) → σ → op.Reply × σ

namespace Registry.Interface

variable {σ : Type}

/-- Answer a call. -/
def serve (i : Interface σ) (state : σ) (op : Operation) : Answer × σ :=
  (op.answer (i.perform op state).1, (i.perform op state).2)

/-- Answer calls, first to last. -/
def serveAll (i : Interface σ) (state : σ) : List Operation → List Answer × σ
  | [] => ([], state)
  | op :: later =>
    let (answer, next) := i.serve state op
    let (answers, last) := i.serveAll next later
    (answer :: answers, last)

end Registry.Interface

/-- The operations on the list of claims. -/
def Registry.interface : Registry.Interface Registry where
  perform
    | .claim kind name source, r => r.tryClaim kind name source
    | .finalize kind name shape, r => r.tryFinalize kind name shape
    | .abandon kind name, r => ((), r.abandon kind name)
    | .lookup kind name, r => (r.status kind name, r)

/-- The operations on tables with numbers. -/
def Numbered.interface : Registry.Interface Numbered where
  perform
    | .claim kind name source, t => t.claim kind name source
    | .finalize kind name shape, t => t.finalize kind name shape
    | .abandon kind name, t => ((), t.abandon kind name)
    | .lookup kind name, t => (t.status kind name, t)

namespace Numbered

open Registry (Operation)

variable {t : Numbered} {r : Registry}

/-- A call is replied to alike, and what it leaves agrees. -/
theorem perform_alike (keeps : t.Keeps r) (op : Operation) :
    Alike (interface.perform op t) (Registry.interface.perform op r) := by
  cases op with
  | claim kind name source => exact claim_alike keeps kind name source
  | finalize kind name shape => exact finalize_alike keeps kind name shape
  | abandon kind name => exact ⟨rfl, keeps_abandon keeps kind name⟩
  | lookup kind name => exact ⟨status_eq keeps kind name, keeps⟩

/-- **Numbers are not needed.**  Whatever is claimed, finished, undone and looked up, in any order,
is answered alike by a registry that numbers its claims and undoes them by number. -/
theorem serveAll_alike (keeps : t.Keeps r) (ops : List Operation) :
    (interface.serveAll t ops).1 = (Registry.interface.serveAll r ops).1 ∧
      (interface.serveAll t ops).2.Keeps (Registry.interface.serveAll r ops).2 := by
  induction ops generalizing t r with
  | nil => exact ⟨rfl, keeps⟩
  | cons op later ih =>
    obtain ⟨answer, keeps'⟩ := perform_alike keeps op
    obtain ⟨answers, keeps''⟩ := ih keeps'
    exact ⟨congrArg₂ List.cons (congrArg op.answer answer) answers, keeps''⟩

end Numbered

end TypeCatalog
