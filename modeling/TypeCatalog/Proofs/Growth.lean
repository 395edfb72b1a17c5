import TypeCatalog.Registry
import Mathlib.Data.List.Nodup

/-!
How a registry grows.

A registry has grown into another when the other holds the same claims in the same state, and
behind them finished ones only (`Grows`).  This is what a build does to the registry that it
starts from.  A claim that is made before a build and settled after it fits in: finishing it lets
the registry grow by the claim as well (`grows_fill`), and undoing it gives the registry back as
it was before the claim (`abandon_of_grows`).
-/

namespace TypeCatalog.Registry

variable {r r' : Registry} {kind : CollectedKind} {name : String} {source : Descriptor}

/-- A registry is no more than its entries. -/
@[ext] theorem ext_entries {a b : Registry} (h : a.entries = b.entries) : a = b := by
  cases a
  cases b
  cases h
  rfl

/-! ## Looking claims up -/

/-- The kinds and names that are claimed, in order. -/
def keys (r : Registry) : List (CollectedKind × String) :=
  r.entries.map Entry.key

/-- A claim is found under its kind and name, of which there is one. -/
theorem find?_eq_some_iff {e : Entry} :
    r.find? kind name = some e ↔ e ∈ r.entries ∧ e.key = (kind, name) := by
  constructor
  · intro h
    exact ⟨List.mem_of_find?_eq_some h, by simpa using List.find?_some h⟩
  · rintro ⟨he, hk⟩
    cases found : r.find? kind name with
    | none => exact absurd (hk ▸ List.mem_map_of_mem he) (not_mem_of_find?_eq_none found)
    | some e' =>
      have he' : e' ∈ r.entries := List.mem_of_find?_eq_some found
      have hk' : e'.key = (kind, name) := by simpa using List.find?_some found
      exact congrArg some (List.inj_on_of_nodup_map r.distinct he' he (hk'.trans hk.symm))

/-- A name is free if it is not among those claimed. -/
theorem find?_eq_none_iff : r.find? kind name = none ↔ (kind, name) ∉ r.keys := by
  constructor
  · exact not_mem_of_find?_eq_none
  · intro absent
    cases found : r.find? kind name with
    | none => rfl
    | some e =>
      obtain ⟨he, hk⟩ := find?_eq_some_iff.1 found
      exact absurd (List.mem_map.2 ⟨e, he, hk⟩) absent

/-- A name has the shape that its claim was finished with. -/
theorem get?_eq_some_iff {shape : Shape} :
    r.get? kind name = some shape ↔
      ∃ e ∈ r.entries, e.key = (kind, name) ∧ e.shape? = some shape := by
  unfold get?
  rw [Option.bind_eq_some_iff]
  constructor
  · rintro ⟨e, found, finished⟩
    obtain ⟨he, hk⟩ := find?_eq_some_iff.1 found
    exact ⟨e, he, hk, finished⟩
  · rintro ⟨e, he, hk, finished⟩
    exact ⟨e, find?_eq_some_iff.2 ⟨he, hk⟩, finished⟩

/-- The shape by which others know the name of a claim. -/
def Entry.known (e : Entry) : Shape :=
  e.shape?.getD (.reference e.name e.kind)

theorem Entry.known_eq {e : Entry} {shape : Shape} (finished : e.shape? = some shape) :
    e.known = shape := by
  rw [Entry.known, finished, Option.getD_some]

/-- A name is known by its claim, finished or not. -/
theorem known?_eq_map : r.known? kind name = (r.find? kind name).map Entry.known := by
  unfold known? status
  cases found : r.find? kind name with
  | none => rfl
  | some e =>
    have key : (e.kind, e.name) = (kind, name) := (find?_eq_some_iff.1 found).2
    rw [Prod.mk.injEq] at key
    cases finished : e.shape? with
    | none => simp [Entry.status, Entry.known, finished, key]
    | some shape => simp [Entry.status, Entry.known, finished]

/-- A name that a search finds is claimed under one of the kinds. -/
theorem exists_of_search_eq_some {kinds : List CollectedKind} {shape : Shape}
    (h : r.search kinds name = some shape) :
    ∃ e ∈ r.entries, e.name = name ∧ e.kind ∈ kinds ∧ shape = e.known := by
  obtain ⟨kind, hkind, known⟩ := List.exists_of_findSome?_eq_some h
  rw [known?_eq_map, Option.map_eq_some_iff] at known
  obtain ⟨e, found, eq⟩ := known
  obtain ⟨he, key⟩ := find?_eq_some_iff.1 found
  obtain ⟨rfl, rfl⟩ := Prod.mk.inj key
  exact ⟨e, he, rfl, hkind, eq.symm⟩

/-! ## Claiming a name -/

/-- A free name is claimed, and stands behind the others from then on. -/
theorem tryClaim_free (free : r.find? kind name = none) :
    r.tryClaim kind name source = (.ok .vacant, r.push kind name source free) := by
  unfold tryClaim
  split
  · rfl
  · rename_i e found
    rw [free] at found
    cases found

/-- A name that is taken is told how far it is, if it was claimed for the same descriptor, and is a
conflict otherwise. -/
theorem tryClaim_taken {e : Entry} (found : r.find? kind name = some e) :
    r.tryClaim kind name source =
      if e.source.same source then (.ok e.status, r) else (.error (.conflict kind name), r) := by
  unfold tryClaim
  split
  · rename_i free
    rw [found] at free
    cases free
  · rename_i e' found'
    rw [found] at found'
    cases found'
    rfl

@[simp] theorem push_entries (free : r.find? kind name = none) :
    (r.push kind name source free).entries = r.entries ++ [⟨kind, name, source, none⟩] := rfl

@[simp] theorem push_keys (free : r.find? kind name = none) :
    (r.push kind name source free).keys = r.keys ++ [(kind, name)] := by
  simp [keys, Entry.key]

@[simp] theorem fill_entries (shape : Shape) :
    (r.fill kind name shape).entries = r.entries.map fun e =>
      if e.key = (kind, name) then ⟨e.kind, e.name, e.source, some shape⟩ else e := rfl

/-! ## Cutting at a claim -/

/-- No other claim has the key of a claim. -/
theorem key_ne_of_split {first rest : List Entry} {e : Entry}
    (split : r.entries = first ++ e :: rest) :
    (∀ e' ∈ first, e'.key ≠ e.key) ∧ ∀ e' ∈ rest, e'.key ≠ e.key := by
  have nodup := r.distinct
  rw [split, List.map_append, List.map_cons, List.nodup_append, List.nodup_cons] at nodup
  obtain ⟨-, ⟨notLater, -⟩, apart⟩ := nodup
  exact ⟨fun e' he' => apart _ (List.mem_map_of_mem he') _ List.mem_cons_self,
    fun e' he' same => notLater (same ▸ List.mem_map_of_mem he')⟩

/-- What was claimed before a claim stands before it. -/
theorem before_entries_of_split {first rest : List Entry} {e : Entry}
    (split : r.entries = first ++ e :: rest) (key : e.key = (kind, name)) :
    (r.before kind name).entries = first := by
  have others : ∀ e' ∈ first, (e'.key != (kind, name)) = true := fun e' he' =>
    bne_iff_ne.2 fun key' => (key_ne_of_split split).1 e' he' (key'.trans key.symm)
  show r.entries.takeWhile _ = first
  rw [split, List.takeWhile_append_of_pos others, List.takeWhile_cons_of_neg (by simp [key]),
    List.append_nil]

/-- Abandoning an unfinished claim cuts the entries there. -/
theorem abandon_of_inProgress (unfinished : r.status kind name = .inProgress) :
    r.abandon kind name = r.before kind name := by
  unfold abandon
  rw [unfinished]

/-- A name that is free or finished is not abandoned. -/
theorem abandon_of_settled (settled : r.status kind name ≠ .inProgress) :
    r.abandon kind name = r := by
  unfold abandon
  split
  · rename_i unfinished
    exact absurd unfinished settled
  · rfl

/-! ## Growing -/

/-- The same claims in the same state, and behind them finished ones only. -/
def Grows (r r' : Registry) : Prop :=
  ∃ fresh : List Entry, r'.entries = r.entries ++ fresh ∧ ∀ e ∈ fresh, e.shape? ≠ none

theorem Grows.refl (r : Registry) : r.Grows r :=
  ⟨[], (List.append_nil _).symm, fun _ h => absurd h List.not_mem_nil⟩

theorem Grows.trans {a b c : Registry} (first : a.Grows b) (second : b.Grows c) : a.Grows c := by
  obtain ⟨fresh, eq, finished⟩ := first
  obtain ⟨fresh', eq', finished'⟩ := second
  refine ⟨fresh ++ fresh', by rw [eq', eq, List.append_assoc], fun e he => ?_⟩
  rcases List.mem_append.1 he with h | h
  · exact finished e h
  · exact finished' e h

/-- An entry stays where a registry grows. -/
theorem Grows.mem {e : Entry} (h : r.Grows r') (he : e ∈ r.entries) : e ∈ r'.entries := by
  obtain ⟨fresh, eq, -⟩ := h
  rw [eq]
  exact List.mem_append_left _ he

theorem Grows.keys_subset (h : r.Grows r') : r.keys ⊆ r'.keys := by
  intro key hk
  obtain ⟨e, he, rfl⟩ := List.mem_map.1 hk
  exact List.mem_map_of_mem (h.mem he)

section Claimed

variable (free : r.find? kind name = none)

/-- A claim is finished where it stands; what was claimed before it and after it stays as it was. -/
theorem fill_entries_of_append {fresh : List Entry}
    (eq : r'.entries = (r.push kind name source free).entries ++ fresh) (shape : Shape) :
    (r'.fill kind name shape).entries =
      r.entries ++ ⟨kind, name, source, some shape⟩ :: fresh := by
  have nodup := r'.distinct
  rw [eq, push_entries, List.append_assoc, List.map_append, List.nodup_append] at nodup
  have old : ∀ e ∈ r.entries, e.key ≠ (kind, name) := fun e he hk =>
    find?_eq_none_iff.1 free (hk ▸ List.mem_map_of_mem he)
  have new : ∀ e ∈ fresh, e.key ≠ (kind, name) := fun e he hk =>
    (List.nodup_cons.1 nodup.2.1).1 (List.mem_map.2 ⟨e, he, hk⟩)
  have self : (⟨kind, name, source, none⟩ : Entry).key = (kind, name) := rfl
  rw [fill_entries, eq, push_entries, List.append_assoc, List.map_append, List.singleton_append,
    List.map_cons, if_pos self, List.map_congr_left fun e he => if_neg (old e he),
    List.map_congr_left fun e he => if_neg (new e he), List.map_id', List.map_id']

variable (grown : (r.push kind name source free).Grows r')

include grown

/-- A claim is found after whatever was built on its behalf. -/
theorem find?_of_grows : r'.find? kind name = some ⟨kind, name, source, none⟩ :=
  find?_eq_some_iff.2 ⟨grown.mem (List.mem_append_right _ List.mem_cons_self), rfl⟩

/-- A claim is still there to be finished after whatever was built on its behalf. -/
theorem tryFinalize_of_grows (shape : Shape) :
    r'.tryFinalize kind name shape = (.ok shape, r'.fill kind name shape) := by
  unfold tryFinalize
  rw [find?_of_grows free grown]

/-- Finishing a claim lets the registry grow by the claim and all that was built on its behalf. -/
theorem grows_fill (shape : Shape) : r.Grows (r'.fill kind name shape) := by
  obtain ⟨fresh, eq, finished⟩ := grown
  refine ⟨_, fill_entries_of_append free eq shape, ?_⟩
  intro e he
  rcases List.mem_cons.1 he with rfl | later
  · exact Option.some_ne_none shape
  · exact finished e later

/-- A claim that is finished stands in the registry with its shape. -/
theorem exists_filled (shape : Shape) : ∃ e ∈ (r'.fill kind name shape).entries,
    e.kind = kind ∧ e.name = name ∧ e.source = source ∧ e.shape? = some shape := by
  obtain ⟨fresh, eq, -⟩ := grown
  refine ⟨⟨kind, name, source, some shape⟩, ?_, rfl, rfl, rfl, rfl⟩
  rw [fill_entries_of_append free eq shape]
  exact List.mem_append_right _ List.mem_cons_self

/-- Undoing a claim takes back all that was built on its behalf, and nothing else. -/
theorem abandon_of_grows : r'.abandon kind name = r := by
  have claimed : r'.status kind name = .inProgress := by
    rw [status, find?_of_grows free grown]
    rfl
  obtain ⟨fresh, eq, -⟩ := grown
  rw [push_entries, List.append_assoc] at eq
  rw [abandon_of_inProgress claimed]
  exact ext_entries (before_entries_of_split eq rfl)

end Claimed

end TypeCatalog.Registry
