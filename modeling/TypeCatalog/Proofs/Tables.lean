import TypeCatalog.Assoc
import Mathlib.Data.List.Dedup
import Mathlib.Data.List.Induction
import Mathlib.Data.List.Nodup
import Mathlib.Data.List.Perm.Subperm

/-!
Look-ups in insertion-ordered maps.

A look-up finds an entry of the map (`mem_of_find?`), and in a map with distinct keys it finds
every entry (`find?_eq_some_iff`).  Writing and ordering bring in no entries of their own
(`mem_of_mem_ofPairs`, `mem_sortKeys`).  A map that is written from pairs holds under each key what
was written last (`find?_putAll`, `find?_ofPairs_of_last`), and its keys stand where they were
written first (`keys_ofPairs`); it is the pairs themselves, and as long as they are, if and only if
their keys are distinct (`ofPairs_of_distinct`, `length_ofPairs_eq_iff`).  Two maps agree when they
have as many entries and each value of the one is related to the value of the other under the same
key; between maps with distinct keys this goes both ways (`Agree.symm`), and the order of the
entries is nothing to it.  Maps that are `InStep` have the same keys in the same order as well; they
stay so whatever is written under one key in both.
-/

namespace TypeCatalog.Assoc

variable {α : Type}

theorem mem_of_find? {key : String} {value : α} {table : List (String × α)}
    (h : find? key table = some value) : (key, value) ∈ table := by
  induction table with
  | nil => cases h
  | cons entry rest ih =>
    obtain ⟨k, v⟩ := entry
    unfold find? at h
    split at h
    · rename_i eq
      cases h
      subst eq
      exact List.mem_cons_self
    · exact List.mem_cons_of_mem _ (ih h)

/-- A key is not found just in case no entry has it. -/
theorem find?_eq_none_iff {key : String} {table : List (String × α)} :
    find? key table = none ↔ key ∉ keys table := by
  induction table with
  | nil => simp [find?, keys]
  | cons entry rest ih =>
    obtain ⟨k, v⟩ := entry
    unfold find?
    split
    · rename_i eq
      simp [keys, eq]
    · rename_i ne
      rw [ih]
      simp [keys, Ne.symm ne]

theorem mem_keys_of_find? {key : String} {value : α} {table : List (String × α)}
    (h : find? key table = some value) : key ∈ keys table :=
  List.mem_map_of_mem (f := Prod.fst) (mem_of_find? h)

/-- A key that some entry has is found. -/
theorem exists_find?_of_mem_keys {key : String} {table : List (String × α)}
    (h : key ∈ keys table) : ∃ value, find? key table = some value := by
  cases found : find? key table with
  | none => exact absurd h (find?_eq_none_iff.1 found)
  | some value => exact ⟨value, rfl⟩

/-- In a map, what is found under a key is the only entry with that key. -/
theorem find?_eq_some_iff {key : String} {value : α} {table : List (String × α)}
    (distinct : Distinct table) : find? key table = some value ↔ (key, value) ∈ table := by
  refine ⟨mem_of_find?, fun mem => ?_⟩
  cases found : find? key table with
  | none => exact absurd (List.mem_map_of_mem mem) (find?_eq_none_iff.1 found)
  | some other =>
    have eq : (key, other) = (key, value) :=
      List.inj_on_of_nodup_map distinct (mem_of_find? found) mem rfl
    cases eq
    rfl

/-! ## Entries of a map that is written or ordered -/

/-- What is in a map after writing was there before, or is what was written. -/
theorem mem_of_mem_put {key : String} {value : α} {table : List (String × α)}
    {entry : String × α} (h : entry ∈ put key value table) :
    entry ∈ table ∨ entry = (key, value) := by
  induction table with
  | nil => exact .inr (List.mem_singleton.1 h)
  | cons first rest ih =>
    obtain ⟨k, v⟩ := first
    unfold put at h
    split at h
    · rename_i eq
      subst eq
      rcases List.mem_cons.1 h with written | later
      · exact .inr written
      · exact .inl (List.mem_cons_of_mem _ later)
    · rcases List.mem_cons.1 h with here | later
      · exact .inl (List.mem_cons.2 (.inl here))
      · exact (ih later).imp_left (List.mem_cons_of_mem _)

/-- The same for many entries written one after another. -/
theorem mem_of_mem_putAll {pairs table : List (String × α)} {entry : String × α}
    (h : entry ∈ putAll table pairs) : entry ∈ table ∨ entry ∈ pairs := by
  induction pairs generalizing table with
  | nil => exact .inl h
  | cons first rest ih =>
    obtain ⟨k, v⟩ := first
    rcases ih h with written | later
    · exact (mem_of_mem_put written).imp_right fun eq => List.mem_cons.2 (.inl eq)
    · exact .inr (List.mem_cons_of_mem _ later)

/-- A map that is written from pairs holds nothing else. -/
theorem mem_of_mem_ofPairs {pairs : List (String × α)} {entry : String × α}
    (h : entry ∈ ofPairs pairs) : entry ∈ pairs := by
  rcases mem_of_mem_putAll h with none | written
  · cases none
  · exact written

theorem mem_sortKeys {table : List (String × α)} {entry : String × α} :
    entry ∈ sortKeys table ↔ entry ∈ table :=
  List.mem_mergeSort

/-! ## Maps that are written from pairs -/

section Written

variable {pairs table : List (String × α)} {key : String}

/-- Writing pairs after pairs is writing all of them in a row. -/
theorem putAll_append (pairs others table : List (String × α)) :
    putAll table (pairs ++ others) = putAll (putAll table pairs) others := by
  induction pairs generalizing table with
  | nil => rfl
  | cons entry rest ih => exact ih (put entry.1 entry.2 table)

/-- What was written last is found. -/
theorem find?_putAll (key : String) (pairs table : List (String × α)) :
    find? key (putAll table pairs) = (find? key (ofPairs pairs)).or (find? key table) := by
  induction pairs generalizing table with
  | nil => rfl
  | cons entry rest ih =>
    obtain ⟨k, v⟩ := entry
    have onto : putAll table ((k, v) :: rest) = putAll (put k v table) rest := rfl
    have alone : ofPairs ((k, v) :: rest) = putAll [(k, v)] rest := rfl
    rw [onto, alone, ih, ih, Option.or_assoc]
    by_cases eq : k = key
    · subst eq
      simp [find?_put_self, find?]
    · simp [find?_put_of_ne v table eq, find?, eq]

/-- Writing adds just the keys that are written. -/
theorem mem_keys_putAll :
    key ∈ keys (putAll table pairs) ↔ key ∈ keys table ∨ key ∈ keys pairs := by
  induction pairs generalizing table with
  | nil => simp [putAll, keys]
  | cons entry rest ih =>
    obtain ⟨k, v⟩ := entry
    have onto : putAll table ((k, v) :: rest) = putAll (put k v table) rest := rfl
    have first : keys ((k, v) :: rest) = k :: keys rest := rfl
    have written : key ∈ keys (put k v table) ↔ key ∈ keys table ∨ key = k := by
      rw [keys_put]
      split
      · rename_i old
        exact ⟨.inl, fun h => h.elim id fun eq => eq ▸ old⟩
      · rw [List.mem_append, List.mem_singleton]
    rw [onto, ih, written, first, List.mem_cons, or_assoc]

theorem mem_keys_ofPairs : key ∈ keys (ofPairs pairs) ↔ key ∈ keys pairs := by
  unfold ofPairs
  rw [mem_keys_putAll]
  exact ⟨fun h => h.resolve_left (by simp [keys]), .inr⟩

/-- A new key goes behind the others. -/
theorem put_of_not_mem {value : α} (absent : key ∉ keys table) :
    put key value table = table ++ [(key, value)] := by
  induction table with
  | nil => rfl
  | cons entry rest ih =>
    obtain ⟨k, v⟩ := entry
    have other : k ≠ key := fun eq => absent (eq ▸ List.mem_cons_self)
    unfold put
    rw [if_neg other, ih fun later => absent (List.mem_cons_of_mem _ later)]
    rfl

/-- New keys, all different, go behind the others in their order. -/
theorem putAll_of_distinct (distinct : Distinct (table ++ pairs)) :
    putAll table pairs = table ++ pairs := by
  induction pairs generalizing table with
  | nil => exact (List.append_nil table).symm
  | cons entry rest ih =>
    obtain ⟨k, v⟩ := entry
    have split : table ++ (k, v) :: rest = table ++ [(k, v)] ++ rest := by simp
    have absent : k ∉ keys table := by
      unfold Distinct keys at distinct
      rw [List.map_append, List.nodup_append] at distinct
      exact fun mem => distinct.2.2 k mem k List.mem_cons_self rfl
    have onto : putAll table ((k, v) :: rest) = putAll (put k v table) rest := rfl
    rw [onto, put_of_not_mem absent, split]
    exact ih (split ▸ distinct)

/-- Pairs of different keys are the map that is written from them. -/
theorem ofPairs_of_distinct (distinct : Distinct pairs) : ofPairs pairs = pairs :=
  putAll_of_distinct distinct

/-- The last value that is written under a key stands there. -/
theorem find?_ofPairs_of_last {value : α} {earlier later : List (String × α)}
    (last : key ∉ keys later) :
    find? key (ofPairs (earlier ++ (key, value) :: later)) = some value := by
  have none : find? key (ofPairs later) = none := by
    rwa [find?_eq_none_iff, mem_keys_ofPairs]
  have first : ofPairs (earlier ++ (key, value) :: later) =
      putAll (put key value (ofPairs earlier)) later := putAll_append earlier _ []
  rw [first, find?_putAll, none, find?_put_self, Option.none_or]

/-- What counts among pairs of one key is the last of them. -/
theorem find?_ofPairs_of_getElem? {i : Nat} {value : α} (here : pairs[i]? = some (key, value))
    (last : key ∉ keys (pairs.drop (i + 1))) : find? key (ofPairs pairs) = some value := by
  obtain ⟨bound, here⟩ := List.getElem?_eq_some_iff.1 here
  have split : pairs = pairs.take i ++ (key, value) :: pairs.drop (i + 1) := by
    rw [← here, ← List.drop_eq_getElem_cons bound, List.take_append_drop]
  rw [split]
  exact find?_ofPairs_of_last last

/-- The keys that are written, each where it is written first. -/
theorem keys_ofPairs (pairs : List (String × α)) :
    keys (ofPairs pairs) = (keys pairs).eraseDups := by
  induction pairs using List.reverseRecOn with
  | nil => rfl
  | append_singleton pairs entry ih =>
    obtain ⟨k, v⟩ := entry
    have written : ofPairs (pairs ++ [(k, v)]) = put k v (ofPairs pairs) := putAll_append pairs _ []
    have listed : keys (pairs ++ [(k, v)]) = keys pairs ++ [k] := List.map_append
    rw [written, keys_put, listed, List.eraseDups_append, ih]
    by_cases old : k ∈ keys pairs
    · rw [if_pos (List.mem_eraseDups.2 old)]
      simp [List.removeAll, old]
    · rw [if_neg (mt List.mem_eraseDups.1 old)]
      simp [List.removeAll, old, List.eraseDups_cons]

/-- Pairs are all kept just in case their keys are distinct. -/
theorem length_ofPairs_eq_iff : (ofPairs pairs).length = pairs.length ↔ Distinct pairs := by
  constructor
  · intro lengths
    -- the keys of the map are those of the pairs without repetitions
    have perm : (keys (ofPairs pairs)).Perm (keys pairs).dedup :=
      (List.perm_ext_iff_of_nodup (distinct_ofPairs pairs) (List.nodup_dedup _)).2 fun key => by
        rw [List.mem_dedup, mem_keys_ofPairs]
    have whole : (keys pairs).dedup = keys pairs := by
      refine (List.dedup_sublist _).eq_of_length ?_
      rw [← perm.length_eq]
      simpa only [keys, List.length_map] using lengths
    unfold Distinct
    rw [← whole]
    exact List.nodup_dedup _
  · intro distinct
    rw [ofPairs_of_distinct distinct]

/-- Values may be changed before or after one is written. -/
theorem mapValues_put {β : Type} (f : α → β) (key : String) (value : α)
    (table : List (String × α)) :
    mapValues f (put key value table) = put key (f value) (mapValues f table) := by
  induction table with
  | nil => rfl
  | cons entry rest ih =>
    obtain ⟨k, v⟩ := entry
    have first : mapValues f ((k, v) :: rest) = (k, f v) :: mapValues f rest := rfl
    rw [first]
    unfold put
    split
    · rfl
    · rw [← ih]
      rfl

/-- Values may be changed before they are written or after. -/
theorem mapValues_ofPairs {β : Type} (f : α → β) (pairs : List (String × α)) :
    mapValues f (ofPairs pairs) = ofPairs (mapValues f pairs) := by
  suffices ∀ table, mapValues f (putAll table pairs) =
      putAll (mapValues f table) (mapValues f pairs) from this []
  induction pairs with
  | nil => exact fun table => rfl
  | cons entry rest ih =>
    intro table
    obtain ⟨k, v⟩ := entry
    have first : mapValues f ((k, v) :: rest) = (k, f v) :: mapValues f rest := rfl
    rw [first, putAll, putAll, ih, mapValues_put]

end Written

/-- Changing values keeps the keys and their order. -/
theorem keys_mapValues {β : Type} (f : α → β) (table : List (String × α)) :
    keys (mapValues f table) = keys table := by
  unfold keys mapValues
  rw [List.map_map]
  rfl

/-- Values may be changed before the entries are ordered or after. -/
theorem sortKeys_mapValues {β : Type} (f : α → β) (table : List (String × α)) :
    sortKeys (mapValues f table) = mapValues f (sortKeys table) := by
  unfold sortKeys mapValues
  exact (List.map_mergeSort fun _ _ _ _ => by rfl).symm

/-! ## Maps that agree -/

/-- As many entries, and under each key of the one a related value in the other. -/
structure Agree (rel : α → α → Prop) (table other : List (String × α)) : Prop where
  length_eq : table.length = other.length
  within : ∀ key value, (key, value) ∈ table → ∃ v, find? key other = some v ∧ rel value v

section Agree

variable {rel : α → α → Prop} {table other third : List (String × α)}

theorem Agree.refl (distinct : Distinct table) (h : ∀ entry ∈ table, rel entry.2 entry.2) :
    Agree rel table table :=
  ⟨rfl, fun _ value mem => ⟨value, (find?_eq_some_iff distinct).2 mem, h _ mem⟩⟩

/-- The relation between values may be weakened to one that follows from it. -/
theorem Agree.imp {rel' : α → α → Prop} (h : Agree rel table other)
    (each : ∀ a ∈ table.map Prod.snd, ∀ b ∈ other.map Prod.snd, rel a b → rel' a b) :
    Agree rel' table other := by
  refine ⟨h.length_eq, fun key a mem => ?_⟩
  obtain ⟨b, found, related⟩ := h.within key a mem
  have left : a ∈ table.map Prod.snd := List.mem_map_of_mem (f := Prod.snd) mem
  have right : b ∈ other.map Prod.snd := List.mem_map_of_mem (f := Prod.snd) (mem_of_find? found)
  exact ⟨b, found, each a left b right related⟩

/-- Maps agree through a third one. -/
theorem Agree.trans {rel' rel'' : α → α → Prop} (h : Agree rel table other)
    (h' : Agree rel' other third)
    (compose : ∀ entry ∈ table, ∀ b c, rel entry.2 b → rel' b c → rel'' entry.2 c) :
    Agree rel'' table third := by
  refine ⟨h.length_eq.trans h'.length_eq, fun key value mem => ?_⟩
  obtain ⟨b, found, related⟩ := h.within key value mem
  obtain ⟨c, found', related'⟩ := h'.within key b (mem_of_find? found)
  exact ⟨c, found', compose _ mem b c related related'⟩

/-- What is found after values were changed is the changed value. -/
theorem find?_mapValues {β : Type} (f : α → β) (key : String) (table : List (String × α)) :
    find? key (mapValues f table) = (find? key table).map f := by
  induction table with
  | nil => rfl
  | cons entry rest ih =>
    obtain ⟨k, v⟩ := entry
    have split : mapValues f ((k, v) :: rest) = (k, f v) :: mapValues f rest := rfl
    rw [split, find?, find?, ih]
    split <;> rfl

/-- Maps agree with their values changed if the values agree that way. -/
theorem agree_mapValues_iff {β : Type} {rel : β → β → Prop} {f g : α → β} :
    Agree rel (mapValues f table) (mapValues g other) ↔
      Agree (fun a b => rel (f a) (g b)) table other := by
  constructor
  · rintro ⟨lengths, within⟩
    refine ⟨by simpa [mapValues] using lengths, fun key a mem => ?_⟩
    have listed : (key, f a) ∈ mapValues f table :=
      List.mem_map_of_mem (f := fun entry => (entry.1, f entry.2)) mem
    obtain ⟨b', found, related⟩ := within key (f a) listed
    rw [find?_mapValues, Option.map_eq_some_iff] at found
    obtain ⟨b, found, rfl⟩ := found
    exact ⟨b, found, related⟩
  · rintro ⟨lengths, within⟩
    refine ⟨by simpa [mapValues] using lengths, fun key a' mem => ?_⟩
    obtain ⟨⟨k, a⟩, listed, eq⟩ := List.mem_map.1 mem
    cases eq
    obtain ⟨b, found, related⟩ := within _ a listed
    exact ⟨g b, by rw [find?_mapValues, found]; rfl, related⟩

/-- Maps with distinct keys that agree have the same keys. -/
theorem Agree.keys_perm (h : Agree rel table other) (distinct : Distinct table) :
    (keys table).Perm (keys other) := by
  have sub : keys table ⊆ keys other := by
    intro key mem
    obtain ⟨⟨key, value⟩, entry, rfl⟩ := List.mem_map.1 mem
    obtain ⟨v, found, -⟩ := h.within key value entry
    exact List.mem_map.2 ⟨(key, v), mem_of_find? found, rfl⟩
  refine (List.subperm_of_subset distinct sub).perm_of_length_le ?_
  simp only [keys, List.length_map, h.length_eq, Nat.le_refl]

/-- Agreement does not depend on which map is asked for the keys of the other. -/
theorem Agree.symm (h : Agree rel table other) (distinct : Distinct table)
    (distinct' : Distinct other) : Agree (fun b a => rel a b) other table := by
  refine ⟨h.length_eq.symm, fun key b mem => ?_⟩
  have listed : key ∈ keys table :=
    (h.keys_perm distinct).mem_iff.2 (List.mem_map_of_mem (f := Prod.fst) mem)
  obtain ⟨⟨key, a⟩, entry, rfl⟩ := List.mem_map.1 listed
  obtain ⟨v, found, related⟩ := h.within key a entry
  obtain rfl : v = b := Option.some.inj (found.symm.trans ((find?_eq_some_iff distinct').2 mem))
  exact ⟨a, (find?_eq_some_iff distinct).2 entry, related⟩

/-- The order of entries is nothing to a map that agrees. -/
theorem Agree.perm_left {table' : List (String × α)} (h : Agree rel table other)
    (perm : table'.Perm table) : Agree rel table' other :=
  ⟨perm.length_eq.trans h.length_eq, fun key value mem => h.within key value (perm.mem_iff.1 mem)⟩

/-- The order of a map does not matter to what it agrees with. -/
theorem Agree.perm_right {other' : List (String × α)} (h : Agree rel table other)
    (perm : other.Perm other') (distinct : Distinct other') : Agree rel table other' := by
  refine ⟨h.length_eq.trans perm.length_eq, fun key value mem => ?_⟩
  obtain ⟨v, found, related⟩ := h.within key value mem
  exact ⟨v, (find?_eq_some_iff distinct).2 (perm.mem_iff.1 (mem_of_find? found)), related⟩

end Agree

/-! ## Maps in step -/

/-- The same keys in the same order, with values that are related. -/
def InStep (rel : α → α → Prop) (table other : List (String × α)) : Prop :=
  List.Forall₂ (fun entry entry' => entry.1 = entry'.1 ∧ rel entry.2 entry'.2) table other

section InStep

variable {rel : α → α → Prop} {table other : List (String × α)}

theorem InStep.imp {rel' : α → α → Prop} (h : InStep rel table other)
    (each : ∀ a b, rel a b → rel' a b) : InStep rel' table other :=
  List.Forall₂.imp (fun _ _ both => ⟨both.1, each _ _ both.2⟩) h

/-- Tables in step agree as maps. -/
theorem InStep.agree (h : InStep rel table other) (distinct : Distinct other) :
    Agree rel table other := by
  refine ⟨h.length_eq, fun key value mem => ?_⟩
  unfold InStep at h
  suffices ∃ v, (key, v) ∈ other ∧ rel value v by
    obtain ⟨v, mem, related⟩ := this
    exact ⟨v, (find?_eq_some_iff distinct).2 mem, related⟩
  clear distinct
  induction h with
  | nil => cases mem
  | @cons entry entry' _ _ first _ ih =>
    rcases List.mem_cons.1 mem with rfl | later
    · exact ⟨entry'.2, List.mem_cons.2 (.inl (Prod.ext first.1 rfl)), first.2⟩
    · obtain ⟨v, mem, related⟩ := ih later
      exact ⟨v, List.mem_cons_of_mem _ mem, related⟩

/-- The same names over lists that are related one by one are tables in step. -/
theorem inStep_zip (names : List String) {as bs : List α} (h : List.Forall₂ rel as bs) :
    InStep rel (names.zip as) (names.zip bs) := by
  induction h generalizing names with
  | nil =>
    rw [List.zip_nil_right]
    exact .nil
  | cons first _ ih =>
    cases names with
    | nil => exact .nil
    | cons name names => exact .cons ⟨rfl, first⟩ (ih names)

/-- Writing related values under one key keeps tables in step. -/
theorem InStep.put (h : InStep rel table other) (key : String) {a b : α} (related : rel a b) :
    InStep rel (put key a table) (put key b other) := by
  induction h with
  | nil => exact .cons ⟨rfl, related⟩ .nil
  | @cons entry entry' rest rest' first later ih =>
    obtain ⟨k, v⟩ := entry
    obtain ⟨k', v'⟩ := entry'
    obtain ⟨rfl, values⟩ := first
    unfold Assoc.put
    split
    · exact .cons ⟨rfl, related⟩ later
    · exact .cons ⟨rfl, values⟩ ih

/-- Maps that are written from pairs in step are in step. -/
theorem InStep.ofPairs {pairs pairs' : List (String × α)} (h : InStep rel pairs pairs') :
    InStep rel (ofPairs pairs) (ofPairs pairs') := by
  suffices ∀ {table other : List (String × α)}, InStep rel table other →
      InStep rel (putAll table pairs) (putAll other pairs') from this .nil
  induction h with
  | nil => exact fun onto => onto
  | @cons entry entry' rest rest' first later ih =>
    intro table other onto
    obtain ⟨k, v⟩ := entry
    obtain ⟨k', v'⟩ := entry'
    obtain ⟨rfl, values⟩ := first
    exact ih (onto.put k values)

end InStep

/-! ## Tables from names -/

/-- Different names make a map of whatever stands under them. -/
theorem distinct_zip {names : List String} (nodup : names.Nodup) (values : List α) :
    Distinct (names.zip values) := by
  unfold Distinct keys
  induction names generalizing values with
  | nil => exact .nil
  | cons name names ih =>
    rw [List.nodup_cons] at nodup
    cases values with
    | nil => exact .nil
    | cons value values =>
      rw [List.zip_cons_cons, List.map_cons]
      refine List.nodup_cons.2 ⟨fun mem => ?_, ih nodup.2 values⟩
      obtain ⟨⟨other, v⟩, listed, rfl⟩ := List.mem_map.1 mem
      exact nodup.1 (List.of_mem_zip listed).1

/-- Ordering a table moves its entries, and neither drops nor adds one. -/
theorem sortKeys_perm (table : List (String × α)) : (sortKeys table).Perm table :=
  List.mergeSort_perm _ _

theorem Distinct.perm {table table' : List (String × α)} (distinct : Distinct table)
    (perm : table'.Perm table) : Distinct table' :=
  (perm.map Prod.fst).nodup_iff.2 distinct

/-! ## Sorted tables -/

/-- A table that is sorted by its keys, which are distinct, has them in increasing order. -/
theorem keys_sortKeys_increasing {table : List (String × α)} (distinct : Distinct table) :
    (keys (sortKeys table)).Pairwise (· < ·) := by
  have sorted : (sortKeys table).Pairwise fun a b => decide (a.1 ≤ b.1) = true := by
    refine List.pairwise_mergeSort (fun a b c first second => ?_) (fun a b => ?_) table
    · exact decide_eq_true
        (String.le_trans (of_decide_eq_true first) (of_decide_eq_true second))
    · simp [String.le_total]
  have apart : (sortKeys table).Pairwise fun a b => a.1 ≠ b.1 :=
    List.pairwise_map.1 (distinct.perm (sortKeys_perm table))
  refine List.pairwise_map.2 ((sorted.and apart).imp fun ⟨le, ne⟩ => ?_)
  exact Std.lt_of_le_of_ne (of_decide_eq_true le) ne

/-- A map is sorted in one way only, whatever the order of its entries was. -/
theorem sortKeys_eq_of_perm {table table' : List (String × α)} (distinct : Distinct table)
    (perm : table.Perm table') : sortKeys table = sortKeys table' := by
  have perms : (sortKeys table).Perm (sortKeys table') :=
    (sortKeys_perm table).trans (perm.trans (sortKeys_perm table').symm)
  have increasing : (sortKeys table).Pairwise fun a b => a.1 < b.1 :=
    List.pairwise_map.1 (keys_sortKeys_increasing distinct)
  have increasing' : (sortKeys table').Pairwise fun a b => a.1 < b.1 :=
    List.pairwise_map.1 (keys_sortKeys_increasing (distinct.perm perm.symm))
  refine perms.eq_of_pairwise (fun a b _ _ lt gt => ?_) increasing increasing'
  exact absurd gt (String.lt_asymm lt)

end TypeCatalog.Assoc
