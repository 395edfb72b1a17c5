import Mathlib.Data.List.Permutation
import TypeCatalog.Proofs.Assembly
import TypeCatalog.Proofs.Failure
import TypeCatalog.Proofs.References

/-!
Well-made shapes.

A registry outlives the options that its types were built under: a union may meet an alias that was
collapsed to an optional type when it is not to collapse itself, or the union of an alias that was
not collapsed when it is.  Whatever it meets is opened and spliced before it is looked at, so that a
union is well made if what it is made of is, under any options (`orderly_of_combines`).

`Shape.WellMade` says what a shape is on its face under the options that it records itself, and no
others; `Shape.Orderly` says so of all that occurs in it.  What is assembled from orderly shapes is
orderly (`orderly_assembled`), every step of a run keeps the finished claims orderly
(`orderlyLaw`), and so do all calls of a session (`shapes_are_well_made`).
-/

namespace TypeCatalog

namespace Shape

/-- What a shape is on its face under the options that it records: a union has members that are
apart, two at least, and no union or optional type among them, and is not what would have collapsed;
an optional type has collapsed, and there was something to collapse; an open tuple has one element,
a literal type some value; and fields that were to be sorted are. -/
def WellMade : Shape → Prop
  | union members o =>
    2 ≤ members.length ∧ (members.Pairwise fun a b => a.same b = false ∧ b.same a = false) ∧
      (∀ a ∈ members, a.isAtom = true) ∧
      (o.contains .collapseOptional = true →
        ∀ other, members ≠ [none, other] ∧ members ≠ [other, none])
  | optional inner o => o.contains .collapseOptional = true ∧ inner ≠ none ∧ inner.isAtom = true
  | tuple elements variadic _ => variadic = true → elements.length = 1
  | literal values => values ≠ []
  | classType _ fields o => o.contains .sortFields = true → (Assoc.keys fields).Pairwise (· < ·)
  | record _ fields _ o => o.contains .sortFields = true → (Assoc.keys fields).Pairwise (· < ·)
  | _ => True

/-- All that occurs in a shape is sound and well made. -/
abbrev Orderly : Shape → Prop := Throughout fun x => x.Sound ∧ x.WellMade

variable {o : OptionSet} {x a : Shape} {xs : List Shape}

theorem Orderly.proper (orderly : Orderly x) : x.Proper :=
  orderly.imp fun _ face => face.1

theorem orderly_unknown : Orderly unknown :=
  throughout_of_leaf ⟨sound_of_set_eq_nil ⟨.nil, .nil⟩ rfl, trivial⟩ rfl

theorem orderly_none : Orderly none :=
  throughout_of_leaf ⟨sound_of_set_eq_nil ⟨.nil, .nil⟩ rfl, trivial⟩ rfl

theorem orderly_reference (name : String) (kind : CollectedKind) :
    Orderly (reference name kind) :=
  throughout_of_leaf ⟨sound_of_set_eq_nil ⟨.nil, .nil⟩ rfl, trivial⟩ rfl

/-! ## Unions of orderly shapes -/

/-- What an orderly shape brings into a union is neither a union nor an optional type. -/
theorem Orderly.of_mem_brought (orderly : Orderly x) (h : a ∈ x.brought) :
    Orderly a ∧ a.isAtom = true := by
  cases atom : x.isAtom with
  | true =>
    rw [brought_of_isAtom atom, List.mem_singleton] at h
    subst h
    exact ⟨orderly, atom⟩
  | false =>
    cases x with
    | union members p =>
      have listed : a ∈ members := by simpa [brought, reopened, spliced] using h
      exact ⟨orderly.child listed, orderly.self.2.2.2.1 a listed⟩
    | optional inner p =>
      have inside : inner.isAtom = true := orderly.self.2.2.2
      rw [brought_optional inside] at h
      rcases List.mem_pair.1 h with rfl | rfl
      · exact ⟨orderly.child List.mem_cons_self, inside⟩
      · exact ⟨orderly_none, rfl⟩
    | _ => cases atom

/-- An orderly shape brings something into a union. -/
theorem Orderly.exists_brought (orderly : Orderly x) : ∃ b, b ∈ x.brought := by
  cases atom : x.isAtom with
  | true => exact ⟨x, brought_of_isAtom atom ▸ List.mem_cons_self⟩
  | false =>
    cases x with
    | union members p =>
      obtain ⟨b, hb⟩ := List.exists_mem_of_length_pos
        (Nat.lt_of_lt_of_le Nat.zero_lt_two orderly.self.2.1)
      exact ⟨b, by simpa [brought, reopened, spliced] using hb⟩
    | optional inner p =>
      exact ⟨inner, brought_optional orderly.self.2.2.2 ▸ List.mem_cons_self⟩
    | _ => cases atom

section Members

variable (orderly : ∀ x ∈ xs, Orderly x)

include orderly

theorem orderly_of_mem_members (h : a ∈ members xs) : Orderly a ∧ a.isAtom = true := by
  obtain ⟨x, hx, brought⟩ := mem_brought_of_mem_members h
  exact (orderly x hx).of_mem_brought brought

/-- The members of a union are apart, whichever of two is compared with the other. -/
theorem orderly_members_apart :
    (members xs).Pairwise fun a b => a.same b = false ∧ b.same a = false := by
  have apart : (members xs).Pairwise fun a b => a.same b = false := firsts_pairwise _
  refine apart.imp_of_mem fun {a b} ha hb different => ⟨different, ?_⟩
  refine Bool.eq_false_iff.2 fun same => ?_
  have back : Same a b := same_symm same (orderly_of_mem_members orderly hb).1.proper
    (orderly_of_mem_members orderly ha).1.proper
  rw [Same, different] at back
  cases back

theorem members_ne_nil (some : xs ≠ []) : members xs ≠ [] := by
  obtain ⟨x, hx⟩ := List.exists_mem_of_ne_nil xs some
  obtain ⟨b, hb⟩ := (orderly x hx).exists_brought
  obtain ⟨c, hc, -⟩ := exists_member_of_mem_brought hx hb
  exact List.ne_nil_of_mem hc

/-- The union of some orderly shapes is orderly, whichever options they were made under. -/
theorem orderly_of_combines (some : xs ≠ []) (combines : Combines o xs x) : Orderly x := by
  have member : ∀ a ∈ members xs, Orderly a ∧ a.isAtom = true := fun a ha =>
    orderly_of_mem_members orderly ha
  cases combines with
  | single only => exact (member x (only ▸ List.mem_cons_self)).1
  | @optional inner collapse present listed =>
    have isMember := member inner (mem_members_of_pair listed)
    refine throughout_of_children
      ⟨sound_of_set_eq_nil ⟨.nil, .nil⟩ rfl, collapse, present, isMember.2⟩ fun part hpart => ?_
    rw [List.mem_singleton.1 hpart]
    exact isMember.1
  | union several uncollapsed =>
    have apart := orderly_members_apart orderly
    have sound : Sound (union (members xs) o) :=
      ⟨⟨.nil, .nil⟩, apart.imp fun {a b} different same => by
        rw [Same, different.1] at same
        cases same⟩
    have two : 2 ≤ (members xs).length := by
      rcases listed : members xs with _ | ⟨first, _ | ⟨second, rest⟩⟩
      · exact absurd listed (members_ne_nil orderly some)
      · exact absurd listed (several first)
      · simp
    refine throughout_of_children ⟨sound, two, apart, fun a ha => (member a ha).2, ?_⟩
      fun part hpart => (member part hpart).1
    exact fun collapse other => (uncollapsed other collapse).symm

end Members

end Shape

/-! ## Assembled shapes -/

namespace Descriptor

open Shape

variable {o : OptionSet} {xs : List Shape} {definitions : List (String × Descriptor)}

/-- Fields with distinct names that are sorted are in strictly increasing order. -/
theorem keys_arranged_increasing {names : List String} (nodup : names.Nodup) (shapes : List Shape)
    (sort : o.contains .sortFields = true) :
    (Assoc.keys (arranged o (names.zip shapes))).Pairwise (· < ·) := by
  have sorted : arranged o (names.zip shapes) = Assoc.sortKeys (names.zip shapes) := if_pos sort
  rw [sorted]
  exact Assoc.keys_sortKeys_increasing (Assoc.distinct_zip nodup shapes)

/-- Shapes that are put together from orderly ones are orderly, if each part has its shape and
nothing is wrong with the descriptor. -/
theorem orderly_assembled {d : Descriptor} (distinct : d.Distinct)
    (sane : ∀ fault, d.reading definitions ≠ .malformed fault)
    (count : xs.length = (d.parts definitions).length) (orderly : ∀ x ∈ xs, Orderly x) :
    Orderly (d.assembled definitions o xs) := by
  have table := distinct.table
  have onFace : (d.assembled definitions o xs).layout.Distinct →
      (d.assembled definitions o xs).layout.set = [] → (d.assembled definitions o xs).WellMade →
      Orderly (d.assembled definitions o xs) :=
    fun maps set made => throughout_assembled orderly_unknown.self orderly_none.self orderly
      definitions o d fun _ => ⟨sound_of_set_eq_nil maps set, made⟩
  cases d with
  | union descriptors =>
    obtain ⟨x, combined, combines⟩ := combine_eq_some o xs
    simp only [assembled, combined, Option.getD_some]
    refine orderly_of_combines orderly (fun none => ?_) combines
    subst none
    cases descriptors with
    | nil => exact sane _ rfl
    | cons => cases count
  | ref name => exact drawnFrom_headD.throughout orderly_unknown.self orderly_none.self orderly
  | generic origin args =>
    cases held : Origin.of? origin with
    | none =>
      simp only [assembled, held]
      exact orderly_unknown
    | some family =>
      simp only [assembled, held] at onFace ⊢
      cases family with
      | list | dict | mapping => exact onFace ⟨.nil, .nil⟩ rfl trivial
      | tuple =>
        refine onFace ⟨.nil, .nil⟩ rfl fun opened => ?_
        obtain ⟨element, rfl⟩ := Recognizer.isOpen_iff.1 opened
        simp only [parts, held] at count
        exact count
  | typeVar name bound constraints =>
    rcases bound with _ | bound
    · exact onFace ⟨.nil, .nil⟩ rfl trivial
    · cases xs with
      | nil | cons => exact onFace ⟨.nil, .nil⟩ rfl trivial
  | classDecl name fields typeParams =>
    exact onFace ⟨.nil, distinct_arranged table xs⟩ rfl (keys_arranged_increasing table xs)
  | typedDict name fields total =>
    exact onFace ⟨.nil, distinct_arranged table xs⟩ rfl (keys_arranged_increasing table xs)
  | literal values =>
    refine onFace ⟨.nil, .nil⟩ rfl fun none => ?_
    subst none
    exact sane _ rfl
  | parameterized base args => exact onFace ⟨.nil, Assoc.distinct_ofPairs _⟩ rfl trivial
  | function name annotations paramNames =>
    exact onFace ⟨.nil, Assoc.distinct_ofPairs _⟩ rfl trivial
  | enum name members => exact onFace ⟨table, .nil⟩ rfl trivial
  | none | builtin | newType => exact onFace ⟨.nil, .nil⟩ rfl trivial
  | empty | any | ellipsis | unclassified => exact orderly_unknown

end Descriptor

/-! ## What a run keeps -/

namespace Registry

open Shape (Orderly)

/-- Every finished claim has an orderly shape. -/
abbrev Neat (r : Registry) : Prop := r.Finished fun _ x => Orderly x

/-- What a name is known by is orderly, finished or not. -/
theorem Neat.known {r : Registry} (neat : r.Neat) {e : Entry} (he : e ∈ r.entries) :
    Orderly e.known := by
  cases finished : e.shape? with
  | none =>
    have reference : e.known = .reference e.name e.kind := by rw [Entry.known, finished]; rfl
    rw [reference]
    exact Shape.orderly_reference e.name e.kind
  | some x =>
    rw [Entry.known_eq finished]
    exact neat e he x finished

end Registry

namespace Pipeline

open Shape (Orderly)

variable {definitions : List (String × Descriptor)}

/-- Registries stay neat, the shapes that are built are orderly, and there are as many as there are
descriptors. -/
theorem orderlyLaw (stock : List Stock) (options : OptionSet)
    (tables : ∀ entry ∈ definitions, entry.2.Distinct) :
    Law stock definitions options
      (fun d r outcome r' => d.Distinct → r.Neat →
        r'.Neat ∧ ∀ x, outcome = .ok x → Orderly x)
      (fun ds r outcome r' => (∀ d ∈ ds, d.Distinct) → r.Neat →
        r'.Neat ∧ ∀ xs, outcome = .ok xs → xs.length = ds.length ∧ ∀ x ∈ xs, Orderly x) where
  unclaimed _ _ neat := ⟨neat, fun x eq => by cases eq; exact Shape.orderly_unknown⟩
  malformed _ _ _ neat := ⟨neat, fun x eq => by cases eq⟩
  unresolved {d r name} _ _ _ neat := by
    refine ⟨neat, fun x eq => ?_⟩
    cases eq
    cases found : r.search CollectedKind.searchOrder name with
    | none => exact Shape.orderly_unknown
    | some x =>
      obtain ⟨e, he, -, -, rfl⟩ := Registry.exists_of_search_eq_some found
      exact neat.known he
  composed {d r outcome r'} _ reading parts distinct neat := by
    obtain ⟨neat', made⟩ := parts (fun part hp => distinct.part tables hp) neat
    refine ⟨neat', fun x eq => ?_⟩
    cases outcome with
    | error fault => cases eq
    | ok shapes =>
      cases eq
      obtain ⟨count, orderly⟩ := made shapes rfl
      exact Descriptor.orderly_assembled distinct (fun fault => by simp [reading]) count orderly
  conflict _ _ _ _ _ neat := ⟨neat, fun x eq => by cases eq⟩
  known _ _ found _ _ neat := by
    refine ⟨neat, fun x eq => ?_⟩
    cases eq
    exact neat.known (Registry.find?_eq_some_iff.1 found).1
  built {d r kind name source shapes r'} _ reading free grown parts distinct neat := by
    obtain ⟨neat', made⟩ := parts (fun part hp => distinct.part tables hp) (neat.push free)
    obtain ⟨count, orderly⟩ := made shapes rfl
    have new : Orderly (d.assembled definitions options shapes) :=
      Descriptor.orderly_assembled distinct (fun fault => by simp [reading]) count orderly
    refine ⟨neat'.fill grown new, fun x eq => ?_⟩
    cases eq
    exact new
  undone _ _ _ _ _ neat := ⟨neat, fun x eq => by cases eq⟩
  nil _ neat := ⟨neat, fun xs eq => by cases eq; exact ⟨rfl, fun x hx => by cases hx⟩⟩
  cons {d rest r shape r' outcome r''} first _ later distinct neat := by
    obtain ⟨neat', orderly⟩ := first (distinct d List.mem_cons_self) neat
    obtain ⟨neat'', made⟩ := later (fun d hd => distinct d (List.mem_cons_of_mem _ hd)) neat'
    refine ⟨neat'', fun xs eq => ?_⟩
    cases outcome with
    | error fault => cases eq
    | ok shapes =>
      cases eq
      obtain ⟨count, each⟩ := made shapes rfl
      exact ⟨congrArg Nat.succ count, List.forall_mem_cons.2 ⟨orderly shape rfl, each⟩⟩
  stop {d rest r fault r'} first distinct neat :=
    ⟨(first (distinct d List.mem_cons_self) neat).1, fun xs eq => by cases eq⟩

/-! ## Calls -/

/-- The tables of all descriptors that a call is given have distinct keys. -/
structure Call.Distinct (c : Call) : Prop where
  definitions : ∀ entry ∈ c.definitions, entry.2.Distinct
  subjects : ∀ d ∈ c.subjects, d.Distinct

/-- A call keeps a registry neat and returns orderly shapes. -/
theorem Call.serve_neat {c : Call} (distinct : c.Distinct) {s : Session}
    (neat : s.registry.Neat) :
    (c.serve s).2.registry.Neat ∧ ∀ xs, (c.serve s).1 = .ok xs → ∀ x ∈ xs, Orderly x := by
  have after := (orderlyLaw c.stock c.options distinct.definitions).shapes c.subjects s
    distinct.subjects neat
  rw [c.serve_apply]
  rcases outcome : (unbounded c.stock c.definitions).shapesOf c.options c.subjects s with
    ⟨fault | shapes, s'⟩
  · rw [outcome] at after
    rw [Build.bind_error outcome]
    exact ⟨after.1, fun xs eq => by cases eq⟩
  · rw [outcome] at after
    rw [Build.bind_ok outcome]
    refine ⟨after.1, fun xs eq x hx => ?_⟩
    cases eq
    exact (after.2 shapes rfl).2 x (Call.mem_of_mem_answers hx)

/-- So do all calls together, whether they succeed or fail. -/
theorem serveAll_neat {calls : List Call} (distinct : ∀ c ∈ calls, c.Distinct) {s : Session}
    (neat : s.registry.Neat) :
    (serveAll calls s).2.registry.Neat ∧ ∀ x ∈ (serveAll calls s).1, Orderly x := by
  induction calls generalizing s with
  | nil => exact ⟨neat, fun x hx => by cases hx⟩
  | cons c rest ih =>
    have rested : ∀ c ∈ rest, c.Distinct := fun c hc => distinct c (List.mem_cons_of_mem _ hc)
    obtain ⟨neat', orderly⟩ := Call.serve_neat (distinct c List.mem_cons_self) neat
    unfold serveAll
    rcases outcome : c.serve s with ⟨fault | shapes, s'⟩
    · rw [outcome] at neat'
      exact ih rested neat'
    · rw [outcome] at neat' orderly
      obtain ⟨neat'', later⟩ := ih rested neat'
      refine ⟨neat'', fun x hx => ?_⟩
      rcases List.mem_append.1 hx with now | after
      · exact orderly shapes rfl x now
      · exact later x after

/-- **Shapes are well made.**  Whatever is asked of stock pipelines, under options that may differ
from call to call, and however many of the calls fail, all that occurs in a shape that was returned
or is in the catalog is well made under the options that it records. -/
theorem shapes_are_well_made (calls : List Call) (distinct : ∀ c ∈ calls, c.Distinct) {x : Shape}
    (held : x ∈ returnedBy calls ∨ ∃ kind name, (name, x) ∈ (catalogAfter calls).table kind)
    {part : Shape} (occurs : Shape.Occurs part x) : part.WellMade := by
  obtain ⟨neat, returned⟩ :=
    serveAll_neat distinct (s := .start) fun e he => absurd he List.not_mem_nil
  rcases held with answered | ⟨kind, name, member⟩
  · exact (returned x answered part occurs).2
  · rw [catalogAfter, Registry.catalog_table] at member
    obtain ⟨e, he, -, finished⟩ := Registry.mem_table.1 member
    exact (neat e he x finished part occurs).2

/-- An alias is collapsed by one call and opened again in a union of another one, which does not
collapse. -/
theorem shapes_are_well_made_of_reopened :
    let definitions := [("Maybe", Descriptor.union [.none, .builtin "int"])]
    let o : OptionSet := .ofList [.collapseOptional]
    let first : Call := ⟨Stock.all, definitions, o, .shape (.ref "Maybe")⟩
    let second : Call :=
      ⟨Stock.all, definitions, .empty, .shape (.union [.ref "Maybe", .builtin "str"])⟩
    let int : Shape := .builtin "int"
    let maybe : Shape := .optional int o
    (∀ c ∈ [first, second], c.Distinct) ∧
      returnedBy [first, second] =
        [maybe, .union [int, .none, .builtin "str"] .empty] ∧
      maybe.WellMade ∧ (Shape.union [int, .none, .builtin "str"] .empty).WellMade := by
  intro definitions o first second int maybe
  have leaf : Descriptor.none.Distinct ∧ (Descriptor.builtin "int").Distinct ∧
      (Descriptor.builtin "str").Distinct ∧ (Descriptor.ref "Maybe").Distinct :=
    ⟨.of_leaf trivial rfl, .of_leaf trivial rfl, .of_leaf trivial rfl, .of_leaf trivial rfl⟩
  obtain ⟨absent, number, text, named⟩ := leaf
  have tables : ∀ entry ∈ definitions, entry.2.Distinct :=
    List.forall_mem_singleton.2
      (.intro trivial (List.forall_mem_cons.2 ⟨absent, List.forall_mem_singleton.2 number⟩))
  have distinct : ∀ c ∈ [first, second], c.Distinct := by
    refine List.forall_mem_cons.2 ⟨⟨tables, List.forall_mem_singleton.2 named⟩,
      List.forall_mem_singleton.2 ⟨tables, List.forall_mem_singleton.2 ?_⟩⟩
    exact .intro trivial (List.forall_mem_cons.2 ⟨named, List.forall_mem_singleton.2 text⟩)
  have returned : returnedBy [first, second] =
      [maybe, .union [int, .none, .builtin "str"] .empty] := by
    simp only [maybe, int, first, second, o, definitions]
    cbv
  have collapsed : maybe ∈ returnedBy [first, second] := by
    rw [returned]
    exact .head _
  have opened : Shape.union [int, .none, .builtin "str"] .empty ∈ returnedBy [first, second] := by
    rw [returned]
    exact .tail _ (.head _)
  refine ⟨distinct, returned, ?_, ?_⟩
  · exact shapes_are_well_made [first, second] distinct (.inl collapsed) .self
  · exact shapes_are_well_made [first, second] distinct (.inl opened) .self

end Pipeline

end TypeCatalog
