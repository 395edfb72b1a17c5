import Mathlib
import TypeCatalog.Proofs.Assembly
import TypeCatalog.Proofs.Failure

/-!
Extractions of one document under two sets of options.

The two runs go in lockstep: they claim the same names for the same descriptors, fail with the same
faults, and what the one builds matches what the other builds.  Whether a name is met again, and
whether it is met with another descriptor, is told by descriptors alone; so registries stay paired
claim by claim (`Registry.Paired`), whichever shapes stand in them, and every step of the one run
is a step of the other (`lockstepLaw`).

Two facts about options come of it.  `collapseOptional` is only a spelling
(`collapse_is_spelling`), and no other option has any bearing on shapes (`options_are_inert`).
-/

namespace TypeCatalog

/-- Two outcomes are the same fault, or values that are related. -/
inductive OutcomesAgree {α : Type} (rel : α → α → Prop) :
    Except ExtractError α → Except ExtractError α → Prop
  | ok {a b : α} : rel a b → OutcomesAgree rel (.ok a) (.ok b)
  | error {fault : ExtractError} : OutcomesAgree rel (.error fault) (.error fault)

theorem OutcomesAgree.imp {α : Type} {rel rel' : α → α → Prop} {x y : Except ExtractError α}
    (h : OutcomesAgree rel x y) (each : ∀ a b, rel a b → rel' a b) : OutcomesAgree rel' x y := by
  cases h with
  | ok related => exact .ok (each _ _ related)
  | error => exact .error

/-! ## Paired registries -/

namespace Registry

variable {rel : Shape → Shape → Prop} {r r' : Registry} {kind : CollectedKind} {name : String}

/-- Two entries hold the same claim, and both are unfinished or have shapes that are related. -/
structure Entry.Paired (rel : Shape → Shape → Prop) (e e' : Entry) : Prop where
  claim : e.claim = e'.claim
  shape : Option.Rel rel e.shape? e'.shape?

theorem Entry.Paired.key {e e' : Entry} (h : e.Paired rel e') : e.key = e'.key :=
  congrArg Claim.key h.claim

theorem Entry.Paired.source {e e' : Entry} (h : e.Paired rel e') : e.source = e'.source :=
  congrArg Claim.source h.claim

/-- Paired claims are known by related shapes: both finished ones, or the same reference. -/
theorem Entry.Paired.known {e e' : Entry} (h : e.Paired rel e')
    (references : ∀ name kind, rel (.reference name kind) (.reference name kind)) :
    rel e.known e'.known := by
  have names : e.name = e'.name := congrArg Claim.name h.claim
  have kinds : e.kind = e'.kind := congrArg Claim.kind h.claim
  have shapes := h.shape
  unfold Entry.known
  cases left : e.shape? with
  | none =>
    rw [left] at shapes
    cases right : e'.shape? with
    | none =>
      rw [names, kinds]
      exact references e'.name e'.kind
    | some y =>
      rw [right] at shapes
      cases shapes
  | some x =>
    rw [left] at shapes
    cases right : e'.shape? with
    | none =>
      rw [right] at shapes
      cases shapes
    | some y =>
      rw [right] at shapes
      cases shapes with
      | some related => exact related

/-- Two registries are paired entry by entry. -/
def Paired (rel : Shape → Shape → Prop) (r r' : Registry) : Prop :=
  List.Forall₂ (Entry.Paired rel) r.entries r'.entries

theorem paired_empty : empty.Paired rel empty := .nil

/-- The same names are claimed in both, in the same order. -/
theorem Paired.keys_eq (h : r.Paired rel r') : r.keys = r'.keys := by
  have equal : List.Forall₂ (· = ·) r.keys r'.keys := by
    unfold keys
    rw [List.forall₂_map_left_iff, List.forall₂_map_right_iff]
    exact List.Forall₂.imp (fun _ _ paired => paired.key) h
  rwa [List.forall₂_eq_eq_eq] at equal

theorem Paired.find?_none (h : r.Paired rel r') (free : r.find? kind name = none) :
    r'.find? kind name = none := by
  rw [find?_eq_none_iff] at free ⊢
  rw [← h.keys_eq]
  exact free

/-- A claim that is found in one is found in the other, paired. -/
theorem Paired.find?_some (h : r.Paired rel r') {e : Entry} (found : r.find? kind name = some e) :
    ∃ e', r'.find? kind name = some e' ∧ e.Paired rel e' := by
  obtain ⟨he, key⟩ := find?_eq_some_iff.1 found
  obtain ⟨e', he', paired⟩ := exists_of_forall₂_of_mem (List.Forall₂.flip h) he
  exact ⟨e', find?_eq_some_iff.2 ⟨he', paired.key.symm.trans key⟩, paired⟩

/-- What a search finds in the one registry is related to what it finds in the other. -/
theorem Paired.search (h : r.Paired rel r') (unknown : rel .unknown .unknown)
    (references : ∀ name kind, rel (.reference name kind) (.reference name kind))
    (kinds : List CollectedKind) (name : String) :
    rel ((r.search kinds name).getD .unknown) ((r'.search kinds name).getD .unknown) := by
  unfold Registry.search
  induction kinds with
  | nil => exact unknown
  | cons kind rest ih =>
    rw [List.findSome?_cons, List.findSome?_cons]
    cases found : r.find? kind name with
    | none =>
      rw [known?_eq_map, found, known?_eq_map, h.find?_none found]
      exact ih
    | some e =>
      obtain ⟨e', found', paired⟩ := h.find?_some found
      rw [known?_eq_map, found, known?_eq_map, found']
      exact paired.known references

theorem Paired.push (h : r.Paired rel r') (source : Descriptor) (free : r.find? kind name = none)
    (free' : r'.find? kind name = none) :
    (r.push kind name source free).Paired rel (r'.push kind name source free') :=
  List.rel_append h (.cons ⟨rfl, .none⟩ .nil)

/-- Claims that are finished with related shapes stay paired. -/
theorem Paired.fill (h : r.Paired rel r') (kind : CollectedKind) (name : String) {x y : Shape}
    (related : rel x y) : (r.fill kind name x).Paired rel (r'.fill kind name y) := by
  unfold Paired
  rw [fill_entries, fill_entries, List.forall₂_map_left_iff, List.forall₂_map_right_iff]
  refine h.imp fun e e' paired => ?_
  rw [← paired.key]
  split
  · exact ⟨paired.claim, .some related⟩
  · exact paired

/-- The finished types of a kind are in step. -/
theorem Paired.table (h : r.Paired rel r') (kind : CollectedKind) :
    Assoc.InStep rel (r.table kind) (r'.table kind) := by
  refine List.rel_filterMap (R := Entry.Paired rel) (fun e e' paired => ?_) h
  have names : e.name = e'.name := congrArg Claim.name paired.claim
  have kinds : e.kind = e'.kind := congrArg Claim.kind paired.claim
  have shapes := paired.shape
  unfold Entry.finished?
  rw [kinds]
  split
  · revert shapes
    generalize e.shape? = left
    generalize e'.shape? = right
    rintro (⟨related⟩ | _)
    · exact .some ⟨names, related⟩
    · exact .none
  · exact .none

end Registry

/-! ## Lockstep -/

namespace Pipeline

open Shape (Matches matches_unknown matches_reference)

variable {stock : List Stock} {definitions : List (String × Descriptor)} {o o' : OptionSet}

/-- What has become of a registry and what is left by a second run agree and are paired. -/
def Together {α : Type} (rel : α → α → Prop) (o o' : OptionSet) (outcome : Except ExtractError α)
    (r : Registry) (second : Except ExtractError α × Session) : Prop :=
  OutcomesAgree rel outcome second.1 ∧ r.Paired (Matches o o') second.2.registry

/-- Whatever a run under one set of options does, a run under another one does in a paired
registry. -/
theorem lockstepLaw (stock : List Stock) (o o' : OptionSet)
    (tables : ∀ entry ∈ definitions, entry.2.Distinct) :
    Law stock definitions o
      (fun d r outcome r' => d.Distinct → ∀ s : Session, r.Paired (Matches o o') s.registry →
        Together (Matches o o') o o' outcome r' ((ofStock stock definitions).shape d o' s))
      (fun ds r outcome r' => (∀ d ∈ ds, d.Distinct) → ∀ s : Session,
        r.Paired (Matches o o') s.registry →
        Together (List.Forall₂ (Matches o o')) o o' outcome r'
          ((unbounded stock definitions).shapesOf o' ds s)) where
  unclaimed uncovered _ s paired := by
    rw [shape_of_uncovered uncovered]
    exact ⟨.ok matches_unknown, paired⟩
  malformed covered reading _ s paired := by
    rw [shape_of_malformed covered reading]
    exact ⟨.error, paired⟩
  unresolved {d r name} covered reading _ s paired := by
    rw [shape_of_unresolved covered reading]
    exact ⟨.ok (paired.search matches_unknown matches_reference _ name), paired⟩
  composed {d r outcome r'} covered reading parts distinct s paired := by
    obtain ⟨agree, paired'⟩ := parts (fun part hp => distinct.part tables hp) s paired
    rcases second : (unbounded stock definitions).shapesOf o' (d.parts definitions) s with
      ⟨outcome', s'⟩
    rw [second] at agree paired'
    rw [shape_of_composed covered reading second]
    cases agree with
    | error => exact ⟨.error, paired'⟩
    | ok shapes => exact ⟨.ok (Descriptor.matches_assembled definitions distinct shapes), paired'⟩
  conflict covered reading found other _ s paired := by
    obtain ⟨e', found', both⟩ := paired.find?_some found
    rw [shape_of_conflict covered reading found' (both.source ▸ other)]
    exact ⟨.error, paired⟩
  known covered reading found same _ s paired := by
    obtain ⟨e', found', both⟩ := paired.find?_some found
    rw [shape_of_known covered reading found' (both.source ▸ same)]
    exact ⟨.ok (both.known matches_reference), paired⟩
  built {d r kind name source shapes r'} covered reading free _ parts distinct s paired := by
    have free' := paired.find?_none free
    obtain ⟨agree, paired'⟩ := parts (fun part hp => distinct.part tables hp)
      ⟨s.registry.push kind name source free', s.journal⟩ (paired.push source free free')
    rcases second : (unbounded stock definitions).shapesOf o' (d.parts definitions)
      ⟨s.registry.push kind name source free', s.journal⟩ with ⟨outcome', s'⟩
    rw [second] at agree paired'
    cases agree with
    | ok matching =>
      have made := Descriptor.matches_assembled definitions distinct matching
      rw [shape_of_built covered reading free' second]
      exact ⟨.ok made, paired'.fill kind name made⟩
  undone {d r kind name source fault r'} covered reading free parts distinct s paired := by
    have free' := paired.find?_none free
    obtain ⟨agree, -⟩ := parts (fun part hp => distinct.part tables hp)
      ⟨s.registry.push kind name source free', s.journal⟩ (paired.push source free free')
    rcases second : (unbounded stock definitions).shapesOf o' (d.parts definitions)
      ⟨s.registry.push kind name source free', s.journal⟩ with ⟨outcome', s'⟩
    rw [second] at agree
    cases agree with
    | error =>
      -- both runs take their claims back, and are where they were before them
      rw [shape_of_undone covered reading free' second]
      exact ⟨.error, paired⟩
  nil _ s paired := ⟨.ok .nil, paired⟩
  cons {d rest r shape r' outcome r''} first _ later distinct s paired := by
    obtain ⟨agree, paired'⟩ := first (distinct d List.mem_cons_self) s paired
    rcases second : (ofStock stock definitions).shape d o' s with ⟨outcome', s'⟩
    rw [second] at agree paired'
    cases agree with
    | ok matching =>
      obtain ⟨agree', paired''⟩ :=
        later (fun d hd => distinct d (List.mem_cons_of_mem _ hd)) s' paired'
      rcases more : (unbounded stock definitions).shapesOf o' rest s' with ⟨outcome'', s''⟩
      rw [more] at agree' paired''
      rw [shapesOf_cons_of_ok second more]
      cases agree' with
      | error => exact ⟨.error, paired''⟩
      | ok matchingRest => exact ⟨.ok (.cons matching matchingRest), paired''⟩
  stop {d rest r fault r'} first distinct s paired := by
    obtain ⟨agree, paired'⟩ := first (distinct d List.mem_cons_self) s paired
    rcases second : (ofStock stock definitions).shape d o' s with ⟨outcome', s'⟩
    rw [second] at agree paired'
    cases agree with
    | error =>
      rw [shapesOf_cons_of_error second]
      exact ⟨.error, paired'⟩

end Pipeline

/-! ## Whole documents -/

/-- Two extractions have the same names in the same order, for their roots and in each table of
their catalogs, and under each name shapes that are related. -/
def Extraction.InStep (rel : Shape → Shape → Prop) (x y : Extraction) : Prop :=
  Assoc.InStep rel x.roots y.roots ∧
    ∀ kind, Assoc.InStep rel (x.catalog.table kind) (y.catalog.table kind)

theorem Extraction.InStep.imp {rel rel' : Shape → Shape → Prop} {x y : Extraction}
    (h : x.InStep rel y) (each : ∀ a b, rel a b → rel' a b) : x.InStep rel' y :=
  ⟨h.1.imp each, fun kind => (h.2 kind).imp each⟩

namespace Document

open Shape (Matches)

variable {options options' : OptionSet}

/-- Under any two sets of options a document is extracted in step. -/
theorem extract_in_step (doc : Document) (tables : doc.Distinct) (options options' : OptionSet) :
    OutcomesAgree (Extraction.InStep (Matches options options')) (doc.extract options)
      (doc.extract options') := by
  have roots : ∀ d ∈ doc.roots.map Prod.snd, d.Distinct := by
    intro d hd
    obtain ⟨entry, mem, rfl⟩ := List.mem_map.1 hd
    exact tables.roots entry mem
  have together := (Pipeline.lockstepLaw Stock.all options options' tables.definitions).shapes
    (doc.roots.map Prod.snd) .start roots .start Registry.paired_empty
  obtain ⟨agree, paired⟩ := together
  rw [extract_eq, extract_eq]
  rcases first : (Pipeline.unbounded Stock.all doc.definitions).shapesOf options
    (doc.roots.map Prod.snd) .start with ⟨outcome, s⟩
  rcases second : (Pipeline.unbounded Stock.all doc.definitions).shapesOf options'
    (doc.roots.map Prod.snd) .start with ⟨outcome', s'⟩
  rw [first, second] at agree paired
  cases agree with
  | error => exact .error
  | ok shapes =>
    refine .ok ⟨Assoc.inStep_zip _ shapes, fun kind => ?_⟩
    rw [Registry.catalog_table, Registry.catalog_table]
    exact paired.table kind

/-- **`collapseOptional` is only a spelling.**  A document is extracted with it and without it to
the same names in the same order, or with the same fault; and what is extracted without it is what
is extracted with it once each optional type, at whatever depth, is written as the union of its
inner type and the absent value, the recorded options left aside. -/
theorem collapse_is_spelling (doc : Document) (tables : doc.Distinct) (options : OptionSet)
    (uncollapsed : options.contains .collapseOptional = false) :
    OutcomesAgree (Extraction.InStep fun x y => x.erased.same y.spelledOut.erased = true)
      (doc.extract options) (doc.extract (options.insert .collapseOptional)) := by
  refine (doc.extract_in_step tables options _).imp fun _ _ h => h.imp fun x y matching => ?_
  exact Shape.same_trans (matching.left.same_erased_plain uncollapsed).1 matching.plain

/-- An alias for an optional type, in a list and among the members of a union: collapsed, it is an
optional type in the list and in the catalog, and opened again in the union. -/
theorem collapse_is_spelling_of_alias :
    let int : Shape := .builtin "int"
    let str : Shape := .builtin "str"
    let doc : Document :=
      ⟨[("Maybe", .union [.builtin "int", .none])],
        [("items", .generic "list" [.ref "Maybe"]),
          ("either", .union [.ref "Maybe", .builtin "str"])]⟩
    let o : OptionSet := .empty
    let x : Extraction :=
      ⟨[("items", .list (.union [int, .none] o) o), ("either", .union [int, .none, str] o)],
        ⟨[], [], [], [("Maybe", .union [int, .none] o)]⟩⟩
    let o' : OptionSet := o.insert .collapseOptional
    let y : Extraction :=
      ⟨[("items", .list (.optional int o') o'), ("either", .union [int, .none, str] o')],
        ⟨[], [], [], [("Maybe", .optional int o')]⟩⟩
    (doc.Distinct ∧ o.contains .collapseOptional = false) ∧
      doc.extract o = .ok x ∧ doc.extract o' = .ok y ∧
      x.InStep (fun x y => x.erased.same y.spelledOut.erased = true) y := by
  intro int str doc o x o' y
  have leaf : (Descriptor.builtin "int").Distinct ∧ (Descriptor.builtin "str").Distinct ∧
      Descriptor.none.Distinct ∧ (Descriptor.ref "Maybe").Distinct :=
    ⟨.of_leaf trivial rfl, .of_leaf trivial rfl, .of_leaf trivial rfl, .of_leaf trivial rfl⟩
  obtain ⟨whole, text, absent, maybe⟩ := leaf
  have tables : doc.Distinct := by
    refine ⟨fun entry mem => ?_, fun entry mem => ?_⟩
    · rcases List.mem_pair.1 mem with rfl | rfl
      · exact .intro trivial (List.forall_mem_singleton.2 maybe)
      · exact .intro trivial (List.forall_mem_cons.2 ⟨maybe, List.forall_mem_singleton.2 text⟩)
    · cases List.mem_singleton.1 mem
      exact .intro trivial (List.forall_mem_cons.2 ⟨whole, List.forall_mem_singleton.2 absent⟩)
  have plainly : doc.extract o = .ok x := by
    simp only [doc, o, x, int, str]
    cbv
  have collapsed : doc.extract o' = .ok y := by
    simp only [doc, o, o', y, int, str]
    cbv
  have agree := doc.collapse_is_spelling tables o rfl
  rw [plainly, collapsed] at agree
  cases agree with
  | ok related => exact ⟨⟨tables, rfl⟩, plainly, collapsed, related⟩

/-- **Other options are inert.**  Under two sets of options that both collapse unions or both do
not, a document is extracted to the same names in the same order, or with the same fault; and the
shapes are the same, the recorded options left aside. -/
theorem options_are_inert (doc : Document) (tables : doc.Distinct) (options options' : OptionSet)
    (collapse : options.contains .collapseOptional = options'.contains .collapseOptional) :
    OutcomesAgree (Extraction.InStep fun x y => x.erased.same y.erased = true)
      (doc.extract options) (doc.extract options') := by
  refine (doc.extract_in_step tables options options').imp fun _ _ h => h.imp fun x y matching => ?_
  exact matching.left.same_erased_of_plain collapse matching.right matching.plain

/-- A class in a union with the absent value, its fields ordered in one extraction and not in the
other. -/
theorem options_are_inert_of_fields :
    let int : Shape := .builtin "int"
    let doc : Document :=
      ⟨[], [("point", .union [.classDecl "Point" [("y", .builtin "int"), ("x", .builtin "int")] [],
        .none])]⟩
    let sorted := OptionSet.empty.insert .sortFields
    let point : Shape := .classType "Point" [("x", int), ("y", int)] sorted
    let x : Extraction :=
      ⟨[("point", .union [point, .none] sorted)], ⟨[], [("Point", point)], [], []⟩⟩
    let flagged := OptionSet.empty.insert (.custom "flag")
    let point' : Shape := .classType "Point" [("y", int), ("x", int)] flagged
    let y : Extraction :=
      ⟨[("point", .union [point', .none] flagged)], ⟨[], [("Point", point')], [], []⟩⟩
    (doc.Distinct ∧ sorted.contains .collapseOptional = flagged.contains .collapseOptional) ∧
      doc.extract sorted = .ok x ∧ doc.extract flagged = .ok y ∧
      x.InStep (fun x y => x.erased.same y.erased = true) y := by
  intro int doc sorted point x flagged point' y
  have whole : (Descriptor.builtin "int").Distinct := .of_leaf trivial rfl
  have declared : (Descriptor.classDecl "Point"
      [("y", .builtin "int"), ("x", .builtin "int")] []).Distinct :=
    .intro (by simp [Descriptor.TableDistinct, Assoc.Distinct, Assoc.keys])
      (List.forall_mem_cons.2 ⟨whole, List.forall_mem_singleton.2 whole⟩)
  have tables : doc.Distinct := by
    refine ⟨List.forall_mem_singleton.2 (.intro trivial ?_), fun entry mem => by cases mem⟩
    exact List.forall_mem_cons.2 ⟨declared, List.forall_mem_singleton.2 (.of_leaf trivial rfl)⟩
  have ordered : doc.extract sorted = .ok x := by
    simp only [doc, sorted, x, point, int]
    cbv
  have unordered : doc.extract flagged = .ok y := by
    simp only [doc, flagged, y, point', int]
    cbv
  have agree := doc.options_are_inert tables sorted flagged rfl
  rw [ordered, unordered] at agree
  cases agree with
  | ok related => exact ⟨⟨tables, rfl⟩, ordered, unordered, related⟩

end Document

end TypeCatalog
