import TypeCatalog.Proofs.Build
import TypeCatalog.Proofs.Numbering
import Mathlib.Data.List.Forall2
import Mathlib.Data.List.Induction
import Mathlib.Data.List.Infix

/-!
Claiming, finishing and abandoning in any order.

A build claims a name, and finishes or abandons the claim when all that was claimed meanwhile is
settled; but a registry takes its calls in any order, and gives back a state for a call that it
refuses as well (`serve_of_refused` says that it is the old one).  What a call does to the entries
is one of four things (`Operation.Acts`): it changes nothing, it puts a claim behind the others, it
finishes a claim where that stands, or it cuts the entries at a claim.

So as long as a claim stands, nothing that stands before it goes away: a cut further up would have
taken the claim as well.  `Held` says that a call claimed a free name and that the name has not been
free since; then the entries that were there before are still in front of the claim, but for shapes
that have been finished since (`Held.exists_entries`), and abandoning the claim leaves just them
(`operations_in_any_order`).  The statement is made table by table, and tables that number their
claims and know nothing but the numbers hold the same rows (`Numbered.serveAll_alike`).
-/

namespace TypeCatalog.Registry

variable {r : Registry} {kind : CollectedKind} {name : String} {source : Descriptor}
  {before since later : List Operation} {op : Operation}

/-! ## Calls one after another -/

/-- The registry that calls leave, first to last. -/
def after (ops : List Operation) : Registry :=
  (interface.serveAll .empty ops).2

/-- The entries of a kind, in the order of their claims. -/
def rows (r : Registry) (kind : CollectedKind) : List Entry :=
  r.entries.filter fun e => e.kind = kind

theorem after_append_singleton (ops : List Operation) (op : Operation) :
    after (ops ++ [op]) = (interface.serve (after ops) op).2 := by
  suffices ∀ r : Registry, (interface.serveAll r (ops ++ [op])).2 =
      (interface.serve (interface.serveAll r ops).2 op).2 from this .empty
  induction ops with
  | nil => exact fun r => rfl
  | cons first rest ih => exact fun r => ih (interface.serve r first).2

theorem isSome_find?_iff : (r.find? kind name).isSome ↔ (kind, name) ∈ r.keys := by
  rw [Option.isSome_iff_ne_none, Ne, find?_eq_none_iff, not_not]

/-! ## What a call does to the entries -/

/-- A shape is written into the entry of a name. -/
def Entry.filled (kind : CollectedKind) (name : String) (shape : Shape) (e : Entry) : Entry :=
  if e.key = (kind, name) then ⟨e.kind, e.name, e.source, some shape⟩ else e

/-- What a call does to the entries. -/
inductive Operation.Acts : Operation → List Entry → List Entry → Prop
  | nothing (op : Operation) (es : List Entry) : Acts op es es
  | claim {kind : CollectedKind} {name : String} (source : Descriptor) {es : List Entry} :
    (kind, name) ∉ es.map Entry.key →
    Acts (.claim kind name source) es (es ++ [⟨kind, name, source, none⟩])
  | finish {kind : CollectedKind} {name : String} (shape : Shape) {es : List Entry} :
    (∀ e ∈ es, e.key = (kind, name) → e.shape? = none) →
    Acts (.finalize kind name shape) es (es.map (Entry.filled kind name shape))
  | undo (kind : CollectedKind) (name : String) (es : List Entry) :
    Acts (.abandon kind name) es (es.takeWhile fun e => e.key != (kind, name))

/-- Whatever is called for, the entries change in one of the four ways. -/
theorem acts_serve (r : Registry) (op : Operation) :
    op.Acts r.entries (interface.serve r op).2.entries := by
  cases op with
  | claim kind name source =>
    show Operation.Acts _ r.entries (r.tryClaim kind name source).2.entries
    cases found : r.find? kind name with
    | none =>
      rw [tryClaim_free found]
      exact .claim source (find?_eq_none_iff.1 found)
    | some e =>
      rw [tryClaim_taken found]
      cases e.source.same source <;> exact .nothing _ _
  | finalize kind name shape =>
    show Operation.Acts _ r.entries (r.tryFinalize kind name shape).2.entries
    unfold tryFinalize
    cases found : r.find? kind name with
    | none => exact .nothing _ _
    | some e =>
      obtain ⟨kind', name', source, _ | known⟩ := e
      · refine .finish shape fun e he key => ?_
        cases found.symm.trans (find?_eq_some_iff.2 ⟨he, key⟩)
        rfl
      · simp only
        cases known.same shape <;> exact .nothing _ _
  | abandon kind name =>
    show Operation.Acts _ r.entries (r.abandon kind name).entries
    unfold abandon
    cases r.status kind name with
    | inProgress => exact .undo kind name r.entries
    | vacant | done => exact .nothing _ _
  | lookup => exact .nothing _ _

/-- A call that claims a free name puts it behind the others. -/
theorem entries_serve_claim (free : r.find? kind name = none) (source : Descriptor) :
    (interface.serve r (.claim kind name source)).2.entries =
      r.entries ++ [⟨kind, name, source, none⟩] := by
  simp only [Interface.serve, interface, tryClaim_free free, push_entries]

/-- A name that a call makes taken is claimed by it. -/
theorem Operation.Acts.eq_claim {es es' : List Entry} (acts : op.Acts es es')
    (free : (kind, name) ∉ es.map Entry.key) (taken : (kind, name) ∈ es'.map Entry.key) :
    ∃ source, op = .claim kind name source := by
  cases acts with
  | nothing => exact absurd taken free
  | @claim kind' name' source =>
    rw [List.map_append, List.mem_append] at taken
    obtain ⟨rfl, rfl⟩ := Prod.mk.inj (List.mem_singleton.1 (taken.resolve_left free))
    exact ⟨source, rfl⟩
  | finish shape =>
    refine absurd ?_ free
    obtain ⟨e, he, key⟩ := List.mem_map.1 taken
    obtain ⟨e', he', rfl⟩ := List.mem_map.1 he
    refine List.mem_map.2 ⟨e', he', Eq.trans ?_ key⟩
    unfold Entry.filled
    split <;> rfl
  | undo => exact absurd (((List.takeWhile_sublist _).map _).subset taken) free

/-! ## What stands before a claim -/

/-- An entry as it was, or finished by one of some calls. -/
inductive Entry.FinishedBy (calls : List Operation) : Entry → Entry → Prop
  | same (e : Entry) : FinishedBy calls e e
  | finished {e : Entry} {shape : Shape} : e.shape? = none →
    .finalize e.kind e.name shape ∈ calls →
    FinishedBy calls e ⟨e.kind, e.name, e.source, some shape⟩

theorem Entry.FinishedBy.key {e e' : Entry} (h : e.FinishedBy since e') : e'.key = e.key := by
  cases h <;> rfl

theorem Entry.FinishedBy.mono {e e' : Entry} (h : e.FinishedBy since e') (op : Operation) :
    e.FinishedBy (since ++ [op]) e' := by
  cases h with
  | same => exact .same e
  | finished unfinished called => exact .finished unfinished (List.mem_append_left _ called)

/-- An entry that is still unfinished may be finished by a further call. -/
theorem Entry.FinishedBy.filled {e e' : Entry} (h : e.FinishedBy since e') {shape : Shape}
    (unfinished : e'.key = (kind, name) → e'.shape? = none) :
    e.FinishedBy (since ++ [.finalize kind name shape]) (e'.filled kind name shape) := by
  unfold Entry.filled
  split
  · rename_i key
    have open' := unfinished key
    cases h with
    | same =>
      obtain ⟨rfl, rfl⟩ := Prod.mk.inj key
      exact .finished open' (List.mem_append_right _ List.mem_cons_self)
    | finished => cases open'
  · exact h.mono _

/-- A claim that is not taken away by a call still has all before it that was there; what is there
may have been finished. -/
theorem Operation.Acts.exists_entries {es es' first rest : List Entry} {e made : Entry}
    {held : List Entry} (acts : op.Acts es es') (split : es = first ++ e :: rest)
    (distinct : (es.map Entry.key).Nodup) (taken : e.key ∈ es'.map Entry.key)
    (kept : List.Forall₂ (Entry.FinishedBy since) held first) (own : made.FinishedBy since e) :
    ∃ first' e' rest', es' = first' ++ e' :: rest' ∧
      List.Forall₂ (Entry.FinishedBy (since ++ [op])) held first' ∧
      made.FinishedBy (since ++ [op]) e' := by
  have kept' : List.Forall₂ (Entry.FinishedBy (since ++ [op])) held first :=
    kept.imp fun _ _ h => h.mono op
  cases acts with
  | nothing => exact ⟨first, e, rest, split, kept', own.mono op⟩
  | claim source =>
    exact ⟨first, e, rest ++ [_], by rw [split, List.append_assoc, List.cons_append], kept',
      own.mono _⟩
  | @finish kind name shape _ unfinished =>
    refine ⟨first.map (Entry.filled kind name shape), e.filled kind name shape,
      rest.map (Entry.filled kind name shape), by rw [split, List.map_append, List.map_cons],
      ?_, ?_⟩
    · refine List.forall₂_map_right_iff.2 ?_
      have listed : ∀ e' ∈ first, e' ∈ es := fun e' he' =>
        split ▸ List.mem_append_left _ he'
      clear split kept' distinct taken
      induction kept with
      | nil => exact .nil
      | @cons e₀ e' _ _ one _ ih =>
        refine .cons (one.filled (unfinished e' (listed e' List.mem_cons_self))) ?_
        exact ih fun e'' he'' => listed e'' (List.mem_cons_of_mem _ he'')
    · refine own.filled (unfinished e ?_)
      rw [split]
      exact List.mem_append_right _ List.mem_cons_self
  | undo kind name =>
    rw [split, List.map_append, List.map_cons, List.nodup_append] at distinct
    have notBefore : ∀ e' ∈ first, e'.key ≠ e.key := fun e' he' =>
      distinct.2.2 _ (List.mem_map_of_mem he') _ List.mem_cons_self
    -- a cut before the claim, or at it, takes the claim away
    rw [split, List.takeWhile_append] at taken ⊢
    split at taken <;> rename_i whole
    · rw [if_pos whole]
      rw [List.takeWhile_cons] at taken ⊢
      split at taken <;> rename_i other
      · rw [if_pos other]
        exact ⟨first, e, _, rfl, kept', own.mono _⟩
      · rw [List.append_nil] at taken
        obtain ⟨e', he', key⟩ := List.mem_map.1 taken
        exact absurd key (notBefore e' he')
    · obtain ⟨e', he', key⟩ := List.mem_map.1 taken
      exact absurd key (notBefore e' ((List.takeWhile_sublist _).subset he'))

/-- What holds of the entries holds of those of a kind. -/
theorem forall₂_rows {r' : Registry}
    (kept : List.Forall₂ (Entry.FinishedBy since) r.entries r'.entries) (kind : CollectedKind) :
    List.Forall₂ (Entry.FinishedBy since) (r.rows kind) (r'.rows kind) := by
  refine List.rel_filter (fun e e' h => ?_) kept
  have same : e'.kind = e.kind := congrArg Prod.fst h.key
  simp only [same]

/-! ## Claims that are held -/

/-- After some calls a name is free and is claimed, and it is not free after any of the calls since
then. -/
structure Held (before : List Operation) (kind : CollectedKind) (name : String)
    (source : Descriptor) (since : List Operation) : Prop where
  free : (after before).find? kind name = none
  taken : ∀ earlier, earlier <+: since →
    ((after (before ++ .claim kind name source :: earlier)).find? kind name).isSome

/-- A name that is held has been held all along. -/
theorem Held.of_append (held : Held before kind name source (since ++ later)) :
    Held before kind name source since :=
  ⟨held.free, fun earlier shorter =>
    held.taken earlier (shorter.trans (List.prefix_append since later))⟩

/-- Every name that is not free has been claimed at some time and is held since. -/
theorem exists_held {ops : List Operation} (taken : ((after ops).find? kind name).isSome) :
    ∃ before source since, ops = before ++ .claim kind name source :: since ∧
      Held before kind name source since := by
  induction ops using List.reverseRecOn with
  | nil => cases taken
  | append_singleton ops op ih =>
    cases found : (after ops).find? kind name with
    | none =>
      have acts := acts_serve (after ops) op
      rw [← after_append_singleton] at acts
      obtain ⟨source, rfl⟩ := acts.eq_claim (find?_eq_none_iff.1 found) (isSome_find?_iff.1 taken)
      refine ⟨ops, source, [], rfl, found, fun earlier empty => ?_⟩
      rw [List.prefix_nil.1 empty]
      exact taken
    | some e =>
      obtain ⟨before, source, since, rfl, held⟩ := ih (by rw [found]; rfl)
      refine ⟨before, source, since ++ [op], by simp, held.free, fun earlier shorter => ?_⟩
      rcases List.prefix_concat_iff.1 shorter with rfl | shorter
      · simpa using taken
      · exact held.taken earlier shorter

/-- The claim stands behind all that was there when it was made, but for what has been finished
since. -/
theorem Held.exists_entries (held : Held before kind name source since) :
    ∃ first e rest, (after (before ++ .claim kind name source :: since)).entries =
        first ++ e :: rest ∧
      List.Forall₂ (Entry.FinishedBy since) (after before).entries first ∧
      (⟨kind, name, source, none⟩ : Entry).FinishedBy since e := by
  induction since using List.reverseRecOn with
  | nil =>
    refine ⟨(after before).entries, ⟨kind, name, source, none⟩, [], ?_,
      List.forall₂_same.2 fun e _ => .same e, .same _⟩
    rw [after_append_singleton, entries_serve_claim held.free]
  | append_singleton since op ih =>
    obtain ⟨first, e, rest, split, kept, own⟩ := ih held.of_append
    have taken := isSome_find?_iff.1 (held.taken _ (List.prefix_refl _))
    have grouped : before ++ .claim kind name source :: (since ++ [op]) =
        before ++ .claim kind name source :: since ++ [op] := by simp
    rw [grouped, after_append_singleton] at taken ⊢
    exact (acts_serve _ op).exists_entries split (Registry.distinct _) (own.key ▸ taken) kept own

/-- Abandoning a claim leaves what stood before it when it was made. -/
theorem Held.abandon (held : Held before kind name source since)
    (unfinished : (after (before ++ .claim kind name source :: since)).status kind name =
      .inProgress) :
    List.Forall₂ (Entry.FinishedBy since) (after before).entries
      ((after (before ++ .claim kind name source :: since)).abandon kind name).entries := by
  obtain ⟨first, e, rest, split, kept, own⟩ := held.exists_entries
  rw [abandon_of_inProgress unfinished, before_entries_of_split split own.key]
  exact kept

/-! ## Shapes that stay -/

/-- A call that leaves a name taken leaves its shape, if it has one. -/
theorem get?_serve {shape : Shape} (finished : r.get? kind name = some shape)
    (taken : ((interface.serve r op).2.find? kind name).isSome) :
    (interface.serve r op).2.get? kind name = some shape := by
  obtain ⟨e, he, key, done⟩ := get?_eq_some_iff.1 finished
  obtain ⟨first, rest, split⟩ := List.append_of_mem he
  have taken : e.key ∈ (interface.serve r op).2.entries.map Entry.key :=
    key ▸ isSome_find?_iff.1 taken
  have unchanged : List.Forall₂ (Entry.FinishedBy []) first first :=
    List.forall₂_same.2 fun e _ => .same e
  obtain ⟨first', e', rest', split', -, own⟩ :=
    (acts_serve r op).exists_entries split r.distinct taken unchanged (.same e)
  have mem : e' ∈ (interface.serve r op).2.entries := by
    rw [split']
    exact List.mem_append_right _ List.mem_cons_self
  refine get?_eq_some_iff.2 ⟨e', mem, own.key.trans key, ?_⟩
  cases own with
  | same => exact done
  | finished unfinished => rw [done] at unfinished; cases unfinished

/-- So do calls none of which leaves it free. -/
theorem get?_after {ops : List Operation} {shape : Shape}
    (finished : (after ops).get? kind name = some shape)
    (taken : ∀ earlier, earlier <+: later → ((after (ops ++ earlier)).find? kind name).isSome) :
    (after (ops ++ later)).get? kind name = some shape := by
  induction later using List.reverseRecOn with
  | nil => rwa [List.append_nil]
  | append_singleton later op ih =>
    have last := taken _ (List.prefix_refl _)
    have earlier := ih fun earlier shorter =>
      taken earlier (shorter.trans (List.prefix_append later [op]))
    rw [← List.append_assoc, after_append_singleton] at last ⊢
    exact get?_serve earlier last

/-! ## Calls that are refused -/

/-- A claim that is refused changes nothing. -/
theorem tryClaim_of_error {fault : ExtractError}
    (refused : (r.tryClaim kind name source).1 = .error fault) :
    (r.tryClaim kind name source).2 = r := by
  cases found : r.find? kind name with
  | none =>
    rw [tryClaim_free found] at refused
    cases refused
  | some e =>
    rw [tryClaim_taken found]
    split <;> rfl

/-- Neither does a refused attempt to finish one. -/
theorem tryFinalize_of_error {shape : Shape} {fault : ExtractError}
    (refused : (r.tryFinalize kind name shape).1 = .error fault) :
    (r.tryFinalize kind name shape).2 = r := by
  unfold tryFinalize at refused ⊢
  split at refused
  · rfl
  · split at refused
    · cases refused
    · split <;> rfl

theorem Operation.claim_refused {reply : Except ExtractError Status} {fault : ExtractError}
    (refused : (Operation.claim kind name source).answer reply = .refused fault) :
    reply = .error fault := by
  cases reply <;> cases refused
  rfl

theorem Operation.finalize_refused {shape : Shape} {reply : Except ExtractError Shape}
    {fault : ExtractError}
    (refused : (Operation.finalize kind name shape).answer reply = .refused fault) :
    reply = .error fault := by
  cases reply <;> cases refused
  rfl

/-- A call that is refused leaves the registry as it is. -/
theorem serve_of_refused {fault : ExtractError}
    (refused : (interface.serve r op).1 = .refused fault) : (interface.serve r op).2 = r := by
  cases op with
  | claim kind name source => exact tryClaim_of_error (Operation.claim_refused refused)
  | finalize kind name shape => exact tryFinalize_of_error (Operation.finalize_refused refused)
  | abandon => cases refused
  | lookup => rfl

/-- A claim that fails in a build leaves the session as it is. -/
theorem eq_of_claim_error {s s' : Session} {fault : ExtractError}
    (failed : Build.claim kind name source s = (.error fault, s')) : s' = s := by
  rw [Build.claim_apply, Prod.mk.injEq] at failed
  obtain ⟨refused, rfl⟩ := failed
  rw [tryClaim_of_error refused]

theorem eq_of_finalize_error {s s' : Session} {shape : Shape} {fault : ExtractError}
    (failed : Build.finalize kind name shape s = (.error fault, s')) : s' = s := by
  rw [Build.finalize_apply, Prod.mk.injEq] at failed
  obtain ⟨refused, rfl⟩ := failed
  rw [tryFinalize_of_error refused]

/-! ## Main result -/

/-- **Calls in any order.**  Whatever was claimed, finished and abandoned before, nested or not:
tables that number their claims have answered alike and hold the same rows; a call that is refused
changes nothing, in a registry and in a session; a shape stays until its name is free again; and
abandoning an unfinished claim leaves, in each table, the rows that were there just before the name
was claimed, but for shapes that have been finished since, while a name that is free or finished is
not abandoned at all. -/
theorem operations_in_any_order (ops : List Operation) :
    (((Numbered.interface.serveAll .empty ops).1 = (interface.serveAll .empty ops).1 ∧
        ∀ kind, ((Numbered.interface.serveAll .empty ops).2.table kind).map
          (Numbered.Row.entry kind) = (after ops).rows kind)) ∧
      ((∀ op fault, (interface.serve (after ops) op).1 = .refused fault →
          (interface.serve (after ops) op).2 = after ops) ∧
        ∀ kind name source shape journal fault s',
          Build.claim kind name source ⟨after ops, journal⟩ = (.error fault, s') ∨
            Build.finalize kind name shape ⟨after ops, journal⟩ = (.error fault, s') →
          s' = ⟨after ops, journal⟩) ∧
      (∀ kind name shape later, (after ops).get? kind name = some shape →
        (∀ earlier, earlier <+: later → ((after (ops ++ earlier)).find? kind name).isSome) →
        (after (ops ++ later)).get? kind name = some shape) ∧
      ∀ kind name,
        ((after ops).status kind name ≠ .inProgress →
          (after ops).abandon kind name = after ops) ∧
        ((after ops).status kind name = .inProgress →
          (∃ before source since, ops = before ++ .claim kind name source :: since ∧
            Held before kind name source since) ∧
          ∀ before source since, ops = before ++ .claim kind name source :: since →
            Held before kind name source since →
            ∀ other, List.Forall₂ (Entry.FinishedBy since) ((after before).rows other)
              (((after ops).abandon kind name).rows other)) := by
  refine ⟨?_, ⟨fun op fault => serve_of_refused, ?_⟩, fun kind name shape later => get?_after, ?_⟩
  · obtain ⟨answers, keeps⟩ := Numbered.serveAll_alike Numbered.keeps_empty ops
    exact ⟨answers, keeps.rows⟩
  · rintro kind name source shape journal fault s' (failed | failed)
    · exact eq_of_claim_error failed
    · exact eq_of_finalize_error failed
  · intro kind name
    refine ⟨abandon_of_settled, fun unfinished => ⟨?_, ?_⟩⟩
    · refine exists_held ?_
      unfold Registry.status at unfinished
      split at unfinished
      · cases unfinished
      · rename_i found
        rw [found]
        rfl
    · rintro before source since rfl held other
      exact forall₂_rows (held.abandon unfinished) other

/-- A record is claimed before a function and finished after it, and a class is claimed and finished
in between: abandoning the function takes the class away and leaves the record, which is finished
now.  A claim on the class for another descriptor is refused meanwhile, and changes nothing. -/
theorem operations_in_any_order_of_interleaved :
    let record : Operation := .claim .record "Early" (.ref "Early")
    let other : Operation := .claim .classType "Inner" .any
    let since : List Operation := [.claim .classType "Inner" (.ref "Inner"),
      .finalize .record "Early" (.builtin "int"), .claim .function "Outer" .none, other,
      .finalize .classType "Inner" (.builtin "str")]
    let r := after (record :: .claim .function "Outer" .any :: since)
    (Held [record] .function "Outer" .any since ∧ r.status .function "Outer" = .inProgress ∧
        ∀ kind, List.Forall₂ (Entry.FinishedBy since) ((after [record]).rows kind)
          ((r.abandon .function "Outer").rows kind)) ∧
      (r.get? .classType "Inner" = some (.builtin "str") ∧
        (after (record :: .claim .function "Outer" .any :: since ++
          [.finalize .classType "Inner" .none])).get? .classType "Inner" = some (.builtin "str")) ∧
      (interface.serve r other).1 = .refused (.conflict .classType "Inner") ∧
        (interface.serve r other).2 = r := by
  intro record other since r
  have unfinished : r.status .function "Outer" = .inProgress := by
    with_unfolding_all rfl
  have finished : r.get? .classType "Inner" = some (.builtin "str") := by
    with_unfolding_all rfl
  have conflict : (interface.serve r other).1 = .refused (.conflict .classType "Inner") := by
    with_unfolding_all rfl
  have held : Held [record] .function "Outer" .any since := by
    refine ⟨rfl, fun earlier shorter => ?_⟩
    rw [← List.mem_inits] at shorter
    simp only [since, List.inits, List.map_cons, List.map_nil, List.mem_cons, List.not_mem_nil,
      or_false] at shorter
    rcases shorter with rfl | rfl | rfl | rfl | rfl | rfl <;> decide +kernel
  obtain ⟨-, ⟨refusals, -⟩, kept, abandoned⟩ :=
    operations_in_any_order (record :: .claim .function "Outer" .any :: since)
  refine ⟨⟨held, unfinished, ?_⟩, ⟨finished, ?_⟩, conflict, refusals other _ conflict⟩
  · exact ((abandoned .function "Outer").2 unfinished).2 [record] .any since rfl held
  · refine kept .classType "Inner" (.builtin "str") _ finished fun earlier shorter => ?_
    rw [← List.mem_inits] at shorter
    simp only [List.inits, List.map_cons, List.map_nil, List.mem_cons, List.not_mem_nil,
      or_false] at shorter
    rcases shorter with rfl | rfl <;> decide +kernel

end TypeCatalog.Registry
