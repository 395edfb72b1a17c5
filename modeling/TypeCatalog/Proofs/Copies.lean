import TypeCatalog.Proofs.References

/-!
Copies of collected types.

A class, a record or a function is copied into every shape that is made of it once it is finished,
and whoever writes such a shape out relies on the name alone.  Here no copy differs from what the
catalog holds under its name: a shape is `Filed` in a registry when each class, record and function
in it, at whatever depth, is the finished shape of its own kind and name there.

A copy is made in two places only, where a type is finished and where it is recalled, and what is
finished is never written again; so all that is built in a `Coherent` registry is filed
(`filed_invariant`).  Builds that fail take their claims back before anyone has a copy
(`copies_are_cataloged`).
-/

namespace TypeCatalog

namespace Descriptor

/-- The shape of a descriptor that is collected by itself has its kind and name. -/
theorem ownKey?_assembled {d : Descriptor} {key : CollectedKind × String}
    (own : d.ownKey? = some key) (definitions : List (String × Descriptor)) (options : OptionSet)
    (shapes : List Shape) : (d.assembled definitions options shapes).ownKey? = some key := by
  cases d with
  | classDecl name fields typeParams => exact own
  | typedDict name fields total => exact own
  | function name annotations paramNames => exact own
  | _ => cases own

/-- A descriptor that is collected by itself is claimed under its own kind and name. -/
theorem key_of_collected {definitions : List (String × Descriptor)} {d source : Descriptor}
    {kind kind' : CollectedKind} {name name' : String}
    (reading : d.reading definitions = .collected kind name source)
    (own : d.ownKey? = some (kind', name')) : kind' = kind ∧ name' = name := by
  rw [reading_of_ownKey own] at reading
  cases reading
  exact ⟨rfl, rfl⟩

end Descriptor

namespace Registry

open Shape (Throughout)

variable {r r' : Registry} {kind : CollectedKind} {name : String} {source : Descriptor}
  {x : Shape}

theorem Leads.get? (leads : r.Leads r') (h : r.get? kind name = some x) :
    r'.get? kind name = some x := by
  obtain ⟨e, he, key, finished⟩ := get?_eq_some_iff.1 h
  obtain ⟨e', he', claim, same⟩ := leads e he
  have key' : e'.key = e.key := congrArg Claim.key claim
  exact get?_eq_some_iff.2 ⟨e', he', key'.trans key, same x finished⟩

/-- A claim that is finished is recalled by its kind and name. -/
theorem get?_fill {free : r.find? kind name = none}
    (grown : (r.push kind name source free).Grows r') (shape : Shape) :
    (r'.fill kind name shape).get? kind name = some shape := by
  obtain ⟨e, he, rfl, rfl, -, finished⟩ := exists_filled free grown shape
  exact get?_eq_some_iff.2 ⟨e, he, rfl, finished⟩

/-! ## Filed shapes -/

/-- Each class, record and function in a shape is the finished shape of its kind and name. -/
def Filed (r : Registry) (x : Shape) : Prop :=
  Throughout (fun part => ∀ kind name, part.ownKey? = some (kind, name) →
    r.get? kind name = some part) x

theorem Filed.mono (filed : r.Filed x) (leads : r.Leads r') : r'.Filed x :=
  filed.imp fun _ h kind name own => leads.get? (h kind name own)

theorem filed_of_leaf (own : x.ownKey? = none) (leaf : x.children = []) : r.Filed x := by
  refine Shape.throughout_of_leaf (fun kind name own' => ?_) leaf
  rw [own] at own'
  cases own'

/-- A shape that is put together is filed if the others are, and if it is filed itself should it be
a class, a record or a function. -/
theorem filed_assembled {shapes : List Shape} (filed : ∀ y ∈ shapes, r.Filed y)
    (definitions : List (String × Descriptor)) (options : OptionSet) (d : Descriptor)
    (self : ∀ kind name, d.ownKey? = some (kind, name) →
      r.get? kind name = some (d.assembled definitions options shapes)) :
    r.Filed (d.assembled definitions options shapes) := by
  refine Descriptor.throughout_assembled (fun _ _ own => by cases own)
    (fun _ _ own => by cases own) filed definitions options d fun made kind name own => ?_
  exact self kind name (made.own ▸ own)

/-- Finished shapes are filed, and those that are not aliases have the kind and the name that they
are kept under. -/
def Coherent (r : Registry) : Prop :=
  r.Finished fun c x => r.Filed x ∧ (c.kind ≠ .typeAlias → x.ownKey? = some c.key)

theorem coherent_empty : empty.Coherent := fun _ h => absurd h List.not_mem_nil

theorem Coherent.get? (coherent : r.Coherent) (h : r.get? kind name = some x) :
    r.Filed x ∧ (kind ≠ .typeAlias → x.ownKey? = some (kind, name)) := by
  obtain ⟨e, he, key, finished⟩ := get?_eq_some_iff.1 h
  obtain ⟨filed, own⟩ := coherent e he x finished
  obtain ⟨rfl, rfl⟩ := Prod.mk.inj key
  exact ⟨filed, own⟩

/-- What a name is known by is filed, finished or not. -/
theorem Coherent.known (coherent : r.Coherent) {e : Entry} (he : e ∈ r.entries) :
    r.Filed e.known := by
  cases finished : e.shape? with
  | none =>
    have reference : e.known = .reference e.name e.kind := by rw [Entry.known, finished]; rfl
    rw [reference]
    exact filed_of_leaf rfl rfl
  | some x =>
    rw [Entry.known_eq finished]
    exact (coherent e he x finished).1

theorem Coherent.push (coherent : r.Coherent) (source : Descriptor)
    (free : r.find? kind name = none) : (r.push kind name source free).Coherent := by
  have leads : r.Leads (r.push kind name source free) := fun e he =>
    ⟨e, by rw [push_entries]; exact List.mem_append_left _ he, rfl, fun _ eq => eq⟩
  refine Finished.push (fun e he x finished => ?_) free
  obtain ⟨filed, own⟩ := coherent e he x finished
  exact ⟨filed.mono leads, own⟩

/-- Finishing a claim with what was built for it keeps a registry coherent, and the new shape is
filed. -/
theorem Coherent.fill {free : r.find? kind name = none}
    (grown : (r.push kind name source free).Grows r') (coherent : r'.Coherent)
    {definitions : List (String × Descriptor)} {options : OptionSet} {d : Descriptor}
    (reading : d.reading definitions = .collected kind name source) {shapes : List Shape}
    (filed : ∀ y ∈ shapes, r'.Filed y) :
    (r'.fill kind name (d.assembled definitions options shapes)).Coherent ∧
      (r'.fill kind name (d.assembled definitions options shapes)).Filed
        (d.assembled definitions options shapes) := by
  have leads :=
    Leads.of_fill grown (.refl (r'.fill kind name (d.assembled definitions options shapes)))
  have new : (r'.fill kind name (d.assembled definitions options shapes)).Filed
      (d.assembled definitions options shapes) := by
    refine filed_assembled (fun y hy => (filed y hy).mono leads) definitions options d ?_
    intro kind' name' own
    obtain ⟨rfl, rfl⟩ := Descriptor.key_of_collected reading own
    exact get?_fill grown _
  refine ⟨Finished.fill grown (fun e he x finished => ?_) ⟨new, fun notAlias => ?_⟩, new⟩
  · obtain ⟨old, own⟩ := coherent e he x finished
    exact ⟨old.mono leads, own⟩
  · rcases Descriptor.collected_cases reading with ⟨own, -⟩ | ⟨-, isAlias, -, -⟩
    · exact Descriptor.ownKey?_assembled own definitions options shapes
    · exact absurd isAlias notAlias

end Registry

namespace Pipeline

/-- Registries stay coherent, and the shapes that are built in them are filed. -/
theorem filed_invariant (definitions : List (String × Descriptor)) (options : OptionSet) :
    Invariant definitions options Registry.Coherent Registry.Filed where
  unknown := Registry.filed_of_leaf rfl rfl
  known coherent he := coherent.known he
  mono grown filed := filed.mono (.of_grows grown (.refl _))
  composed {d r shapes} reading filed := by
    refine Registry.filed_assembled filed definitions options d fun kind name own => ?_
    rw [(Descriptor.composed_cases reading).1] at own
    cases own
  push source free coherent := coherent.push source free
  built reading _ grown coherent filed := Registry.Coherent.fill grown coherent reading filed

/-- **One shape for each collected name.**  Whatever is asked of stock pipelines, and however many
of the calls fail, each class, record or function that occurs in a shape that was returned or is in
the catalog is the very shape that the catalog has under its kind and name; and the tables of
classes, records and functions have nothing in them but what is of their kind, under its own
name. -/
theorem copies_are_cataloged (calls : List Call) :
    (∀ x, (x ∈ returnedBy calls ∨
        ∃ kind name, (name, x) ∈ (catalogAfter calls).table kind) →
      ∀ part, Shape.Occurs part x → ∀ kind name, part.ownKey? = some (kind, name) →
        (catalogAfter calls).get? kind name = some part) ∧
    ∀ kind name x, kind ≠ .typeAlias → (name, x) ∈ (catalogAfter calls).table kind →
      x.ownKey? = some (kind, name) := by
  obtain ⟨-, coherent, filed⟩ :=
    serveAll_keeps filed_invariant calls .start Registry.coherent_empty
  have listed : ∀ {kind name x}, (name, x) ∈ (catalogAfter calls).table kind →
      (serveAll calls .start).2.registry.get? kind name = some x := by
    intro kind name x member
    rw [catalogAfter, Registry.catalog_table] at member
    exact Registry.get?_eq_some_iff.2 (Registry.mem_table.1 member)
  constructor
  · rintro x (returned | ⟨kind', name', member⟩) part occurs kind name own
    · rw [catalogAfter, Registry.catalog_get?]
      exact filed x returned part occurs kind name own
    · rw [catalogAfter, Registry.catalog_get?]
      exact (coherent.get? (listed member)).1 part occurs kind name own
  · intro kind name x notAlias member
    exact (coherent.get? (listed member)).2 notAlias

/-- A class is built for another one that fails, and then built again, with other options, for a
list: the copy in the list is the class of the catalog, and it is kept under its own kind and
name. -/
theorem copies_are_cataloged_of_rebuilt :
    let point : Descriptor := .classDecl "Point" [("x", .builtin "int")] []
    let failing : Call :=
      ⟨Stock.all, [], .empty, .shape (.classDecl "Line" [("start", point), ("end", .union [])] [])⟩
    let options := OptionSet.empty.insert .collapseOptional
    let asking : Call :=
      ⟨Stock.all, [], options, .shape (.generic "list" [.union [point, .none]])⟩
    let copy : Shape := .classType "Point" [("x", .builtin "int")] options
    (catalogAfter [failing, asking]).get? .classType "Point" = some copy ∧
      copy.ownKey? = some (.classType, "Point") := by
  intro point failing options asking copy
  have returned : returnedBy [failing, asking] = [.list (.optional copy options) options] := by
    simp only [copy, asking, options, failing, point, returnedBy, serveAll, Call.serve]
    cbv
  have cataloged := copies_are_cataloged [failing, asking]
  have found : (catalogAfter [failing, asking]).get? .classType "Point" = some copy := by
    refine cataloged.1 _ (.inl (returned ▸ List.mem_cons_self)) copy ?_ .classType "Point" rfl
    exact .within List.mem_cons_self (.within List.mem_cons_self .self)
  refine ⟨found, cataloged.2 .classType "Point" copy (by decide) ?_⟩
  rw [catalogAfter, Registry.catalog_get?] at found
  rw [catalogAfter, Registry.catalog_table]
  exact Registry.mem_table.2 (Registry.get?_eq_some_iff.1 found)

end Pipeline

end TypeCatalog
