import TypeCatalog.Proofs.Moments
import TypeCatalog.Proofs.WellMade

/-!
Orderly shapes in the middle of a run.

Calls keep the finished claims of a registry orderly.  So does every single step of a call, and the
shapes that are at hand meanwhile are orderly too: those that have been gathered for a descriptor,
of which there are as many as of its parts less those that are still to come, and those that are
answered with (`Pipeline.Moment.Orderly`).  Hence registries are neat at every moment of a run after
whatever calls (`Pipeline.Moment.neat_of_reaches`).
-/

namespace TypeCatalog

/-! ## Finishing and abandoning -/

namespace Registry

open Shape (Orderly)

variable {r : Registry} {kind : CollectedKind} {name : String}

/-- Finishing a claim with an orderly shape leaves a registry neat. -/
theorem Neat.fill (neat : r.Neat) {x : Shape} (orderly : Orderly x) :
    (r.fill kind name x).Neat := by
  intro e he y finished
  rw [fill_entries] at he
  obtain ⟨e', he', rfl⟩ := List.mem_map.1 he
  split at finished
  · cases finished
    exact orderly
  · exact neat e' he' y finished

theorem Neat.abandon (neat : r.Neat) (kind : CollectedKind) (name : String) :
    (r.abandon kind name).Neat := by
  unfold Registry.abandon
  split
  · intro e he
    exact neat e ((List.takeWhile_sublist _).subset he)
  · exact neat

end Registry

namespace Pipeline

open Shape (Orderly)

variable {stock : List Stock} {definitions : List (String × Descriptor)} {options : OptionSet}

/-- Between calls, registries are neat. -/
theorem neat_sessionAfter {calls : List Call} (sound : ∀ c ∈ calls, c.Distinct) :
    (sessionAfter calls).registry.Neat :=
  (serveAll_neat sound (s := .start) fun _ he => absurd he List.not_mem_nil).1

/-- Parts of a sound descriptor are being gathered: the shapes that are there are orderly, and as
many parts are behind them as are left. -/
structure Gathers (definitions : List (String × Descriptor)) (d : Descriptor)
    (shapes : List Shape) (pending : List Descriptor) (asked : Nat) : Prop where
  distinct : d.Distinct
  sane : ∀ fault, d.reading definitions ≠ .malformed fault
  count : shapes.length + asked + pending.length = (d.parts definitions).length
  orderly : ∀ x ∈ shapes, Orderly x
  pending : ∀ part ∈ pending, part.Distinct

/-- What is to be come back to is in order. -/
def Frame.Orderly (definitions : List (String × Descriptor)) : Frame → Prop
  | gathering d shapes pending => Gathers definitions d shapes pending 1
  | collecting _ _ => True

/-- What is being done is in order. -/
def Control.Orderly (definitions : List (String × Descriptor)) : Control → Prop
  | asking d => d.Distinct
  | gathering d shapes pending => Gathers definitions d shapes pending 0
  | answering outcome => ∀ x, outcome = .ok x → Shape.Orderly x

namespace Moment

/-- All shapes in a moment are orderly. -/
structure Orderly (definitions : List (String × Descriptor)) (m : Moment) : Prop where
  control : m.control.Orderly definitions
  stack : ∀ frame ∈ m.stack, frame.Orderly definitions
  registry : m.registry.Neat

variable {m m' : Moment}

theorem orderly_afterAsking (tables : ∀ entry ∈ definitions, entry.2.Distinct) {d : Descriptor}
    {stack : List Frame} {r : Registry}
    (h : Orderly definitions ⟨.asking d, stack, r⟩) :
    (afterAsking stock definitions d stack r).Orderly definitions := by
  obtain ⟨distinct, frames, neat⟩ := h
  have parts : (∀ fault, d.reading definitions ≠ .malformed fault) →
      Gathers definitions d [] (d.parts definitions) 0 := fun sane =>
    ⟨distinct, sane, by simp, fun x hx => (by cases hx), fun part hp => distinct.part tables hp⟩
  cases covered : Stock.covers stock d with
  | false =>
    rw [afterAsking_uncovered covered]
    exact ⟨fun x eq => (by cases eq; exact Shape.orderly_unknown), frames, neat⟩
  | true =>
    cases reading : d.reading definitions with
    | malformed fault =>
      rw [afterAsking_malformed covered reading]
      exact ⟨fun x eq => (by cases eq), frames, neat⟩
    | unresolved name =>
      rw [afterAsking_unresolved covered reading]
      refine ⟨fun x eq => ?_, frames, neat⟩
      cases eq
      cases found : r.search CollectedKind.searchOrder name with
      | none => exact Shape.orderly_unknown
      | some x =>
        obtain ⟨e, he, -, -, rfl⟩ := Registry.exists_of_search_eq_some found
        exact neat.known he
    | composed =>
      rw [afterAsking_composed covered reading]
      exact ⟨parts (by simp [reading]), frames, neat⟩
    | collected kind name source =>
      cases found : r.find? kind name with
      | none =>
        rw [afterAsking_free covered reading found]
        exact ⟨parts (by simp [reading]), List.forall_mem_cons.2 ⟨trivial, frames⟩,
          neat.push found⟩
      | some e =>
        cases same : e.source.same source with
        | false =>
          rw [afterAsking_conflict covered reading found same]
          exact ⟨fun x eq => (by cases eq), frames, neat⟩
        | true =>
          rw [afterAsking_known covered reading found same]
          refine ⟨fun x eq => ?_, frames, neat⟩
          cases eq
          exact neat.known (Registry.find?_eq_some_iff.1 found).1

/-- Each step from a balanced moment keeps the shapes orderly. -/
theorem Orderly.next (tables : ∀ entry ∈ definitions, entry.2.Distinct)
    (balanced : m.Balanced) (h : m.Orderly definitions)
    (step : m.next stock definitions options = some m') : m'.Orderly definitions := by
  obtain ⟨control, stack, r⟩ := m
  obtain ⟨now, frames, neat⟩ := h
  cases control with
  | asking d =>
    cases step
    exact orderly_afterAsking tables ⟨now, frames, neat⟩
  | gathering d shapes pending =>
    cases pending with
    | nil =>
      cases step
      refine ⟨fun x eq => ?_, frames, neat⟩
      cases eq
      exact Descriptor.orderly_assembled now.distinct now.sane now.count now.orderly
    | cons part pending =>
      cases step
      refine ⟨now.pending part List.mem_cons_self, List.forall_mem_cons.2 ⟨?_, frames⟩, neat⟩
      refine ⟨now.distinct, now.sane, ?_, now.orderly, fun p hp =>
        now.pending p (List.mem_cons_of_mem _ hp)⟩
      have count := now.count
      rw [List.length_cons] at count
      omega
  | answering outcome =>
    rcases stack with _ | ⟨⟨d, shapes, pending⟩ | ⟨kind, name⟩, stack⟩
    · cases step
    · obtain ⟨gathers, others⟩ := List.forall_mem_cons.1 frames
      cases outcome with
      | error fault =>
        cases step
        exact ⟨now, others, neat⟩
      | ok shape =>
        cases step
        refine ⟨⟨gathers.distinct, gathers.sane, ?_, ?_, gathers.pending⟩, others, neat⟩
        · have count := gathers.count
          rw [List.length_append, List.length_singleton]
          omega
        · intro x hx
          rcases List.mem_append.1 hx with before | new
          · exact gathers.orderly x before
          · rw [List.mem_singleton.1 new]
            exact now shape rfl
    · have others := (List.forall_mem_cons.1 frames).2
      cases outcome with
      | error fault =>
        cases step
        exact ⟨now, others, neat.abandon kind name⟩
      | ok shape =>
        have last := balanced_collecting.1 balanced
        simp only [Moment.next, Registry.tryFinalize_of_provisional last] at step
        cases step
        exact ⟨now, others, neat.fill (now shape rfl)⟩

/-- A whole run does. -/
theorem Orderly.of_reaches (tables : ∀ entry ∈ definitions, entry.2.Distinct)
    (balanced : m.Balanced) (h : m.Orderly definitions)
    (run : Reaches stock definitions options m m') : m'.Orderly definitions := by
  induction run with
  | refl => exact h
  | tail earlier step ih => exact ih.next tables (balanced.of_reaches earlier) step

/-- Whatever has been called before, and however far the run of a descriptor has come, all finished
claims have orderly shapes. -/
theorem neat_of_reaches {calls : List Call} (sound : ∀ c ∈ calls, c.Distinct)
    (tables : ∀ entry ∈ definitions, entry.2.Distinct) {d : Descriptor} (distinct : d.Distinct)
    (run : Reaches stock definitions options ⟨.asking d, [], (sessionAfter calls).registry⟩ m) :
    m.registry.Neat := by
  have orderly : Orderly definitions ⟨.asking d, [], (sessionAfter calls).registry⟩ :=
    ⟨distinct, fun frame hf => absurd hf List.not_mem_nil, neat_sessionAfter sound⟩
  exact (orderly.of_reaches tables (balanced_of_atRest (atRest_sessionAfter calls)) run).registry

end Moment

end Pipeline

end TypeCatalog
