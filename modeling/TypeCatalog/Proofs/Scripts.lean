import TypeCatalog.Proofs.Numbering
import TypeCatalog.Proofs.Rollback

/-!
Runs of a pipeline on tables that number their claims.

The operations on numbered tables answer as those on the list of claims do, call by call
(`Numbered.perform_alike`).  Here this is carried to whole runs.  A `Script` is a build that is
written out as a tree of calls, branching on what each is replied with, so that it can be run on
either sort of registry; and on both it ends alike, for it learns no more than the replies
(`Script.run_alike`).

Every disciplined build is spelled by a script (`Build.Disciplined.exists_script`): a name is
claimed, built and then finished or abandoned by calls (`Script.collect`), and looked up kind by
kind (`Script.search`).  Hence a pipeline of disciplined recognizers, the stock ones or others
among them, takes the shape of a descriptor on numbered tables as well, and leaves tables that keep
the registry that it leaves (`Pipeline.Disciplined.shape_alike`).  What fails to be collected
leaves the rows as they were (`Build.Disciplined.collect_restores`), and a document has the roots
and the catalog that are read off the tables (`Document.extract_alike`).
-/

namespace TypeCatalog

open Registry (Interface Operation Status)

/-! ## Scripts -/

/-- A build that is written out: it ends, or makes a call and goes on by what that is replied with,
or notes a label. -/
inductive Script (α : Type) where
  | ret (a : α)
  | fail (fault : ExtractError)
  | call (op : Operation) (next : op.Reply → Script α)
  | note (label : String) (next : Script α)

namespace Script

variable {α β σ : Type}

/-- Run a script on a state of some sort, with the labels that are noted already. -/
def run (i : Interface σ) : Script α → σ → List String → Except ExtractError α × σ × List String
  | ret a, state, journal => (.ok a, state, journal)
  | fail fault, state, journal => (.error fault, state, journal)
  | call op next, state, journal =>
    (next (i.perform op state).1).run i (i.perform op state).2 journal
  | note label next, state, journal => next.run i state (journal ++ [label])

/-- Go on when a script has ended, in a value or in an error. -/
def onEnd (next : Except ExtractError α → Script β) : Script α → Script β
  | ret a => next (.ok a)
  | fail fault => next (.error fault)
  | call op later => call op fun reply => (later reply).onEnd next
  | note label later => note label (later.onEnd next)

/-- One script after another. -/
def bind (first : Script α) (next : α → Script β) : Script β :=
  first.onEnd fun
    | .ok a => next a
    | .error fault => fail fault

/-- A value to put in the place of one that cannot be built. -/
def orElse (first : Script α) (a : α) : Script α :=
  first.onEnd fun
    | .ok b => ret b
    | .error _ => ret a

/-- The shape by which a name is known that has been looked up, or what is found elsewhere. -/
def known (kind : CollectedKind) (name : String) (elsewhere : Script (Option Shape)) :
    Status → Script (Option Shape)
  | .vacant => elsewhere
  | .inProgress => ret (some (.reference name kind))
  | .done shape => ret (some shape)

/-- Look a name up under one kind after another. -/
def search (name : String) : List CollectedKind → Script (Option Shape)
  | [] => ret none
  | kind :: rest => call (.lookup kind name) (known kind name (search name rest))

/-- What is replied is the end. -/
def reply : Except ExtractError α → Script α
  | .ok a => ret a
  | .error fault => fail fault

/-- Finish a claim with what was built for it, or take the claim back. -/
def settle (kind : CollectedKind) (name : String) : Except ExtractError Shape → Script Shape
  | .ok shape => call (.finalize kind name shape) reply
  | .error fault => call (.abandon kind name) fun () => fail fault

/-- What a name stands for that was to be claimed, or what is built for it. -/
def claimed (kind : CollectedKind) (name : String) (build : Script Shape) :
    Except ExtractError Status → Script Shape
  | .error fault => fail fault
  | .ok (.done shape) => ret shape
  | .ok .inProgress => ret (.reference name kind)
  | .ok .vacant => build.onEnd (settle kind name)

/-- The shape of a collected type. -/
def collect (kind : CollectedKind) (name : String) (source : Descriptor) (build : Script Shape) :
    Script Shape :=
  call (.claim kind name source) (claimed kind name build)

theorem run_onEnd (i : Interface σ) (next : Except ExtractError α → Script β) (script : Script α)
    (state : σ) (journal : List String) :
    (script.onEnd next).run i state journal =
      (next (script.run i state journal).1).run i (script.run i state journal).2.1
        (script.run i state journal).2.2 := by
  induction script generalizing state journal with
  | ret a => rfl
  | fail fault => rfl
  | call op later ih => exact ih (i.perform op state).1 (i.perform op state).2 journal
  | note label later ih => exact ih state (journal ++ [label])

/-! ## On the list of claims and on numbered tables -/

/-- The same value or error, the same labels, and tables that keep the registry. -/
structure EndsAlike (a : Except ExtractError α × Numbered × List String)
    (b : Except ExtractError α × Registry × List String) : Prop where
  outcome : a.1 = b.1
  keeps : a.2.1.Keeps b.2.1
  journal : a.2.2 = b.2.2

/-- A script that is run on tables which keep a registry ends as it does on the registry. -/
theorem run_alike {t : Numbered} {r : Registry} (script : Script α) (keeps : t.Keeps r)
    (journal : List String) :
    EndsAlike (script.run Numbered.interface t journal)
      (script.run Registry.interface r journal) := by
  induction script generalizing t r journal with
  | ret a => exact ⟨rfl, keeps, rfl⟩
  | fail fault => exact ⟨rfl, keeps, rfl⟩
  | call op next ih =>
    obtain ⟨reply, keeps'⟩ := Numbered.perform_alike keeps op
    have later := ih (Numbered.interface.perform op t).1 keeps' journal
    rw [reply] at later
    rw [run, run, reply]
    exact later
  | note label next ih => exact ih keeps (journal ++ [label])

/-! ## Scripts of builds -/

/-- Run on the list of claims, a script does what a build does. -/
def Spells (script : Script α) (b : Build α) : Prop :=
  ∀ s : Session, script.run Registry.interface s.registry s.journal =
    ((b s).1, (b s).2.registry, (b s).2.journal)

variable {script : Script α} {b : Build α}

/-- A script that spells a build goes on in the session that the build leaves. -/
theorem Spells.run_onEnd (h : script.Spells b) (next : Except ExtractError α → Script β)
    (s : Session) :
    (script.onEnd next).run Registry.interface s.registry s.journal =
      (next (b s).1).run Registry.interface (b s).2.registry (b s).2.journal := by
  rw [Script.run_onEnd, h s]

theorem Spells.bind {script' : α → Script β} {next : α → Build β} (h : script.Spells b)
    (h' : ∀ a, (script' a).Spells (next a)) : (script.bind script').Spells (b >>= next) := by
  intro s
  rw [Script.bind, h.run_onEnd, Build.bind_apply]
  rcases b s with ⟨fault | a, s'⟩
  · rfl
  · exact h' a s'

theorem Spells.orElse (h : script.Spells b) (a : α) : (script.orElse a).Spells (b.orElse a) := by
  intro s
  rw [Script.orElse, h.run_onEnd, Build.orElse]
  rcases b s with ⟨fault | a', s'⟩ <;> rfl

theorem spells_search (kinds : List CollectedKind) (name : String) :
    (search name kinds).Spells do
      let registry ← Build.registry
      return registry.search kinds name := by
  intro s
  show _ = (Except.ok (s.registry.search kinds name), s.registry, s.journal)
  induction kinds with
  | nil => rfl
  | cons kind rest ih =>
    show (known kind name (search name rest) (s.registry.status kind name)).run
      Registry.interface s.registry s.journal = _
    rw [Registry.search, List.findSome?_cons, Registry.known?]
    cases s.registry.status kind name with
    | vacant => exact ih
    | inProgress => rfl
    | done shape => rfl

theorem spells_settle {script : Script Shape} {b : Build Shape} (h : script.Spells b)
    (kind : CollectedKind) (name : String) :
    (script.onEnd (settle kind name)).Spells (Build.complete kind name b) := by
  intro s
  rw [h.run_onEnd, Build.complete]
  rcases b s with ⟨fault | shape, s'⟩
  · rfl
  · show (reply (s'.registry.tryFinalize kind name shape).1).run Registry.interface
      (s'.registry.tryFinalize kind name shape).2 s'.journal = _
    simp only [Build.finalize_apply]
    cases (s'.registry.tryFinalize kind name shape).1 <;> rfl

theorem Spells.collect {script : Script Shape} {b : Build Shape} (h : script.Spells b)
    (kind : CollectedKind) (name : String) (source : Descriptor) :
    (script.collect kind name source).Spells (Build.collect kind name source b) := by
  intro s
  show (claimed kind name script (s.registry.tryClaim kind name source).1).run Registry.interface
    (s.registry.tryClaim kind name source).2 s.journal = _
  rw [Build.collect, Build.bind_apply, Build.claim_apply]
  rcases (s.registry.tryClaim kind name source) with ⟨fault | _ | _ | shape, r⟩
  · rfl
  · exact spells_settle h kind name ⟨r, s.journal⟩
  · rfl
  · rfl

/-- A script that is run on numbered tables ends as the build that it spells. -/
theorem Spells.alike (h : script.Spells b) {t : Numbered} {s : Session}
    (keeps : t.Keeps s.registry) :
    EndsAlike (script.run Numbered.interface t s.journal)
      ((b s).1, (b s).2.registry, (b s).2.journal) :=
  h s ▸ script.run_alike keeps s.journal

end Script

open Script

/-! ## Disciplined builds -/

/-- What looks names up, notes labels and collects types can be written out in calls. -/
theorem Build.Disciplined.exists_script {α : Type} {b : Build α} (h : b.Disciplined) :
    ∃ script : Script α, script.Spells b := by
  induction h with
  | pure a => exact ⟨.ret a, fun s => rfl⟩
  | fail fault => exact ⟨.fail fault, fun s => rfl⟩
  | bind _ _ first next =>
    obtain ⟨script, spells⟩ := first
    choose script' spells' using next
    exact ⟨script.bind script', spells.bind spells'⟩
  | search kinds name => exact ⟨.search name kinds, spells_search kinds name⟩
  | note label => exact ⟨.note label (.ret ()), fun s => rfl⟩
  | orElse a _ first =>
    obtain ⟨script, spells⟩ := first
    exact ⟨script.orElse a, spells.orElse a⟩
  | @collect kind name source _ _ built =>
    obtain ⟨script, spells⟩ := built
    exact ⟨script.collect kind name source, spells.collect kind name source⟩

/-- What fails to be collected on numbered tables leaves their rows as they were, though it may have
claimed, finished and taken back any number of names. -/
theorem Build.Disciplined.collect_restores {b : Build Shape} (h : b.Disciplined) :
    ∃ script : Script Shape, script.Spells b ∧
      ∀ (kind : CollectedKind) (name : String) (source : Descriptor) (t : Numbered) (s : Session)
        (fault : ExtractError), t.Keeps s.registry →
        let ended := (script.collect kind name source).run Numbered.interface t s.journal
        ended.1 = .error fault →
          ∀ other, (ended.2.1.table other).map (Numbered.Row.entry other) =
            (t.table other).map (Numbered.Row.entry other) := by
  obtain ⟨script, spells⟩ := h.exists_script
  refine ⟨script, spells, fun kind name source t s fault keeps => ?_⟩
  intro ended failed other
  obtain ⟨outcome, keeps', -⟩ := (spells.collect kind name source).alike keeps
  have restored : (Build.collect kind name source b s).2.registry = s.registry :=
    h.growing.collect_error (Prod.ext (outcome.symm.trans failed) rfl)
  rw [restored] at keeps'
  exact (keeps'.rows other).trans (keeps.rows other).symm

/-! ## Pipelines -/

/-- **Whole runs need no numbers.**  The shape of a descriptor is taken by calls, of which a
pipeline of disciplined recognizers makes the same on tables that number their claims: from tables
that keep the registry of a session they lead to the same shape or error, the same labels, and
tables that keep the registry that is left. -/
theorem Pipeline.Disciplined.shape_alike {p : Pipeline} (h : p.Disciplined) (d : Descriptor)
    (options : OptionSet) :
    ∃ script : Script Shape, script.Spells (p.shape d options) ∧
      ∀ (t : Numbered) (s : Session), t.Keeps s.registry →
        EndsAlike (script.run Numbered.interface t s.journal)
          ((p.shape d options s).1, (p.shape d options s).2.registry,
            (p.shape d options s).2.journal) := by
  obtain ⟨script, spells⟩ := (h.shape d options).exists_script
  exact ⟨script, spells, fun t s keeps => spells.alike keeps⟩

namespace Document

theorem disciplined_rootShapes {p : Pipeline} (h : p.Disciplined) (options : OptionSet)
    (roots : List (String × Descriptor)) : (rootShapes p options roots).Disciplined := by
  induction roots with
  | nil => exact .pure []
  | cons root rest ih =>
    exact (h.shape root.2 options).bind fun shape => ih.bind fun shapes => .pure _

/-- A document has the roots and the catalog that are found on numbered tables. -/
theorem extract_alike (doc : Document) (options : OptionSet) :
    ∃ script : Script (List (String × Shape)),
      script.Spells (rootShapes (.standard doc.definitions) options doc.roots) ∧
        let ended := script.run Numbered.interface .empty []
        doc.extract options = ended.1.map fun roots => ⟨roots, ended.2.1.catalog⟩ := by
  have disciplined : (Pipeline.standard doc.definitions).Disciplined :=
    Pipeline.disciplined_ofStock Stock.all doc.definitions
  obtain ⟨script, spells⟩ := (disciplined_rootShapes disciplined options doc.roots).exists_script
  obtain ⟨outcome, keeps, -⟩ : EndsAlike (script.run Numbered.interface .empty []) _ :=
    spells.alike (s := .start) Numbered.keeps_empty
  refine ⟨script, spells, ?_⟩
  show doc.extract options = Except.map (fun roots => Extraction.mk roots (Numbered.catalog _)) _
  rw [keeps.catalog, outcome]
  unfold extract extractWith
  rw [Build.bind_apply]
  rcases rootShapes (.standard doc.definitions) options doc.roots .start with ⟨fault | roots, s⟩ <;>
    rfl

end Document

end TypeCatalog
