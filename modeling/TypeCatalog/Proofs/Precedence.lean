import TypeCatalog.Proofs.Depth

/-!
The order of stock recognizers.

A pipeline asks its recognizers in order and takes the first claim, so that a recognizer can be put
before others to overrule them.  Among the stock recognizers there is nothing to overrule.  No two
of them claim one descriptor (`declines_of_claims`), and one that declines leaves the session as it
was, though it may have looked into the registry (`silent_of_declines`).  So all that matters about
a list of stock recognizers is which of them are in it, at every depth at which the list is gone
through again (`shapeWithin_congr`).  `transcript` is what can be seen of calls to a pipeline, and
`order_is_immaterial` says that lists with the same members show the same.
-/

namespace TypeCatalog

namespace Stock

variable {stock stock' : List Stock}

/-! ## Claims and refusals -/

section Recognizers

variable {w : Surroundings} {options : OptionSet} {d : Descriptor} {r r' : Stock} {s : Session}

/-- A recognizer that declines leaves no trace. -/
theorem silent_of_declines (declines : (r.claim? w d options s).1 = .ok none) :
    (r.claim? w d options s).2 = s := by
  rcases claim?_cases w options r d with reads | ⟨name, looks⟩ | refuses
  · -- what is read gives a shape or fails, but is not declined
    rw [reads, map_eq_pure_bind, Build.bind_apply] at declines
    split at declines <;> cases declines
  · rw [looks]
    rfl
  · rw [refuses]
    rfl

/-- If one recognizer does not decline a descriptor, every other one does, whatever is collected. -/
theorem declines_of_claims (claims : (r.claim? w d options s).1 ≠ .ok none) (other : r' ≠ r) :
    r'.claim? w d options = pure none := by
  refine claim?_of_not_claimant w options fun claimed' => ?_
  have unclaimed : d.claimant? ≠ some r := fun claimed =>
    other (Option.some.inj (claimed'.symm.trans claimed))
  rw [claim?_of_not_claimant w options unclaimed] at claims
  exact claims rfl

end Recognizers

theorem covers_congr (same : ∀ r, r ∈ stock ↔ r ∈ stock') (d : Descriptor) :
    covers stock d = covers stock' d := by
  unfold covers
  cases d.claimant? with
  | none => rfl
  | some r => simp [same r]

end Stock

namespace Pipeline

variable {stock stock' : List Stock}

/-! ## Shapes -/

/-- Lists with the same members give the same shapes within every bound. -/
theorem shapeWithin_congr (same : ∀ r, r ∈ stock ↔ r ∈ stock')
    (definitions : List (String × Descriptor)) (bound : Nat) :
    (ofStock stock definitions).shapeWithin bound =
      (ofStock stock' definitions).shapeWithin bound := by
  induction bound with
  | zero => rfl
  | succ bound ih =>
    have surroundings : within stock definitions bound = within stock' definitions bound := by
      unfold within
      rw [ih]
    funext d options
    rw [shapeWithin_succ, shapeWithin_succ, surroundings, Stock.covers_congr same d]

theorem shape_congr (same : ∀ r, r ∈ stock ↔ r ∈ stock')
    (definitions : List (String × Descriptor)) :
    (ofStock stock definitions).shape = (ofStock stock' definitions).shape := by
  funext d options
  have bound : (ofStock stock definitions).depthFor d.size =
      (ofStock stock' definitions).depthFor d.size := rfl
  unfold shape
  rw [shapeWithin_congr same definitions, bound]

/-! ## Calls -/

/-- What can be seen of calls to a pipeline, one after another: what each of them returns, and what
it leaves in the registry. -/
def transcript (p : Pipeline) : List (Descriptor × OptionSet) → Session →
    List (Except ExtractError Shape × Registry)
  | [], _ => []
  | (d, options) :: rest, s =>
    ((p.shape d options s).1, (p.shape d options s).2.registry) ::
      p.transcript rest (p.shape d options s).2

/-- **Stock recognizers do not compete.**  Pipelines of stock recognizers with the same members, in
whatever order and however often, and with the same definitions, answer every sequence of calls with
the same shapes and errors, and their registries are the same after each call. -/
theorem order_is_immaterial (same : ∀ r, r ∈ stock ↔ r ∈ stock')
    (definitions : List (String × Descriptor)) (calls : List (Descriptor × OptionSet))
    (s : Session) :
    (ofStock stock definitions).transcript calls s =
      (ofStock stock' definitions).transcript calls s := by
  induction calls generalizing s with
  | nil => rfl
  | cons call rest ih =>
    obtain ⟨d, options⟩ := call
    unfold transcript
    rw [shape_congr same definitions, ih]

/-- The same recognizers backwards, two of them twice: a list of nodes, a failing call, and a name
that has no definition and is found among what the first call has collected. -/
theorem order_is_immaterial_of_repeated :
    let stock : List Stock := [.reference, .classDecl, .listLike, .union, .builtin]
    let stock' : List Stock :=
      [.builtin, .reference, .union, .listLike, .classDecl, .reference, .union]
    let node : Descriptor := .classDecl "Node" [("next", .ref "Node"), ("item", .ref "Item")] []
    let definitions := [("Item", .union [.builtin "int", .generic "list" [.ref "Item"]])]
    let calls : List (Descriptor × OptionSet) :=
      [(.generic "list" [node], .empty), (.union [], .empty), (.ref "Node", .empty)]
    (∀ r, r ∈ stock ↔ r ∈ stock') ∧
      (ofStock stock definitions).transcript calls .start =
        (ofStock stock' definitions).transcript calls .start := by
  intro stock stock' node definitions calls
  have same : ∀ r, r ∈ stock ↔ r ∈ stock' := by
    intro r
    cases r <;> decide
  exact ⟨same, order_is_immaterial same definitions calls .start⟩

end Pipeline

end TypeCatalog
