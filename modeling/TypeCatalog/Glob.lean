import TypeCatalog.Text.Split

/-!
Patterns of paths.

In a component of a pattern, `?` stands for one character, `*` for any run of them and a class
in brackets for one character in it, or not in it after `!`.  The component `**` stands for
directories at any depth; two stars stand nowhere else, and three nowhere at all.

`Glob.ofText` reads a pattern or says where it is malformed, and `Glob.matchAll` says which names
the tokens of a component take.
-/

namespace TypeCatalog

namespace Glob

/-! ## Tokens -/

/-- What a pattern asks of the characters of a name. -/
inductive Token where
  | char (c : Char)
  | anyChar
  | anyRun
  /-- A character between the ends of one of some ranges. -/
  | inClass (ranges : List (Char × Char))
  | notInClass (ranges : List (Char × Char))

/-- Whether a character is between the ends of one of some ranges. -/
def inRanges (ranges : List (Char × Char)) (c : Char) : Bool :=
  ranges.any fun (low, high) => low ≤ c ∧ c ≤ high

/-- Whether a token takes a character. -/
def Token.takes (c : Char) : Token → Bool
  | char c' => c = c'
  | anyChar => true
  | anyRun => true
  | inClass ranges => inRanges ranges c
  | notInClass ranges => !inRanges ranges c

/-- For each end of a text, the whole of it first and the empty end last, whether a token takes
its first character and what follows passes. -/
def oneBefore (token : Token) : List Char → List Bool → List Bool
  | c :: rest, _ :: passes => (token.takes c && passes.headD false) :: oneBefore token rest passes
  | _, _ => [false]

/-- For each end of a text, whether it or an end of it passes. -/
def anyBefore : List Bool → List Bool
  | [] => []
  | pass :: passes =>
    let later := anyBefore passes
    (pass || later.headD false) :: later

/-- For each end of a text, the whole of it first and the empty end last, whether tokens take
it.  Every token looks at every end once, however many runs there are. -/
def endsTaken (text : List Char) : List Token → List Bool
  | [] => text.map (fun _ => false) ++ [true]
  | .anyRun :: tokens => anyBefore (endsTaken text tokens)
  | token :: tokens => oneBefore token text (endsTaken text tokens)

/-- Whether tokens take a whole text. -/
def matchAll (tokens : List Token) (text : List Char) : Bool :=
  (endsTaken text tokens).headD false

/-! ## Reading tokens -/

/-- What can be wrong with a pattern. -/
inductive Fault where
  | starRun
  | strayDoubleStar
  | openClass

/-- The wording of a fault. -/
def Fault.message : Fault → String
  | starRun => "wildcards are either regular `*` or recursive `**`"
  | strayDoubleStar => "recursive wildcards must form a single path component"
  | openClass => "invalid range pattern"

/-- A fault and the number of characters before it. -/
structure Malformed where
  position : Nat
  fault : Fault

/-- The wording of a malformed pattern. -/
def Malformed.message (m : Malformed) : String :=
  "Pattern syntax error near position " ++ toString m.position ++ ": " ++ m.fault.message

/-- The ranges that a class spells: `a-z`, or a character alone. -/
def ranges : List Char → List (Char × Char)
  | low :: '-' :: high :: rest => (low, high) :: ranges rest
  | c :: rest => (c, c) :: ranges rest
  | [] => []

/-- What a pattern is in the middle of. -/
inductive State where
  /-- Nothing; `fresh` at the start of a component. -/
  | between (fresh : Bool)
  /-- A run of stars that begins at a position; `fresh` when a component begins there. -/
  | stars (start count : Nat) (fresh : Bool)
  /-- A class that begins at a position, with its characters so far, the last one first. -/
  | inside (start : Nat) (content : List Char)

/-- A character in the middle of nothing: the tokens that it makes and the state after it. -/
def opening (position : Nat) (fresh : Bool) (c : Char) : List Token × State :=
  if c = '?' then ([.anyChar], .between false)
  else if c = '*' then ([], .stars position 1 fresh)
  else if c = '[' then ([], .inside position [])
  else ([.char c], .between (c = '/'))

/-- The token of a run of stars that ends before a position. -/
def starToken (start count : Nat) (fresh : Bool) (position : Nat) (next : Option Char) :
    Except Malformed Token :=
  if count > 2 then .error ⟨start + 2, .starRun⟩
  else if count = 2 ∧ !fresh then .error ⟨start - 1, .strayDoubleStar⟩
  else if count = 2 ∧ next.any (· ≠ '/') then .error ⟨position, .strayDoubleStar⟩
  else .ok .anyRun

/-- The class of some characters, the last one first; none as long as it has no member. -/
def classToken? (content : List Char) : Option Token :=
  match content.reverse with
  | [] => none
  | ['!'] => none
  | '!' :: members => some (.notInClass (ranges members))
  | members => some (.inClass (ranges members))

/-- The tokens of a text. -/
def tokens (position : Nat) : State → List Char → Except Malformed (List Token)
  | .between _, [] => .ok []
  | .stars start count fresh, [] => do
    let token ← starToken start count fresh position none
    return [token]
  | .inside start _, [] => .error ⟨start, .openClass⟩
  | .between fresh, c :: rest => do
    let (made, state) := opening position fresh c
    return made ++ (← tokens (position + 1) state rest)
  | .stars start count fresh, c :: rest =>
    if c = '*' then tokens (position + 1) (.stars start (count + 1) fresh) rest
    else do
      let token ← starToken start count fresh position (some c)
      let (made, state) := opening position false c
      return token :: made ++ (← tokens (position + 1) state rest)
  | .inside start content, c :: rest =>
    match (if c = ']' then classToken? content else none) with
    | some token => do return token :: (← tokens (position + 1) (.between false) rest)
    | none => tokens (position + 1) (.inside start (c :: content)) rest

/-! ## Patterns -/

/-- The tokens of a text by itself. -/
def tokensOf (text : String) : Except Malformed (List Token) :=
  tokens 0 (.between true) text.toList

/-- A component of a pattern. -/
inductive Component where
  /-- A name as it stands. -/
  | name (name : String)
  /-- The names that some tokens take. -/
  | wild (tokens : List Token)
  /-- Directories at any depth. -/
  | anyDepth

/-- The component that a piece of a pattern spells. -/
def Component.ofText (piece : String) : Except Malformed Component := do
  let tokens ← tokensOf piece
  if piece = "**" then return anyDepth
  else if piece.any (fun c => c = '?' || c = '*' || c = '[') then return wild tokens
  else return name piece

/-- Whether a component takes a name; one that stands for directories at any depth takes none
by itself. -/
def Component.takes (s : String) : Component → Bool
  | name s' => s = s'
  | wild tokens => matchAll tokens s.toList
  | anyDepth => false

/-- Write consecutive components for any depth once. -/
def collapse : List Component → List Component
  | .anyDepth :: .anyDepth :: rest => collapse (.anyDepth :: rest)
  | component :: rest => component :: collapse rest
  | [] => []

end Glob

/-- A pattern of paths. -/
structure Glob where
  absolute : Bool
  components : List Glob.Component
  /-- The pattern ends in a slash, and so takes directories only. -/
  directoriesOnly : Bool

namespace Glob

/-- The pattern that a text spells.  The text is checked as a whole first, so that a fault is
placed in it and not in a component; a class may still run over a slash, and is then cut. -/
def ofText (text : String) : Except Malformed Glob := do
  let _ ← tokensOf text
  let absolute := text.startsWith "/"
  let pieces := Text.split '/' text
  let pieces := if absolute then pieces.drop 1 else pieces
  let directoriesOnly := pieces.getLast? = some ""
  let pieces := if directoriesOnly then pieces.dropLast else pieces
  return ⟨absolute, collapse (← pieces.mapM Component.ofText), directoriesOnly⟩

/-- Whether a path is to be read as a pattern: whether a wildcard, an opening bracket or an
opening brace is in it. -/
def isPattern (path : String) : Bool :=
  path.any fun c => c = '*' || c = '?' || c = '[' || c = '\x7b'

end Glob

end TypeCatalog
