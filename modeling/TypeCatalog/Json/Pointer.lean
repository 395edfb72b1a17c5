import TypeCatalog.Json
import TypeCatalog.Text.Split

/-!
JSON pointers.

A pointer is empty, for the whole value, or a run of tokens with a slash before each.  In a
token `~1` stands for a slash and `~0` for a tilde.  A token selects the member of an object
by its key and the element of an array by its index in decimal, written without sign or leading
zeros.
-/

namespace TypeCatalog.Json

namespace Pointer

/-- Write every slash that a token spells out. -/
def unescapeSlash : List Char → List Char
  | '~' :: '1' :: rest => '/' :: unescapeSlash rest
  | c :: rest => c :: unescapeSlash rest
  | [] => []

/-- Write every tilde that a token spells out. -/
def unescapeTilde : List Char → List Char
  | '~' :: '0' :: rest => '~' :: unescapeTilde rest
  | c :: rest => c :: unescapeTilde rest
  | [] => []

/-- The name that a token spells: slashes are put back before tildes, so `~01` is `~1`. -/
def unescape (token : String) : String :=
  String.ofList (unescapeTilde (unescapeSlash token.toList))

/-- The names along a pointer; none when the text is no pointer. -/
def names? (pointer : String) : Option (List String) :=
  match Text.split '/' pointer with
  | [""] => some []
  | "" :: tokens => some (tokens.map unescape)
  | _ => none

/-- The index that a name spells. -/
def index? (name : String) : Option Nat :=
  match name.toList with
  | [] => none
  | ['0'] => some 0
  | '0' :: _ => none
  | digits =>
    if digits.all Char.isDigit then
      some (digits.foldl (fun n c => 10 * n + (c.toNat - '0'.toNat)) 0)
    else none

/-- What a name selects in a value. -/
def child? (name : String) : Json → Option Json
  | .obj members => Assoc.find? name members
  | .arr items => (index? name).bind (items[·]?)
  | _ => none

/-- What names select, one after the other. -/
def follow? : List String → Json → Option Json
  | [], v => some v
  | name :: rest, v => (child? name v).bind (follow? rest)

end Pointer

/-- The value that a pointer selects. -/
def select? (pointer : String) (v : Json) : Option Json :=
  (Pointer.names? pointer).bind (Pointer.follow? · v)

end TypeCatalog.Json
