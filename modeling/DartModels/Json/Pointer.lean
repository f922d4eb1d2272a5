import DartModels.Json.Value

/-!
# Pointers into a document

A pointer names one place of a document by the steps that lead to it from the
root, each behind a slash: `/data/items/0`. The empty pointer is the whole
document.

A step that has to contain a slash writes it `~1`, and a tilde is written
`~0`. Slashes are restored first, since a restored tilde must not take part in
a second replacement. In an object a step is a key. In an array it is an index
in plain digits: no sign, and no leading zero but for `0` itself.

## Main definitions

* `Pointer.steps?`: The steps of a pointer.
* `Pointer.follow?`: The place that steps lead to.
* `Pointer.missing`: What is said of a pointer that leads nowhere.
* `Json.select?`: The place that a pointer names.
-/

namespace DartModels

namespace Json

namespace Pointer

/-- Replace each `~` that is followed by `digit` by `c`. -/
def unescape (digit c : Char) : List Char → List Char
  | '~' :: d :: rest => if d = digit then c :: unescape digit c rest
      else '~' :: unescape digit c (d :: rest)
  | x :: rest => x :: unescape digit c rest
  | [] => []

/-- Cut a text at its slashes. -/
def segments (word : List Char) : List Char → List (List Char)
  | [] => [word.reverse]
  | c :: rest => if c = '/' then word.reverse :: segments [] rest else segments (c :: word) rest

/-- The key that a segment stands for. -/
def step (segment : List Char) : String :=
  String.ofList (unescape '0' '~' (unescape '1' '/' segment))

/-- The steps of a pointer: `none` if it does not begin with a slash. -/
def steps? (pointer : String) : Option (List String) :=
  match pointer.toList with
  | [] => some []
  | '/' :: rest => some ((segments [] rest).map step)
  | _ => none

/-- The array index that a step stands for. -/
def index? (key : String) : Option Nat :=
  let digits := key.toList
  if digits.isEmpty || !digits.all Char.isDigit then none
  else if digits.head? = some '0' && digits.length ≠ 1 then none
  else some (digits.foldl (fun n c => n * 10 + (c.toNat - '0'.toNat)) 0)

/-- The value one step below another. -/
def enter? (v : Json) (key : String) : Option Json :=
  match v with
  | .object members => find? members key
  | .array items => (index? key).bind fun i => items[i]?
  | _ => none

/-- The value that steps lead to. -/
def follow? : Json → List String → Option Json
  | v, [] => some v
  | v, key :: rest => (enter? v key).bind fun u => follow? u rest

/-- The report of a pointer that leads nowhere. -/
def missing (pointer : String) : String :=
  s!"JSON pointer `{pointer}` does not match anything in the document"

end Pointer

/-- The value that a pointer names. -/
def select? (pointer : String) (v : Json) : Option Json :=
  (Pointer.steps? pointer).bind (Pointer.follow? v)

end Json

end DartModels
