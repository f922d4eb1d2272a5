import DartModels.Json.Printer
import DartModels.Decimal.Nearest

/-!
# Values of a query

What flows through a query. It is a document, but for its numbers, which come
in three kinds.

An integer of 64 bits with a sign is computed with exactly. Any other number
that a document or the query itself spells out is kept in writing and turned
into a double only when it meets an operator, so a number that a query only
passes on leaves as it came. What an operator makes of doubles is a double.

The three kinds are one kind to whoever compares them, which is why `number?`
exists, and they differ again in the text of a value: a double shows its
digits in place up to `10 ^ 16`, and one that is not finite is written as
`null`.

## Main definitions

* `Query.Value`: A value.
* `Value.ofJson`, `Value.text`: From a document, and to the text of one.
* `Value.ofInteger`: An integer, or a double where 64 bits do not suffice.
* `Value.truth`: What counts as true.
-/

namespace DartModels

namespace Query

/-- A value that a query works on. -/
inductive Value where
  | null
  | bool (value : Bool)
  | integer (value : Int)
  | double (value : Float)
  | written (digits : String)
  | string (value : String)
  | array (items : List Value)
  | object (members : List (String × Value))

namespace Value

/-- Whether an integer fits 64 bits with a sign. -/
def fits (n : Int) : Bool :=
  -(Nat.pow 2 63 : Int) ≤ n && n < Nat.pow 2 63

/-- The result of integer arithmetic. What overflows goes on as a double,
    computed by `rounded`. -/
def ofInteger (exact : Int) (rounded : Float) : Value :=
  if fits exact then .integer exact else .double rounded

/-- A number that the text of a query spells with these digits. -/
def ofDigits (digits : String) : Value :=
  match Decimal.Nearest.integer? digits.toList with
  | some n => if fits n then .integer n else .written digits
  | none => .written digits

mutual

/-- A document as a value. -/
def ofJson : Json → Value
  | .null => .null
  | .bool b => .bool b
  | .number (.integer n) => if fits n then .integer n else .written (toString n)
  | .number (.double f) => .written (String.ofList (Json.Printer.number (.double f)))
  | .string s => .string s
  | .array items => .array (ofItems items)
  | .object members => .object (ofMembers members)

/-- The items of an array as values. -/
def ofItems : List Json → List Value
  | [] => []
  | v :: rest => ofJson v :: ofItems rest

/-- The members of an object as values. -/
def ofMembers : List (String × Json) → List (String × Value)
  | [] => []
  | (k, v) :: rest => (k, ofJson v) :: ofMembers rest

end

/-- Doubles from `10 ^ -4` up to `10 ^ 16` have their point in place. -/
def doubleLayout : Decimal.Layout := ⟨-4, 15, false, 1⟩

mutual

/-- The text of a value. -/
def chars : Value → List Char
  | .null => "null".toList
  | .bool true => "true".toList
  | .bool false => "false".toList
  | .integer n => (toString n).toList
  | .double f => ((doubleLayout.write? f).getD "null").toList
  | .written digits => digits.toList
  | .string s => Json.Printer.quote s
  | .array [] => ['[', ']']
  | .array (v :: rest) => '[' :: (chars v ++ itemChars rest)
  | .object [] => ['\x7b', '\x7d']
  | .object ((k, v) :: rest) =>
      '\x7b' :: (Json.Printer.quote k ++ ':' :: (chars v ++ memberChars rest))

/-- The items of an array behind the first, with the closing bracket. -/
def itemChars : List Value → List Char
  | [] => [']']
  | v :: rest => ',' :: (chars v ++ itemChars rest)

/-- The members of an object behind the first, with the closing brace. -/
def memberChars : List (String × Value) → List Char
  | [] => ['\x7d']
  | (k, v) :: rest =>
      ',' :: (Json.Printer.quote k ++ ':' :: (chars v ++ memberChars rest))

end

/-- The text of a value on one line. -/
def text (v : Value) : String :=
  String.ofList (chars v)

/-- Only `null` and `false` do not count as true. -/
def truth : Value → Bool
  | .null => false
  | .bool b => b
  | _ => true

/-- A number that is not an integer of 64 bits, as a double. -/
def number? : Value → Option Float
  | .double f => some f
  | .written digits => some ((Decimal.nearest? digits).getD 0.0)
  | _ => none

/-- The word for the kind of a value. -/
def kindName : Value → String
  | .null => "null"
  | .bool _ => "boolean"
  | .integer _ => "number"
  | .double _ => "number"
  | .written _ => "number"
  | .string _ => "string"
  | .array _ => "array"
  | .object _ => "object"

end Value

end Query

end DartModels
