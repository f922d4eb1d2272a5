import DartModels.Json.Value
import DartModels.Decimal.Layout

/-!
# Printing a document

A document as text, on one line or indented.

Both forms keep the order of members and agree on scalars. A string is quoted
with the fewest escapes that are allowed: the quote, the backslash and the
control characters, the five of them with short names by those names. A number
that is not finite has no spelling in JSON and is written as `null`.

The printer is a walk over the tree that collects characters, so what it does
to a container is visible as a concatenation and can be reasoned about as one.

## Main definitions

* `Json.doubleLayout`: How doubles are laid out in a document.
* `Json.compact`: A document on one line without blanks.
* `Json.pretty`: A document with one item a line, indented by two blanks.
-/

namespace DartModels

namespace Json

/-- Doubles from `10 ^ -5` up to `10 ^ 16` have their point in place. Beyond
    that the exponent has a sign and at least two digits. -/
def doubleLayout : Decimal.Layout := ⟨-5, 15, true, 2⟩

namespace Printer

/-- A hexadecimal digit in small letters. -/
def hexDigit (n : Nat) : Char :=
  (Nat.digitChar (n % 16))

/-- One character inside a quoted string. -/
def escape (c : Char) : List Char :=
  match c with
  | '"' => ['\\', '"']
  | '\\' => ['\\', '\\']
  | '\x08' => ['\\', 'b']
  | '\x0c' => ['\\', 'f']
  | '\n' => ['\\', 'n']
  | '\r' => ['\\', 'r']
  | '\t' => ['\\', 't']
  | c =>
      if c.toNat < 0x20 then
        ['\\', 'u', '0', '0', hexDigit (c.toNat / 16), hexDigit c.toNat]
      else [c]

/-- A quoted string. -/
def quote (s : String) : List Char :=
  '"' :: (s.toList.flatMap escape ++ ['"'])

/-- A number. -/
def number : Number → List Char
  | .integer n => (toString n).toList
  | .double f =>
      match doubleLayout.write? f with
      | some text => text.toList
      | none => "null".toList

mutual

/-- A value on one line. -/
def value : Json → List Char
  | .null => "null".toList
  | .bool true => "true".toList
  | .bool false => "false".toList
  | .number n => number n
  | .string s => quote s
  | .array [] => ['[', ']']
  | .array (v :: rest) => '[' :: (value v ++ items rest)
  | .object [] => ['\x7b', '\x7d']
  | .object ((k, v) :: rest) => '\x7b' :: (quote k ++ ':' :: (value v ++ members rest))

/-- The items of an array behind the first, with the closing bracket. -/
def items : List Json → List Char
  | [] => [']']
  | v :: rest => ',' :: (value v ++ items rest)

/-- The members of an object behind the first, with the closing brace. -/
def members : List (String × Json) → List Char
  | [] => ['\x7d']
  | (k, v) :: rest => ',' :: (quote k ++ ':' :: (value v ++ members rest))

end

/-- A line break and the indentation of the given depth. -/
def newline (depth : Nat) : List Char :=
  '\n' :: List.replicate (2 * depth) ' '

mutual

/-- A value with one item a line, inside `depth` containers. -/
def indented (depth : Nat) : Json → List Char
  | .null => "null".toList
  | .bool true => "true".toList
  | .bool false => "false".toList
  | .number n => number n
  | .string s => quote s
  | .array [] => ['[', ']']
  | .array (v :: rest) =>
      '[' :: (newline (depth + 1) ++ indented (depth + 1) v ++ indentedItems depth rest)
  | .object [] => ['\x7b', '\x7d']
  | .object ((k, v) :: rest) =>
      '\x7b' :: (newline (depth + 1) ++ quote k ++ ':' :: ' ' :: indented (depth + 1) v ++
        indentedMembers depth rest)

/-- The items of an array behind the first, with the closing bracket. -/
def indentedItems (depth : Nat) : List Json → List Char
  | [] => newline depth ++ [']']
  | v :: rest =>
      ',' :: (newline (depth + 1) ++ indented (depth + 1) v ++ indentedItems depth rest)

/-- The members of an object behind the first, with the closing brace. -/
def indentedMembers (depth : Nat) : List (String × Json) → List Char
  | [] => newline depth ++ ['\x7d']
  | (k, v) :: rest =>
      ',' :: (newline (depth + 1) ++ quote k ++ ':' :: ' ' :: indented (depth + 1) v ++
        indentedMembers depth rest)

end

end Printer

/-- A document on one line without blanks. -/
def compact (v : Json) : String :=
  String.ofList (Printer.value v)

/-- A document with one item a line, indented by two blanks a level. -/
def pretty (v : Json) : String :=
  String.ofList (Printer.indented 0 v)

end Json

end DartModels
