/-!
# String literals

A text as a single-quoted Dart string literal on one line.

Three characters are special between single quotes: the quote ends the
literal, the backslash begins an escape and the dollar sign begins an
interpolation. Each is written behind a backslash. Line breaks and tabs have
escapes of their own, and the other control characters are written by number,
in braces, so that what follows the number cannot run into it.

## Main definitions

* `escape`: One character as it stands between the quotes.
* `literal`: The whole literal.
-/

namespace DartModels

namespace Dart

/-- One character as it stands between single quotes. -/
def escape (c : Char) : List Char :=
  match c with
  | '\\' => ['\\', '\\']
  | '\'' => ['\\', '\'']
  | '$' => ['\\', '$']
  | '\n' => ['\\', 'n']
  | '\r' => ['\\', 'r']
  | '\t' => ['\\', 't']
  | c =>
      if c.toNat < 0x20 then
        ['\\', 'u', '\x7b'] ++ Nat.toDigits 16 c.toNat ++ ['\x7d']
      else [c]

/-- A text as a single-quoted literal. -/
def literal (s : String) : String :=
  String.ofList ('\'' :: (s.toList.flatMap escape ++ ['\'']))

end Dart

end DartModels
