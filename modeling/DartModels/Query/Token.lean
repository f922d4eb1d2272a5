import DartModels.Json.Reader
import DartModels.Text.Blank

/-!
# Tokens of a query

The text of a query cut into words, numbers, strings and symbols.

A token is as long as it can be. That holds for operators as well: a row of
operator characters is one symbol, and if there is no operator of that name
the query is malformed, so `a|-1` has to be written with a blank. A name right
behind a point belongs to the point.

A remark runs from `#` to the end of the line, and into the next line if an
odd number of backslashes stands before the break.

## Main definitions

* `Query.Bracket`, `Query.Token`: Tokens.
* `Token.next?`: The token at the head of a text.
* `Token.scan?`: The tokens of a text.

## Theorems

* `skipRemark_length_le`: A remark is not longer than the text.
-/

namespace DartModels

namespace Query

/-- The three kinds of brackets. -/
inductive Bracket where
  | round
  | square
  | curly
  deriving DecidableEq

/-- A token of a query. -/
inductive Token where
  /-- A name or a keyword. -/
  | word (name : String)
  /-- A name behind a dollar sign. -/
  | variable (name : String)
  /-- A name behind a point. -/
  | field (name : String)
  | number (digits : String)
  | string (value : String)
  | symbol (name : String)
  | opening (bracket : Bracket)
  | closing (bracket : Bracket)
  deriving DecidableEq

namespace Token

/-- The characters of a remark up to the end of its last line. `odd` tells
    whether an odd number of backslashes has just been passed. -/
def skipRemark (odd : Bool) : List Char → List Char
  | [] => []
  | '\n' :: rest => if odd then skipRemark false rest else rest
  | '\r' :: '\n' :: rest => if odd then skipRemark false rest else rest
  | '\\' :: rest => skipRemark (!odd) rest
  | _ :: rest => skipRemark false rest

theorem skipRemark_length_le (odd : Bool) (s : List Char) :
    (skipRemark odd s).length ≤ s.length := by
  fun_induction skipRemark odd s <;> simp_all <;> omega

/-- The text behind its leading blanks and remarks. -/
def skip (s : List Char) : List Char :=
  match _h : s.dropWhile Text.isBlank with
  | '#' :: rest => skip (skipRemark false rest)
  | r => r
termination_by s.length
decreasing_by
  have h₁ := skipRemark_length_le false rest
  have h₂ := (List.dropWhile_sublist Text.isBlank (l := s)).length_le
  rw [_h, List.length_cons] at h₂
  omega

/-- Whether a character can begin a name. -/
def beginsName (c : Char) : Bool :=
  c.isAlpha || c == '_'

/-- Whether a character can go on with a name. -/
def inName (c : Char) : Bool :=
  c.isAlphanum || c == '_'

/-- Whether a character can be part of an operator. -/
def inOperator (c : Char) : Bool :=
  ['|', '=', '!', '<', '>', '+', '-', '*', '/', '%'].contains c

/-- A name at the head of a text. -/
def name? (s : List Char) : Option (String × List Char) :=
  match s with
  | c :: _ =>
      if beginsName c then some (String.ofList (s.takeWhile inName), s.dropWhile inName) else none
  | [] => none

/-- At least one digit, with what follows. -/
def digits? (s : List Char) : Option (List Char × List Char) :=
  let digits := s.takeWhile Char.isDigit
  if digits.isEmpty then none else some (digits, s.dropWhile Char.isDigit)

/-- The fraction of a number, if it has one. -/
def fraction? (s : List Char) : Option (List Char × List Char) :=
  match s with
  | '.' :: rest => (digits? rest).map fun (ds, r) => ('.' :: ds, r)
  | s => some ([], s)

/-- An exponent behind its letter. -/
def signedDigits? (s : List Char) : Option (List Char × List Char) :=
  match s with
  | '+' :: rest => (digits? rest).map fun (ds, r) => ('+' :: ds, r)
  | '-' :: rest => (digits? rest).map fun (ds, r) => ('-' :: ds, r)
  | s => digits? s

/-- The exponent of a number, if it has one. -/
def exponent? (s : List Char) : Option (List Char × List Char) :=
  match s with
  | 'e' :: rest => (signedDigits? rest).map fun (ds, r) => ('e' :: ds, r)
  | 'E' :: rest => (signedDigits? rest).map fun (ds, r) => ('E' :: ds, r)
  | s => some ([], s)

/-- A number at the head of a text. -/
def number? (s : List Char) : Option (Token × List Char) := do
  let (whole, s) ← digits? s
  let (places, s) ← fraction? s
  let (power, s) ← exponent? s
  return (.number (String.ofList (whole ++ places ++ power)), s)

/-- The character of a numbered escape, behind its letter. Halves of a
    character have no escape. -/
def numbered? (s : List Char) : Option (Char × List Char) :=
  match s with
  | a :: b :: c :: d :: rest => do
      let n₁ ← Json.Reader.hexValue a
      let n₂ ← Json.Reader.hexValue b
      let n₃ ← Json.Reader.hexValue c
      let n₄ ← Json.Reader.hexValue d
      let n := ((n₁ * 16 + n₂) * 16 + n₃) * 16 + n₄
      if 0xD800 ≤ n && n ≤ 0xDFFF then none else some (Char.ofNat n, rest)
  | _ => none

/-- The character of an escape, behind its backslash. -/
def escape? : List Char → Option (Char × List Char)
  | '"' :: rest => some ('"', rest)
  | '\\' :: rest => some ('\\', rest)
  | '/' :: rest => some ('/', rest)
  | 'b' :: rest => some ('\x08', rest)
  | 'f' :: rest => some ('\x0c', rest)
  | 'n' :: rest => some ('\n', rest)
  | 'r' :: rest => some ('\r', rest)
  | 't' :: rest => some ('\t', rest)
  | 'u' :: rest => numbered? rest
  | _ => none

/-- The characters of a string up to its closing quote. `taken` holds those
    already read, last first, and `fuel` bounds those still to come. -/
def string? : Nat → List Char → List Char → Option (Token × List Char)
  | 0, _, _ => none
  | fuel + 1, taken, s =>
      match s with
      | [] => none
      | '"' :: rest => some (.string (String.ofList taken.reverse), rest)
      | '\\' :: rest =>
          match escape? rest with
          | some (c, rest) => string? fuel (c :: taken) rest
          | none => none
      | c :: rest => string? fuel (c :: taken) rest

/-- A token that begins with a point. -/
def point (s : List Char) : Token × List Char :=
  match s with
  | '.' :: rest => (.symbol "..", rest)
  | s =>
      match name? s with
      | some (n, rest) => (.field n, rest)
      | none => (.symbol ".", s)

/-- The token at the head of a text that begins neither with a blank nor with
    a remark: `none` if nothing that begins like this is a token. -/
def next? (s : List Char) : Option (Token × List Char) :=
  match s with
  | [] => none
  | '(' :: rest => some (.opening .round, rest)
  | '[' :: rest => some (.opening .square, rest)
  | '\x7b' :: rest => some (.opening .curly, rest)
  | ')' :: rest => some (.closing .round, rest)
  | ']' :: rest => some (.closing .square, rest)
  | '\x7d' :: rest => some (.closing .curly, rest)
  | '.' :: rest => some (point rest)
  | '"' :: rest => string? (rest.length + 1) [] rest
  | '$' :: rest => (name? rest).map fun (n, r) => (.variable n, r)
  | ':' :: rest => some (.symbol ":", rest)
  | ';' :: rest => some (.symbol ";", rest)
  | ',' :: rest => some (.symbol ",", rest)
  | '?' :: rest => some (.symbol "?", rest)
  | c :: _ =>
      if c.isDigit then number? s
      else if inOperator c then
        some (.symbol (String.ofList (s.takeWhile inOperator)), s.dropWhile inOperator)
      else (name? s).map fun (n, r) => (.word n, r)

/-- The tokens of a text, at most `fuel` of them. -/
def scanUpTo? : Nat → List Char → Option (List Token)
  | 0, _ => none
  | fuel + 1, s =>
      match skip s with
      | [] => some []
      | r =>
          match next? r with
          | some (t, rest) => (scanUpTo? fuel rest).map (t :: ·)
          | none => none

/-- The tokens of a text: `none` if there is a place where no token begins.
    A token has at least one character, so the length of the text bounds their
    number. -/
def scan? (text : String) : Option (List Token) :=
  scanUpTo? (text.toList.length + 1) text.toList

end Token

end Query

end DartModels
