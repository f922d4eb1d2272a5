import DartModels.Json.Value
import DartModels.Decimal.Scale

/-!
# Reading a document

The text of a JSON document read into its tree, or the first fault of the text
with its place.

The reader is a recursive descent over the characters. Each function takes what
is left of the text and returns what it leaves, so a fault can be placed by
what was still unread when it was noticed. Places are counted in bytes of the
UTF-8 form, because that is what the editor of a malformed file can jump to
whatever the characters are. A fault is noticed either at the character that
is looked at, in which case that byte is counted in, or after the last one
that was taken.

Three limits are part of the rule and not of the machine: at most 127
containers may be open at once, a number is an integer only within 64 bits,
and a double that overflows is a fault rather than an infinity.

The functions for values, items and members call one another, and of any two
calls in a row one has taken at least one character. Twice the length of the
text therefore bounds their number, and `document` supplies that bound.

## Main definitions

* `Json.Cause`: What can be wrong with a text.
* `Json.SyntaxError`: A cause and its place.
* `Json.Reader.value`: A value at the head of a text.
* `Json.read`: The document that a text is.
-/

namespace DartModels

namespace Json

/-- What can be wrong with the text of a document. -/
inductive Cause where
  | endInList
  | endInObject
  | endInString
  | endInValue
  | expectedColon
  | expectedCommaInList
  | expectedCommaInObject
  | expectedKeyword
  | expectedValue
  | invalidEscape
  | invalidNumber
  | numberOutOfRange
  | controlCharacter
  | keyNotString
  | loneSurrogate
  | unfinishedSurrogate
  | trailingComma
  | trailingCharacters
  | tooDeep
  deriving DecidableEq

/-- A cause in words. -/
def Cause.message : Cause → String
  | .endInList => "EOF while parsing a list"
  | .endInObject => "EOF while parsing an object"
  | .endInString => "EOF while parsing a string"
  | .endInValue => "EOF while parsing a value"
  | .expectedColon => "expected `:`"
  | .expectedCommaInList => "expected `,` or `]`"
  | .expectedCommaInObject => "expected `,` or `\x7d`"
  | .expectedKeyword => "expected ident"
  | .expectedValue => "expected value"
  | .invalidEscape => "invalid escape"
  | .invalidNumber => "invalid number"
  | .numberOutOfRange => "number out of range"
  | .controlCharacter =>
      "control character (\\u0000-\\u001F) found while parsing a string"
  | .keyNotString => "key must be a string"
  | .loneSurrogate => "lone leading surrogate in hex escape"
  | .unfinishedSurrogate => "unexpected end of hex escape"
  | .trailingComma => "trailing comma"
  | .trailingCharacters => "trailing characters"
  | .tooDeep => "recursion limit exceeded"

/-- A fault of a text with its place: lines count from 1, and the column is
    the number of bytes since the last line break. -/
structure SyntaxError where
  cause : Cause
  line : Nat
  column : Nat
  deriving DecidableEq

/-- A fault in words. -/
def SyntaxError.message (e : SyntaxError) : String :=
  s!"{e.cause.message} at line {e.line} column {e.column}"

namespace Reader

/-- A fault as it is noticed: what was left of the text, and how many bytes of
    that are counted in. -/
structure Fault where
  cause : Cause
  left : List Char
  ahead : Nat

/-- A part of a text that was read, with what is left of the text. -/
abbrev Taken (α : Type) := α × List Char

/-- A fault noticed at the next character, without taking it. -/
def atNext {α : Type} (cause : Cause) (s : List Char) : Except Fault α :=
  .error ⟨cause, s, 1⟩

/-- A fault noticed behind the last character that was taken. -/
def behind {α : Type} (cause : Cause) (s : List Char) : Except Fault α :=
  .error ⟨cause, s, 0⟩

/-- The blanks that may stand between the tokens of a document. -/
def isSpace (c : Char) : Bool :=
  c == ' ' || c == '\n' || c == '\t' || c == '\r'

/-- The text behind its leading blanks. -/
def skip (s : List Char) : List Char :=
  s.dropWhile isSpace

/-- The remaining letters of a keyword that stands for `v`. -/
def keyword (v : Json) : List Char → List Char → Except Fault (Taken Json)
  | [], s => .ok (v, s)
  | _ :: _, [] => behind .endInValue []
  | e :: es, c :: rest =>
      if c = e then keyword v es rest else atNext .expectedKeyword (c :: rest)

/-! ### Numbers -/

/-- The greatest significand that is carried: the greatest unsigned 64-bit
    integer. -/
def maxSignificand : Nat := Nat.pow 2 64 - 1

/-- The greatest exponent that is carried. A literal beyond it is as good as
    infinite. -/
def maxExponent : Nat := Nat.pow 2 31 - 1

/-- The value of a decimal digit. -/
def digitValue (c : Char) : Nat :=
  c.toNat - '0'.toNat

/-- Extend a significand by digits as long as it stays within bounds. The
    second component counts the digits that were used. -/
def gather (m : Nat) : List Char → Nat × Nat
  | [] => (m, 0)
  | c :: rest =>
      let m' := m * 10 + digitValue c
      if m' ≤ maxSignificand then
        let (r, used) := gather m' rest
        (r, used + 1)
      else (m, 0)

/-- A finished double, or the fault that it is out of range. -/
def finish (negative : Bool) (m : Nat) (e : Int) (s : List Char) : Except Fault (Taken Number) :=
  match Decimal.ofSignificand negative m e with
  | some f => .ok (.double f, s)
  | none => behind .numberOutOfRange s

/-- The digits of an exponent behind `acc`, for a significand `m` with the
    exponent `e` so far. -/
def exponentDigits (negative down : Bool) (m : Nat) (e : Int) (acc : Nat) :
    List Char → Except Fault (Taken Number)
  | [] => finish negative m (if down then e - acc else e + acc) []
  | c :: rest =>
      if c.isDigit then
        let acc' := acc * 10 + digitValue c
        if acc' ≤ maxExponent then exponentDigits negative down m e acc' rest
        -- So great an exponent decides by itself, unless there is nothing to scale.
        else if m ≠ 0 && !down then behind .numberOutOfRange rest
        else .ok (.double (if negative then -0.0 else 0.0), rest.dropWhile Char.isDigit)
      else finish negative m (if down then e - acc else e + acc) (c :: rest)

/-- An exponent behind its sign, which needs at least one digit. -/
def exponentValue (negative down : Bool) (m : Nat) (e : Int) :
    List Char → Except Fault (Taken Number)
  | [] => behind .endInValue []
  | c :: rest =>
      if c.isDigit then exponentDigits negative down m e (digitValue c) rest
      else atNext .invalidNumber (c :: rest)

/-- An exponent behind its letter. -/
def exponent (negative : Bool) (m : Nat) (e : Int) : List Char → Except Fault (Taken Number)
  | '+' :: rest => exponentValue negative false m e rest
  | '-' :: rest => exponentValue negative true m e rest
  | s => exponentValue negative false m e s

/-- What may follow the digits of a number that is known to be a double. -/
def exponentPart (negative : Bool) (m : Nat) (e : Int) : List Char → Except Fault (Taken Number)
  | 'e' :: rest => exponent negative m e rest
  | 'E' :: rest => exponent negative m e rest
  | s => finish negative m e s

/-- A fraction behind its point. -/
def fraction (negative : Bool) (m : Nat) (e : Int) (s : List Char) : Except Fault (Taken Number) :=
  let digits := s.takeWhile Char.isDigit
  let rest := s.dropWhile Char.isDigit
  if digits.isEmpty then
    if rest.isEmpty then atNext .endInValue [] else atNext .invalidNumber rest
  else
    let (m', used) := gather m digits
    exponentPart negative m' (e - used) rest

/-- The integer `m` with its sign. A negative zero and anything below the
    signed 64-bit range are doubles. -/
def signed (negative : Bool) (m : Nat) : Number :=
  if !negative then .integer m
  else if 0 < m && m ≤ Nat.pow 2 63 then .integer (-(m : Int))
  else .double (-m.toUInt64.toFloat)

/-- What follows the integer part `m` of a number, of which `dropped` digits
    did not fit. -/
def afterInteger (negative : Bool) (m dropped : Nat) : List Char → Except Fault (Taken Number)
  | '.' :: rest => fraction negative m dropped rest
  | 'e' :: rest => exponent negative m dropped rest
  | 'E' :: rest => exponent negative m dropped rest
  -- Digits that did not fit leave no integer, only the nearest double.
  | s => if dropped = 0 then .ok (signed negative m, s) else finish negative m dropped s

/-- A number behind its sign. A leading zero stands alone. -/
def number (negative : Bool) : List Char → Except Fault (Taken Number)
  | [] => behind .endInValue []
  | '0' :: rest =>
      match rest with
      | c :: _ => if c.isDigit then atNext .invalidNumber rest else afterInteger negative 0 0 rest
      | [] => afterInteger negative 0 0 []
  | c :: rest =>
      if c.isDigit then
        let digits := c :: rest.takeWhile Char.isDigit
        let (m, used) := gather 0 digits
        afterInteger negative m (digits.length - used) (rest.dropWhile Char.isDigit)
      else atNext .invalidNumber (c :: rest)

/-! ### Strings -/

/-- The value of a hexadecimal digit. -/
def hexValue (c : Char) : Option Nat :=
  if c.isDigit then some (c.toNat - '0'.toNat)
  else if 'a' ≤ c && c ≤ 'f' then some (c.toNat - 'a'.toNat + 10)
  else if 'A' ≤ c && c ≤ 'F' then some (c.toNat - 'A'.toNat + 10)
  else none

/-- The number of bytes of a text. -/
def byteLength (s : List Char) : Nat :=
  s.foldl (fun n c => n + c.utf8Size) 0

/-- Four hexadecimal digits. They are taken as four bytes before they are
    looked at, so a fault lies behind them. -/
def hexQuad (s : List Char) : Except Fault (Taken Nat) :=
  if byteLength (s.take 4) < 4 then behind .endInString []
  else
    match s with
    | a :: b :: c :: d :: rest =>
        match hexValue a, hexValue b, hexValue c, hexValue d with
        | some a, some b, some c, some d => .ok (((a * 16 + b) * 16 + c) * 16 + d, rest)
        | _, _, _, _ => .error ⟨.invalidEscape, s, 4⟩
    | _ => .error ⟨.invalidEscape, s, 4⟩

/-- The second half of a surrogate pair whose first half was `high`. -/
def lowSurrogate (high : Nat) (s : List Char) : Except Fault (Taken Char) :=
  match s with
  | [] => behind .endInString []
  | '\\' :: [] => behind .endInString []
  | '\\' :: 'u' :: rest => do
      let (low, rest) ← hexQuad rest
      if 0xDC00 ≤ low && low ≤ 0xDFFF then
        .ok (Char.ofNat (0x10000 + (high - 0xD800) * 0x400 + (low - 0xDC00)), rest)
      else behind .loneSurrogate rest
  | '\\' :: rest => atNext .unfinishedSurrogate rest
  | s => atNext .unfinishedSurrogate s

/-- The character of a numbered escape, behind its letter. -/
def numberedEscape (s : List Char) : Except Fault (Taken Char) := do
  let (n, rest) ← hexQuad s
  if 0xDC00 ≤ n && n ≤ 0xDFFF then behind .loneSurrogate rest
  else if 0xD800 ≤ n && n ≤ 0xDBFF then lowSurrogate n rest
  else .ok (Char.ofNat n, rest)

/-- The character of an escape, behind its backslash. -/
def escape : List Char → Except Fault (Taken Char)
  | [] => behind .endInString []
  | '"' :: rest => .ok ('"', rest)
  | '\\' :: rest => .ok ('\\', rest)
  | '/' :: rest => .ok ('/', rest)
  | 'b' :: rest => .ok ('\x08', rest)
  | 'f' :: rest => .ok ('\x0c', rest)
  | 'n' :: rest => .ok ('\n', rest)
  | 'r' :: rest => .ok ('\r', rest)
  | 't' :: rest => .ok ('\t', rest)
  | 'u' :: rest => numberedEscape rest
  | s => atNext .invalidEscape s

/-- The characters of a string up to its closing quote. `taken` holds those
    already read, last first. -/
def stringRest : Nat → List Char → List Char → Except Fault (Taken String)
  | 0, _, s => behind .endInString s
  | fuel + 1, taken, s =>
      match s with
      | [] => behind .endInString []
      | '"' :: rest => .ok (String.ofList taken.reverse, rest)
      | '\\' :: rest => do
          let (c, rest) ← escape rest
          stringRest fuel (c :: taken) rest
      | c :: rest =>
          if c.toNat < 0x20 then atNext .controlCharacter (c :: rest)
          else stringRest fuel (c :: taken) rest

/-- A string behind its opening quote. -/
def string (s : List Char) : Except Fault (Taken String) :=
  stringRest (s.length + 1) [] s

/-! ### Values -/

/-- Where the next item of an array begins: `none` at its end. -/
def nextItem (first : Bool) (s : List Char) : Except Fault (Option (List Char)) :=
  match skip s with
  | [] => atNext .endInList []
  | ']' :: _ => .ok none
  | ',' :: rest =>
      -- A comma in front of the first item is left for the item to stumble over.
      if first then .ok (some (',' :: rest))
      else
        match skip rest with
        | [] => atNext .endInValue []
        | ']' :: r => atNext .trailingComma (']' :: r)
        | r => .ok (some r)
  | r => if first then .ok (some r) else atNext .expectedCommaInList r

/-- Where the next key of an object begins, behind its quote: `none` at the
    end of the object. -/
def nextKey (first : Bool) (s : List Char) : Except Fault (Option (List Char)) :=
  match skip s with
  | [] => atNext .endInObject []
  | '\x7d' :: _ => .ok none
  | '"' :: rest => if first then .ok (some rest) else atNext .expectedCommaInObject ('"' :: rest)
  | ',' :: rest =>
      if first then atNext .keyNotString (',' :: rest)
      else
        match skip rest with
        | [] => atNext .endInValue []
        | '"' :: r => .ok (some r)
        | '\x7d' :: r => atNext .trailingComma ('\x7d' :: r)
        | r => atNext .keyNotString r
  | r => if first then atNext .keyNotString r else atNext .expectedCommaInObject r

/-- The text behind the colon of a member. -/
def colon (s : List Char) : Except Fault (List Char) :=
  match skip s with
  | [] => atNext .endInObject []
  | ':' :: rest => .ok rest
  | r => atNext .expectedColon r

mutual

/-- A value at the head of a text, when `room` more containers may be opened. -/
def value : Nat → Nat → List Char → Except Fault (Taken Json)
  | 0, _, s => atNext .expectedValue s
  | fuel + 1, room, s =>
      match skip s with
      | [] => atNext .endInValue []
      | 'n' :: rest => keyword .null ['u', 'l', 'l'] rest
      | 't' :: rest => keyword (.bool true) ['r', 'u', 'e'] rest
      | 'f' :: rest => keyword (.bool false) ['a', 'l', 's', 'e'] rest
      | '"' :: rest => do
          let (text, rest) ← string rest
          .ok (.string text, rest)
      | '[' :: rest =>
          match room with
          | 0 => atNext .tooDeep ('[' :: rest)
          | room + 1 => items fuel room [] rest
      | '\x7b' :: rest =>
          match room with
          | 0 => atNext .tooDeep ('\x7b' :: rest)
          | room + 1 => members fuel room true [] rest
      | '-' :: rest => do
          let (n, rest) ← number true rest
          .ok (.number n, rest)
      | c :: rest =>
          if c.isDigit then do
            let (n, rest) ← number false (c :: rest)
            .ok (.number n, rest)
          else atNext .expectedValue (c :: rest)

/-- The items of an array up to its end. `taken` holds those already read,
    last first. -/
def items : Nat → Nat → List Json → List Char → Except Fault (Taken Json)
  | 0, _, _, s => atNext .expectedValue s
  | fuel + 1, room, taken, s => do
      match ← nextItem taken.isEmpty s with
      | none => .ok (.array taken.reverse, (skip s).tail)
      | some rest =>
          let (v, rest) ← value fuel room rest
          items fuel room (v :: taken) rest

/-- The members of an object up to its end. -/
def members : Nat → Nat → Bool → List (String × Json) → List Char → Except Fault (Taken Json)
  | 0, _, _, _, s => atNext .expectedValue s
  | fuel + 1, room, first, taken, s => do
      match ← nextKey first s with
      | none => .ok (.object taken, (skip s).tail)
      | some rest =>
          let (key, rest) ← string rest
          let rest ← colon rest
          let (v, rest) ← value fuel room rest
          members fuel room false (insertMember taken key v) rest

end

/-- How many containers may be open at once. -/
def maxOpen : Nat := 127

/-- A whole text as one value with nothing but blanks around it. -/
def document (s : List Char) : Except Fault Json := do
  let (v, rest) ← value (2 * s.length + 2) maxOpen s
  match skip rest with
  | [] => .ok v
  | r => atNext .trailingCharacters r

/-- The line and column that lie `n` bytes into a text, when `line` and
    `column` lie at its head. -/
def place : List Char → Nat → Nat → Nat → Nat × Nat
  | [], _, line, column => (line, column)
  | c :: rest, n, line, column =>
      if n = 0 then (line, column)
      else if c = '\n' then place rest (n - 1) (line + 1) 0
      else if c.utf8Size ≤ n then place rest (n - c.utf8Size) line (column + c.utf8Size)
      else (line, column + n)

/-- A fault placed in the text that it was found in. -/
def locate (text : List Char) (f : Fault) : SyntaxError :=
  let total := byteLength text
  -- A fault behind the end of the text is placed at its end.
  let reached := min total (total - byteLength f.left + f.ahead)
  let (line, column) := place text reached 1 0
  ⟨f.cause, line, column⟩

end Reader

/-- The document that a text is, or its first fault. -/
def read (text : String) : Except SyntaxError Json :=
  let s := text.toList
  match Reader.document s with
  | .ok v => .ok v
  | .error f => .error (Reader.locate s f)

end Json

end DartModels
