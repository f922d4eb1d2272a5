import DartModels.Decimal.Layout
import DartModels.Yaml.Fault

/-!
# Values of a YAML text

A YAML document as a tree of values, and what a plain scalar stands for.

Plain scalars are typed by their spelling alone. Only a few spellings of null
and the truth values count; `yes` and `off` are texts. Integers may be signed
and may be written in hexadecimal, octal or binary behind a mark. A decimal
with a leading zero is neither an integer nor a double but a text, so that
codes with zeros in front survive. Whatever has no other meaning is a text.

Integers are held up to 64 bits. A literal of up to 128 bits is recognised as
an integer and refused, and beyond that it is read as a double.

Mappings keep the order of their entries, and their keys can be any values.

## Main definitions

* `Value`: The values.
* `integer?`, `double?`: Numbers by their spelling.
* `Value.ofPlain`: What a plain scalar stands for.
-/

namespace DartModels

namespace Yaml

/-- A value of a YAML document. -/
inductive Value where
  | null
  | bool (value : Bool)
  | integer (value : Int)
  | double (value : Float)
  | string (value : String)
  | sequence (items : List Value)
  | mapping (entries : List (Value × Value))
  /-- A value under a tag of the document's own. -/
  | tagged (tag : String) (value : Value)

namespace Value

mutual

/-- Whether two values are equal as keys. -/
def same : Value → Value → Bool
  | .null, .null => true
  | .bool a, .bool b => a == b
  | .integer a, .integer b => a == b
  | .double a, .double b => a == b || (a.isNaN && b.isNaN)
  | .string a, .string b => a == b
  | .sequence a, .sequence b => sameItems a b
  | .mapping a, .mapping b => sameEntries a b
  | .tagged t a, .tagged u b => t == u && same a b
  | _, _ => false

/-- Whether two lists of values are equal. -/
def sameItems : List Value → List Value → Bool
  | [], [] => true
  | a :: as, b :: bs => same a b && sameItems as bs
  | _, _ => false

/-- Whether two lists of entries are equal. -/
def sameEntries : List (Value × Value) → List (Value × Value) → Bool
  | [], [] => true
  | (k, v) :: as, (l, w) :: bs => same k l && same v w && sameEntries as bs
  | _, _ => false

end

/-- A value without its tags. -/
def untag : Value → Value
  | .tagged _ v => untag v
  | v => v

/-- The text of a value that is one. -/
def text? (v : Value) : Option String :=
  match v.untag with
  | .string s => some s
  | _ => none

end Value

/-! ### Numbers -/

/-- The value of a digit in bases up to sixteen. -/
def digit? (base : Nat) (c : Char) : Option Nat :=
  let n :=
    if c.isDigit then c.toNat - '0'.toNat
    else if 'a' ≤ c && c ≤ 'f' then c.toNat - 'a'.toNat + 10
    else if 'A' ≤ c && c ≤ 'F' then c.toNat - 'A'.toNat + 10
    else base
  if n < base then some n else none

/-- A number written in a base, with at least one digit. -/
def natural? (base : Nat) (s : List Char) : Option Nat :=
  if s.isEmpty then none
  else s.foldl (fun n c => n.bind fun n => (digit? base c).map (n * base + ·)) (some 0)

/-- Whether a text consists of digits behind a needless zero. -/
def hasLeadingZero (s : List Char) : Bool :=
  let s := match s with
    | '-' :: rest => rest
    | '+' :: rest => rest
    | s => s
  match s with
  | '0' :: c :: rest => (c :: rest).all Char.isDigit
  | _ => false

/-- An integer without a sign. -/
def unsigned? (s : List Char) : Option Nat :=
  match s with
  | '0' :: 'x' :: rest => natural? 16 rest
  | '0' :: 'o' :: rest => natural? 8 rest
  | '0' :: 'b' :: rest => natural? 2 rest
  | s => if hasLeadingZero s then none else natural? 10 s

/-- An integer by its spelling. -/
def integer? (s : List Char) : Option Int :=
  match s with
  | '-' :: rest => (unsigned? rest).map fun n => -(n : Int)
  | '+' :: rest => (unsigned? rest).map fun n => (n : Int)
  | s => (unsigned? s).map fun n => (n : Int)

/-- The least and the greatest power of ten that are told from zero and from
    infinity. -/
def farPower : Int := 400

/-- The double nearest to `m * 10 ^ e`, which has `digits` digits: `none` if it
    overflows. -/
def nearest? (negative : Bool) (m digits : Nat) (e : Int) : Option Float :=
  let f : Float :=
    if m = 0 || digits + e < -farPower then 0.0
    else if farPower < digits + e then 1.0 / 0.0
    else Float.ofScientific m (e < 0) e.natAbs
  if f.isFinite then some (if negative then -f else f) else none

/-- The exponent of a double behind its digits, which may be missing. -/
def exponent? (s : List Char) : Option Int :=
  match s with
  | [] => some 0
  | c :: rest =>
      if c == 'e' || c == 'E' then
        match rest with
        | '-' :: rest => (natural? 10 rest).map fun n => -(n : Int)
        | '+' :: rest => (natural? 10 rest).map fun n => (n : Int)
        | rest => (natural? 10 rest).map fun n => (n : Int)
      else none

/-- A double in decimal notation. -/
def decimal? (s : List Char) : Option Float :=
  let (negative, s) := match s with
    | '-' :: rest => (true, rest)
    | s => (false, s)
  let whole := s.takeWhile Char.isDigit
  let (fraction, rest) := match s.dropWhile Char.isDigit with
    | '.' :: rest => (rest.takeWhile Char.isDigit, rest.dropWhile Char.isDigit)
    | rest => ([], rest)
  let digits := whole ++ fraction
  (natural? 10 digits).bind fun m =>
    (exponent? rest).bind fun e =>
      nearest? negative m digits.length (e - fraction.length)

/-- A double by its spelling. -/
def double? (s : List Char) : Option Float :=
  let text := String.ofList s
  if text == "-.inf" || text == "-.Inf" || text == "-.INF" then some (-1.0 / 0.0)
  else if text == ".nan" || text == ".NaN" || text == ".NAN" then some (0.0 / 0.0)
  else
    let unsigned := match s with
      | '+' :: rest => rest
      | s => s
    let text := String.ofList unsigned
    if text == ".inf" || text == ".Inf" || text == ".INF" then some (1.0 / 0.0)
    else if s.head? == some '+' && (unsigned.head? == some '-' || unsigned.head? == some '+') then
      none
    else decimal? unsigned

/-! ### Plain scalars -/

/-- The truth value that a text spells. -/
def bool? (text : String) : Option Bool :=
  if text == "true" || text == "True" || text == "TRUE" then some true
  else if text == "false" || text == "False" || text == "FALSE" then some false
  else none

/-- Whether a text spells null. -/
def spellsNull (text : String) : Bool :=
  text == "~" || text == "null" || text == "Null" || text == "NULL"

/-- Why a scalar has no value. -/
inductive ScalarError where
  /-- An integer that needs more than 64 bits. -/
  | tooWide (value : Int)
  /-- A text that is not what its tag says it is. -/
  | mismatch (text expected : String)
  deriving DecidableEq

/-- An integer that fits 64 bits, or the error that it does not. Beyond 128
    bits a literal is no integer at all. -/
def narrow? (n : Int) : Option (Except ScalarError Value) :=
  if -(Nat.pow 2 63 : Int) ≤ n && n < Nat.pow 2 64 then some (.ok (.integer n))
  else if -(Nat.pow 2 127 : Int) ≤ n && n < Nat.pow 2 128 then some (.error (.tooWide n))
  else none

/-- What a plain scalar stands for. -/
def Value.ofPlain (text : String) : Except ScalarError Value :=
  let s := text.toList
  if s.isEmpty || spellsNull text then .ok .null
  else
    match bool? text with
    | some b => .ok (.bool b)
    | none =>
        match (integer? s).bind narrow? with
        | some r => r
        | none =>
            match (if hasLeadingZero s then none else double? s) with
            | some f => .ok (.double f)
            | none => .ok (.string text)

/-- The name that the core tags share, up to the colon. -/
def coreTag : String := "tag:yaml.org,2002:"

/-- What a scalar stands for under one of the core tags. -/
def Value.ofTagged (tag text : String) (isPlain : Bool) : Except ScalarError Value :=
  let s := text.toList
  if tag == coreTag ++ "bool" then
    match bool? text with
    | some b => .ok (.bool b)
    | none => .error (.mismatch text "a boolean")
  else if tag == coreTag ++ "int" then
    match (integer? s).bind narrow? with
    | some r => r
    | none => .error (.mismatch text "an integer")
  else if tag == coreTag ++ "float" then
    match double? s with
    | some f => .ok (.double f)
    | none => .error (.mismatch text "a float")
  else if tag == coreTag ++ "null" then
    if spellsNull text then .ok .null else .error (.mismatch text "null")
  else if tag.toList.head? == some '!' && isPlain then Value.ofPlain text
  else .ok (.string text)

end Yaml

end DartModels
