import DartModels.Yaml.Cursor

/-!
# Scalars of a YAML text

The four written forms of a scalar: plain, in single quotes, in double quotes,
and as a block.

A plain scalar has no marks around it, so it ends where something else could
begin: at a colon or a comment behind a gap, at the start or end of a
document, at a line that is not indented far enough, and inside brackets at
any of the characters that structure them. Quoted scalars end at their quote.
Both may stretch over lines, which fold into spaces.

A block keeps its lines. Its indentation is that of its first line with text
unless it is announced by a digit, and what happens to the breaks at its end
is announced by a sign.

## Main definitions

* `Scalar.plain`: A plain scalar.
* `Scalar.quoted`: A scalar in quotes.
* `Scalar.block`: A block.
-/

namespace DartModels

namespace Yaml

namespace Scalar

/-! ### Plain -/

/-- Whether a character ends a plain scalar inside brackets. -/
def isFlowMark (c : Char) : Bool :=
  c == ',' || c == '[' || c == ']' || c == '\x7b' || c == '\x7d'

/-- One word of a plain scalar: characters up to a gap or an end. `taken`
    holds those already read, last first. -/
def plainWord (inFlow : Bool) (began : Mark) :
    List Char → List Char → Mark → Except Fault (List Char × Cursor)
  | taken, [], m => .ok (taken, ⟨[], m⟩)
  | taken, x :: rest, m =>
      if isBlank x || isBreak x then .ok (taken, ⟨x :: rest, m⟩)
      else if inFlow && x == ':' &&
          (match rest with
            | y :: _ => isFlowMark y || y == '?'
            | [] => false) then
        .error (.during .plainScalar began .unexpectedColon m)
      else if (x == ':' && atGap rest) || (inFlow && isFlowMark x) then
        .ok (taken, ⟨x :: rest, m⟩)
      else plainWord inFlow began (x :: taken) rest (Cursor.past m)

/-- The words of a plain scalar with the spacing between them. The result is
    the text, last character first, the cursor behind the last word, the cursor
    behind the spacing that follows, and whether that spacing breaks lines. -/
def plainWords (inFlow : Bool) (margin : Nat) (began : Mark) :
    Nat → List Char → Spacing → Cursor → Cursor →
      Except Fault (List Char × Cursor × Cursor × Bool)
  | 0, text, gap, stop, c => .ok (text, stop, c, gap.broken)
  | fuel + 1, text, gap, stop, c => do
      if c.atDocument || c.isAt '#' then .ok (text, stop, c, gap.broken)
      else
        let (word, c') ← plainWord inFlow began [] c.rest c.mark
        let (text, gap, stop) :=
          if word.isEmpty then (text, gap, stop)
          else (word ++ (gap.fold.reverse ++ text), Spacing.none, c')
        if c'.rest.isEmpty || !atGap c'.rest then .ok (text, stop, c', gap.broken)
        else
          let (gap, c'') ← Spacing.collect margin
            (fun m => .during .plainScalar began .tabInPlain m) (c'.rest.length + 1) gap c'
          if !inFlow && c''.mark.column < margin then .ok (text, stop, c'', gap.broken)
          else plainWords inFlow margin began fuel text gap stop c''

/-- A plain scalar: its text, the place behind its last word, the cursor, and
    whether a line break follows. -/
def plain (inFlow : Bool) (margin : Nat) (c : Cursor) :
    Except Fault (String × Mark × Cursor × Bool) := do
  let (text, stop, c, broken) ←
    plainWords inFlow margin c.mark (c.rest.length + 1) [] .none c c
  .ok (String.ofList text.reverse, stop.mark, c, broken)

/-! ### Quoted -/

/-- The value of a hexadecimal digit. -/
def hexValue? (c : Char) : Option Nat :=
  if c.isDigit then some (c.toNat - '0'.toNat)
  else if 'a' ≤ c && c ≤ 'f' then some (c.toNat - 'a'.toNat + 10)
  else if 'A' ≤ c && c ≤ 'F' then some (c.toNat - 'A'.toNat + 10)
  else none

/-- The value of hexadecimal digits. -/
def hexNumber? (digits : List Char) : Option Nat :=
  digits.foldl (fun n d => n.bind fun n => (hexValue? d).map (n * 16 + ·)) (some 0)

/-- What an escape stands for: a character, or a number of as many
    hexadecimal digits. -/
def escape? (c : Char) : Option (Char ⊕ Nat) :=
  match c with
  | '0' => some (.inl '\x00')
  | 'a' => some (.inl '\x07')
  | 'b' => some (.inl '\x08')
  | 't' => some (.inl '\t')
  | '\t' => some (.inl '\t')
  | 'n' => some (.inl '\n')
  | 'v' => some (.inl '\x0b')
  | 'f' => some (.inl '\x0c')
  | 'r' => some (.inl '\r')
  | 'e' => some (.inl '\x1b')
  | ' ' => some (.inl ' ')
  | '"' => some (.inl '"')
  | '/' => some (.inl '/')
  | '\\' => some (.inl '\\')
  | 'N' => some (.inl '\u0085')
  | '_' => some (.inl '\u00a0')
  | 'L' => some (.inl '\u2028')
  | 'P' => some (.inl '\u2029')
  | 'x' => some (.inr 2)
  | 'u' => some (.inr 4)
  | 'U' => some (.inr 8)
  | _ => none

/-- The character that an escape at the cursor stands for. -/
def escaped (began : Mark) (c : Cursor) : Except Fault (Char × Cursor) :=
  let fault (p : Problem) (m : Mark) : Except Fault (Char × Cursor) :=
    .error (.during .quotedEscape began p m)
  match c.rest with
  | _ :: x :: rest =>
      match escape? x with
      | none => fault .unknownEscape c.mark
      | some (.inl y) => .ok (y, c.skipN 2)
      | some (.inr width) =>
          let digits := rest.take width
          match hexNumber? digits with
          | some n =>
              if digits.length < width then fault .badHex (c.skipN 2).mark
              else if (0xD800 ≤ n && n ≤ 0xDFFF) || 0x10FFFF < n then
                fault .badCodePoint (c.skipN 2).mark
              else .ok (Char.ofNat n, c.skipN (2 + width))
          | none => fault .badHex (c.skipN 2).mark
  | _ => fault .unknownEscape c.mark

/-- One word of a quoted scalar: characters up to a gap or the closing quote.
    The result says whether the word ended in an escaped line break. -/
def quotedWord (single : Bool) (began : Mark) :
    Nat → List Char → Cursor → Except Fault (List Char × Cursor × Bool)
  | 0, taken, c => .ok (taken, c, false)
  | fuel + 1, taken, c =>
      match c.rest with
      | [] => .ok (taken, c, false)
      | x :: rest =>
          if isBlank x || isBreak x then .ok (taken, c, false)
          else if single then
            if x == '\'' then
              match rest with
              | '\'' :: _ => quotedWord single began fuel ('\'' :: taken) (c.skipN 2)
              | _ => .ok (taken, c, false)
            else quotedWord single began fuel (x :: taken) c.skip
          else if x == '"' then .ok (taken, c, false)
          else if x == '\\' then
            if !rest.isEmpty && atLineEnd rest then .ok (taken, c.skip.skipBreak, true)
            else do
              let (y, c) ← escaped began c
              quotedWord single began fuel (y :: taken) c
          else quotedWord single began fuel (x :: taken) c.skip

/-- The words of a quoted scalar up to its closing quote, last character
    first. -/
def quotedWords (single : Bool) (began : Mark) :
    Nat → List Char → Cursor → Except Fault (List Char × Cursor)
  | 0, text, c => .ok (text, c)
  | fuel + 1, text, c => do
      if c.atDocument then .error (.during .quotedScalar began .documentIndicator c.mark)
      else if c.rest.isEmpty then .error (.during .quotedScalar began .endInQuoted c.mark)
      else
        let (word, c, escapedBreak) ← quotedWord single began (c.rest.length + 1) [] c
        let text := word ++ text
        if c.isAt (if single then '\'' else '"') then .ok (text, c.skip)
        else
          let (gap, c) ← Spacing.collect 0 (fun m => .plain .tabInPlain m) (c.rest.length + 1)
            (if escapedBreak then .escapedBreak else .none) c
          quotedWords single began fuel (gap.fold.reverse ++ text) c

/-- A scalar in quotes: its text and the cursor behind it. -/
def quoted (single : Bool) (c : Cursor) : Except Fault (String × Cursor) := do
  let (text, c') ← quotedWords single c.mark (c.rest.length + 1) [] c.skip
  .ok (String.ofList text.reverse, c')

/-! ### Blocks -/

/-- What happens to the breaks at the end of a block. -/
inductive Chomp where
  | strip
  | clip
  | keep
  deriving DecidableEq

/-- The sign that announces what happens at the end of a block. -/
def chomp? (c : Char) : Option Chomp :=
  if c == '+' then some .keep else if c == '-' then some .strip else none

/-- The header of a block: its chomping, and the indentation if it is
    announced. The two may come in either order. -/
def header (began : Mark) (c : Cursor) : Except Fault (Chomp × Nat × Cursor) :=
  let digit (c : Cursor) : Except Fault (Nat × Cursor) :=
    match c.head? with
    | some d =>
        if d == '0' then .error (.during .blockScalar began .zeroIndent c.mark)
        else if d.isDigit then .ok (d.toNat - '0'.toNat, c.skip)
        else .ok (0, c)
    | none => .ok (0, c)
  match c.head?.bind chomp? with
  | some chomp => do
      let (indent, c) ← digit c.skip
      .ok (chomp, indent, c)
  | none => do
      let (indent, c') ← digit c
      match c'.head?.bind chomp? with
      | some chomp => if indent = 0 then .ok (.clip, 0, c') else .ok (chomp, indent, c'.skip)
      | none => .ok (.clip, indent, c')

/-- The empty lines at the cursor: their breaks, the cursor at the first line
    with text, and the greatest indentation met. An `indent` of 0 is not known
    yet. -/
def emptyLines (began : Mark) (indent : Nat) :
    Nat → Nat → List Char → Cursor → Except Fault (List Char × Nat × Cursor)
  | 0, widest, breaks, c => .ok (breaks, widest, c)
  | fuel + 1, widest, breaks, c =>
      let spaces := (c.rest.takeWhile (· == ' ')).length
      let step := if indent = 0 then spaces else min spaces (indent - c.mark.column)
      let c := c.skipN step
      let widest := max widest c.mark.column
      if (indent = 0 || c.mark.column < indent) && c.isAt '\t' then
        .error (.during .blockScalar began .tabInIndent c.mark)
      else
        match c.head? with
        | some x =>
            if isBreak x then
              let (b, c) := c.takeBreak
              emptyLines began indent fuel widest (breaks ++ b) c
            else .ok (breaks, widest, c)
        | none => .ok (breaks, widest, c)

/-- A block while it is read: the text so far, the break behind its last line,
    the breaks of the empty lines behind that, and whether its last line began
    with a blank. -/
structure BlockState where
  text : List Char
  lead : List Char
  trail : List Char
  leadBlank : Bool

/-- The lines of a block at a known indentation. -/
def blockLines (literal : Bool) (began : Mark) (indent : Nat) :
    Nat → BlockState → Cursor → Except Fault (BlockState × Cursor)
  | 0, s, c => .ok (s, c)
  | fuel + 1, s, c => do
      if c.mark.column ≠ indent || c.rest.isEmpty then .ok (s, c)
      else
        let blank := (c.head?.map isBlank).getD false
        let join :=
          if !literal && s.lead = ['\n'] && !s.leadBlank && !blank then
            if s.trail.isEmpty then [' '] else []
          else s.lead
        let (line, c) := c.takeWhile fun x => !isBreak x
        let (b, c) := c.takeBreak
        let (breaks, _, c) ← emptyLines began indent (c.rest.length + 1) 0 [] c
        blockLines literal began indent fuel
          ⟨s.text ++ join ++ s.trail ++ line, b, breaks, blank⟩ c

/-- A block behind its sign, inside a node indented to column `parent`, which
    is -1 at the top of a document. -/
def block (literal : Bool) (parent : Int) (c : Cursor) : Except Fault (String × Cursor) := do
  let began := c.mark
  let (chomp, announced, c) ← header began c.skip
  let c := c.skipWhile isBlank
  let c := if c.isAt '#' then c.skipLine else c
  if !atLineEnd c.rest then .error (.during .blockScalar began .noCommentOrBreak c.mark)
  else
    let c := c.skipBreak
    let indent := if announced = 0 then 0
      else if 0 ≤ parent then parent.toNat + announced else announced
    let (breaks, widest, c) ← emptyLines began indent (c.rest.length + 1) 0 [] c
    let indent := if indent = 0 then max (max widest (parent + 1).toNat) 1 else indent
    let (s, c) ← blockLines literal began indent (c.rest.length + 1) ⟨[], [], breaks, false⟩ c
    let tail := match chomp with
      | .strip => []
      | .clip => s.lead
      | .keep => s.lead ++ s.trail
    .ok (String.ofList (s.text ++ tail), c)

end Scalar

end Yaml

end DartModels
